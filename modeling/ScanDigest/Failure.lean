/-!
# Failures

What ends a whole operation, as opposed to a line or a record that is passed over and reported.
-/

set_option autoImplicit false

namespace ScanDigest

inductive Failure where
  | invalidInput (reason : String)
  | lookupFailed (url : String) (reason : String)
  | config (reason : String)
  | io (reason : String)
  | json (reason : String)
  deriving DecidableEq, Repr

namespace Failure

def message : Failure → String
  | invalidInput reason => "invalid input: " ++ reason
  | lookupFailed url reason => "vulnerability lookup failed for " ++ url ++ ": " ++ reason
  | config reason => "config error: " ++ reason
  | io reason => "io error: " ++ reason
  | json reason => "json error: " ++ reason

/-- The failure that this one only passes on. -/
def source? : Failure → Option String
  | io reason => some reason
  | json reason => some reason
  | _ => none

end Failure

end ScanDigest
