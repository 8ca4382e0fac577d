import ScanDigest.Digest.Outcome
import ScanDigest.Policy
import ScanDigest.Text.Quoted

/-!
# The log

What the program says of its work while it does it. Entries are data; what is shown of them, and in
what form, is up to a `Subscriber`, which has the filter and the clock and is set up outside.
-/

set_option autoImplicit false

namespace ScanDigest

/-- How much an entry matters. -/
inductive Level where
  | error
  | warn
  | info
  | debug
  | trace
  deriving DecidableEq, Repr

/-- The place of a level, the one that matters most first. -/
def Level.rank : Level → Nat
  | error => 1
  | warn => 2
  | info => 3
  | debug => 4
  | trace => 5

inductive LogEntry where
  | undecodable (e : LineError)
  | unknownType (index : Nat)
  | malformed (e : RecordError)
  | violated (key : EventKey) (rule : String)
  | cancelled (key : EventKey) (action : PolicyAction)
  | settled (key : EventKey) (state : PolicyState) (action : PolicyAction)
  | unchanged (key : EventKey)
  | notLookedUp (f : LookupFailure)
  | batchReduced (records events errors failures : Nat)
  | fileReduced (path : String) (events lineErrors : Nat)
  deriving DecidableEq, Repr

/-- The name of an action that takes back a violation. -/
def PolicyAction.cancelName : PolicyAction → String
  | violate => "Violation"
  | override => "Override"
  | clear => "Clear"

/-- The name of a state. -/
def PolicyState.name : PolicyState → String
  | violated => "ViolationActive"
  | overridden => "OverrideActive"
  | cleared => "ClearActive"
  | cancelled => "Cancelled"

namespace LogEntry

def level : LogEntry → Level
  | undecodable _ | malformed _ | notLookedUp _ => .warn
  | batchReduced .. | fileReduced .. => .info
  | unknownType _ | violated .. | cancelled .. | settled .. | unchanged _ => .debug

/-- The part of the program that speaks. -/
def target : LogEntry → String
  | undecodable _ => "digest_core::notification::parser"
  | unknownType _ | malformed _ | batchReduced .. => "digest_core::digest::driver"
  | violated .. | cancelled .. | settled .. => "digest_core::digest::policy"
  | unchanged _ | notLookedUp _ => "digest_core::digest::vulnerability"
  | fileReduced .. => "digest_runner"

def message : LogEntry → String
  | undecodable _ => "skipping undecodable record"
  | unknownType _ => "ignoring record of unknown kind"
  | malformed _ => "skipping malformed record"
  | violated .. => "policy violation active"
  | cancelled .. => "violation cancelled within batch"
  | settled .. => "cancellation ignored, key already settled"
  | unchanged _ => "vulnerability activity nets to zero"
  | notLookedUp _ => "vulnerability lookup failed"
  | batchReduced .. => "digest batch reduced"
  | fileReduced path .. => "reduced " ++ path

/-- The values that stand with the message, by their names. -/
def fields : LogEntry → List (String × String)
  | undecodable e => [("line", toString e.line), ("error", e.reason)]
  | unknownType index => [("index", toString index)]
  | malformed e =>
    [("index", toString e.index), ("kind", Text.quote e.kind), ("reason", e.reason)]
  | violated key rule => [("key", key.text), ("rule", rule)]
  | cancelled key action => [("key", key.text), ("cancel", action.cancelName)]
  | settled key state action =>
    [("key", key.text), ("state", state.name), ("cancel", action.cancelName)]
  | unchanged key => [("key", key.text)]
  | notLookedUp f => [("key", f.key.text), ("error", f.message)]
  | batchReduced records events errors failures =>
    [("records", toString records), ("events", toString events), ("malformed", toString errors),
      ("lookup_failures", toString failures)]
  | fileReduced _ events lineErrors =>
    [("events", toString events), ("line_errors", toString lineErrors)]

/-- The message with its values. -/
def text (e : LogEntry) : String :=
  String.join (e.message :: e.fields.map fun f => " " ++ f.1 ++ "=" ++ f.2)

/-- Whether the entry matters at least as much as a level. -/
def reaches (level : Level) (e : LogEntry) : Bool := e.level.rank ≤ level.rank

end LogEntry

/-- What shows the entries of a log. -/
structure Subscriber where
  /-- What is said before all entries, such as that the filter was not understood. -/
  opening : String
  shows : LogEntry → Bool
  /-- The line of an entry that is the `n`-th one shown. The time on it is that of the line. -/
  line : Nat → LogEntry → String

namespace Subscriber

/-- Nothing is shown. -/
def off : Subscriber := ⟨"", fun _ => false, fun _ _ => ""⟩

/-- What is written of a log. -/
def write (s : Subscriber) (log : List LogEntry) : String :=
  s.opening ++ String.join ((log.filter s.shows).mapIdx s.line)

end Subscriber

end ScanDigest
