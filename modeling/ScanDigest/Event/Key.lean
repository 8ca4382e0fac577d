import ScanDigest.Sha256
import Std.Data.ExtTreeMap

/-!
# Event keys

The identity of an event: the kind of issue and the hashes of the URLs it is about. Hashes have a
fixed length and no separator in them, so a key can be taken apart again.
-/

set_option autoImplicit false

namespace ScanDigest

structure EventKey where
  text : String
  deriving DecidableEq, Repr

namespace EventKey

/-- Keys are ordered by their texts. -/
instance : Ord EventKey := ⟨compareOn text⟩

theorem compare_eq (k l : EventKey) : compare k l = compare k.text l.text := rfl

instance : Std.TransOrd EventKey := inferInstanceAs (Std.TransCmp (compareOn text))

instance : Std.LawfulEqOrd EventKey where
  eq_of_compare {k l} h := by
    rw [compare_eq, Std.LawfulEqCmp.compare_eq_iff_eq] at h
    cases k
    cases l
    exact congrArg mk h

/-- A name with the hash of a URL, after a separator. -/
def hashed (name url : String) : String := "|" ++ name ++ "=" ++ Sha256.ofString url

/-- The hashes that say where an event belongs. -/
def location (projectVersionUrl componentVersionUrl : String) : String :=
  hashed "projectVersion" projectVersionUrl ++ hashed "componentVersion" componentVersionUrl

/-- The key of a policy rule on a component version. -/
def ofRule (projectVersionUrl componentVersionUrl ruleUrl : String) : EventKey :=
  ⟨"issueType=POLICY" ++ location projectVersionUrl componentVersionUrl ++
    hashed "policyRule" ruleUrl⟩

/-- The key of the vulnerabilities of a component version. -/
def ofVulnerabilities (projectVersionUrl componentVersionUrl : String) : EventKey :=
  ⟨"issueType=VULNERABILITY" ++ location projectVersionUrl componentVersionUrl⟩

end EventKey

end ScanDigest
