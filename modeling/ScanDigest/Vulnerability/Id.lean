import Std.Data.ExtTreeSet

/-!
# Vulnerability ids

A vulnerability is named by a source and by its id there, and ordered by the source, then the id.
-/

set_option autoImplicit false

namespace ScanDigest

structure VulnerabilityId where
  source : String
  id : String
  deriving DecidableEq, Repr

namespace VulnerabilityId

/-- Source and id in one text. -/
def qualified (v : VulnerabilityId) : String := v.source ++ ":" ++ v.id

instance : Ord VulnerabilityId := ⟨compareLex (compareOn source) (compareOn id)⟩

theorem compare_eq (v w : VulnerabilityId) :
    compare v w = (compare v.source w.source).then (compare v.id w.id) := rfl

instance : Std.TransOrd VulnerabilityId :=
  inferInstanceAs (Std.TransCmp (compareLex (compareOn source) (compareOn id)))

instance : Std.LawfulEqOrd VulnerabilityId where
  eq_of_compare {v w} h := by
    rw [compare_eq, Ordering.then_eq_eq] at h
    obtain ⟨s, i⟩ := v
    obtain ⟨s', i'⟩ := w
    simp only [Std.LawfulEqCmp.compare_eq_iff_eq] at h
    rw [h.1, h.2]

end VulnerabilityId

end ScanDigest
