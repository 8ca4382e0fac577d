import ScanDigest.Record.Basic

/-!
# Net changes of vulnerabilities

An `Aggregate` folds the deltas of one component version into three sets; its `net` change is what
is left of them. Adding undoes deleting and deleting undoes adding, an update of what was added does
not count, and what is deleted is no update.
-/

set_option autoImplicit false

namespace ScanDigest

open Std

/-- The change that a batch comes to: ids in ascending order. -/
structure NetChange where
  added : List VulnerabilityId
  updated : List VulnerabilityId
  deleted : List VulnerabilityId
  deriving DecidableEq, Repr

def NetChange.isEmpty (n : NetChange) : Bool :=
  n.added.isEmpty && n.updated.isEmpty && n.deleted.isEmpty

structure Aggregate where
  added : ExtTreeSet VulnerabilityId
  updated : ExtTreeSet VulnerabilityId
  deleted : ExtTreeSet VulnerabilityId

namespace Aggregate

def empty : Aggregate := ⟨∅, ∅, ∅⟩

instance : EmptyCollection Aggregate := ⟨empty⟩

/-- An id is added, or no longer deleted. -/
def add (a : Aggregate) (v : VulnerabilityId) : Aggregate :=
  if a.deleted.contains v then { a with deleted := a.deleted.erase v }
  else { a with added := a.added.insert v }

/-- An id is updated, unless it is new or gone. -/
def update (a : Aggregate) (v : VulnerabilityId) : Aggregate :=
  if a.added.contains v || a.deleted.contains v then a
  else { a with updated := a.updated.insert v }

/-- An id is deleted, or no longer added; either way it is no longer updated. -/
def delete (a : Aggregate) (v : VulnerabilityId) : Aggregate :=
  if a.added.contains v then { a with updated := a.updated.erase v, added := a.added.erase v }
  else { a with updated := a.updated.erase v, deleted := a.deleted.insert v }

/-- Takes in a delta: its added ids, then the updated, then the deleted ones. -/
def apply (a : Aggregate) (added updated deleted : List VulnerabilityId) : Aggregate :=
  deleted.foldl delete (updated.foldl update (added.foldl add a))

/-- What is left of all changes. -/
def net (a : Aggregate) : NetChange where
  added := (a.added.filter fun v => !a.deleted.contains v).toList
  updated := (a.updated.filter fun v => !a.added.contains v && !a.deleted.contains v).toList
  deleted := a.deleted.toList

end Aggregate

end ScanDigest
