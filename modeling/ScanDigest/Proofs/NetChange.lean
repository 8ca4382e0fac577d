import Mathlib.Data.List.Basic
import Mathlib.Data.Set.Insert
import ScanDigest.Vulnerability.Aggregate

/-!
# The net change of a history

A delta is a list of `Change`s: its added ids, then the updated, then the deleted ones. What one
change does to the three sets of an aggregate is `Aggregate.mem_change`; all else about aggregates
follows from it.

`Evolves S h T`: the history `h` is one of a set of ids that is `S` before and `T` after it. An
aggregate never sees `S`, yet what it holds is the difference of the two ends (`Tracks`): a change
keeps that (`Tracks.step`), so a history does (`Tracks.run`), and the net change of deltas is the
difference of the ends of their history (`net_of_evolves`).
-/

set_option autoImplicit false

namespace ScanDigest

open Std

inductive ChangeKind where
  | add
  | update
  | delete
  deriving DecidableEq, Repr

/-- A change of one id. -/
structure Change where
  kind : ChangeKind
  id : VulnerabilityId
  deriving DecidableEq, Repr

/-- The changes of a delta, in the order in which they count. -/
def VulnerabilityDelta.changes (d : VulnerabilityDelta) : List Change :=
  d.added.map (Change.mk .add) ++ d.updated.map (Change.mk .update) ++
    d.deleted.map (Change.mk .delete)

/-- The changes of some deltas. -/
def history (ds : List VulnerabilityDelta) : List Change := ds.flatMap VulnerabilityDelta.changes

namespace Aggregate

/-- Takes in one change. -/
def change (a : Aggregate) (c : Change) : Aggregate :=
  match c.kind with
  | .add => a.add c.id
  | .update => a.update c.id
  | .delete => a.delete c.id

/-- Takes in a delta. -/
def applyDelta (a : Aggregate) (d : VulnerabilityDelta) : Aggregate :=
  a.apply d.added d.updated d.deleted

/-- The aggregate of some deltas. -/
def ofDeltas (ds : List VulnerabilityDelta) : Aggregate := ds.foldl applyDelta ∅

theorem applyDelta_eq (a : Aggregate) (d : VulnerabilityDelta) :
    a.applyDelta d = d.changes.foldl change a := by
  simp only [VulnerabilityDelta.changes, List.foldl_append, List.foldl_map]
  rfl

theorem ofDeltas_eq (ds : List VulnerabilityDelta) : ofDeltas ds = (history ds).foldl change ∅ := by
  rw [ofDeltas, history, List.foldl_flatMap]
  exact List.foldl_ext _ _ _ fun a d _ => a.applyDelta_eq d

/-! ## What a change does -/

variable (a : Aggregate) (v : VulnerabilityId)

theorem add_eq : a.add v =
    if v ∈ a.deleted then { a with deleted := a.deleted.erase v }
    else { a with added := a.added.insert v } := rfl

theorem update_eq : a.update v =
    if v ∈ a.added ∨ v ∈ a.deleted then a else { a with updated := a.updated.insert v } := by
  simp only [update, Bool.or_eq_true, ExtTreeSet.mem_iff_contains]

theorem delete_eq : a.delete v =
    if v ∈ a.added then { a with updated := a.updated.erase v, added := a.added.erase v }
    else { a with updated := a.updated.erase v, deleted := a.deleted.insert v } := rfl

/-- An id is in a set after a change if the change puts it there, or if it was there and the change
does not take it away. -/
theorem mem_change (c : Change) :
    (v ∈ (a.change c).added ↔
      (c = ⟨.add, v⟩ ∧ v ∉ a.deleted) ∨ (v ∈ a.added ∧ c ≠ ⟨.delete, v⟩)) ∧
    (v ∈ (a.change c).updated ↔
      (c = ⟨.update, v⟩ ∧ v ∉ a.added ∧ v ∉ a.deleted) ∨ (v ∈ a.updated ∧ c ≠ ⟨.delete, v⟩)) ∧
    (v ∈ (a.change c).deleted ↔
      (c = ⟨.delete, v⟩ ∧ v ∉ a.added) ∨ (v ∈ a.deleted ∧ c ≠ ⟨.add, v⟩)) := by
  obtain ⟨kind, w⟩ := c
  cases kind with
  | add =>
    rw [change, add_eq]
    refine ⟨?_, ?_, ?_⟩ <;> grind
  | update =>
    rw [change, update_eq]
    refine ⟨?_, ?_, ?_⟩ <;> grind
  | delete =>
    rw [change, delete_eq]
    refine ⟨?_, ?_, ?_⟩ <;> grind

theorem contains_eq_false {s : ExtTreeSet VulnerabilityId} {v : VulnerabilityId} :
    s.contains v = false ↔ v ∉ s := by
  rw [ExtTreeSet.mem_iff_contains, Bool.not_eq_true]

theorem mem_net_added : v ∈ a.net.added ↔ v ∈ a.added ∧ v ∉ a.deleted := by
  simp [net, contains_eq_false]

theorem mem_net_updated :
    v ∈ a.net.updated ↔ v ∈ a.updated ∧ v ∉ a.added ∧ v ∉ a.deleted := by
  simp [net, contains_eq_false, and_left_comm]

theorem mem_net_deleted : v ∈ a.net.deleted ↔ v ∈ a.deleted := ExtTreeSet.mem_toList

/-- The ids of a net change are listed by their sources, then by themselves, each once. -/
theorem ordered_net :
    a.net.added.Pairwise (compare · · = .lt) ∧ a.net.updated.Pairwise (compare · · = .lt) ∧
      a.net.deleted.Pairwise (compare · · = .lt) :=
  ⟨ExtTreeSet.ordered_toList, ExtTreeSet.ordered_toList, ExtTreeSet.ordered_toList⟩

end Aggregate

theorem NetChange.isEmpty_iff (n : NetChange) : n.isEmpty ↔ n = ⟨[], [], []⟩ := by
  obtain ⟨added, updated, deleted⟩ := n
  simp [isEmpty, and_assoc]

/-! ## Histories -/

/-- A set that is `S` becomes `T` by changes, each of which makes sense where it stands: what is
added was not in the set, and what is updated or deleted was. -/
inductive Evolves : Set VulnerabilityId → List Change → Set VulnerabilityId → Prop
  | done (S : Set VulnerabilityId) : Evolves S [] S
  | add {S T : Set VulnerabilityId} {v : VulnerabilityId} {cs : List Change} :
      v ∉ S → Evolves (insert v S) cs T → Evolves S (⟨.add, v⟩ :: cs) T
  | update {S T : Set VulnerabilityId} {v : VulnerabilityId} {cs : List Change} :
      v ∈ S → Evolves S cs T → Evolves S (⟨.update, v⟩ :: cs) T
  | delete {S T : Set VulnerabilityId} {v : VulnerabilityId} {cs : List Change} :
      v ∈ S → Evolves (S \ {v}) cs T → Evolves S (⟨.delete, v⟩ :: cs) T

/-- An id is updated in a history, and not added after that. -/
def UpdatedLast (h : List Change) (v : VulnerabilityId) : Prop :=
  ∃ before after, h = before ++ ⟨.update, v⟩ :: after ∧ ⟨.add, v⟩ ∉ after

theorem not_updatedLast_nil (v : VulnerabilityId) : ¬UpdatedLast [] v := by
  rintro ⟨before, after, h, -⟩
  exact absurd h.symm (by simp)

/-- Only the last change of its id can end or begin that an id is updated last. -/
theorem updatedLast_snoc (h : List Change) (c : Change) (v : VulnerabilityId) :
    UpdatedLast (h ++ [c]) v ↔ c = ⟨.update, v⟩ ∨ (UpdatedLast h v ∧ c ≠ ⟨.add, v⟩) := by
  constructor
  · rintro ⟨before, after, he, hn⟩
    rcases List.eq_nil_or_concat after with rfl | ⟨after, d, rfl⟩
    · exact .inl (List.append_inj_right' he rfl |> List.singleton_inj.1)
    · rw [List.concat_eq_append] at he hn
      rw [← List.cons_append, ← List.append_assoc] at he
      obtain ⟨rfl, hd⟩ := List.append_inj' he rfl
      obtain rfl := List.singleton_inj.1 hd
      rw [List.mem_append, List.mem_singleton, not_or] at hn
      exact .inr ⟨⟨before, after, rfl, hn.1⟩, fun hc => hn.2 hc.symm⟩
  · rintro (rfl | ⟨⟨before, after, rfl, hn⟩, hc⟩)
    · exact ⟨h, [], rfl, List.not_mem_nil⟩
    · refine ⟨before, after ++ [c], by simp, fun hm => ?_⟩
      rcases List.mem_append.1 hm with hm | hm
      · exact hn hm
      · exact hc (List.mem_singleton.1 hm).symm

/-- The aggregate of a history that made `T` out of `S` holds what the two differ in, and what of
both was updated last. -/
structure Tracks (S T : Set VulnerabilityId) (h : List Change) (a : Aggregate) : Prop where
  added : ∀ v, v ∈ a.added ↔ v ∈ T ∧ v ∉ S
  deleted : ∀ v, v ∈ a.deleted ↔ v ∈ S ∧ v ∉ T
  updated : ∀ v, v ∈ a.updated ↔ v ∈ S ∧ v ∈ T ∧ UpdatedLast h v

namespace Tracks

variable {S T U : Set VulnerabilityId} {h cs : List Change} {a : Aggregate}

theorem empty (S : Set VulnerabilityId) : Tracks S S [] ∅ where
  added _ := iff_of_false ExtTreeSet.not_mem_empty fun h => h.2 h.1
  deleted _ := iff_of_false ExtTreeSet.not_mem_empty fun h => h.2 h.1
  updated v := iff_of_false ExtTreeSet.not_mem_empty fun h => not_updatedLast_nil v h.2.2

/-- A change that makes sense in `T` keeps track. -/
theorem step {c : Change} (ht : Tracks S T h a) (hc : c.id ∈ T ↔ c.kind ≠ .add)
    (hU : ∀ v, v ∈ U ↔ c = ⟨.add, v⟩ ∨ (v ∈ T ∧ c ≠ ⟨.delete, v⟩)) :
    Tracks S U (h ++ [c]) (a.change c) where
  added v := by
    rw [(a.mem_change v c).1, ht.added, ht.deleted, hU]
    grind
  updated v := by
    rw [(a.mem_change v c).2.1, ht.updated, ht.added, ht.deleted, updatedLast_snoc, hU]
    grind
  deleted v := by
    rw [(a.mem_change v c).2.2, ht.added, ht.deleted, hU]
    grind

/-- A history keeps track. -/
theorem run (ht : Tracks S T h a) (he : Evolves T cs U) :
    Tracks S U (h ++ cs) (cs.foldl Aggregate.change a) := by
  induction he generalizing h a with
  | done T => rwa [List.append_nil]
  | add hv _ ih =>
    rw [List.append_cons, List.foldl_cons]
    exact ih (ht.step (by simp [hv]) fun w => by simp [eq_comm])
  | update hv _ ih =>
    rw [List.append_cons, List.foldl_cons]
    exact ih (ht.step (by simp [hv]) fun w => by simp)
  | delete hv _ ih =>
    rw [List.append_cons, List.foldl_cons]
    exact ih (ht.step (by simp [hv]) fun w => by simp [eq_comm])

end Tracks

/-- The net change of a history is the difference of its two ends. -/
theorem net_of_evolves {S T : Set VulnerabilityId} {ds : List VulnerabilityDelta}
    (he : Evolves S (history ds) T) :
    let net := (Aggregate.ofDeltas ds).net
    {v | v ∈ net.added} = T \ S ∧
    {v | v ∈ net.deleted} = S \ T ∧
    {v | v ∈ net.updated} = {v ∈ S ∩ T | UpdatedLast (history ds) v} := by
  have ht : Tracks S T (history ds) (Aggregate.ofDeltas ds) := by
    rw [Aggregate.ofDeltas_eq]
    exact (Tracks.empty S).run he
  refine ⟨?_, ?_, ?_⟩ <;> ext v
  · show v ∈ (Aggregate.ofDeltas ds).net.added ↔ v ∈ T ∧ v ∉ S
    rw [Aggregate.mem_net_added, ht.added, ht.deleted]
    grind
  · show v ∈ (Aggregate.ofDeltas ds).net.deleted ↔ v ∈ S ∧ v ∉ T
    rw [Aggregate.mem_net_deleted, ht.deleted]
  · show v ∈ (Aggregate.ofDeltas ds).net.updated ↔ (v ∈ S ∧ v ∈ T) ∧ UpdatedLast (history ds) v
    rw [Aggregate.mem_net_updated, ht.updated, ht.added, ht.deleted]
    grind

/-- An id that was there is updated, deleted and added again, while another one comes and goes. -/
theorem net_of_evolves_readded :
    let c : Component := ⟨"p", "1", "c", "2", "/pv/1", "/cv/1"⟩
    let x : VulnerabilityId := ⟨"NVD", "A"⟩
    let y : VulnerabilityId := ⟨"NVD", "B"⟩
    let ds : List VulnerabilityDelta := [⟨"", c, [y], [x, y], [x]⟩, ⟨"", c, [x], [], [y]⟩]
    let S : Set VulnerabilityId := {x}
    let net := (Aggregate.ofDeltas ds).net
    Evolves S (history ds) S ∧
    {v | v ∈ net.added} = S \ S ∧
    {v | v ∈ net.deleted} = S \ S ∧
    {v | v ∈ net.updated} = {v ∈ S ∩ S | UpdatedLast (history ds) v} := by
  intro c x y ds S net
  have hxy : x ≠ y := by decide
  have hS : insert x (insert y S \ {x}) \ {y} = S := by grind
  have he : Evolves S (history ds) (insert x (insert y S \ {x}) \ {y}) := by
    refine .add ?_ <| .update ?_ <| .update ?_ <| .delete ?_ <| .add ?_ <| .delete ?_ <| .done _
    all_goals grind
  rw [hS] at he
  exact ⟨he, net_of_evolves he⟩

end ScanDigest
