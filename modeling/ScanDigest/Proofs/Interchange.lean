import Mathlib.Data.List.Basic
import ScanDigest.Proofs.IdStates

/-!
# Deltas that stand for one another

The lists of a delta are read one id after the other, so an id that is repeated may count twice: the
second time a deleted id is added, it is new, and the second time an added id is deleted, it is gone.
Two deltas with the same ids stand for one another exactly where none of this shows
(`interchangeable_iff`), so always if neither adds or deletes an id twice
(`SameIds.interchangeable_of_nodup`). Updates may be repeated at will.
-/

set_option autoImplicit false

namespace ScanDigest

namespace IdState

variable {s : IdState} {kind : ChangeKind}

theorem run_replicate_of_fixed (h : s.take kind = s) (n : Nat) :
    s.run (List.replicate n kind) = s := by
  induction n with
  | zero => rfl
  | succ n ih =>
    show (s.take kind).run (List.replicate n kind) = s
    rwa [h]

/-- Changes of one kind come to rest after the second one. -/
theorem run_replicate {last : IdState} (h : (s.take kind).take kind = last)
    (hlast : last.take kind = last) (n : Nat) :
    s.run (List.replicate n kind) = if n = 0 then s else if n = 1 then s.take kind else last := by
  rcases n with _ | _ | n
  · rfl
  · rfl
  · show ((s.take kind).take kind).run (List.replicate n kind) = _
    rw [h, run_replicate_of_fixed hlast]
    simp

theorem run_replicate_add (s : IdState) (n : Nat) : s.run (List.replicate n .add) =
    if n = 0 then s else if n = 1 then s.take .add else .added :=
  run_replicate (by cases s <;> rfl) rfl n

theorem run_replicate_update (s : IdState) (n : Nat) : s.run (List.replicate n .update) =
    if n = 0 then s else s.take .update := by
  have h : (s.take .update).take .update = s.take .update := by cases s <;> rfl
  rw [run_replicate h h, ite_self]

theorem run_replicate_delete (s : IdState) (n : Nat) : s.run (List.replicate n .delete) =
    if n = 0 then s else if n = 1 then s.take .delete else .deleted :=
  run_replicate (by cases s <;> rfl) rfl n

/-- What a delta makes of a state, by how often it names the id. -/
def delta (s : IdState) (i j k : Nat) : IdState :=
  s.run (List.replicate i .add ++ List.replicate j .update ++ List.replicate k .delete)

/-- Deltas with the same ids do the same to every state unless one of them names the id once and the
other one more than once: under deletion, or under addition with at most one deletion after it. -/
theorem delta_eq_iff {i j k i' j' k' : Nat} (hi : i = 0 ↔ i' = 0) (hj : j = 0 ↔ j' = 0)
    (hk : k = 0 ↔ k' = 0) :
    (∀ s : IdState, s.delta i j k = s.delta i' j' k') ↔
      (k = 1 ↔ k' = 1) ∧ (k ≤ 1 → (i = 1 ↔ i' = 1)) := by
  simp only [delta, run_append, run_replicate_add, run_replicate_update, run_replicate_delete]
  constructor
  · intro h
    -- an added id shows repeated deletions, a deleted one repeated additions
    have hadded := h .added
    have hunchanged := h .unchanged
    have hdeleted := h .deleted
    grind [take]
  · rintro ⟨hone, hadd⟩ s
    cases s <;> grind [take]

end IdState

theorem run_changes (s : IdState) (d : VulnerabilityDelta) (v : VulnerabilityId) :
    s.run (wordOf v d.changes) =
      s.delta (d.added.count v) (d.updated.count v) (d.deleted.count v) := by
  rw [wordOf_changes, IdState.delta]

theorem stateAfter_singleton (d : VulnerabilityDelta) (v : VulnerabilityId) : stateAfter [d] v =
    IdState.unchanged.delta (d.added.count v) (d.updated.count v) (d.deleted.count v) := by
  rw [stateAfter, history, List.flatMap_singleton, run_changes]

/-- Each state is that of an id after at most one delta. -/
theorem exists_stateAfter (v : VulnerabilityId) (s : IdState) : ∃ ds, stateAfter ds v = s := by
  let c : Component := ⟨"", "", "", "", "", ""⟩
  cases s with
  | unchanged => exact ⟨[], rfl⟩
  | added =>
    exact ⟨[⟨"", c, [v], [], []⟩], by rw [stateAfter_singleton, List.count_singleton_self]; rfl⟩
  | updated =>
    exact ⟨[⟨"", c, [], [v], []⟩], by rw [stateAfter_singleton, List.count_singleton_self]; rfl⟩
  | deleted =>
    exact ⟨[⟨"", c, [], [], [v]⟩], by rw [stateAfter_singleton, List.count_singleton_self]; rfl⟩

namespace VulnerabilityDelta

/-- The lists have the same ids, in any order and any number. -/
structure SameIds (d e : VulnerabilityDelta) : Prop where
  added : ∀ v, v ∈ d.added ↔ v ∈ e.added
  updated : ∀ v, v ∈ d.updated ↔ v ∈ e.updated
  deleted : ∀ v, v ∈ d.deleted ↔ v ∈ e.deleted

/-- Whatever comes before and after, it makes no difference which of two deltas is taken in. -/
def Interchangeable (d e : VulnerabilityDelta) : Prop :=
  ∀ before after, (Aggregate.ofDeltas (before ++ d :: after)).net =
    (Aggregate.ofDeltas (before ++ e :: after)).net

/-- Deltas stand for one another if they do the same to every state of every id. -/
theorem interchangeable_iff_run {d e : VulnerabilityDelta} : d.Interchangeable e ↔
    ∀ v (s : IdState), s.run (wordOf v d.changes) = s.run (wordOf v e.changes) := by
  have hstate : ∀ before after (x : VulnerabilityDelta) v, stateAfter (before ++ x :: after) v =
      ((stateAfter before v).run (wordOf v x.changes)).run (wordOf v (history after)) := by
    intro before after x v
    rw [stateAfter_append, history_cons, wordOf_append, IdState.run_append]
  constructor
  · intro h v s
    obtain ⟨before, rfl⟩ := exists_stateAfter v s
    have hv := net_ofDeltas_eq_iff.mp (h before []) v
    rwa [hstate, hstate] at hv
  · intro h before after
    rw [net_ofDeltas_eq_iff]
    intro v
    rw [hstate, hstate, h]

theorem count_eq_zero_iff {ids ids' : List VulnerabilityId} (h : ∀ v, v ∈ ids ↔ v ∈ ids')
    (v : VulnerabilityId) : ids.count v = 0 ↔ ids'.count v = 0 := by
  rw [List.count_eq_zero, List.count_eq_zero, h]

theorem SameIds.run_eq_iff {d e : VulnerabilityDelta} (h : d.SameIds e) (v : VulnerabilityId) :
    (∀ s : IdState, s.run (wordOf v d.changes) = s.run (wordOf v e.changes)) ↔
      (d.deleted.count v = 1 ↔ e.deleted.count v = 1) ∧
      (d.deleted.count v ≤ 1 → (d.added.count v = 1 ↔ e.added.count v = 1)) := by
  simp only [run_changes]
  exact IdState.delta_eq_iff (count_eq_zero_iff h.added v) (count_eq_zero_iff h.updated v)
    (count_eq_zero_iff h.deleted v)

/-- Deltas that add no id twice and delete no id twice are sets of ids. -/
theorem SameIds.interchangeable_of_nodup {d e : VulnerabilityDelta} (h : d.SameIds e)
    (hd : d.added.Nodup ∧ d.deleted.Nodup) (he : e.added.Nodup ∧ e.deleted.Nodup) :
    d.Interchangeable e := by
  refine interchangeable_iff_run.mpr fun v => (h.run_eq_iff v).mpr ⟨?_, fun _ => ?_⟩
  · rw [hd.2.count, he.2.count]
    simp only [h.deleted]
  · rw [hd.1.count, he.1.count]
    simp only [h.added]

/-- **Deltas with the same ids stand for one another** exactly if each id that the one deletes once
is deleted once by the other, and likewise for each id that is added, unless it is then deleted more
than once. -/
theorem interchangeable_iff {d e : VulnerabilityDelta} (h : d.SameIds e) :
    d.Interchangeable e ↔ ∀ v,
      (d.deleted.count v = 1 ↔ e.deleted.count v = 1) ∧
      (d.deleted.count v ≤ 1 → (d.added.count v = 1 ↔ e.added.count v = 1)) := by
  rw [interchangeable_iff_run]
  exact forall_congr' h.run_eq_iff

/-- An id may be added three times for two, and updated as often as one likes. -/
theorem interchangeable_iff_twice :
    let c : Component := ⟨"p", "1", "c", "2", "/pv/1", "/cv/1"⟩
    let x : VulnerabilityId := ⟨"NVD", "A"⟩
    let y : VulnerabilityId := ⟨"NVD", "B"⟩
    let d : VulnerabilityDelta := ⟨"", c, [x, x], [y, x, y], [y]⟩
    let e : VulnerabilityDelta := ⟨"", c, [x, x, x], [x, y], [y]⟩
    d.SameIds e ∧ d.Interchangeable e := by
  intro c x y d e
  have h : d.SameIds e := ⟨by simp [d, e], by simp [d, e, or_comm], by simp [d, e]⟩
  refine ⟨h, (interchangeable_iff h).mpr fun v => ⟨Iff.rfl, fun _ => ?_⟩⟩
  simp only [d, e, List.count_cons, List.count_nil]
  split <;> simp

/-- A deleted id that is added twice is new, though the delta has the same ids as one that only takes
the deletion back. -/
theorem not_interchangeable_added_twice :
    let c : Component := ⟨"p", "1", "c", "2", "/pv/1", "/cv/1"⟩
    let x : VulnerabilityId := ⟨"NVD", "A"⟩
    let gone : VulnerabilityDelta := ⟨"", c, [], [], [x]⟩
    let once : VulnerabilityDelta := ⟨"", c, [x], [], []⟩
    let twice : VulnerabilityDelta := ⟨"", c, [x, x], [], []⟩
    once.SameIds twice ∧ (Aggregate.ofDeltas [gone, once]).net = ⟨[], [], []⟩ ∧
      (Aggregate.ofDeltas [gone, twice]).net = ⟨[x], [], []⟩ := by
  intro c x gone once twice
  refine ⟨⟨by simp [once, twice], by simp [once, twice], by simp [once, twice]⟩, ?_, ?_⟩
  · decide +kernel
  · decide +kernel

end VulnerabilityDelta

end ScanDigest
