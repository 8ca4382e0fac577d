import ScanDigest.Proofs.Inquiries

/-!
# The sets of an aggregate stay apart

No id is held as deleted and as something else at once (`Aggregate.Apart`): a change keeps that
(`Apart.change`), so deltas do, however their lists overlap or repeat (`apart_ofDeltas`). An id may be
held as added and as updated; the net change then lists it as added. So a net change is the three sets
but for that (`Apart.net_eq`), each list in order and no id in two of them (`Apart.tidy_net`).

A net change is empty only where all three sets are, so the events to come are counted by the keys
that are looked up, one time each (`aggregates_apart`).
-/

set_option autoImplicit false

namespace ScanDigest

open Std

/-! ## Ids in order -/

/-- By the source, then by the id there. -/
def VulnerabilityId.Before (v w : VulnerabilityId) : Prop :=
  v.source < w.source ∨ v.source = w.source ∧ v.id < w.id

theorem VulnerabilityId.compare_eq_lt_iff {v w : VulnerabilityId} :
    compare v w = .lt ↔ v.Before w := by
  rw [compare_eq, Ordering.then_eq_lt, ScanDigest.compare_eq_lt_iff, ScanDigest.compare_eq_lt_iff,
    LawfulEqCmp.compare_eq_iff_eq, Before]

/-- Each list is strictly ascending, and no id is in two of them. -/
structure NetChange.Tidy (n : NetChange) : Prop where
  added : n.added.Pairwise VulnerabilityId.Before
  updated : n.updated.Pairwise VulnerabilityId.Before
  deleted : n.deleted.Pairwise VulnerabilityId.Before
  added_updated : n.added.Disjoint n.updated
  added_deleted : n.added.Disjoint n.deleted
  updated_deleted : n.updated.Disjoint n.deleted

/-! ## What is deleted is nothing else -/

namespace Aggregate

/-- No id is held as deleted and as something else. -/
structure Apart (a : Aggregate) : Prop where
  added : ∀ v ∈ a.added, v ∉ a.deleted
  updated : ∀ v ∈ a.updated, v ∉ a.deleted

namespace Apart

variable {a : Aggregate}

theorem empty : Apart ∅ where
  added _ h := absurd h ExtTreeSet.not_mem_empty
  updated _ h := absurd h ExtTreeSet.not_mem_empty

/-- One change keeps the sets apart. -/
theorem change (h : a.Apart) (c : Change) : (a.change c).Apart where
  added v := by
    have := h.added v
    rw [(a.mem_change v c).1, (a.mem_change v c).2.2]
    grind
  updated v := by
    have := h.updated v
    rw [(a.mem_change v c).2.1, (a.mem_change v c).2.2]
    grind

/-- Any changes do. -/
theorem run (h : a.Apart) (cs : List Change) : (cs.foldl Aggregate.change a).Apart := by
  induction cs generalizing a with
  | nil => exact h
  | cons c cs ih => exact ih (h.change c)

/-- In a net change, what is deleted is taken from the other sets in vain. -/
theorem net_eq (h : a.Apart) :
    a.net = ⟨a.added.toList, (a.updated \ a.added).toList, a.deleted.toList⟩ := by
  have hadded : a.added.filter (fun v => !a.deleted.contains v) = a.added := by
    refine ExtTreeSet.ext_mem fun v => ?_
    simpa [contains_eq_false] using h.added v
  have hupdated : a.updated.filter (fun v => !a.added.contains v && !a.deleted.contains v) =
      a.updated \ a.added := by
    refine ExtTreeSet.ext_mem fun v => ?_
    simp only [ExtTreeSet.mem_filter, ExtTreeSet.get_eq, Bool.and_eq_true, Bool.not_eq_true',
      contains_eq_false, exists_prop, ExtTreeSet.mem_diff_iff]
    exact and_congr_right fun hv => and_iff_left (h.updated v hv)
  rw [net, hadded, hupdated]

theorem tidy_net (h : a.Apart) : a.net.Tidy := by
  obtain ⟨hadded, hupdated, hdeleted⟩ := a.ordered_net
  refine ⟨?_, ?_, ?_, ?_, ?_, ?_⟩
  · exact hadded.imp VulnerabilityId.compare_eq_lt_iff.1
  · exact hupdated.imp VulnerabilityId.compare_eq_lt_iff.1
  · exact hdeleted.imp VulnerabilityId.compare_eq_lt_iff.1
  · intro v hv hv'
    exact ((a.mem_net_updated v).1 hv').2.1 ((a.mem_net_added v).1 hv).1
  · intro v hv hv'
    exact h.added v ((a.mem_net_added v).1 hv).1 ((a.mem_net_deleted v).1 hv')
  · intro v hv hv'
    exact h.updated v ((a.mem_net_updated v).1 hv).1 ((a.mem_net_deleted v).1 hv')

end Apart

theorem apart_ofDeltas (ds : List VulnerabilityDelta) : (ofDeltas ds).Apart := by
  rw [ofDeltas_eq]
  exact Apart.empty.run (history ds)

/-- An aggregate holds an id in some set. -/
def Holds (a : Aggregate) : Prop := ∃ v, v ∈ a.added ∨ v ∈ a.updated ∨ v ∈ a.deleted

/-- A net change is empty only where nothing is held: what one set hides of another is in the one. -/
theorem net_isEmpty_iff (a : Aggregate) : a.net.isEmpty ↔ ¬a.Holds := by
  have hmem : a.net.isEmpty ↔
      ∀ v, v ∉ a.net.added ∧ v ∉ a.net.updated ∧ v ∉ a.net.deleted := by
    simp only [NetChange.isEmpty, Bool.and_eq_true, List.isEmpty_iff, List.eq_nil_iff_forall_not_mem,
      forall_and, and_assoc]
  rw [hmem, Holds, not_exists]
  refine forall_congr' fun v => ?_
  rw [a.mem_net_added, a.mem_net_updated, a.mem_net_deleted]
  grind

end Aggregate

/-! ## What is looked up -/

namespace Tracker

variable (t : Tracker)

/-- What is to be published is tracked and holds something. -/
theorem mem_changed_iff_holds {k : EventKey} {x : Tracked} :
    (k, x) ∈ t.changed ↔ t.tracked[k]? = some x ∧ x.aggregate.Holds := by
  rw [mem_changed_iff, changed?, Option.filter_eq_some_iff, Bool.not_eq_true', ← Bool.not_eq_true,
    Tracked.net, x.aggregate.net_isEmpty_iff, not_not]

theorem ordered_changed : t.changed.Pairwise fun p q => compare p.1 q.1 = .lt :=
  List.pairwise_map.1 t.ordered_changedKeys

/-- A service that never answers fails for every key that is to be published. -/
theorem keys_failures_of_error (e : Failure) (s : Store) :
    (t.publish (fun _ => .error e) s).failures.reverse.map LookupFailure.key = t.changedKeys := by
  rw [failures_publish, List.map_filterMap, changedKeys, ← List.filterMap_eq_map]
  rfl

end Tracker

/-- **The sets of an aggregate stay apart**, so a net change is these sets, but that updates of what is
added do not count, each listed in order and no id twice. The keys that hold anything are those that
are looked up, one URL each: as many as there are events to come, and a service that never answers
fails for just these. -/
theorem aggregates_apart :
    (∀ ds : List VulnerabilityDelta,
      let a := Aggregate.ofDeltas ds
      a.Apart ∧ a.net = ⟨a.added.toList, (a.updated \ a.added).toList, a.deleted.toList⟩ ∧
      a.net.Tidy) ∧
    ∀ t : Tracker, ∃ asked : List (EventKey × Tracked),
      asked.Pairwise (fun p q => compare p.1 q.1 = .lt) ∧
      (∀ k x, (k, x) ∈ asked ↔ t.tracked[k]? = some x ∧ x.aggregate.Holds) ∧
      t.publishable = asked.length ∧
      (∀ lookup s, (t.publish lookup s).memo =
        Memo.resolveAll lookup ∅ (asked.map fun p => p.2.component.versionUrl)) ∧
      ∀ e s, (t.publish (fun _ => .error e) s).failures.reverse.map LookupFailure.key =
        asked.map Prod.fst := by
  refine ⟨fun ds => ?_, fun t => ?_⟩
  · have hapart := Aggregate.apart_ofDeltas ds
    exact ⟨hapart, hapart.net_eq, hapart.tidy_net⟩
  · exact ⟨t.changed, t.ordered_changed, fun k x => t.mem_changed_iff_holds, rfl,
      fun lookup s => Tracker.memo_publish lookup t s, t.keys_failures_of_error⟩

end ScanDigest
