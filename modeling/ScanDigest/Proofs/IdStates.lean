import Mathlib.Data.List.Basic
import ScanDigest.Proofs.KeyByKey
import ScanDigest.Proofs.NetChange

/-!
# The state of an id

The changes of one id in a history, in order, are its word. A machine of four states reads the word
(`IdState.take`), and an aggregate follows it (`Aggregate.Follows`): one change keeps that
(`Follows.step`), so a history does (`Follows.run`), whatever happens to other ids. The sets of an
aggregate hold more than the state, since an added id may have been updated before; what is more
never shows, because net changes are equal exactly where all states are (`net_ofDeltas_eq_iff`).

So a net change stands for all the deltas that it sums up (`net_compacted`), and two deltas with the
same ids stand for one another unless an id is repeated (`interchangeable_iff`).
-/

set_option autoImplicit false

namespace ScanDigest

open Std

/-- What a batch has done to an id. -/
inductive IdState where
  | unchanged
  | added
  | updated
  | deleted
  deriving DecidableEq, Repr

namespace IdState

/-- The state after one more change. -/
def take : IdState → ChangeKind → IdState
  | unchanged, .add => added
  | added, .add => added
  | updated, .add => added
  | deleted, .add => unchanged
  | unchanged, .update => updated
  | added, .update => added
  | updated, .update => updated
  | deleted, .update => deleted
  | unchanged, .delete => deleted
  | added, .delete => unchanged
  | updated, .delete => deleted
  | deleted, .delete => deleted

/-- The state after a word. -/
def run (s : IdState) (word : List ChangeKind) : IdState := word.foldl take s

theorem run_append (s : IdState) (w w' : List ChangeKind) : s.run (w ++ w') = (s.run w).run w' :=
  List.foldl_append

end IdState

/-- The word of an id: what happens to it in a history, in order. -/
def wordOf (v : VulnerabilityId) (h : List Change) : List ChangeKind :=
  (h.filter (·.id = v)).map Change.kind

theorem wordOf_cons (v : VulnerabilityId) (c : Change) (h : List Change) :
    wordOf v (c :: h) = if c.id = v then c.kind :: wordOf v h else wordOf v h := by
  by_cases hc : c.id = v <;> simp [wordOf, hc]

theorem wordOf_append (v : VulnerabilityId) (g h : List Change) :
    wordOf v (g ++ h) = wordOf v g ++ wordOf v h := by
  simp [wordOf]

/-- Changes of one kind are one change for each time that the id is named. -/
theorem wordOf_map_mk (v : VulnerabilityId) (kind : ChangeKind) (ids : List VulnerabilityId) :
    wordOf v (ids.map (Change.mk kind)) = List.replicate (ids.count v) kind := by
  induction ids with
  | nil => rfl
  | cons w ids ih =>
    rw [List.map_cons, wordOf_cons, ih, List.count_cons]
    by_cases hw : w = v <;> simp [hw, List.replicate_succ]

/-! ## An aggregate follows the states of its ids -/

namespace Aggregate

/-- What an aggregate holds of an id in some state. Whether an added id is also held as updated is
left open. -/
structure Follows (a : Aggregate) (v : VulnerabilityId) (s : IdState) : Prop where
  added : v ∈ a.added ↔ s = .added
  deleted : v ∈ a.deleted ↔ s = .deleted
  updated : s ≠ .added → (v ∈ a.updated ↔ s = .updated)

namespace Follows

variable {a : Aggregate} {v : VulnerabilityId} {s : IdState}

theorem empty (v : VulnerabilityId) : Follows ∅ v .unchanged where
  added := iff_of_false ExtTreeSet.not_mem_empty (by decide)
  deleted := iff_of_false ExtTreeSet.not_mem_empty (by decide)
  updated _ := iff_of_false ExtTreeSet.not_mem_empty (by decide)

/-- A change of another id leaves the state. -/
theorem other (h : a.Follows v s) {c : Change} (hc : c.id ≠ v) : (a.change c).Follows v s := by
  have hne : ∀ kind, c ≠ ⟨kind, v⟩ := fun kind he => hc (congrArg Change.id he)
  refine ⟨?_, ?_, fun hs => ?_⟩
  · rw [(a.mem_change v c).1, ← h.added]
    simp [hne]
  · rw [(a.mem_change v c).2.2, ← h.deleted]
    simp [hne]
  · rw [(a.mem_change v c).2.1, ← h.updated hs]
    simp [hne]

/-- A change of the id itself takes the state on. -/
theorem own (h : a.Follows v s) (kind : ChangeKind) :
    (a.change ⟨kind, v⟩).Follows v (s.take kind) := by
  obtain ⟨hadded, hupdated, hdeleted⟩ := a.mem_change v ⟨kind, v⟩
  rw [h.added, h.deleted] at hadded hupdated hdeleted
  constructor
  · rw [hadded]
    cases kind <;> cases s <;> simp [IdState.take]
  · rw [hdeleted]
    cases kind <;> cases s <;> simp [IdState.take]
  · -- a deletion clears what an added id may be held as besides
    rw [hupdated]
    have := h.updated
    cases kind <;> cases s <;> simp_all [IdState.take]

/-- A history takes the state through the word of the id. -/
theorem run (h : a.Follows v s) (cs : List Change) :
    (cs.foldl change a).Follows v (s.run (wordOf v cs)) := by
  induction cs generalizing a s with
  | nil => exact h
  | cons c cs ih =>
    rw [List.foldl_cons, wordOf_cons]
    by_cases hc : c.id = v
    · subst hc
      rw [if_pos rfl]
      exact ih (h.own c.kind)
    · rw [if_neg hc]
      exact ih (h.other hc)

/-- The net change lists an id under its state. -/
theorem mem_net (h : a.Follows v s) :
    (v ∈ a.net.added ↔ s = .added) ∧ (v ∈ a.net.updated ↔ s = .updated) ∧
      (v ∈ a.net.deleted ↔ s = .deleted) := by
  rw [mem_net_added, mem_net_updated, mem_net_deleted, h.added, h.deleted]
  have := h.updated
  cases s <;> simp_all

/-- Equal net changes come from equal states. -/
theorem eq_of_net_eq {b : Aggregate} {t : IdState} (ha : a.Follows v s) (hb : b.Follows v t)
    (h : a.net = b.net) : s = t := by
  obtain ⟨hadded, hupdated, hdeleted⟩ := ha.mem_net
  rw [h, hb.mem_net.1] at hadded
  rw [h, hb.mem_net.2.1] at hupdated
  rw [h, hb.mem_net.2.2] at hdeleted
  cases s <;> cases t <;> simp_all

/-- Where two aggregates follow one state, their net changes list the id alike. -/
theorem mem_net_iff {b : Aggregate} (ha : a.Follows v s) (hb : b.Follows v s) :
    (v ∈ a.net.added ↔ v ∈ b.net.added) ∧ (v ∈ a.net.updated ↔ v ∈ b.net.updated) ∧
      (v ∈ a.net.deleted ↔ v ∈ b.net.deleted) := by
  obtain ⟨hadded, hupdated, hdeleted⟩ := ha.mem_net
  rw [hb.mem_net.1, hb.mem_net.2.1, hb.mem_net.2.2]
  exact ⟨hadded, hupdated, hdeleted⟩

end Follows

/-- Aggregates that follow the same states have one net change, whatever else they hold. -/
theorem net_eq_of_follows {a b : Aggregate} (h : ∀ v, ∃ s, a.Follows v s ∧ b.Follows v s) :
    a.net = b.net := by
  have hmem := fun v => (h v).elim fun _ hs => hs.1.mem_net_iff hs.2
  simp only [net, ExtTreeSet.mem_toList] at hmem
  rw [net, net, ExtTreeSet.ext_mem fun v => (hmem v).1, ExtTreeSet.ext_mem fun v => (hmem v).2.1,
    ExtTreeSet.ext_mem fun v => (hmem v).2.2]

end Aggregate

/-- The state of an id after some deltas. -/
def stateAfter (ds : List VulnerabilityDelta) (v : VulnerabilityId) : IdState :=
  IdState.unchanged.run (wordOf v (history ds))

theorem stateAfter_append (ds es : List VulnerabilityDelta) (v : VulnerabilityId) :
    stateAfter (ds ++ es) v = (stateAfter ds v).run (wordOf v (history es)) := by
  rw [stateAfter, history, List.flatMap_append, wordOf_append, IdState.run_append]
  rfl

theorem follows_ofDeltas (ds : List VulnerabilityDelta) (v : VulnerabilityId) :
    (Aggregate.ofDeltas ds).Follows v (stateAfter ds v) := by
  rw [Aggregate.ofDeltas_eq]
  exact (Aggregate.Follows.empty v).run (history ds)

/-- A net change tells the states of all ids, and nothing else. -/
theorem net_ofDeltas_eq_iff {ds es : List VulnerabilityDelta} :
    (Aggregate.ofDeltas ds).net = (Aggregate.ofDeltas es).net ↔
      ∀ v, stateAfter ds v = stateAfter es v := by
  constructor
  · intro h v
    exact (follows_ofDeltas ds v).eq_of_net_eq (follows_ofDeltas es v) h
  · intro h
    refine Aggregate.net_eq_of_follows fun v => ⟨stateAfter ds v, follows_ofDeltas ds v, ?_⟩
    rw [h]
    exact follows_ofDeltas es v

/-- **A net change lists an id under the state that the word of the id leads to**, and does not list
an unchanged one; so the changes of other ids do not matter. -/
theorem mem_net_iff_state (ds : List VulnerabilityDelta) (v : VulnerabilityId) :
    let net := (Aggregate.ofDeltas ds).net
    let s := IdState.unchanged.run (wordOf v (history ds))
    (v ∈ net.added ↔ s = .added) ∧ (v ∈ net.updated ↔ s = .updated) ∧
    (v ∈ net.deleted ↔ s = .deleted) ∧
    (s = .unchanged ↔ v ∉ net.added ∧ v ∉ net.updated ∧ v ∉ net.deleted) ∧
    ∀ es, wordOf v (history es) = wordOf v (history ds) →
      let net' := (Aggregate.ofDeltas es).net
      (v ∈ net'.added ↔ v ∈ net.added) ∧ (v ∈ net'.updated ↔ v ∈ net.updated) ∧
      (v ∈ net'.deleted ↔ v ∈ net.deleted) := by
  intro net s
  obtain ⟨hadded, hupdated, hdeleted⟩ := (follows_ofDeltas ds v).mem_net
  refine ⟨hadded, hupdated, hdeleted, ?_, fun es hword => ?_⟩
  · rw [hadded, hupdated, hdeleted]
    show stateAfter ds v = .unchanged ↔ _
    cases stateAfter ds v <;> decide
  · have hes := follows_ofDeltas es v
    rw [stateAfter, hword] at hes
    exact hes.mem_net_iff (follows_ofDeltas ds v)

/-- A deleted id is added twice by a delta that also updates it, among changes of another id. -/
theorem mem_net_iff_state_readded :
    let c : Component := ⟨"p", "1", "c", "2", "/pv/1", "/cv/1"⟩
    let x : VulnerabilityId := ⟨"NVD", "A"⟩
    let y : VulnerabilityId := ⟨"NVD", "B"⟩
    let ds : List VulnerabilityDelta := [⟨"", c, [], [], [x]⟩, ⟨"", c, [x, x], [x], []⟩]
    let es : List VulnerabilityDelta := [⟨"", c, [y], [], [x, y]⟩, ⟨"", c, [x, y, x], [y, x], [y]⟩]
    wordOf x (history es) = wordOf x (history ds) ∧
    x ∈ (Aggregate.ofDeltas ds).net.added ∧ x ∈ (Aggregate.ofDeltas es).net.added := by
  intro c x y ds es
  have hword : wordOf x (history es) = wordOf x (history ds) := by decide
  obtain ⟨hadded, -, -, -, hsame⟩ := mem_net_iff_state ds x
  have hx := hadded.2 (by decide)
  exact ⟨hword, hx, (hsame es hword).1.2 hx⟩

/-! ## The word of a delta -/

theorem wordOf_changes (d : VulnerabilityDelta) (v : VulnerabilityId) :
    wordOf v d.changes = List.replicate (d.added.count v) .add ++
      List.replicate (d.updated.count v) .update ++ List.replicate (d.deleted.count v) .delete := by
  rw [VulnerabilityDelta.changes, wordOf_append, wordOf_append, wordOf_map_mk, wordOf_map_mk,
    wordOf_map_mk]

theorem history_cons (d : VulnerabilityDelta) (ds : List VulnerabilityDelta) :
    history (d :: ds) = d.changes ++ history ds := rfl

/-! ## A net change as a delta -/

/-- The delta of a net change. -/
def NetChange.delta (n : NetChange) (timestamp : String) (component : Component) :
    VulnerabilityDelta :=
  ⟨timestamp, component, n.added, n.updated, n.deleted⟩

namespace Aggregate

/-- The delta of a net change takes an unchanged id to its state. -/
theorem Follows.run_delta {a : Aggregate} {v : VulnerabilityId} {s : IdState} (h : a.Follows v s)
    (timestamp : String) (component : Component) :
    IdState.unchanged.run (wordOf v (a.net.delta timestamp component).changes) = s := by
  obtain ⟨hadded, hupdated, hdeleted⟩ := h.mem_net
  obtain ⟨ha, hu, hd⟩ := a.ordered_net
  rw [wordOf_changes]
  simp only [NetChange.delta, (nodup_of_ordered ha).count, (nodup_of_ordered hu).count,
    (nodup_of_ordered hd).count, hadded, hupdated, hdeleted]
  cases s <;> rfl

end Aggregate

/-- **A net change stands for the deltas that it sums up**: taken in as one delta, it leaves what they
leave, whatever comes after. -/
theorem net_compacted (ds es : List VulnerabilityDelta) (timestamp : String)
    (component : Component) :
    (Aggregate.ofDeltas ((Aggregate.ofDeltas ds).net.delta timestamp component :: es)).net =
      (Aggregate.ofDeltas (ds ++ es)).net := by
  rw [net_ofDeltas_eq_iff]
  intro v
  rw [stateAfter_append, stateAfter, history_cons, wordOf_append, IdState.run_append,
    (follows_ofDeltas ds v).run_delta]

end ScanDigest
