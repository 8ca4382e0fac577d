import ScanDigest.Proofs.Keys
import ScanDigest.Proofs.PolicyRun
import ScanDigest.Proofs.Publication

/-!
# What a reducer touches

A record changes the board under the policy keys of its own rules and nowhere else
(`PolicyBoard.standing_apply_of_ne`). Publishing writes the events of the net changes whose names
can be looked up, the same ones into any store, and leaves every other key as it was
(`Tracker.event?_eq_some_iff`). Both hold of any board and any tracker, and whatever the memo keeps
from before.
-/

set_option autoImplicit false

namespace ScanDigest

open Std

/-- A record leaves the standing of every key alone that none of its rules has. -/
theorem PolicyBoard.standing_apply_of_ne (b : PolicyBoard) {action : PolicyAction}
    {n : PolicyNotice} {k : EventKey} (h : ∀ rule ∈ n.rules, n.key rule ≠ k) :
    (b.apply (.policy action n)).standing k = b.standing k := by
  have hmentions : mentionsOf k [.policy action n] = [] := by
    simp only [mentionsOf, List.filter_eq_nil_iff, List.flatMap_singleton, Record.mentions,
      List.forall_mem_map, decide_eq_true_eq]
    exact h
  have hrun := b.standing_foldl_apply [.policy action n] k
  rw [hmentions] at hrun
  exact hrun

namespace Tracker

/-- The event that publishing writes under a key. -/
def event? (lookup : Lookup) (t : Tracker) (k : EventKey) : Option Event :=
  (t.changed? k).bind fun x => Tracked.event? lookup (k, x)

theorem event?_eq_some_iff {lookup : Lookup} {t : Tracker} {k : EventKey} {e : Event} :
    t.event? lookup k = some e ↔ ∃ x info, t.tracked[k]? = some x ∧ x.net ≠ ⟨[], [], []⟩ ∧
      lookup x.component.versionUrl = .ok info ∧ e = x.event k info := by
  simp only [event?, Option.bind_eq_some_iff, changed?, Option.filter_eq_some_iff, Bool.not_eq_true',
    ← Bool.not_eq_true, NetChange.isEmpty_iff]
  constructor
  · rintro ⟨x, ⟨hx, hnet⟩, he⟩
    unfold Tracked.event? at he
    split at he
    · rename_i info hinfo
      cases he
      exact ⟨x, info, hx, hnet, hinfo, rfl⟩
    · cases he
  · rintro ⟨x, info, hx, hnet, hinfo, rfl⟩
    exact ⟨x, ⟨hx, hnet⟩, (Tracked.published_of_ok hinfo).1⟩

end Tracker

/-- **Reducers touch only their own keys.** A record changes nothing under a key that none of its
rules has, and nothing at all if it has no rules. Publishing writes the events of the net changes
that are not empty and whose names can be looked up, the same ones into any store, and nothing else. -/
theorem reducers_footprint (b : PolicyBoard) (t : Tracker) (lookup : Lookup) (m : Memo) :
    (∀ action n k, (∀ rule ∈ n.rules, n.key rule ≠ k) →
      (b.apply (.policy action n)).store.get? k = b.store.get? k ∧
      (b.apply (.policy action n)).state? k = b.state? k) ∧
    (∀ d, b.apply (.delta d) = b) ∧ b.apply .other = b ∧
    ∃ written : EventKey → Option Event,
      (∀ k e, written k = some e ↔ ∃ x info, t.tracked[k]? = some x ∧ x.net ≠ ⟨[], [], []⟩ ∧
        m.answer lookup x.component.versionUrl = .ok info ∧ e = x.event k info) ∧
      ∀ s failures k, (Tracker.publishOnto lookup ⟨s, m, failures⟩ t).store.get? k =
        (written k).or (s.get? k) := by
  refine ⟨fun action n k h => ?_, fun _ => rfl, rfl, t.event? (m.answer lookup),
    fun k e => Tracker.event?_eq_some_iff, fun s failures k => ?_⟩
  · have hstanding : (b.apply (.policy action n)).standing k = b.standing k :=
      b.standing_apply_of_ne h
    exact ⟨congrArg Standing.event hstanding, congrArg Standing.state hstanding⟩
  · exact Tracker.get?_publishOnto lookup ⟨s, m, failures⟩ t k

/-- A violation leaves the vulnerability event of its own component version as it was. A delta that
is published into the same store takes the place of that event, and leaves the violation. -/
theorem reducers_footprint_vulnerability :
    let c : Component := ⟨"p", "1", "c", "2", "/pv/1", "/cv/1"⟩
    let rule : PolicyRule := ⟨"A", "/r"⟩
    let notice : PolicyNotice := ⟨"2026-02-10T00:00:00Z", c, [rule]⟩
    let d : VulnerabilityDelta := ⟨"2026-02-10T00:00:00Z", c, [⟨"NVD", "A"⟩], [], []⟩
    let e : Event := ⟨d.key, .vulnerability, c.project, []⟩
    let b : PolicyBoard := .ofStore (Store.put ∅ e)
    let lookup : Lookup := fun _ => .ok ⟨[]⟩
    let s : Store := b.store.put (notice.event .violate rule)
    (∀ rule ∈ notice.rules, notice.key rule ≠ d.key) ∧
      (b.apply (.policy .violate notice)).store.get? d.key = some e ∧
      (Tracker.publishOnto lookup ⟨s, ∅, []⟩ (Tracker.applyDelta ∅ d)).store.get? d.key =
        some (Tracked.event (Tracked.apply none d) d.key ⟨[]⟩) ∧
      (Tracker.publishOnto lookup ⟨s, ∅, []⟩ (Tracker.applyDelta ∅ d)).store.get?
        (notice.key rule) = some (notice.event .violate rule) := by
  intro c rule notice d e b lookup s
  have hkeys : ∀ rule ∈ notice.rules, notice.key rule ≠ d.key :=
    fun rule _ => EventKey.ofRule_ne_ofVulnerabilities _ _ _ _ _
  have hstored : b.store.get? d.key = some e := by
    rw [show b.store = Store.put ∅ e from rfl, Store.get?_put, if_pos rfl]
  obtain ⟨hframe, -, -, written, hwritten, hpublished⟩ :=
    reducers_footprint b (Tracker.applyDelta ∅ d) lookup ∅
  have htracked : ∀ k, (Tracker.applyDelta ∅ d).tracked[k]? =
      if d.key = k then some (Tracked.apply none d) else none := by
    intro k
    rw [Tracker.tracked_applyDelta]
    simp [show (∅ : Tracker).tracked = ∅ from rfl]
  refine ⟨hkeys, (hframe .violate notice d.key hkeys).1.trans hstored, ?_, ?_⟩
  · have hevent : written d.key = some (Tracked.event (Tracked.apply none d) d.key ⟨[]⟩) :=
      (hwritten _ _).2 ⟨_, ⟨[]⟩, by rw [htracked, if_pos rfl], by decide +kernel, rfl, rfl⟩
    rw [hpublished, hevent, Option.some_or]
  · have hnone : written (notice.key rule) = none := by
      refine Option.eq_none_iff_forall_ne_some.2 fun f hf => ?_
      obtain ⟨x, info, hx, -⟩ := (hwritten _ _).1 hf
      rw [htracked, if_neg (hkeys rule List.mem_cons_self).symm] at hx
      cases hx
    rw [hpublished, hnone, Option.none_or, Store.get?_put]
    exact if_pos rfl

end ScanDigest
