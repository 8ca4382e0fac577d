import ScanDigest.Proofs.Categories
import ScanDigest.Proofs.Inquiries

/-!
# Nothing is lost on the way

Each record of a batch gets one verdict, so the counts of the four verdicts add up
(`length_eq_verdicts`), and the record errors are those of the malformed records
(`exists_recordError_iff`). The events that a board holds are those of the keys whose state goes
with an event (`size_policyBoard`). Publishing a key that is not stored yet makes an event or a
failure and keeps the others (`Tracker.size_publish`), so every key that came to something is in the
outcome or was left out for its category (`reduce_conserves`).
-/

set_option autoImplicit false

namespace ScanDigest

open Std

/-! ## Records -/

theorem Verdict.count_eq_one (v : Verdict) :
    (if v == .applied then 1 else 0) + (if v == .ignored then 1 else 0) +
      (if v.isMalformed then 1 else 0) + (if v == .outside then 1 else 0) = 1 := by
  cases v <;> rfl

section

variable (w : Window) (rs : List Record)

/-- Each record has one verdict. -/
theorem length_eq_verdicts : rs.length =
    (appliedRecords w rs).length + rs.countP (fun r => r.verdict w == .ignored) +
      rs.countP (fun r => (r.verdict w).isMalformed) +
      rs.countP (fun r => r.verdict w == .outside) := by
  rw [appliedRecords, ← List.countP_eq_length_filter]
  induction rs with
  | nil => rfl
  | cons r rs ih =>
    have hone := (r.verdict w).count_eq_one
    simp only [List.countP_cons, List.length_cons]
    omega

theorem isSome_recordError? (p : Record × Nat) :
    (recordError? w p).isSome = (p.1.verdict w).isMalformed := by
  unfold recordError?
  cases p.1.verdict w <;> rfl

theorem length_recordErrors : (rs.zipIdx.filterMap (recordError? w)).length =
    rs.countP fun r => (r.verdict w).isMalformed := by
  rw [List.length_filterMap_eq_countP]
  simp only [isSome_recordError?]
  rw [← List.zipIdx_map_fst 0 rs, List.countP_map, List.zipIdx_map_fst]
  rfl

theorem index_recordError? {p : Record × Nat} {e : RecordError} (h : recordError? w p = some e) :
    e.index = p.2 ∧ e.kind = p.1.kind := by
  unfold recordError? at h
  split at h
  · cases h
    exact ⟨rfl, rfl⟩
  · cases h

/-- Record errors stand in the order of the batch. -/
theorem ordered_recordErrors :
    (rs.zipIdx.filterMap (recordError? w)).Pairwise (·.index < ·.index) := by
  have hplaces : rs.zipIdx.Pairwise (·.2 < ·.2) := by
    rw [← List.pairwise_map (f := Prod.snd), List.zipIdx_map_snd]
    exact List.pairwise_lt_range' 1
  refine hplaces.filterMap _ fun p q hpq e he f hf => ?_
  rw [(index_recordError? w he).1, (index_recordError? w hf).1]
  exact hpq

/-- There is an error at the place of each malformed record, with its kind, and no other one. -/
theorem exists_recordError_iff {i : Nat} {kind : String} :
    (∃ e ∈ rs.zipIdx.filterMap (recordError? w), e.index = i ∧ e.kind = kind) ↔
      ∃ r, rs[i]? = some r ∧ r.Malformed ∧ r.kind = kind := by
  constructor
  · rintro ⟨e, he, rfl, rfl⟩
    obtain ⟨p, hp, hpe⟩ := List.mem_filterMap.1 he
    obtain ⟨hindex, hkind⟩ := index_recordError? w hpe
    refine ⟨p.1, ?_, ?_, hkind.symm⟩
    · rw [hindex]
      exact List.mem_zipIdx_iff_getElem?.1 hp
    · rw [← Record.isMalformed_verdict_iff (w := w), ← isSome_recordError?, hpe]
      rfl
  · rintro ⟨r, hr, hmalformed, rfl⟩
    rw [← Record.isMalformed_verdict_iff (w := w), ← isSome_recordError? w (r, i)] at hmalformed
    obtain ⟨e, he⟩ := Option.isSome_iff_exists.1 hmalformed
    exact ⟨e, List.mem_filterMap.2 ⟨(r, i), List.mem_zipIdx_iff_getElem?.2 hr, he⟩,
      index_recordError? w he⟩

end

/-! ## Keys and events -/

/-- A board holds an event for each key whose state goes with one. -/
theorem size_policyBoard (rs : List Record) : ((policyBoard rs).store.size : ℕ∞) =
    {k | (policyBoard rs).state? k ∈
      [some .violated, some .overridden, some .cleared]}.encard := by
  rw [← Store.encard_keys]
  congr 1
  ext k
  have hstep : ((policyBoard rs).store.get? k).map Event.category =
      ((policyBoard rs).state? k).bind PolicyState.category? := inStep_policyBoard rs k
  show ((policyBoard rs).store.get? k).isSome ↔
    (policyBoard rs).state? k ∈ [some PolicyState.violated, some .overridden, some .cleared]
  rw [← Option.isSome_map (f := Event.category), hstep]
  cases (policyBoard rs).state? k with
  | none => simp
  | some s => cases s <;> simp [PolicyState.category?]

namespace Tracker

variable (lookup : Lookup)

/-- A key that is not stored yet gets an event or a failure, and no other key is touched. -/
theorem size_publishKey {p : Progress} {kt : EventKey × Tracked}
    (h : p.store.get? kt.1 = none) :
    (publishKey lookup p kt).store.size + (publishKey lookup p kt).failures.length =
      p.store.size + p.failures.length + 1 ∧
    ∀ k, k ≠ kt.1 → (publishKey lookup p kt).store.get? k = p.store.get? k := by
  obtain ⟨key, t⟩ := kt
  simp only [publishKey]
  rcases p.memo.resolve lookup t.component.versionUrl with ⟨e | info, m⟩
  · exact ⟨rfl, fun _ _ => rfl⟩
  · refine ⟨?_, fun k hk => ?_⟩
    · show (p.store.put (t.event key info)).size + p.failures.length = _
      rw [Store.size_put _ h]
      omega
    · show (p.store.put (t.event key info)).get? k = p.store.get? k
      rw [Store.get?_put]
      exact if_neg (Ne.symm hk)

theorem size_publishKeys {l : List (EventKey × Tracked)} (hl : (l.map Prod.fst).Nodup)
    {p : Progress} (h : ∀ kt ∈ l, p.store.get? kt.1 = none) :
    let q := l.foldl (publishKey lookup) p
    q.store.size + q.failures.length = p.store.size + p.failures.length + l.length := by
  induction l generalizing p with
  | nil => rfl
  | cons kt l ih =>
    obtain ⟨hkt, hnodup⟩ := List.nodup_cons.1 hl
    obtain ⟨hsize, hothers⟩ := size_publishKey lookup (h kt List.mem_cons_self)
    have hfresh : ∀ kt' ∈ l, (publishKey lookup p kt).store.get? kt'.1 = none := by
      intro kt' hkt'
      have hne : kt'.1 ≠ kt.1 := fun he => hkt (he ▸ List.mem_map_of_mem hkt')
      rw [hothers kt'.1 hne]
      exact h kt' (List.mem_cons_of_mem _ hkt')
    refine (ih hnodup hfresh).trans ?_
    rw [hsize, List.length_cons]
    omega

theorem nodup_changedKeys (t : Tracker) : t.changedKeys.Nodup :=
  nodup_of_ordered t.ordered_changedKeys

/-- Publishing makes an event or a failure of each change, if none of their keys is stored yet. -/
theorem size_publish {t : Tracker} {s : Store} (h : ∀ k ∈ t.changedKeys, s.get? k = none) :
    (t.publish lookup s).store.size + (t.publish lookup s).failures.length =
      s.size + t.changed.length :=
  size_publishKeys lookup t.nodup_changedKeys fun _ hkt => h _ (List.mem_map_of_mem hkt)

end Tracker

/-- There is a change for each key whose deltas come to a net change that is not empty. -/
theorem length_changed_tracker (rs : List Record) : ((tracker rs).changed.length : ℕ∞) =
    {k | deltasOf k rs ≠ [] ∧ (Aggregate.ofDeltas (deltasOf k rs)).net ≠ ⟨[], [], []⟩}.encard := by
  have hkeys : (tracker rs).changed.length = (tracker rs).changedKeys.length := by
    rw [Tracker.changedKeys, List.length_map]
  rw [hkeys, ← encard_of_nodup (Tracker.nodup_changedKeys _)]
  congr 1
  ext k
  exact mem_changedKeys_tracker rs

/-! ## Outcomes -/

/-- A key that is to be published has no policy event. -/
theorem get?_policyBoard_of_changed {rs : List Record} {k : EventKey}
    (h : k ∈ (tracker rs).changedKeys) : (policyBoard rs).store.get? k = none := by
  obtain ⟨p, hp, rfl⟩ := List.mem_map.1 h
  have hunnamed := standing_policyBoard rs p.1
  rw [mentionsOf_eq_nil_of_changed? (Tracker.mem_changed_iff.1 hp)] at hunnamed
  exact congrArg Standing.event hunnamed

/-- Events that are shown, events that are left out and failures are as many as the keys that came
to something, whatever categories are enabled. -/
theorem size_reduceWithin (w : Window) (lookup : Lookup) (c : Config) (rs : List Record) :
    let o := (reduceWithin w lookup c rs).outcome
    o.events.length + o.stats.eventsFiltered + o.lookupFailures.length =
      (policyBoard (appliedRecords w rs)).store.size +
        (tracker (appliedRecords w rs)).changed.length := by
  intro o
  have hparts : o.events.length + o.stats.eventsFiltered =
      (publication w lookup c rs).store.size +
        if c.isEnabled .vulnerability then 0
        else (tracker (appliedRecords w rs)).publishable := by
    have hsplit := (List.filter_append_perm (fun e : Event => c.isEnabled e.category)
      (publication w lookup c rs).store.events).length_eq
    rw [List.length_append, Store.length_events] at hsplit
    simp only [o, reduceWithin, List.partition_eq_filter_filter]
    rw [← hsplit]
    exact (Nat.add_assoc _ _ _).symm
  have hfailures : o.lookupFailures.length = (publication w lookup c rs).failures.length :=
    List.length_reverse
  rw [hparts, hfailures]
  by_cases hc : c.isEnabled .vulnerability
  · rw [if_pos hc, publication, if_pos hc, ← Tracker.size_publish lookup fun _ =>
      get?_policyBoard_of_changed]
    rfl
  · rw [if_neg hc, publication_of_hidden lookup rs hc]
    rfl

/-- Every record is applied, ignored, malformed or outside the window; each malformed one is
reported at its place. Every key that came to something is shown, left out or reported. -/
theorem reduce_conserves {c : Config} {w : Window} (hw : c.window = .ok w) (lookup : Lookup)
    (rs : List Record) :
    ∃ r, reduce lookup c rs = .ok r ∧
      let applied := rs.filter fun r => r.Applies w
      let o := r.outcome
      o.stats.seen = rs.length ∧
      o.stats.seen =
        o.stats.applied + o.stats.ignored + o.stats.malformed + o.stats.outsideWindow ∧
      o.recordErrors.length = o.stats.malformed ∧
      o.recordErrors.Pairwise (·.index < ·.index) ∧
      (∀ i kind, (∃ e ∈ o.recordErrors, e.index = i ∧ e.kind = kind) ↔
        ∃ r, rs[i]? = some r ∧ r.Malformed ∧ r.kind = kind) ∧
      ((o.events.length + o.stats.eventsFiltered + o.lookupFailures.length : Nat) : ℕ∞) =
        {k | (policyBoard applied).state? k ∈
          [some .violated, some .overridden, some .cleared]}.encard +
        {k | deltasOf k applied ≠ [] ∧
          (Aggregate.ofDeltas (deltasOf k applied)).net ≠ ⟨[], [], []⟩}.encard := by
  rw [← appliedRecords_eq]
  refine ⟨_, reduce_of_valid lookup rs hw, rfl, length_eq_verdicts w rs,
    length_recordErrors w rs, ordered_recordErrors w rs,
    fun i kind => exists_recordError_iff w rs, ?_⟩
  rw [size_reduceWithin, Nat.cast_add, size_policyBoard, length_changed_tracker]

/-- A clearance at no time is reported. An override stays, and a net change that cannot be looked up
is a failure, so two keys came to something. -/
theorem reduce_conserves_undated :
    let c : Component := ⟨"p", "1", "c", "2", "/pv/1", "/cv/1"⟩
    let time : String := "2026-02-10T00:00:00Z"
    let n : PolicyNotice := ⟨time, c, [⟨"A", "/r"⟩]⟩
    let d : VulnerabilityDelta := ⟨time, c, [⟨"NVD", "A"⟩], [], []⟩
    let undated : Record := .policy .clear { n with timestamp := "yesterday" }
    let rs : List Record := [.other, undated, .policy .override n, .delta d]
    let lookup : Lookup := fun _ => .error (.io "down")
    Config.default.window = .ok .all ∧
    ∃ r, reduce lookup .default rs = .ok r ∧ r.outcome.stats.seen = 4 ∧
      (∃ e ∈ r.outcome.recordErrors, e.index = 1 ∧ e.kind = "POLICY_CLEAR") ∧
      r.outcome.recordErrors.length = r.outcome.stats.malformed ∧
      r.outcome.events.length + r.outcome.stats.eventsFiltered + r.outcome.lookupFailures.length =
        2 := by
  intro c time n d undated rs lookup
  have hw : Config.default.window = .ok .all := by decide
  obtain ⟨r, hr, hseen, -, hlength, -, herrors, hkeys⟩ := reduce_conserves hw lookup rs
  obtain ⟨fault, hfault⟩ : ∃ fault, Time.parse "yesterday" = .error fault := ⟨_, rfl⟩
  have hmalformed : undated.Malformed := ⟨nofun, .inr ⟨"yesterday", fault, rfl, hfault⟩⟩
  refine ⟨hw, r, hr, hseen, (herrors 1 "POLICY_CLEAR").2 ⟨_, rfl, hmalformed, rfl⟩, hlength, ?_⟩
  have happlied : rs.filter (fun r => r.Applies .all) = [.policy .override n, .delta d] := by
    decide +kernel
  have hrule : {k | (policyBoard [.policy .override n, .delta d]).state? k ∈
      [some .violated, some .overridden, some .cleared]} = {n.key ⟨"A", "/r"⟩} := by
    ext k
    have hstate : (policyBoard [.policy .override n, .delta d]).state? k = _ :=
      congrArg Standing.state (standing_policyBoard [.policy .override n, .delta d] k)
    rw [Set.mem_ofPred_eq, Set.mem_singleton_iff, hstate, mentionsOf_rule_and_delta rfl]
    split
    · rename_i hk
      exact iff_of_true (by decide) hk.symm
    · rename_i hk
      exact iff_of_false (by decide) (Ne.symm hk)
  have hdelta : {k | deltasOf k [.policy .override n, .delta d] ≠ [] ∧
      (Aggregate.ofDeltas (deltasOf k [.policy .override n, .delta d])).net ≠ ⟨[], [], []⟩} =
      {d.key} := by
    ext k
    rw [Set.mem_ofPred_eq, Set.mem_singleton_iff, deltasOf_rule_and_delta]
    split
    · rename_i hk
      exact iff_of_true (by decide +kernel) hk.symm
    · rename_i hk
      exact iff_of_false (fun h => h.1 rfl) (Ne.symm hk)
  rw [happlied, hrule, hdelta, Set.encard_singleton, Set.encard_singleton] at hkeys
  exact_mod_cast hkeys

end ScanDigest
