import ScanDigest.Proofs.Keys
import ScanDigest.Proofs.PolicyRun
import ScanDigest.Proofs.Publication
import ScanDigest.Proofs.Verdicts

/-!
# The closed form of a digest

Before events are left out for their category, a digest has under a key what the mentions of the key
have led to and, if vulnerabilities are shown, what its deltas have led to (`get?_publication`).
No key has both mentions and deltas (`mentionsOf_eq_nil_or_deltasOf_eq_nil`), so the policy events
are those of `policyEvents_closed_form`, and the vulnerability events and lookup failures those of
`vulnerabilityEvents_closed_form`.
-/

set_option autoImplicit false

namespace ScanDigest

section

variable {c : Config} {w : Window} (lookup : Lookup) (rs : List Record)

/-- With a valid configuration a batch is reduced, whatever is in it. -/
theorem reduce_of_valid (hw : c.window = .ok w) :
    reduce lookup c rs = .ok (reduceWithin w lookup c rs) := by
  rw [reduce, Config.checked, hw]
  rfl

/-- The events of enabled categories are kept. -/
theorem events_reduceWithin : (reduceWithin w lookup c rs).outcome.events =
    (publication w lookup c rs).store.events.filter fun e => c.isEnabled e.category := by
  simp only [reduceWithin, List.partition_eq_filter_filter]

theorem lookupFailures_reduceWithin : (reduceWithin w lookup c rs).outcome.lookupFailures =
    (publication w lookup c rs).failures.reverse := rfl

/-! ## One key -/

theorem key_of_mem_mentionsOf {k : EventKey} {m : Mention} (h : m ∈ mentionsOf k rs) :
    m.key = k := of_decide_eq_true (List.mem_filter.1 h).2

theorem key_of_mem_deltasOf {k : EventKey} {d : VulnerabilityDelta} (h : d ∈ deltasOf k rs) :
    d.key = k := of_decide_eq_true (List.mem_filter.1 h).2

/-- A key is that of rules or that of vulnerabilities. -/
theorem mentionsOf_eq_nil_or_deltasOf_eq_nil (k : EventKey) :
    mentionsOf k rs = [] ∨ deltasOf k rs = [] := by
  rcases hm : mentionsOf k rs with _ | ⟨m, ms⟩
  · exact .inl rfl
  · rcases hd : deltasOf k rs with _ | ⟨d, ds⟩
    · exact .inr rfl
    · have hkm : m.key = k := key_of_mem_mentionsOf rs (hm ▸ List.mem_cons_self)
      have hkd : d.key = k := key_of_mem_deltasOf rs (hd ▸ List.mem_cons_self)
      exact absurd (hkm.trans hkd.symm) (EventKey.ofRule_ne_ofVulnerabilities _ _ _ _ _)

/-- A record with one rule and a delta: what there is of a key. -/
theorem mentionsOf_rule_and_delta {action : PolicyAction} {n : PolicyNotice} {rule : PolicyRule}
    (h : n.rules = [rule]) (d : VulnerabilityDelta) (k : EventKey) :
    mentionsOf k [.policy action n, .delta d] =
      if n.key rule = k then [⟨action, n, rule⟩] else [] := by
  by_cases hk : n.key rule = k <;> simp [mentionsOf, Record.mentions, h, Mention.key, hk]

theorem deltasOf_rule_and_delta (action : PolicyAction) (n : PolicyNotice) (d : VulnerabilityDelta)
    (k : EventKey) :
    deltasOf k [.policy action n, .delta d] = if d.key = k then [d] else [] := by
  show [d].filter _ = _
  rw [List.filter_singleton]
  by_cases hk : d.key = k <;> simp [hk]

theorem get?_publication (k : EventKey) : (publication w lookup c rs).store.get? k =
    (if c.isEnabled .vulnerability then
      ((tracker (appliedRecords w rs)).changed? k).bind fun x => Tracked.event? lookup (k, x)
    else none).or (Standing.unnamed.takeAll (mentionsOf k (appliedRecords w rs))).event := by
  have hb : (policyBoard (appliedRecords w rs)).store.get? k =
      (Standing.unnamed.takeAll (mentionsOf k (appliedRecords w rs))).event :=
    congrArg Standing.event (standing_policyBoard (appliedRecords w rs) k)
  rw [publication]
  split
  · rw [Tracker.get?_publish, hb]
  · rw [hb]; rfl

/-- What is to be published under a key with deltas: their net change, unless it is empty. -/
theorem changed?_tracker {k : EventKey} {d : VulnerabilityDelta}
    (hd : (deltasOf k rs).getLast? = some d) : (tracker rs).changed? k =
      if (Aggregate.ofDeltas (deltasOf k rs)).net = ⟨[], [], []⟩ then none
      else some ⟨d.component, Aggregate.ofDeltas (deltasOf k rs)⟩ := by
  rw [Tracker.changed?, Tracker.tracked_tracker, hd, Option.map_some, Option.filter_some,
    Tracked.net]
  by_cases h : (Aggregate.ofDeltas (deltasOf k rs)).net.isEmpty
  · rw [if_pos ((NetChange.isEmpty_iff _).1 h), h]
    rfl
  · rw [if_neg fun he => h ((NetChange.isEmpty_iff _).2 he), Bool.eq_false_iff.2 h]
    rfl

/-- Under a key of rules there is what its mentions have led to. -/
theorem under_publication_of_mentions {k : EventKey}
    (h : mentionsOf k (appliedRecords w rs) ≠ []) :
    Event.under k (publication w lookup c rs).store.events =
      (Standing.unnamed.takeAll (mentionsOf k (appliedRecords w rs))).event.toList := by
  have hd : deltasOf k (appliedRecords w rs) = [] :=
    (mentionsOf_eq_nil_or_deltasOf_eq_nil (appliedRecords w rs) k).resolve_left h
  rw [Store.under_events, get?_publication, Tracker.changed?, Tracker.tracked_tracker, hd]
  split <;> rfl

/-- Under a key of vulnerabilities there is what comes of its net change. -/
theorem under_events_of_deltas (hv : c.isEnabled .vulnerability) {k : EventKey}
    (h : deltasOf k (appliedRecords w rs) ≠ []) :
    Event.under k (reduceWithin w lookup c rs).outcome.events =
      (((tracker (appliedRecords w rs)).changed? k).bind fun x =>
        Tracked.event? lookup (k, x)).toList := by
  have hm : mentionsOf k (appliedRecords w rs) = [] :=
    (mentionsOf_eq_nil_or_deltasOf_eq_nil (appliedRecords w rs) k).resolve_right h
  have hunder : Event.under k (publication w lookup c rs).store.events =
      (((tracker (appliedRecords w rs)).changed? k).bind fun x =>
        Tracked.event? lookup (k, x)).toList := by
    rw [Store.under_events, get?_publication, hm, if_pos hv]
    exact congrArg Option.toList Option.or_none
  rw [events_reduceWithin, Event.under_filter, hunder]
  refine List.filter_eq_self.2 fun e he => ?_
  obtain ⟨x, -, hx⟩ := Option.bind_eq_some_iff.1 (Option.mem_toList.1 he)
  rw [Tracked.category_event? hx]
  exact hv

/-- The failures of a key are those of its own net change. -/
theorem filter_lookupFailures (hv : c.isEnabled .vulnerability) (k : EventKey) :
    ((reduceWithin w lookup c rs).outcome.lookupFailures.filter fun f => f.key = k) =
      (((tracker (appliedRecords w rs)).changed? k).bind fun x =>
        Tracked.failure? lookup (k, x)).toList := by
  rw [lookupFailures_reduceWithin, publication, if_pos hv, Tracker.failures_publish]
  exact Tracker.filter_filterMap_changed _ k LookupFailure.key _ fun _ _ => Tracked.key_failure?

/-- Under a key without mentions there is at most a vulnerability event. -/
theorem category_of_no_mentions {k : EventKey} (h : mentionsOf k (appliedRecords w rs) = [])
    {e : Event} (he : e ∈ Event.under k (publication w lookup c rs).store.events) :
    e.category = .vulnerability := by
  rw [Store.under_events, get?_publication, h, Option.mem_toList] at he
  split at he
  · obtain ⟨x, -, hx⟩ := Option.bind_eq_some_iff.1 (Option.or_none ▸ he)
    exact Tracked.category_event? hx
  · cases he

end

/-! ## Policy events -/

/-- The policy event of a key shows its last violation, unless that is cancelled after it. If it is
never violated, the event shows the first override or clearance. -/
theorem policyEvents_closed_form {c : Config} {w : Window} (hw : c.window = .ok w)
    (lookup : Lookup) (rs : List Record) (k : EventKey) :
    ∃ r, reduce lookup c rs = .ok r ∧
      let word := mentionsOf k (rs.filter fun r => r.Applies w)
      let events := (publication w lookup c rs).store.events
      ((∃ m ∈ word, m.action = .violate) → ∃ before last after,
        word = before ++ last :: after ∧ last.action = .violate ∧
        (∀ m ∈ after, m.action ≠ .violate) ∧
        Event.under k events = if after = [] then [last.shown .violation] else []) ∧
      (∀ first rest, word = first :: rest → (∀ m ∈ word, m.action ≠ .violate) →
        first.action = .override ∧ Event.under k events = [first.shown .override] ∨
        first.action = .clear ∧ Event.under k events = [first.shown .cleared]) ∧
      (word = [] → ∀ e ∈ Event.under k events, e.category = .vulnerability) ∧
      r.outcome.events = events.filter fun e => c.isEnabled e.category := by
  rw [← appliedRecords_eq]
  refine ⟨_, reduce_of_valid lookup rs hw, fun hv => ?_, fun first rest hword hn => ?_,
    fun hword e he => category_of_no_mentions lookup rs hword he, events_reduceWithin lookup rs⟩
  · obtain ⟨before, last, after, hword, hlast, hafter⟩ := Mention.exists_last_violation hv
    refine ⟨before, last, after, hword, hlast, hafter, ?_⟩
    rw [under_publication_of_mentions lookup rs (by rw [hword]; simp), hword,
      Standing.takeAll_violation _ before hlast hafter]
    split
    · rw [Mention.event_eq, hlast]; rfl
    · rfl
  · rw [under_publication_of_mentions lookup rs (by rw [hword]; simp), hword,
      Standing.takeAll_cancellation (hword ▸ hn), Mention.event_eq]
    cases ha : first.action with
    | violate => exact absurd ha (hn first (hword ▸ List.mem_cons_self))
    | override => exact .inl ⟨rfl, rfl⟩
    | clear => exact .inr ⟨rfl, rfl⟩

/-- A rule is violated, overridden and violated again in a record that names it twice; then it is
cleared. -/
theorem policyEvents_closed_form_cleared :
    let c : Component := ⟨"p", "1", "c", "2", "/pv/1", "/cv/1"⟩
    let once : PolicyNotice := ⟨"2026-02-10T00:00:00Z", c, [⟨"A", "/r"⟩]⟩
    let twice : PolicyNotice := ⟨"2026-02-10T00:00:00Z", c, [⟨"A", "/r"⟩, ⟨"B", "/r"⟩]⟩
    let rs : List Record := [.policy .violate once, .policy .override once,
      .policy .violate twice, .policy .clear once]
    let lookup : Lookup := fun _ => .error (.io "down")
    let k : EventKey := once.key ⟨"A", "/r"⟩
    Config.default.window = .ok .all ∧
    ∃ r, reduce lookup .default rs = .ok r ∧
      (∃ m ∈ mentionsOf k (rs.filter fun r => r.Applies .all), m.action = .violate) ∧
      Event.under k (publication .all lookup .default rs).store.events = [] ∧
      Event.under k r.outcome.events = [] := by
  intro c once twice rs lookup k
  have hw : Config.default.window = .ok .all := by decide
  have hrs : rs.filter (fun r => r.Applies .all) = rs := by decide +kernel
  have hword : mentionsOf k rs = rs.flatMap Record.mentions := by
    refine List.filter_eq_self.2 fun m hm => decide_eq_true ?_
    simp only [rs, List.flatMap_cons, List.flatMap_nil, Record.mentions, once, twice, List.map_cons,
      List.map_nil, List.cons_append, List.nil_append, List.mem_cons, List.not_mem_nil,
      or_false] at hm
    rcases hm with rfl | rfl | rfl | rfl | rfl <;> rfl
  obtain ⟨r, hr, hviolated, -, -, hkept⟩ := policyEvents_closed_form hw lookup rs k
  rw [hrs, hword] at hviolated
  have hv : ∃ m ∈ rs.flatMap Record.mentions, m.action = .violate := by decide
  obtain ⟨before, last, after, he, hlast, hafter, hunder⟩ := hviolated hv
  have hne : after ≠ [] := by
    rintro rfl
    have hclear : (rs.flatMap Record.mentions).getLast? = some ⟨.clear, once, ⟨"A", "/r"⟩⟩ := rfl
    rw [he, List.getLast?_concat, Option.some_inj] at hclear
    rw [hclear] at hlast
    cases hlast
  rw [if_neg hne] at hunder
  refine ⟨hw, r, hr, by rw [hrs, hword]; exact hv, hunder, ?_⟩
  rw [hkept, Event.under_filter, hunder]
  rfl

/-! ## Vulnerability events -/

/-- One of three things holds, and neither of the others. -/
def ExactlyOne (p q r : Prop) : Prop := p ∧ ¬q ∧ ¬r ∨ ¬p ∧ q ∧ ¬r ∨ ¬p ∧ ¬q ∧ r

theorem ExactlyOne.intro {p q r : Prop} (h : p ∨ q ∨ r) (hpq : ¬(p ∧ q)) (hpr : ¬(p ∧ r))
    (hqr : ¬(q ∧ r)) : ExactlyOne p q r := by
  rcases h with hp | hq | hr
  · exact .inl ⟨hp, fun hq => hpq ⟨hp, hq⟩, fun hr => hpr ⟨hp, hr⟩⟩
  · exact .inr (.inl ⟨fun hp => hpq ⟨hp, hq⟩, hq, fun hr => hqr ⟨hq, hr⟩⟩)
  · exact .inr (.inr ⟨fun hp => hpr ⟨hp, hr⟩, fun hq => hqr ⟨hq, hr⟩, hr⟩)

/-- A key with deltas has no event and no failure if its net change is empty. Else it has one event
that shows the net change, or one failure, by the answer for the last component. -/
theorem vulnerabilityEvents_closed_form {c : Config} {w : Window} (hw : c.window = .ok w)
    (hv : c.isEnabled .vulnerability) (lookup : Lookup) (rs : List Record) (k : EventKey)
    {d : VulnerabilityDelta}
    (hd : (deltasOf k (rs.filter fun r => r.Applies w)).getLast? = some d) :
    ∃ r, reduce lookup c rs = .ok r ∧
      let net := (Aggregate.ofDeltas (deltasOf k (rs.filter fun r => r.Applies w))).net
      let found := Event.under k r.outcome.events
      let failed := r.outcome.lookupFailures.filter fun f => f.key = k
      let url := d.component.versionUrl
      (net.added.Pairwise (compare · · = .lt) ∧ net.updated.Pairwise (compare · · = .lt) ∧
        net.deleted.Pairwise (compare · · = .lt)) ∧
      (net = ⟨[], [], []⟩ → found = [] ∧ failed = []) ∧
      ExactlyOne
        (net = ⟨[], [], []⟩ ∧ found = [] ∧ failed = [])
        (∃ info : ComponentVulnerabilities, lookup url = .ok info ∧ failed = [] ∧
          found = [{
            key := k
            category := .vulnerability
            project := ⟨d.component.projectName, d.component.projectVersionName,
              d.component.projectVersionUrl⟩
            dataset := ⟨"COMPONENT", d.component.name⟩ :: ⟨"", d.component.versionName⟩ ::
              (net.added.map fun v => ⟨"ADDED", info.display v⟩) ++
              (net.updated.map fun v => ⟨"UPDATED", info.display v⟩) ++
              (net.deleted.map fun v => ⟨"DELETED", info.display v⟩) }])
        (∃ e, lookup url = .error e ∧ found = [] ∧ failed =
          [⟨k, url, "vulnerability lookup failed for " ++ url ++ ": " ++ e.message⟩]) := by
  rw [← appliedRecords_eq] at hd ⊢
  refine ⟨_, reduce_of_valid lookup rs hw, Aggregate.ordered_net _, ?_⟩
  have hne : deltasOf k (appliedRecords w rs) ≠ [] := List.getLast?_isSome.1 (by rw [hd]; rfl)
  have hfound := under_events_of_deltas lookup rs hv hne
  have hfailed := filter_lookupFailures (w := w) lookup rs hv k
  rw [changed?_tracker _ hd] at hfound hfailed
  refine ⟨fun hnet => ?_, .intro ?_ ?_ ?_ ?_⟩
  · rw [if_pos hnet] at hfound hfailed
    exact ⟨hfound, hfailed⟩
  · by_cases hnet : (Aggregate.ofDeltas (deltasOf k (appliedRecords w rs))).net = ⟨[], [], []⟩
    · rw [if_pos hnet] at hfound hfailed
      exact .inl ⟨hnet, hfound, hfailed⟩
    · rw [if_neg hnet, Option.bind_some] at hfound hfailed
      rcases hl : lookup d.component.versionUrl with e | info
      · obtain ⟨hevent, hfailure⟩ := Tracked.published_of_error (p := (k, Tracked.mk _ _)) hl
        rw [hevent] at hfound
        rw [hfailure] at hfailed
        exact .inr (.inr ⟨e, rfl, hfound, hfailed⟩)
      · obtain ⟨hevent, hfailure⟩ := Tracked.published_of_ok (p := (k, Tracked.mk _ _)) hl
        rw [hevent] at hfound
        rw [hfailure] at hfailed
        exact .inr (.inl ⟨info, rfl, hfailed, hfound⟩)
  · rintro ⟨⟨-, hnone, -⟩, info, -, -, hone⟩
    exact List.cons_ne_nil _ _ (hone.symm.trans hnone)
  · rintro ⟨⟨-, -, hnone⟩, e, -, -, hone⟩
    exact List.cons_ne_nil _ _ (hone.symm.trans hnone)
  · rintro ⟨⟨info, hi, -⟩, e, he, -⟩
    rw [hi] at he
    cases he

/-- What one delta adds and another takes back does not count, and the rest cannot be looked up. -/
theorem vulnerabilityEvents_closed_form_down :
    let c : Component := ⟨"p", "1", "c", "2", "/pv/1", "/cv/1"⟩
    let a : VulnerabilityId := ⟨"NVD", "A"⟩
    let b : VulnerabilityId := ⟨"NVD", "B"⟩
    let before : VulnerabilityDelta := ⟨"2026-02-10T00:00:00Z", c, [b, a], [], []⟩
    let d : VulnerabilityDelta := ⟨"2026-02-10T00:00:00Z", c, [], [a], [b]⟩
    let rs : List Record := [.delta before, .delta d]
    let lookup : Lookup := fun _ => .error (.io "down")
    Config.default.window = .ok .all ∧ Config.default.isEnabled .vulnerability ∧
    (deltasOf d.key (rs.filter fun r => r.Applies .all)).getLast? = some d ∧
    ∃ r, reduce lookup .default rs = .ok r ∧
      Event.under d.key r.outcome.events = [] ∧
      r.outcome.lookupFailures.filter (fun f => f.key = d.key) =
        [⟨d.key, "/cv/1", "vulnerability lookup failed for /cv/1: io error: down"⟩] := by
  intro c a b before d rs lookup
  have hw : Config.default.window = .ok .all := by decide
  have hv : Config.default.isEnabled .vulnerability := by decide
  have hrs : rs.filter (fun r => r.Applies .all) = rs := by decide +kernel
  have hds : deltasOf d.key (rs.filter fun r => r.Applies .all) = [before, d] := by
    rw [hrs]
    refine List.filter_eq_self.2 fun m hm => decide_eq_true ?_
    rcases List.mem_pair.1 hm with rfl | rfl <;> rfl
  have hd : (deltasOf d.key (rs.filter fun r => r.Applies .all)).getLast? = some d := by
    rw [hds]
    rfl
  obtain ⟨r, hr, -, -, h⟩ := vulnerabilityEvents_closed_form hw hv lookup rs d.key hd
  refine ⟨hw, hv, hd, r, hr, ?_⟩
  have hnet : (Aggregate.ofDeltas [before, d]).net ≠ ⟨[], [], []⟩ := by decide +kernel
  rcases h with ⟨⟨h, -⟩, -⟩ | ⟨-, ⟨info, hi, -⟩, -⟩ | ⟨-, -, e, he, hfound, hfailed⟩
  · exact absurd (hds ▸ h) hnet
  · cases hi
  · cases he
    exact ⟨hfound, hfailed⟩

end ScanDigest
