import ScanDigest.Proofs.Applied

/-!
# Where events come from

An event that is stored under a key was made by a mention of that key, by the same record
(`Standing.mem_of_event_takeAll`), or it shows the last component of the deltas of that key. So the
key of every event of a digest is the key of a record that applies, and it is about the project
version that the event names (`events_wellFormed`).
-/

set_option autoImplicit false

namespace ScanDigest

/-! ## Mentions and deltas -/

theorem Record.mem_mentions_iff {r : Record} {m : Mention} :
    m ∈ r.mentions ↔ r = .policy m.action m.notice ∧ m.rule ∈ m.notice.rules := by
  cases r with
  | policy action n =>
    rw [mentions, List.mem_map]
    constructor
    · rintro ⟨rule, hrule, rfl⟩
      exact ⟨rfl, hrule⟩
    · rintro ⟨he, hrule⟩
      cases he
      exact ⟨m.rule, hrule, rfl⟩
  | delta d => exact iff_of_false List.not_mem_nil fun h => by cases h.1
  | other => exact iff_of_false List.not_mem_nil fun h => by cases h.1

section

variable {k : EventKey} {rs : List Record}

theorem mem_mentionsOf_iff {m : Mention} : m ∈ mentionsOf k rs ↔
    .policy m.action m.notice ∈ rs ∧ m.rule ∈ m.notice.rules ∧ m.key = k := by
  simp only [mentionsOf, List.mem_filter, List.mem_flatMap, Record.mem_mentions_iff,
    decide_eq_true_eq]
  constructor
  · rintro ⟨⟨r, hr, rfl, hrule⟩, hk⟩
    exact ⟨hr, hrule, hk⟩
  · rintro ⟨hr, hrule, hk⟩
    exact ⟨⟨_, hr, rfl, hrule⟩, hk⟩

theorem mem_deltasOf_iff {d : VulnerabilityDelta} :
    d ∈ deltasOf k rs ↔ .delta d ∈ rs ∧ d.key = k := by
  simp only [deltasOf, List.mem_filter, List.mem_filterMap, decide_eq_true_eq]
  constructor
  · rintro ⟨⟨r, hr, hd⟩, hk⟩
    cases r <;> cases hd
    exact ⟨hr, hk⟩
  · rintro ⟨hd, hk⟩
    exact ⟨⟨_, hd, rfl⟩, hk⟩

end

namespace Standing

theorem event_take {s : Standing} {m : Mention} {e : Event} (h : (s.take m).event = some e) :
    e = m.event ∨ s.event = some e := by
  rw [take] at h
  split at h
  · exact .inl (Option.some_inj.1 h).symm
  · cases h
  · exact .inr h

/-- An event was made by one of the mentions, or it was there before. -/
theorem mem_of_event_takeAll {s : Standing} {ms : List Mention} {e : Event}
    (h : (s.takeAll ms).event = some e) : (∃ m ∈ ms, e = m.event) ∨ s.event = some e := by
  induction ms generalizing s with
  | nil => exact .inr h
  | cons m ms ih =>
    rcases ih h with ⟨n, hn, he⟩ | h
    · exact .inl ⟨n, List.mem_cons_of_mem _ hn, he⟩
    · rcases event_take h with he | h
      · exact .inl ⟨m, List.mem_cons_self, he⟩
      · exact .inr h

end Standing

/-! ## Digests -/

section

variable {w : Window} {c : Config} {lookup : Lookup} {rs : List Record}

/-- What is published under a key is made by a mention of it, or by its last delta. -/
theorem stems_of_get?_publication {k : EventKey} {e : Event}
    (h : (publication w lookup c rs).store.get? k = some e) :
    (∃ m ∈ mentionsOf k (appliedRecords w rs), e = m.event) ∨
      ∃ d ∈ deltasOf k (appliedRecords w rs), e.category = .vulnerability ∧ e.key = k ∧
        e.project = d.component.project := by
  rw [get?_publication, Option.or_eq_some_iff] at h
  rcases h with h | ⟨-, h⟩
  · split at h
    · obtain ⟨x, hx, he⟩ := Option.bind_eq_some_iff.1 h
      have htracked := (Option.filter_eq_some_iff.1 hx).1
      rw [Tracker.tracked_tracker] at htracked
      obtain ⟨d, hd, rfl⟩ := Option.map_eq_some_iff.1 htracked
      refine .inr ⟨d, List.mem_of_getLast? hd, Tracked.category_event? he,
        Tracked.key_event? he, ?_⟩
      unfold Tracked.event? at he
      split at he
      · cases he
        rfl
      · cases he
    · cases h
  · rcases Standing.mem_of_event_takeAll h with hm | he
    · exact .inl hm
    · cases he

end

/-- The events of a digest are in ascending order of their keys. Each is about a rule of a policy
record that applies or about the component of a delta that applies, and its key has the hash of the
project version that it names. -/
theorem events_wellFormed {c : Config} {w : Window} (hw : c.window = .ok w) (lookup : Lookup)
    (rs : List Record) :
    ∃ r, reduce lookup c rs = .ok r ∧
      let applied := rs.filter fun r => r.Applies w
      r.outcome.events.Pairwise (fun a b => compare a.key b.key = .lt) ∧
      (r.outcome.events.map Event.key).Nodup ∧
      ∀ e ∈ r.outcome.events,
        (e.category ∈ [.violation, .override, .cleared] ∧
            (∃ action n rule, .policy action n ∈ applied ∧ rule ∈ n.rules ∧
              e.key = .ofRule n.component.projectVersionUrl n.component.versionUrl rule.url) ∨
          e.category = .vulnerability ∧
            ∃ d, .delta d ∈ applied ∧
              e.key = .ofVulnerabilities d.component.projectVersionUrl d.component.versionUrl) ∧
        e.key.projectHash? = some (Sha256.ofString e.project.versionUrl) := by
  rw [← appliedRecords_eq]
  have hordered : (reduceWithin w lookup c rs).outcome.events.Pairwise
      fun a b => compare a.key b.key = .lt := by
    rw [events_reduceWithin]
    exact (Store.ordered_events _).filter _
  refine ⟨_, reduce_of_valid lookup rs hw, hordered, ?_, fun e he => ?_⟩
  · refine List.pairwise_map.2 (hordered.imp fun hlt heq => ?_)
    rw [heq, Std.ReflOrd.compare_self] at hlt
    cases hlt
  · rw [events_reduceWithin] at he
    rcases stems_of_get?_publication ((Store.mem_events_iff _).1 (List.mem_filter.1 he).1) with
      ⟨m, hm, hem⟩ | ⟨d, hd, hcategory, -, hproject⟩
    · obtain ⟨hr, hrule, -⟩ := mem_mentionsOf_iff.1 hm
      rw [hem]
      refine ⟨.inl ⟨?_, m.action, m.notice, m.rule, hr, hrule, rfl⟩,
        EventKey.projectHash?_ofRule _ _ _⟩
      show m.action.category ∈ _
      cases m.action <;> simp [PolicyAction.category]
    · obtain ⟨hr, hkey⟩ := mem_deltasOf_iff.1 hd
      refine ⟨.inr ⟨hcategory, d, hr, hkey.symm⟩, ?_⟩
      rw [hproject, ← hkey]
      exact EventKey.projectHash?_ofVulnerabilities _ _

/-- The event of an override has the hash of its project version in its key. -/
theorem events_wellFormed_override :
    let c : Component := ⟨"p", "1", "c", "2", "/pv/1", "/cv/1"⟩
    let rs : List Record := [.policy .override ⟨"2026-02-10T00:00:00Z", c, [⟨"A", "/r"⟩]⟩]
    let lookup : Lookup := fun _ => .error (.io "down")
    Config.default.window = .ok .all ∧
    ∃ r e, reduce lookup .default rs = .ok r ∧ e ∈ r.outcome.events ∧ e.category = .override ∧
      e.key.projectHash? = some (Sha256.ofString "/pv/1") := by
  intro c rs lookup
  have hw : Config.default.window = .ok .all := by decide
  obtain ⟨r, hr, -, -, hevents⟩ := events_wellFormed hw lookup rs
  obtain rfl : reduceWithin .all lookup .default rs = r :=
    Except.ok.inj ((reduce_of_valid lookup rs hw).symm.trans hr)
  have hone : (Category.override, "/pv/1") ∈
      (reduceWithin .all lookup .default rs).outcome.events.map
        fun e => (e.category, e.project.versionUrl) := by decide +kernel
  obtain ⟨e, he, heq⟩ := List.mem_map.1 hone
  obtain ⟨hcategory, hurl⟩ := Prod.mk.inj heq
  exact ⟨hw, _, e, hr, he, hcategory, hurl ▸ (hevents e he).2⟩

end ScanDigest
