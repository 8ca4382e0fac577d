import ScanDigest.Proofs.Applied

/-!
# Categories are left out last

Whether a category is enabled does not bear on what the records of a batch come to: a digest has the
events of its categories out of the digest that shows all of them (`reduce_categories`). Where
vulnerabilities are not shown they are not published at all, which comes to the same, since a key of
vulnerabilities has no policy event (`filter_publication_of_hidden`).
-/

set_option autoImplicit false

namespace ScanDigest

open Std

namespace Store

variable (s : Store) (p : Event → Bool)

/-- Keeps the events that pass a test. -/
def filter : Store where
  table := s.table.filter fun _ e => p e
  keyed {k e} h := by
    rw [ExtTreeMap.getElem?_filter'] at h
    exact s.keyed (Option.filter_eq_some_iff.1 h).1

theorem get?_filter (k : EventKey) : (s.filter p).get? k = (s.get? k).filter p :=
  ExtTreeMap.getElem?_filter'

theorem events_filter : (s.filter p).events = s.events.filter p := by
  rw [events_eq, events_eq, filter, ExtTreeMap.toList_filter, List.filter_map]
  rfl

end Store

/-! ## All categories -/

/-- The configuration that shows all categories. -/
def Config.showingAll (c : Config) : Config := { c with enabled := Category.all }

theorem Config.window_showingAll {c : Config} {w : Window} (h : c.window = .ok w) :
    c.showingAll.window = .ok w := by
  rw [← h]
  simp [window, showingAll, Category.all, enabled_ne_nil h]

theorem Config.isEnabled_showingAll (c : Config) (category : Category) :
    c.showingAll.isEnabled category := by
  cases category <;> rfl

/-- A key with a net change of vulnerabilities has no mentions. -/
theorem mentionsOf_eq_nil_of_changed? {rs : List Record} {k : EventKey} {x : Tracked}
    (h : (tracker rs).changed? k = some x) : mentionsOf k rs = [] := by
  refine (mentionsOf_eq_nil_or_deltasOf_eq_nil rs k).resolve_right fun hd => ?_
  rw [Tracker.changed?, Tracker.tracked_tracker, hd] at h
  cases h

section

variable {w : Window} {c : Config} (lookup : Lookup) (rs : List Record)

theorem publication_of_shown (hc : c.isEnabled .vulnerability) :
    publication w lookup c rs = publication w lookup c.showingAll rs :=
  publication_congr lookup rfl (hc.trans (c.isEnabled_showingAll .vulnerability).symm)

/-- What is not shown is not published, and no one is asked for it. -/
theorem publication_of_hidden (hc : ¬c.isEnabled .vulnerability) :
    publication w lookup c rs = ⟨(policyBoard (appliedRecords w rs)).store, ∅, []⟩ := if_neg hc

/-- Vulnerability events that are not shown take no other event with them. -/
theorem filter_publication_of_hidden (hc : ¬c.isEnabled .vulnerability) :
    (publication w lookup c rs).store.filter (fun e => c.isEnabled e.category) =
      (publication w lookup c.showingAll rs).store.filter fun e => c.isEnabled e.category := by
  ext1 k
  rw [Store.get?_filter, Store.get?_filter, get?_publication, get?_publication, if_neg hc,
    if_pos (c.isEnabled_showingAll .vulnerability), Option.none_or]
  cases hevent : ((tracker (appliedRecords w rs)).changed? k).bind
      fun x => Tracked.event? lookup (k, x) with
  | none => rw [Option.none_or]
  | some e =>
    obtain ⟨x, hx, he⟩ := Option.bind_eq_some_iff.1 hevent
    have hhidden : ¬c.isEnabled e.category := by rwa [Tracked.category_event? he]
    rw [mentionsOf_eq_nil_of_changed? hx, Option.some_or, Option.filter_some, if_neg hhidden]
    rfl

theorem events_eq_filter_showingAll : (reduceWithin w lookup c rs).outcome.events =
    (reduceWithin w lookup c.showingAll rs).outcome.events.filter
      fun e => c.isEnabled e.category := by
  have hall : (reduceWithin w lookup c.showingAll rs).outcome.events =
      (publication w lookup c.showingAll rs).store.events := by
    rw [events_reduceWithin]
    exact List.filter_eq_self.2 fun e _ => c.isEnabled_showingAll e.category
  rw [hall, events_reduceWithin]
  by_cases hc : c.isEnabled .vulnerability
  · rw [publication_of_shown lookup rs hc]
  · rw [← Store.events_filter, filter_publication_of_hidden lookup rs hc, Store.events_filter]

end

/-- A digest has the events of its categories out of the digest that shows all of them, and says the
same of the records. Lookups are the same if vulnerabilities are shown; else there are none. -/
theorem reduce_categories {c : Config} {w : Window} (hw : c.window = .ok w) (lookup : Lookup)
    (rs : List Record) :
    ∃ r full, reduce lookup c rs = .ok r ∧ reduce lookup c.showingAll rs = .ok full ∧
      r.outcome.events = full.outcome.events.filter (fun e => c.isEnabled e.category) ∧
      r.outcome.recordErrors = full.outcome.recordErrors ∧
      r.outcome.stats.seen = full.outcome.stats.seen ∧
      r.outcome.stats.applied = full.outcome.stats.applied ∧
      r.outcome.stats.ignored = full.outcome.stats.ignored ∧
      r.outcome.stats.malformed = full.outcome.stats.malformed ∧
      r.outcome.stats.outsideWindow = full.outcome.stats.outsideWindow ∧
      if c.isEnabled .vulnerability then
        r.outcome.lookupFailures = full.outcome.lookupFailures ∧
        r.outcome.stats.lookupCalls = full.outcome.stats.lookupCalls ∧ r.asked = full.asked
      else r.outcome.lookupFailures = [] ∧ r.outcome.stats.lookupCalls = 0 ∧ r.asked = [] := by
  refine ⟨_, _, reduce_of_valid lookup rs hw,
    reduce_of_valid lookup rs (Config.window_showingAll hw),
    events_eq_filter_showingAll lookup rs, rfl, rfl, rfl, rfl, rfl, rfl, ?_⟩
  by_cases hc : c.isEnabled .vulnerability
  · rw [if_pos hc]
    have hpublication := publication_of_shown (w := w) lookup rs hc
    refine ⟨?_, ?_, ?_⟩ <;> simp only [reduceWithin, hpublication]
  · rw [if_neg hc]
    have hpublication := publication_of_hidden (w := w) lookup rs hc
    refine ⟨?_, ?_, ?_⟩ <;> simp only [reduceWithin, hpublication] <;> rfl

/-- Of a violation, a clearance and a net change of vulnerabilities, a digest of clearances (named
twice) and violations shows the first two; no one is asked for the third. -/
theorem reduce_categories_policies :
    let c : Component := ⟨"p", "1", "c", "2", "/pv/1", "/cv/1"⟩
    let time : String := "2026-02-10T00:00:00Z"
    let rs : List Record := [.policy .violate ⟨time, c, [⟨"A", "/r/1"⟩]⟩,
      .policy .clear ⟨time, c, [⟨"B", "/r/2"⟩]⟩, .delta ⟨time, c, [⟨"NVD", "A"⟩], [], []⟩]
    let config : Config := ⟨[.cleared, .violation, .cleared], none, none⟩
    let lookup : Lookup := fun _ => .error (.io "down")
    config.window = .ok .all ∧
    ∃ r full, reduce lookup config rs = .ok r ∧ reduce lookup config.showingAll rs = .ok full ∧
      r.outcome.events = full.outcome.events.filter (fun e => config.isEnabled e.category) ∧
      r.outcome.lookupFailures = [] ∧ r.asked = [] := by
  intro c time rs config lookup
  have hw : config.window = .ok .all := by decide
  have hc : ¬config.isEnabled .vulnerability := by decide
  obtain ⟨r, full, hr, hfull, hevents, -, -, -, -, -, -, hlookups⟩ := reduce_categories hw lookup rs
  rw [if_neg hc] at hlookups
  exact ⟨hw, r, full, hr, hfull, hevents, hlookups.1, hlookups.2.2⟩

end ScanDigest
