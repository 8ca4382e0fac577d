import ScanDigest.Proofs.ClosedForm

/-!
# The records that apply

What is skipped leaves no trace: the part of a batch that applies, alone and without a window, comes
to the same digest (`reduce_applied`), and a policy record with one bad rule applies none of its
rules.
-/

set_option autoImplicit false

namespace ScanDigest

section

variable {w : Window} {rs : List Record} (h : ∀ r ∈ rs, r.Applies w)
include h

theorem appliedRecords_of_applies : appliedRecords w rs = rs := by
  rw [appliedRecords_eq]
  exact List.filter_eq_self.2 fun r hr => decide_eq_true (h r hr)

/-- Where every record applies, there are no record errors. -/
theorem recordErrors_of_applies : rs.zipIdx.filterMap (recordError? w) = [] := by
  refine List.filterMap_eq_nil_iff.2 fun p hp => ?_
  have hv := Record.verdict_eq_applied_iff.2 (h p.1 (List.fst_mem_of_mem_zipIdx hp))
  simp only [recordError?, hv]

/-- Where every record applies, no other verdict is counted. -/
theorem countP_of_applies {p : Verdict → Bool} (hp : p .applied = false) :
    rs.countP (fun r => p (r.verdict w)) = 0 := by
  refine List.countP_eq_zero.2 fun r hr => ?_
  rw [Record.verdict_eq_applied_iff.2 (h r hr), hp]
  exact Bool.false_ne_true

end

/-- What is published is decided by the records that apply, and by whether vulnerabilities are
shown. -/
theorem publication_congr {v w : Window} {c d : Config} {rs ss : List Record} (lookup : Lookup)
    (happlied : appliedRecords v rs = appliedRecords w ss)
    (hshown : c.isEnabled .vulnerability = d.isEnabled .vulnerability) :
    publication v lookup c rs = publication w lookup d ss := by
  rw [publication, publication, happlied, hshown]

/-! ## Without a window -/

/-- The configuration without bounds. -/
def Config.unbounded (c : Config) : Config := { c with windowStart := none, windowEnd := none }

theorem Config.enabled_ne_nil {c : Config} {w : Window} (h : c.window = .ok w) :
    c.enabled ≠ [] := by
  intro hnil
  simp [window, hnil] at h

theorem Config.window_unbounded {c : Config} {w : Window} (h : c.window = .ok w) :
    c.unbounded.window = .ok .all := by
  simp [window, unbounded, bound, enabled_ne_nil h, Window.all]

/-- The records that apply come to the same digest when they alone are reduced, without a window.
Then none is passed over. A policy record with a bad rule is not among them. -/
theorem reduce_applied {c : Config} {w : Window} (hw : c.window = .ok w) (lookup : Lookup)
    (rs : List Record) :
    let applied := rs.filter fun r => r.Applies w
    ∃ r s, reduce lookup c rs = .ok r ∧ reduce lookup c.unbounded applied = .ok s ∧
      r.outcome.events = s.outcome.events ∧
      r.outcome.lookupFailures = s.outcome.lookupFailures ∧
      r.asked = s.asked ∧
      r.outcome.stats.lookupCalls = s.outcome.stats.lookupCalls ∧
      r.outcome.stats.eventsFiltered = s.outcome.stats.eventsFiltered ∧
      r.outcome.stats.applied = s.outcome.stats.applied ∧
      s.outcome.recordErrors = [] ∧ s.outcome.stats.ignored = 0 ∧
      s.outcome.stats.malformed = 0 ∧ s.outcome.stats.outsideWindow = 0 ∧
      ∀ action n, (∃ rule ∈ n.rules, ¬Record.hasUrl rule.url) → .policy action n ∉ applied := by
  intro applied
  have hall : ∀ r ∈ applied, r.Applies .all := by
    intro r hr
    have hrw : r.Applies w := of_decide_eq_true (List.mem_filter.1 hr).2
    exact hrw.all
  have happlied : appliedRecords w rs = appliedRecords .all applied := by
    rw [appliedRecords_of_applies hall, appliedRecords_eq]
  have hpublication := publication_congr (c := c) (d := c.unbounded) lookup happlied rfl
  refine ⟨_, _, reduce_of_valid lookup rs hw,
    reduce_of_valid lookup applied (Config.window_unbounded hw), ?_⟩
  refine ⟨?_, ?_, ?_, ?_, ?_, ?_, ?_, ?_, ?_, ?_, ?_⟩
  · rw [events_reduceWithin, events_reduceWithin, hpublication]
    rfl
  · rw [lookupFailures_reduceWithin, lookupFailures_reduceWithin, hpublication]
  · simp only [reduceWithin, hpublication]
  · simp only [reduceWithin, hpublication]
  · simp only [reduceWithin, hpublication, happlied]
    rfl
  · simp only [reduceWithin, happlied]
  · exact recordErrors_of_applies hall
  · exact countP_of_applies hall (p := (· == .ignored)) rfl
  · exact countP_of_applies hall (p := Verdict.isMalformed) rfl
  · exact countP_of_applies hall (p := (· == .outside)) rfl
  · rintro action n ⟨rule, hrule, hbad⟩ hmem
    have hcheck := (hall _ hmem).shaped
    obtain ⟨-, -, hurls⟩ := Record.check_policy_eq_ok_iff.1 hcheck
    exact hbad (hurls rule hrule)

/-- Of a violation with one bad rule, a record of an unknown type, a clearance at the end of the
window and one after it, only the clearance at the end applies. -/
theorem reduce_applied_clearance :
    let c : Component := ⟨"p", "1", "c", "2", "/pv/1", "/cv/1"⟩
    let bad : Record := .policy .violate ⟨"2026-02-10T00:00:00Z", c, [⟨"A", "/r"⟩, ⟨"B", " "⟩]⟩
    let atEnd : Record := .policy .clear ⟨"2026-02-10T01:00:00+01:00", c, [⟨"A", "/r"⟩]⟩
    let late : Record := .policy .clear ⟨"2026-02-10T00:00:01Z", c, [⟨"A", "/r"⟩]⟩
    let config : Config := ⟨Category.all, none, some "2026-02-10T00:00:00Z"⟩
    let w : Window := ⟨none, some ⟨1770681600000000000, 0⟩⟩
    let rs : List Record := [bad, .other, atEnd, late]
    let lookup : Lookup := fun _ => .ok ⟨[]⟩
    config.window = .ok w ∧ rs.filter (fun r => r.Applies w) = [atEnd] ∧
    ∃ r s, reduce lookup config rs = .ok r ∧ reduce lookup config.unbounded [atEnd] = .ok s ∧
      r.outcome.events = s.outcome.events ∧ s.outcome.recordErrors = [] := by
  intro c bad atEnd late config w rs lookup
  have hw : config.window = .ok w := by decide +kernel
  have happlied : rs.filter (fun r => r.Applies w) = [atEnd] := by decide +kernel
  obtain ⟨r, s, hr, hs, hevents, -, -, -, -, -, herrors, -⟩ := reduce_applied hw lookup rs
  rw [happlied] at hs
  exact ⟨hw, happlied, r, s, hr, hs, hevents, herrors⟩

end ScanDigest
