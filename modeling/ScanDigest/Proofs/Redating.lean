import Mathlib.Data.List.Forall2
import ScanDigest.Proofs.Nameless

/-!
# Timestamps let records in, and do no more

A window tells two timestamps apart only if one can be read and the other cannot, or if one instant
lies in it and the other does not (`Window.Alike`). Records that differ at most in timestamps that
are alike get verdicts that differ at most in the defect (`Record.Redated.verdict`), and they do the
same to a board and to a tracker. So batches of such records have the same outcome, however their
records are dated (`reduce_redated`): no record is put before another for its time.
-/

set_option autoImplicit false

namespace ScanDigest

/-! ## Timestamps and records -/

namespace Window

/-- The instant is one of the window; both ends are. -/
def Spans (w : Window) (t : Timestamp) : Prop :=
  (∀ s, w.start = some s → s ≤ t) ∧ ∀ e, w.stop = some e → t ≤ e

instance (w : Window) (t : Timestamp) : Decidable (w.Spans t) :=
  decidable_of_iff (w.contains t) contains_iff

/-- Two texts that a window does not tell apart as timestamps: none can be read, or both can, and both
instants are in it or none is. -/
inductive Alike (w : Window) (a b : String) : Prop
  | unreadable {f g : Time.Fault} (left : Time.parse a = .error f) (right : Time.parse b = .error g)
  | readable {s t : Timestamp} (left : Time.parse a = .ok s) (right : Time.parse b = .ok t)
      (same : w.Spans s ↔ w.Spans t)

end Window

/-- Two records that differ at most in their timestamps, which the window does not tell apart. -/
inductive Record.Redated (w : Window) : Record → Record → Prop
  | policy {action : PolicyAction} {a b : String} {component : Component} {rules : List PolicyRule}
      (times : w.Alike a b) :
      Redated w (.policy action ⟨a, component, rules⟩) (.policy action ⟨b, component, rules⟩)
  | delta {a b : String} {component : Component} {added updated deleted : List VulnerabilityId}
      (times : w.Alike a b) :
      Redated w (.delta ⟨a, component, added, updated, deleted⟩)
        (.delta ⟨b, component, added, updated, deleted⟩)
  | other : Redated w .other .other

/-! ## Verdicts -/

/-- Two verdicts that differ at most in the defect. -/
inductive Verdict.Alike : Verdict → Verdict → Prop
  | refl (v : Verdict) : Alike v v
  | malformed (d e : Defect) : Alike (.malformed d) (.malformed e)

/-- What does not look at a defect does not tell such verdicts apart. -/
theorem Verdict.Alike.congr {u v : Verdict} (h : u.Alike v) {p : Verdict → Bool}
    (hp : ∀ d e, p (.malformed d) = p (.malformed e)) : p u = p v := by
  cases h with
  | refl => rfl
  | malformed d e => exact hp d e

namespace Record

variable {w : Window} {r s : Record} {a b : String}

/-- The shape of a record is looked at first, then its timestamp, then the window. -/
theorem verdict_of_timestamp (h : r.timestamp? = some a) (w : Window) : r.verdict w =
    match r.check, Time.parse a with
    | .error d, _ => .malformed d
    | .ok (), .error f => .malformed (.badTimestamp a f)
    | .ok (), .ok t => if w.contains t then .applied else .outside := by
  have hknown : r ≠ .other := by
    rintro rfl
    cases h
  rw [verdict_of_known hknown, effective, h]
  dsimp only [Option.getD_some]
  cases r.check with
  | error d => rfl
  | ok u => cases Time.parse a <;> rfl

theorem verdict_alike (hr : r.timestamp? = some a) (hs : s.timestamp? = some b)
    (hcheck : r.check = s.check) (htimes : w.Alike a b) : (r.verdict w).Alike (s.verdict w) := by
  rw [verdict_of_timestamp hr, verdict_of_timestamp hs, hcheck]
  cases s.check with
  | error d => exact .refl _
  | ok u =>
    cases htimes with
    | unreadable left right =>
      rw [left, right]
      exact .malformed _ _
    | @readable t t' left right same =>
      have hcontains : w.contains t = w.contains t' := by
        rw [Bool.eq_iff_iff, Window.contains_iff, Window.contains_iff]
        exact same
      rw [left, right]
      simp only [hcontains]
      exact .refl _

namespace Redated

theorem verdict (h : r.Redated w s) : (r.verdict w).Alike (s.verdict w) := by
  cases h with
  | policy times => exact verdict_alike rfl rfl rfl times
  | delta times => exact verdict_alike rfl rfl rfl times
  | other => exact .refl _

theorem kind (h : r.Redated w s) : r.kind = s.kind := by
  cases h <;> rfl

/-- A board takes no notice of timestamps. -/
theorem board (h : r.Redated w s) (b : PolicyBoard) : b.apply r = b.apply s := by
  cases h <;> rfl

/-- Nor does a tracker. -/
theorem tracker (h : r.Redated w s) (t : Tracker) : t.apply r = t.apply s := by
  cases h <;> rfl

/-- A record error of the one is one of the other, but for the reason. -/
theorem place (h : r.Redated w s) (i : Nat) :
    (recordError? w (r, i)).map RecordError.place = (recordError? w (s, i)).map RecordError.place := by
  have hverdict := h.verdict
  simp only [recordError?, h.kind]
  generalize r.verdict w = u at hverdict ⊢
  generalize s.verdict w = v at hverdict ⊢
  cases hverdict with
  | refl => rfl
  | malformed d e => rfl

end Redated

end Record

/-! ## Batches -/

section

variable {w : Window} {rs ss : List Record} (h : List.Forall₂ (Record.Redated w) rs ss)
include h

theorem filter_redated {p : Verdict → Bool} (hp : ∀ d e, p (.malformed d) = p (.malformed e)) :
    List.Forall₂ (Record.Redated w) (rs.filter fun r => p (r.verdict w))
      (ss.filter fun r => p (r.verdict w)) :=
  List.rel_filter (fun _ _ hr => Iff.of_eq (congrArg (· = true) (hr.verdict.congr hp))) h

theorem countP_redated {p : Verdict → Bool} (hp : ∀ d e, p (.malformed d) = p (.malformed e)) :
    rs.countP (fun r => p (r.verdict w)) = ss.countP fun r => p (r.verdict w) := by
  rw [List.countP_eq_length_filter, List.countP_eq_length_filter, (filter_redated h hp).length_eq]

theorem appliedRecords_redated :
    List.Forall₂ (Record.Redated w) (appliedRecords w rs) (appliedRecords w ss) :=
  filter_redated h (p := (· == .applied)) fun _ _ => rfl

theorem policyBoard_redated : policyBoard rs = policyBoard ss := by
  refine List.rel_foldl (P := Eq) ?_ rfl h
  rintro b _ rfl r s hr
  exact hr.board b

theorem tracker_redated : tracker rs = tracker ss := by
  refine List.rel_foldl (P := Eq) ?_ rfl h
  rintro t _ rfl r s hr
  exact hr.tracker t

theorem publication_redated (lookup : Lookup) (c : Config) :
    publication w lookup c rs = publication w lookup c ss := by
  have happlied := appliedRecords_redated h
  simp only [publication, policyBoard_redated happlied, tracker_redated happlied]

theorem places_redated (n : Nat) :
    ((rs.zipIdx n).filterMap (recordError? w)).map RecordError.place =
      ((ss.zipIdx n).filterMap (recordError? w)).map RecordError.place := by
  rw [List.map_filterMap, List.map_filterMap]
  induction h generalizing n with
  | nil => rfl
  | cons hr _ ih =>
    rw [List.zipIdx_cons, List.zipIdx_cons, List.filterMap_cons, List.filterMap_cons, hr.place n,
      ih (n + 1)]

theorem stats_redated (lookup : Lookup) (c : Config) :
    (reduceWithin w lookup c rs).outcome.stats = (reduceWithin w lookup c ss).outcome.stats := by
  have happlied := appliedRecords_redated h
  have hignored := countP_redated h (p := (· == .ignored)) fun _ _ => rfl
  have hmalformed := countP_redated h (p := Verdict.isMalformed) fun _ _ => rfl
  have houtside := countP_redated h (p := (· == .outside)) fun _ _ => rfl
  simp only [reduceWithin, publication_redated h, tracker_redated happlied, hignored, hmalformed,
    houtside, happlied.length_eq, h.length_eq]

end

/-- **Timestamps only decide which records apply**: batches that differ in timestamps only, none of
which the window tells apart, come to the same events, lookup failures and counts, and to record
errors at the same places. -/
theorem reduce_redated {c : Config} {w : Window} (hw : c.window = .ok w) (lookup : Lookup)
    {rs ss : List Record} (h : List.Forall₂ (Record.Redated w) rs ss) :
    ∃ r s, reduce lookup c rs = .ok r ∧ reduce lookup c ss = .ok s ∧
      r.outcome.events = s.outcome.events ∧
      r.outcome.lookupFailures = s.outcome.lookupFailures ∧
      r.outcome.stats = s.outcome.stats ∧
      r.asked = s.asked ∧
      r.outcome.recordErrors.map RecordError.place =
        s.outcome.recordErrors.map RecordError.place := by
  have hpublication := publication_redated h lookup c
  refine ⟨_, _, reduce_of_valid lookup rs hw, reduce_of_valid lookup ss hw, ?_, ?_, ?_, ?_, ?_⟩
  · rw [events_reduceWithin, events_reduceWithin, hpublication]
  · rw [lookupFailures_reduceWithin, lookupFailures_reduceWithin, hpublication]
  · exact stats_redated h lookup c
  · simp only [reduceWithin, hpublication]
  · exact places_redated h 0

/-- A clearance that comes after a violation in the batch takes it away, although it is dated before
it in the one batch, in another time zone, and after it in the other; a delta at no time stays one,
and an override after the end of the window stays after it. -/
theorem reduce_redated_backwards :
    let c : Component := ⟨"p", "1", "c", "2", "/pv/1", "/cv/1"⟩
    let rules : List PolicyRule := [⟨"A", "/r"⟩]
    let batch (violated cleared added overridden : String) : List Record :=
      [.policy .violate ⟨violated, c, rules⟩, .policy .clear ⟨cleared, c, rules⟩,
        .delta ⟨added, c, [⟨"NVD", "A"⟩], [], []⟩, .policy .override ⟨overridden, c, rules⟩]
    let rs := batch "2026-02-10T00:00:00Z" "2026-02-10T00:30:00+01:00" "soon" "2026-02-11T00:00:00Z"
    let ss := batch "2026-02-08T00:00:00Z" "2026-02-09T00:00:00Z" "" "2026-02-10T00:00:01Z"
    let config : Config := ⟨Category.all, none, some "2026-02-10T00:00:00Z"⟩
    let w : Window := ⟨none, some ⟨1770681600000000000, 0⟩⟩
    let lookup : Lookup := fun _ => .ok ⟨[]⟩
    config.window = .ok w ∧ List.Forall₂ (Record.Redated w) rs ss ∧
    ∃ r s, reduce lookup config rs = .ok r ∧ reduce lookup config ss = .ok s ∧
      r.outcome.events = s.outcome.events ∧ r.outcome.stats = s.outcome.stats := by
  intro c rules batch rs ss config w lookup
  have hw : config.window = .ok w := by decide +kernel
  have hviolated : w.Alike "2026-02-10T00:00:00Z" "2026-02-08T00:00:00Z" :=
    .readable rfl rfl (by decide)
  have hcleared : w.Alike "2026-02-10T00:30:00+01:00" "2026-02-09T00:00:00Z" :=
    .readable rfl rfl (by decide)
  have hadded : w.Alike "soon" "" := .unreadable rfl rfl
  have hoverridden : w.Alike "2026-02-11T00:00:00Z" "2026-02-10T00:00:01Z" :=
    .readable rfl rfl (by decide)
  have h : List.Forall₂ (Record.Redated w) rs ss :=
    .cons (.policy hviolated) <| .cons (.policy hcleared) <| .cons (.delta hadded) <|
      .cons (.policy hoverridden) .nil
  obtain ⟨r, s, hr, hs, hevents, -, hstats, -⟩ := reduce_redated hw lookup h
  exact ⟨hw, h, r, s, hr, hs, hevents, hstats⟩

end ScanDigest
