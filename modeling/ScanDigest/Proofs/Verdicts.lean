import ScanDigest.Digest.Reduction
import ScanDigest.Proofs.Guards

/-!
# Verdicts

`Record.Applies w r`: the type of `r` is known, it has the shape that its type promises, and its
timestamp is an instant of the window `w`. `Record.Malformed r`: its type is known, but it lacks the
shape or the instant. The verdict on a record says just that (`Record.verdict_eq_applied_iff`,
`Record.isMalformed_verdict_iff`), so what is reduced of a batch is the part of it that applies
(`appliedRecords_eq`).
-/

set_option autoImplicit false

namespace ScanDigest

theorem Window.contains_iff {w : Window} {t : Timestamp} : w.contains t ↔
    (∀ s, w.start = some s → s ≤ t) ∧ ∀ e, w.stop = some e → t ≤ e := by
  obtain ⟨start, stop⟩ := w
  cases start <;> cases stop <;> simp [contains]

namespace Record

/-- A record of a known type, well formed, at an instant within a window. Both ends of the window
are in it. -/
structure Applies (w : Window) (r : Record) : Prop where
  known : r ≠ .other
  shaped : r.check = .ok ()
  within : ∃ text t, r.timestamp? = some text ∧ Time.parse text = .ok t ∧
    (∀ s, w.start = some s → s ≤ t) ∧ ∀ e, w.stop = some e → t ≤ e

/-- A record of a known type without the shape of it, or without a timestamp that can be read. -/
def Malformed (r : Record) : Prop :=
  r ≠ .other ∧ ((∃ d, r.check = .error d) ∨
    ∃ text fault, r.timestamp? = some text ∧ Time.parse text = .error fault)

/-! ## Checks -/

/-- A policy record has its shape if its component and all its rules are identified. -/
theorem check_policy_eq_ok_iff {action : PolicyAction} {n : PolicyNotice} :
    check (.policy action n) = .ok () ↔
      checkComponent n.component = .ok () ∧ n.rules ≠ [] ∧ ∀ rule ∈ n.rules, hasUrl rule.url := by
  cases hf : n.rules.find? fun rule => !hasUrl rule.url with
  | none =>
    have hall : ∀ rule ∈ n.rules, hasUrl rule.url := by simpa using hf
    simpa [check, hf] using fun _ _ => hall
  | some bad =>
    have hbad : ¬∀ rule ∈ n.rules, hasUrl rule.url := by
      intro hall
      have hurl := List.find?_some hf
      simp [hall bad (List.mem_of_find?_eq_some hf)] at hurl
    simp [check, hf, hbad]

/-- A record is effective if it has its shape and a timestamp that can be read. -/
theorem effective_eq_ok_iff {r : Record} {text : String} (h : r.timestamp? = some text)
    {t : Timestamp} : r.effective = .ok t ↔ r.check = .ok () ∧ Time.parse text = .ok t := by
  cases hp : Time.parse text <;> simp [effective, h, hp]

theorem timestamp?_of_known {r : Record} (h : r ≠ .other) : ∃ text, r.timestamp? = some text := by
  cases r with
  | policy action n => exact ⟨n.timestamp, rfl⟩
  | delta d => exact ⟨d.timestamp, rfl⟩
  | other => exact absurd rfl h

/-! ## Verdicts -/

theorem verdict_of_known {r : Record} (h : r ≠ .other) (w : Window) : r.verdict w =
    match r.effective with
    | .error d => .malformed d
    | .ok t => if w.contains t then .applied else .outside := by
  cases r with
  | policy action n => rfl
  | delta d => rfl
  | other => exact absurd rfl h

theorem verdict_eq_applied_iff {w : Window} {r : Record} :
    r.verdict w = .applied ↔ r.Applies w := by
  by_cases hr : r = .other
  · subst hr
    exact iff_of_false nofun fun h => h.known rfl
  obtain ⟨text, htext⟩ := timestamp?_of_known hr
  rw [verdict_of_known hr]
  constructor
  · intro h
    split at h
    · cases h
    · rename_i t ht
      split at h
      · rename_i hw
        obtain ⟨hcheck, hparse⟩ := (effective_eq_ok_iff htext).1 ht
        exact ⟨hr, hcheck, text, t, htext, hparse, Window.contains_iff.1 hw⟩
      · cases h
  · rintro ⟨-, hcheck, text', t, htext', hparse, hw⟩
    obtain rfl : text = text' := Option.some_inj.1 (htext.symm.trans htext')
    rw [(effective_eq_ok_iff htext).2 ⟨hcheck, hparse⟩]
    exact if_pos (Window.contains_iff.2 hw)

theorem isMalformed_verdict_iff {w : Window} {r : Record} :
    (r.verdict w).isMalformed ↔ r.Malformed := by
  by_cases hr : r = .other
  · subst hr
    exact iff_of_false Bool.false_ne_true fun h => h.1 rfl
  obtain ⟨text, htext⟩ := timestamp?_of_known hr
  rw [verdict_of_known hr]
  cases heff : r.effective with
  | ok t =>
    obtain ⟨hcheck, hparse⟩ := (effective_eq_ok_iff htext).1 heff
    refine iff_of_false ?_ ?_
    · show ¬(if w.contains t then Verdict.applied else .outside).isMalformed
      split <;> exact Bool.false_ne_true
    · rintro ⟨-, ⟨d, hd⟩ | ⟨text', fault, htext', hfault⟩⟩
      · cases hcheck.symm.trans hd
      · obtain rfl : text = text' := Option.some_inj.1 (htext.symm.trans htext')
        cases hparse.symm.trans hfault
  | error d =>
    refine iff_of_true rfl ⟨hr, ?_⟩
    cases hcheck : r.check with
    | error d => exact .inl ⟨d, rfl⟩
    | ok u =>
      cases hparse : Time.parse text with
      | error fault => exact .inr ⟨text, fault, htext, hparse⟩
      | ok t => cases heff.symm.trans ((effective_eq_ok_iff htext).2 ⟨hcheck, hparse⟩)

instance (w : Window) (r : Record) : Decidable (r.Applies w) :=
  decidable_of_iff (r.verdict w = .applied) verdict_eq_applied_iff

namespace Applies

variable {w : Window} {r : Record}

/-- What applies within some window applies without one. -/
theorem all (h : r.Applies w) : r.Applies .all := by
  obtain ⟨text, t, htext, hparse, -⟩ := h.within
  exact ⟨h.known, h.shaped, text, t, htext, hparse, nofun, nofun⟩

end Applies

end Record

/-! ## The part of a batch that applies -/

theorem appliedRecords_eq (w : Window) (rs : List Record) :
    appliedRecords w rs = rs.filter fun r => r.Applies w := by
  refine List.filter_congr fun r _ => ?_
  rw [Bool.eq_iff_iff, beq_iff_eq, decide_eq_true_iff, Record.verdict_eq_applied_iff]

end ScanDigest
