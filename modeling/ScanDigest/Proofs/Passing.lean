import ScanDigest.Json.Skip
import ScanDigest.Proofs.Items

/-!
# A value that can be read can be passed over

Passing over a value takes up as much of the text as reading it does (`run_pass_of_value`): numerals
digit by digit, strings escape by escape, brackets by those that are still open
(`passValue_of_value`). Passing over is less strict, so the converse does not hold.
-/

set_option autoImplicit false

namespace ScanDigest.Json

open Reader

variable {α : Type} {s t r : Text}

/-! ## Numerals -/

theorem run_passDigits {ds : List Nat} (h : someDigits.run s = .ok (ds, r)) :
    passDigits.run s = .ok (ds, r) := by
  simp only [someDigits, passDigits, run_bind, run_left, digits] at h ⊢
  split at h
  · cases h
  · rw [if_neg ‹_›]
    exact h

theorem rest_of_scaled {negative : Bool} {m : Nat} {e : Int} {n : Number}
    (h : (scaled negative m e).run s = .ok (n, r)) : r = s := by
  unfold scaled at h
  split at h
  · cases h
    rfl
  · cases h

theorem exists_run_exponent {negative : Bool} {m : Nat} {e : Int} {n : Number}
    (h : (exponent negative m e).run s = .ok (n, r)) :
    ∃ down t ds, exponentSign.run s = .ok (down, t) ∧ someDigits.run t = .ok (ds, r) := by
  obtain ⟨down, t, hsign, h⟩ := run_bind_eq_ok_iff.mp h
  obtain ⟨ds, t', hdigits, h⟩ := run_bind_eq_ok_iff.mp h
  dsimp only at h
  split at h
  · rw [rest_of_scaled h]
    exact ⟨down, t, ds, hsign, hdigits⟩
  · split at h
    · cases h
    · cases h
      exact ⟨down, t, ds, hsign, hdigits⟩

theorem run_passExponent_of_exponent {negative : Bool} {m : Nat} {e : Int} {n : Number} {c : Char}
    (hc : c = 'e' ∨ c = 'E') (h : (exponent negative m e).run s = .ok (n, r)) :
    passExponent.run (.char c :: s) = .ok ((), r) := by
  obtain ⟨down, t, ds, hsign, hdigits⟩ := exists_run_exponent h
  rcases hc with rfl | rfl <;>
    simp only [passExponent, run_bind, run_left, run_skip, List.tail_cons, hsign,
      run_passDigits hdigits, run_pure]

theorem run_passExponent_of_other (he : ∀ t, s ≠ .char 'e' :: t) (hE : ∀ t, s ≠ .char 'E' :: t) :
    passExponent.run s = .ok ((), s) := by
  simp only [passExponent, run_bind, run_left]
  rfl

theorem run_passExponent {negative : Bool} {m : Nat} {e : Int} {n : Number}
    (h : (exponent? negative m e).run s = .ok (n, r)) : passExponent.run s = .ok ((), r) := by
  simp only [exponent?, run_bind, run_left] at h
  split at h
  · exact run_passExponent_of_exponent (.inl rfl) h
  · exact run_passExponent_of_exponent (.inr rfl) h
  · rename_i he hE
    rw [rest_of_scaled h]
    exact run_passExponent_of_other he hE

theorem exists_run_fraction {negative : Bool} {m : Nat} {e : Int} {n : Number}
    (h : (fraction negative m e).run s = .ok (n, r)) :
    ∃ ds t m' e', someDigits.run s = .ok (ds, t) ∧ (exponent? negative m' e').run t = .ok (n, r) := by
  obtain ⟨ds, t, hdigits, h⟩ := run_bind_eq_ok_iff.mp h
  exact ⟨ds, t, _, _, hdigits, h⟩

theorem run_passNumeral {negative : Bool} {n : Number} (h : (numeral negative).run s = .ok (n, r)) :
    passNumeral.run s = .ok ((), r) := by
  obtain ⟨_, _, hleft, h⟩ := run_bind_eq_ok_iff.mp h
  cases hleft
  obtain ⟨ds, t, hdigits, h⟩ := run_bind_eq_ok_iff.mp h
  simp only [passNumeral, run_bind, run_left, run_passDigits hdigits]
  split at h
  · cases h
  · simp only [run_bind, run_left] at h ⊢
    split at h
    · obtain ⟨ds, t, m, e, hfraction, h⟩ := exists_run_fraction h
      rw [List.tail_cons] at hfraction
      simp only [run_bind, run_skip, List.tail_cons, run_passDigits hfraction, run_passExponent h]
    · exact run_passExponent_of_exponent (.inl rfl) h
    · exact run_passExponent_of_exponent (.inr rfl) h
    · rename_i hpoint he hE
      have hrest : r = t := by
        split at h
        · cases h
          rfl
        · exact rest_of_scaled h
      split
      · exact absurd rfl (hpoint _)
      · rw [hrest]
        exact run_passExponent_of_other he hE

/-! ## Strings -/

theorem passQuoted_close (t : Text) : passQuoted (.char '"' :: t) = .ok ((), t) := by
  rw [passQuoted]
  simp

theorem passQuoted_of_pass (h : passEscape.run s = .ok ((), t)) :
    passQuoted (.char '\\' :: s) = passQuoted t := by
  rw [passQuoted]
  simp only [Glyph.char.injEq, Char.reduceEq, ↓reduceIte]
  split
  · rename_i e he
    rw [h] at he
    cases he
  · rename_i t' he
    rw [h] at he
    cases he
    rfl

theorem passQuoted_of_plain {g : Glyph} (hq : g ≠ .char '"') (hb : g ≠ .char '\\')
    (hc : ¬isControl g) (t : Text) : passQuoted (g :: t) = passQuoted t := by
  rw [passQuoted]
  simp [hq, hb, hc]

theorem passQuoted_of_unit {n : Nat} (h : hexUnit.run s = .ok (n, t)) :
    passQuoted (.char '\\' :: .char 'u' :: s) = passQuoted t := by
  apply passQuoted_of_pass
  simp only [passEscape, run_bind, run_left, run_skip, List.tail_cons, ↓reduceIte, h, run_pure]

theorem run_insidePair_eq_ok {c : Char} {u : Unit} (h : (insidePair c).run s = .ok (u, t)) :
    s = .char c :: t := by
  simp only [insidePair, run_bind, run_left] at h
  split at h
  · cases h
  · split at h
    · rename_i hg
      cases h
      rw [hg]
      rfl
    · cases h

/-- A pair of surrogates is two escapes to who passes over it. -/
theorem passQuoted_of_codePoint {c : Char} (h : codePoint.run s = .ok (c, t)) :
    passQuoted (.char '\\' :: .char 'u' :: s) = passQuoted t := by
  obtain ⟨high, t₁, hhigh, h⟩ := run_bind_eq_ok_iff.mp h
  rw [passQuoted_of_unit hhigh]
  split at h
  · cases h
  · split at h
    · obtain ⟨_, t₂, hbackslash, h⟩ := run_bind_eq_ok_iff.mp h
      obtain ⟨_, t₃, hu, h⟩ := run_bind_eq_ok_iff.mp h
      obtain ⟨low, t₄, hlow, h⟩ := run_bind_eq_ok_iff.mp h
      have ht : t = t₄ := by
        split at h
        · rw [run_pure] at h
          exact (Prod.mk.inj (Except.ok.inj h)).2.symm
        · cases h
      obtain rfl := run_insidePair_eq_ok hbackslash
      obtain rfl := run_insidePair_eq_ok hu
      rw [ht]
      exact passQuoted_of_unit hlow
    · cases h
      rfl

theorem passQuoted_of_escape {c : Char} (h : escape.run s = .ok (c, t)) :
    passQuoted (.char '\\' :: s) = passQuoted t := by
  simp only [escape, run_bind, run_left] at h
  split at h
  · cases h
  · rename_i g s
    simp only [run_bind, run_skip, List.tail_cons] at h
    split at h
    · rename_i hg
      rw [hg]
      exact passQuoted_of_codePoint h
    · rename_i hg
      apply passQuoted_of_pass
      split at h
      · rename_i hshort
        cases h
        simp [passEscape, hg, hshort]
      · cases h

theorem passQuoted_of_unquote {read : Text} {q : Text} (h : unquote read s = .ok (q, r)) :
    passQuoted s = .ok ((), r) := by
  fun_induction unquote read s with
  | case1 | case3 | case5 => cases h
  | case2 read r =>
    cases h
    exact passQuoted_close r
  | case4 read s c t he _ ih => exact (passQuoted_of_escape he).trans (ih h)
  | case6 read g s hq hb hc ih => exact (passQuoted_of_plain hq hb hc s).trans (ih h)

theorem run_passString {v : String} (h : quotation.run s = .ok (v, r)) :
    passString.run s = .ok ((), r) := by
  obtain ⟨q, t, hq, h⟩ := run_bind_eq_ok_iff.mp h
  have hrest : r = t := by
    split at h <;> cases h
    rfl
  rw [hrest]
  exact passQuoted_of_unquote hq

/-! ## Scalars -/

theorem run_passScalar {g : Glyph} {scalar : Reader Json} {j : Json}
    (hscalar : scalar? g = some scalar) (hrun : scalar.run (g :: t) = .ok (j, r)) :
    (passScalar g).run (g :: t) = .ok ((), r) := by
  cases scalarAt hscalar hrun with
  | str hv => exact run_passString hv
  | negative hn => exact run_passNumeral hn
  | number hdigit hn =>
    rename_i c _
    have hquote : c ≠ '"' := by
      rintro rfl
      exact absurd hdigit (by decide)
    have hminus : c ≠ '-' := by
      rintro rfl
      exact absurd hdigit (by decide)
    simp [passScalar, hquote, hminus, digit?, hdigit, run_passNumeral hn]
  | null => simp [passScalar, digit?, hscalar, hrun]
  | bool b letter => rcases letter with rfl | rfl <;> simp [passScalar, digit?, hscalar, hrun]

theorem opens?_of_scalar? {g : Glyph} {scalar : Reader Json} (h : scalar? g = some scalar) :
    opens? g = none := by
  unfold opens?
  split
  · subst g
    cases h
  · split
    · subst g
      cases h
    · rfl

/-! ## Brackets -/

section Steps

variable {b : Brackets} {opened : List Brackets}

theorem passValue_of_open (h : passHead.run s = .ok (some b, t)) :
    passValue opened s = passValue (b :: opened) t := by
  rw [passValue]
  split <;> rename_i h' <;> rw [h] at h' <;> cases h'
  rfl

theorem passValue_of_done (h : passHead.run s = .ok (none, t)) :
    passValue opened s = passRest opened t := by
  rw [passValue]
  split <;> rename_i h' <;> rw [h] at h' <;> cases h'
  rfl

theorem passRest_of_more (h : (passSeparator b).run s = .ok (true, t)) :
    passRest (b :: opened) s = passValue (b :: opened) t := by
  rw [passRest]
  split <;> rename_i h' <;> rw [h] at h' <;> cases h'
  rfl

theorem passRest_of_close (h : (passSeparator b).run s = .ok (false, t)) :
    passRest (b :: opened) s = passRest opened t := by
  rw [passRest]
  split <;> rename_i h' <;> rw [h] at h' <;> cases h'
  rfl

/-- White space before a value that is passed over does not count. -/
theorem passValue_trimSpace (opened : List Brackets) (s : Text) :
    passValue opened (trimSpace s) = passValue opened s := by
  have hhead : passHead.run (trimSpace s) = passHead.run s := by
    simp only [passHead, run_bind, run_space, trimSpace_trimSpace]
  rw [passValue, passValue, hhead]

end Steps

/-! ## Items -/

theorem exists_run_key {k : String} (h : key.run s = .ok (k, r)) :
    ∃ t, s = .char '"' :: t ∧ quotation.run t = .ok (k, r) := by
  simp only [key, run_bind, run_left] at h
  split at h
  · rename_i t
    exact ⟨t, rfl, h⟩
  · cases h

theorem run_passKey_list (s : Text) : (passKey .list).run s = .ok ((), s) := rfl

theorem run_passKey_object {k : String} (hkey : key.run (trimSpace s) = .ok (k, t))
    (hcolon : colon.run t = .ok ((), r)) : (passKey .object).run s = .ok ((), r) := by
  obtain ⟨q, hs, hq⟩ := exists_run_key hkey
  simp only [passKey, Brackets.object, ↓reduceIte, run_bind, run_space, run_left, hs, run_skip,
    List.tail_cons, run_passString hq, hcolon]

/-- An item is passed over together with its key. -/
def PassedIn (b : Brackets) (x : Reader α) : Prop :=
  ∀ ⦃s t a⦄, x.run (trimSpace s) = .ok (a, t) → ∃ s', (passKey b).run s = .ok ((), s') ∧
    ∀ opened, passValue opened s' = passRest opened t

namespace PassedIn

variable {b : Brackets} {x : Reader α} {as : List α}

theorem passRest_of_items (hx : PassedIn b x) (h : Items b x false s as r) (opened : List Brackets) :
    passRest (b :: opened) s = passRest opened r := by
  generalize hfirst : false = first at h
  induction h with
  | close ends =>
    obtain ⟨hs, -⟩ := another_eq_false ends
    exact passRest_of_close (by simp [passSeparator, hs])
  | @item _ s s' t r a as more read _ ih =>
    subst hfirst
    obtain ⟨u, hs, hcomma, rfl⟩ := trimSpace_of_another_comma more
    obtain ⟨v, hkey, hvalue⟩ := hx read
    have hseparator : (passSeparator b).run s = .ok (true, v) := by
      simp [passSeparator, hs, hcomma, hkey]
    rw [passRest_of_more hseparator, hvalue, ih rfl]

theorem passValue_of_items (hx : PassedIn b x) (hhead : passHead.run s = (passOpening b).run t)
    (h : Items b x true t as r) (opened : List Brackets) :
    passValue opened s = passRest opened r := by
  cases h with
  | close ends =>
    obtain ⟨ht, -⟩ := another_eq_false ends
    exact passValue_of_done (hhead.trans (by simp [passOpening, ht]))
  | @item _ _ s' t' _ a as more read rest =>
    obtain ⟨ht, g, u, rfl, hg⟩ := trimSpace_of_another_first more
    rw [← ht, ← trimSpace_trimSpace] at read
    obtain ⟨v, hkey, hvalue⟩ := hx read
    have hopening : (passOpening b).run t = .ok (some b, v) := by
      rw [ht] at hkey
      simp [passOpening, ht, hg, hkey]
    rw [passValue_of_open (hhead.trans hopening), hvalue, hx.passRest_of_items rest]

end PassedIn

/-! ## Values -/

/-- What follows a value is what follows it when it is passed over. -/
theorem passValue_of_value {d : Nat} {j : Json} (h : (value d).run s = .ok (j, r))
    (opened : List Brackets) : passValue opened s = passRest opened r := by
  -- an item is a value of less depth, passed over with one more pair of brackets open
  induction d using Nat.strongRecOn generalizing s j r opened with
  | ind d ih =>
    rcases run_value_eq_ok_iff.mp h with ⟨e, t, items, rfl, ht, hitems, rfl⟩ |
      ⟨e, t, ms, rfl, ht, hms, rfl⟩ | ⟨g, t, scalar, ht, hscalar, hrun⟩
    · have hhead : passHead.run s = (passOpening .list).run t := by
        simp [passHead, ht, opens?]
      refine PassedIn.passValue_of_items (fun s t j hread => ?_) hhead hitems opened
      refine ⟨s, run_passKey_list s, fun opened => ?_⟩
      rw [← passValue_trimSpace]
      exact ih e (Nat.lt_succ_self e) hread opened
    · have hhead : passHead.run s = (passOpening .object).run t := by
        simp [passHead, ht, opens?]
      refine PassedIn.passValue_of_items (fun s t m hread => ?_) hhead hms opened
      obtain ⟨s', s'', hkey, hcolon, hvalue⟩ := run_member_eq_ok_iff.mp hread
      exact ⟨s'', run_passKey_object hkey hcolon, ih e (Nat.lt_succ_self e) hvalue⟩
    · refine passValue_of_done ?_
      simp [passHead, ht, opens?_of_scalar? hscalar, run_passScalar hscalar hrun]

/-- **A value that can be read can be passed over.** -/
theorem run_pass_of_value {d : Nat} {j : Json} (h : (value d).run s = .ok (j, r)) :
    pass.run s = .ok ((), r) := by
  have hrest : passRest [] r = .ok ((), r) := by rw [passRest]
  exact (passValue_of_value h []).trans hrest

end ScanDigest.Json
