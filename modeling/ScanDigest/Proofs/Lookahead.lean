import ScanDigest.Proofs.Scalars

/-!
# How far readers look

A reader of documents looks at what it takes and at one glyph after it (`Reader.LocalAt`): in front
of another rest that starts alike it takes the same value. At the end of a text, a separator or a
closing bracket may stand for the end as well (`Replaces`). `local_value` says so of any value.
-/

set_option autoImplicit false

namespace ScanDigest.Json

/-- A separator or a closing bracket comes first. -/
def Stops (u : Text) : Prop := ∃ c t, u = .char c :: t ∧ (c = ',' ∨ c = ']' ∨ c = '}')

/-- A text that may stand in the place of the rest `r`: it starts with the same glyph, or `r` was the
end and the text goes on with a separator or a closing bracket. -/
def Replaces (u r : Text) : Prop := u.head? = r.head? ∨ r = [] ∧ Stops u

theorem Replaces.append {u r : Text} (h : Replaces u r) (cs : Text) :
    Replaces (cs ++ u) (cs ++ r) := by
  cases cs with
  | nil => exact h
  | cons c cs => exact .inl rfl

theorem replaces_cons_iff {u r : Text} {g : Glyph} :
    Replaces u (g :: r) ↔ ∃ t, u = g :: t := by
  cases u <;> simp [Replaces]

theorem replaces_nil_iff {u : Text} : Replaces u [] ↔ u = [] ∨ Stops u := by
  simp [Replaces]

/-- What may follow goes on with no glyph of a kind that did not follow before. -/
theorem Replaces.head_eq_false {p : Glyph → Bool}
    (hp : ∀ c, c = ',' ∨ c = ']' ∨ c = '}' → p (.char c) = false) {u r : Text} (h : Replaces u r) (hr : ∀ g, r.head? = some g → p g = false) :
    ∀ g, u.head? = some g → p g = false := by
  rcases h with h | ⟨-, c, t, rfl, hc⟩
  · rwa [h]
  · rintro g ⟨rfl⟩
    exact hp c hc

namespace Reader

variable {α β : Type}

/-- What the reader makes of `s` it makes of any text that starts with the glyphs it takes and goes
on alike. -/
def LocalAt (x : Reader α) (s : Text) : Prop :=
  ∀ ⦃a r⦄, x.run s = .ok (a, r) →
    ∃ cs, s = cs ++ r ∧ ∀ u, Replaces u r → x.run (cs ++ u) = .ok (a, u)

/-- The reader looks at what it takes and at one glyph after it. -/
def Local (x : Reader α) : Prop := ∀ s, x.LocalAt s

variable {x : Reader α} {f : α → Reader β} {s : Text}

theorem localAt_of_error (h : ∀ a r, x.run s ≠ .ok (a, r)) : x.LocalAt s :=
  fun a r hrun => absurd hrun (h a r)

theorem local_pure (a : α) : (pure a : Reader α).Local := by
  intro s b r h
  cases h
  exact ⟨[], rfl, fun u _ => rfl⟩

theorem local_fail (e : Fault) : (fail e : Reader α).Local :=
  fun _ => localAt_of_error fun _ _ h => by cases h

theorem localAt_skip (g : Glyph) (s : Text) : skip.LocalAt (g :: s) := by
  intro a r h
  cases h
  exact ⟨[g], rfl, fun u _ => rfl⟩

theorem LocalAt.bind (hx : x.LocalAt s)
    (hf : ∀ a r, x.run s = .ok (a, r) → (f a).LocalAt r) : (x >>= f).LocalAt s := by
  intro b t h
  rw [run_bind] at h
  split at h
  · rename_i a r hrun
    obtain ⟨cs, rfl, hcs⟩ := hx hrun
    obtain ⟨ds, rfl, hds⟩ := hf a r hrun h
    refine ⟨cs ++ ds, (List.append_assoc ..).symm, fun u hu => ?_⟩
    rw [List.append_assoc, run_bind, hcs (ds ++ u) (hu.append ds)]
    exact hds u hu
  · cases h

theorem Local.bind (hx : x.Local) (hf : ∀ a, (f a).Local) : (x >>= f).Local :=
  fun s => (hx s).bind fun a r _ => hf a r

theorem LocalAt.map (hx : x.LocalAt s) (g : α → β) : (g <$> x).LocalAt s :=
  LocalAt.bind hx fun a r _ => local_pure (g a) r

theorem Local.map (hx : x.Local) (g : α → β) : (g <$> x).Local := fun s => (hx s).map g

/-- Looking ahead is harmless where the rest that is looked at decides by what may not change. -/
theorem LocalAt.peek {f : Text → Reader β} (hf : (f s).LocalAt s)
    (hsame : ∀ u, Replaces u s → ∀ t b r, (f s).run t = .ok (b, r) → (f u).run t = .ok (b, r)) :
    (left >>= f).LocalAt s := by
  intro b r h
  obtain ⟨cs, rfl, hcs⟩ := hf (show (f s).run s = .ok (b, r) from h)
  refine ⟨cs, rfl, fun u hu => ?_⟩
  exact hsame (cs ++ u) (hu.append cs) _ _ _ (hcs u hu)

/-- Looking at the next glyph, where the end of the text is a fault. -/
theorem local_peek {f : Text → Reader β} (hnil : ∀ t b r, (f []).run t ≠ .ok (b, r))
    (hf : ∀ g s, (f (g :: s)).LocalAt (g :: s))
    (hsame : ∀ g s u t b r, (f (g :: s)).run t = .ok (b, r) → (f (g :: u)).run t = .ok (b, r)) :
    (left >>= f).Local := by
  intro s
  cases s with
  | nil => exact localAt_of_error (hnil [])
  | cons g s =>
    refine (hf g s).peek fun u hu => ?_
    obtain ⟨u, rfl⟩ := replaces_cons_iff.mp hu
    exact hsame g s u

/-- Looking at the next glyph, where the end of the text counts as a separator does. -/
theorem local_peek_or_end {f : Text → Reader β} (hnil : (f []).Local)
    (hstop : ∀ c ∈ [',', ']', '}'], ∀ u, f (.char c :: u) = f [])
    (hf : ∀ g s, (f (g :: s)).LocalAt (g :: s)) (hsame : ∀ g s u, f (g :: s) = f (g :: u)) :
    (left >>= f).Local := by
  intro s
  cases s with
  | nil =>
    refine (hnil []).peek fun u hu t b r h => ?_
    rcases replaces_nil_iff.mp hu with rfl | ⟨c, u, rfl, hc⟩
    · exact h
    · rwa [hstop c (by simpa using hc)]
  | cons g s =>
    refine (hf g s).peek fun u hu t b r h => ?_
    obtain ⟨u, rfl⟩ := replaces_cons_iff.mp hu
    rwa [hsame g u s]

/-- Passing over the glyph that was looked at. -/
theorem LocalAt.skip_then {g : Glyph} {y : Reader β} (hy : y.LocalAt s) :
    (skip >>= fun _ => y).LocalAt (g :: s) := by
  refine (localAt_skip g s).bind fun a r h => ?_
  cases h
  exact hy

end Reader

open Reader

/-! ## White space and words -/

theorem takeWhile_of_replaces {p : Glyph → Bool}
    (hp : ∀ c, c = ',' ∨ c = ']' ∨ c = '}' → p (.char c) = false) {s u : Text}
    (h : Replaces u (s.dropWhile p)) :
    (s.takeWhile p ++ u).takeWhile p = s.takeWhile p ∧ (s.takeWhile p ++ u).dropWhile p = u := by
  have hrest : ∀ g, (s.dropWhile p).head? = some g → p g = false := by
    intro g hg
    have := List.head?_dropWhile_not p s
    rw [hg] at this
    simpa using this
  have hu := h.head_eq_false hp hrest
  have hnil : u.takeWhile p = [] ∧ u.dropWhile p = u := by
    cases u with
    | nil => exact ⟨rfl, rfl⟩
    | cons g u =>
      have hg := hu g rfl
      simp [hg]
  have hall : ∀ g ∈ s.takeWhile p, p g = true := List.all_eq_true.mp List.all_takeWhile
  rw [List.takeWhile_append_of_pos hall, List.dropWhile_append_of_pos hall, hnil.1, hnil.2,
    List.append_nil]
  exact ⟨rfl, rfl⟩

theorem local_space : space.Local := by
  intro s a r h
  cases h
  refine ⟨s.takeWhile isSpace, (List.takeWhile_append_dropWhile).symm, fun u hu => ?_⟩
  have hstops : ∀ c, c = ',' ∨ c = ']' ∨ c = '}' → isSpace (.char c) = false := by
    rintro c (rfl | rfl | rfl) <;> rfl
  rw [run_space, trimSpace, (takeWhile_of_replaces hstops hu).2]

theorem local_word (cs : List Char) : (word cs).Local := by
  induction cs with
  | nil => exact local_pure ()
  | cons c cs ih =>
    refine local_peek (fun t b r h => by cases h) (fun g s => ?_) (fun g s u t b r h => ?_)
    · dsimp only
      split
      · exact (ih s).skip_then
      · exact local_fail _ _
    · dsimp only at h ⊢
      split at h
      · rwa [if_pos ‹_›]
      · cases h

/-! ## Strings -/

theorem length_of_mapM {f : Glyph → Option Nat} {s : Text} {ds : List Nat}
    (h : s.mapM f = some ds) : ds.length = s.length := by
  induction s generalizing ds with
  | nil =>
    cases h
    rfl
  | cons g s ih =>
    simp only [List.mapM_cons, Option.bind_eq_bind, Option.bind_eq_some_iff] at h
    obtain ⟨d, -, ds, hds, heq⟩ := h
    cases heq
    rw [List.length_cons, List.length_cons, ih hds]

theorem length_take_of_hexOf? {s : Text} {n : Nat} (h : hexOf? s = some n) :
    (s.take 4).length = 4 := by
  simp only [hexOf?, Option.bind_eq_some_iff] at h
  obtain ⟨ds, hds, hn⟩ := h
  split at hn
  · rw [← length_of_mapM hds]
    assumption
  · cases hn

theorem local_hexUnit : hexUnit.Local := by
  intro s a r h
  simp only [hexUnit] at h
  split at h
  · cases h
  · split at h
    · rename_i hn
      cases h
      have hlen := length_take_of_hexOf? hn
      refine ⟨s.take 4, (List.take_append_drop 4 s).symm, fun u _ => ?_⟩
      have htake : (s.take 4 ++ u).take 4 = s.take 4 := List.take_left' hlen
      have hdrop : (s.take 4 ++ u).drop 4 = u := List.drop_left' hlen
      have hsame : hexOf? (s.take 4 ++ u) = some a := by
        rw [hexOf?, htake]
        exact hn
      simp only [hexUnit, htake, if_neg ‹_›, hsame, hdrop]
    · cases h

theorem local_insidePair (c : Char) : (insidePair c).Local := by
  refine local_peek (fun t b r h => by cases h) (fun g s => ?_) (fun g s u t b r h => ?_)
  · dsimp only
    split
    · exact localAt_skip g s
    · exact local_fail _ _
  · dsimp only at h ⊢
    split at h
    · rwa [if_pos ‹_›]
    · cases h

theorem local_fail_left (f : Text → Fault) {α : Type} :
    (left >>= fun s => (fail (f s) : Reader α)).Local :=
  fun _ => localAt_of_error fun _ _ h => by cases h

theorem local_codePoint : codePoint.Local := by
  refine local_hexUnit.bind fun high => ?_
  split
  · exact local_fail_left _
  · split
    · refine (local_insidePair '\\').bind fun _ => ?_
      refine (local_insidePair 'u').bind fun _ => ?_
      refine local_hexUnit.bind fun low => ?_
      split
      · exact local_pure _
      · exact local_fail_left _
    · exact local_pure _

theorem local_escape : escape.Local := by
  refine local_peek (fun t b r h => by cases h) (fun g s => ?_) (fun g s u t b r h => ?_)
  · dsimp only
    refine LocalAt.skip_then ?_
    split
    · exact local_codePoint s
    · split
      · exact local_pure _ _
      · exact local_fail _ _
  · simp only [run_bind, run_skip] at h ⊢
    split at h
    · rwa [if_pos ‹_›]
    · rw [if_neg ‹_›]
      split at h
      · exact h
      · cases h

theorem local_unquote {read s t r : Text} (h : unquote read s = .ok (t, r)) :
    ∃ cs, s = cs ++ r ∧ ∀ u, Replaces u r → unquote read (cs ++ u) = .ok (t, u) := by
  fun_induction unquote read s with
  | case1 | case3 | case5 => cases h
  | case2 read r =>
    cases h
    exact ⟨[.char '"'], rfl, fun u _ => unquote_close read u⟩
  | case4 read r c t' he _ ih =>
    obtain ⟨ds, rfl, hds⟩ := ih h
    obtain ⟨cs, rfl, hcs⟩ := local_escape _ he
    refine ⟨.char '\\' :: (cs ++ ds), by simp, fun u hu => ?_⟩
    rw [List.cons_append, List.append_assoc, unquote_of_escape (hcs _ (hu.append ds))]
    exact hds u hu
  | case6 read g r hq hb hc ih =>
    obtain ⟨cs, rfl, hcs⟩ := ih h
    refine ⟨g :: cs, rfl, fun u hu => ?_⟩
    rw [List.cons_append, unquote_of_plain hq hb (Bool.eq_false_iff.mpr hc)]
    exact hcs u hu

theorem local_quotation : quotation.Local := by
  have hunquote : Reader.Local ⟨unquote [], length_unquote_le⟩ := fun _ _ _ h => local_unquote h
  refine hunquote.bind fun t => ?_
  split
  · exact local_pure _
  · exact local_fail_left _

/-! ## Numerals -/

theorem local_digits : digits.Local := by
  intro s a r h
  cases h
  refine ⟨s.takeWhile fun g => (digit? g).isSome, List.takeWhile_append_dropWhile.symm,
    fun u hu => ?_⟩
  have hstops : ∀ c, c = ',' ∨ c = ']' ∨ c = '}' → (digit? (.char c)).isSome = false := by
    rintro c (rfl | rfl | rfl) <;> rfl
  obtain ⟨htake, hdrop⟩ := takeWhile_of_replaces hstops hu
  simp only [digits, digitsOf, htake, hdrop]

theorem local_someDigits : someDigits.Local := by
  intro s
  refine LocalAt.peek (local_digits.bind (fun ds => ?_) s) ?_
  · split
    · exact local_fail _
    · exact local_pure _
  · intro u _ t b r h
    simp only [run_bind] at h ⊢
    split at h
    · split at h
      · cases h
      · rwa [if_neg ‹_›]
    · cases h

theorem local_scaled (negative : Bool) (m : Nat) (e : Int) : (scaled negative m e).Local := by
  unfold scaled
  split
  · exact local_pure _
  · exact local_fail_left _

theorem local_exponentSign : exponentSign.Local := by
  refine local_peek_or_end (local_pure false) (by simp) (fun g s => ?_) (fun g s u => ?_)
  · split
    · exact LocalAt.skip_then (local_pure _ s)
    · exact LocalAt.skip_then (local_pure _ s)
    · exact local_pure _ _
  · split <;> simp_all

theorem local_exponent (negative : Bool) (m : Nat) (e : Int) : (exponent negative m e).Local := by
  refine local_exponentSign.bind fun down => local_someDigits.bind fun ds => ?_
  dsimp only
  split
  · exact local_scaled _ _ _
  · split
    · exact local_fail_left _
    · exact local_pure _

theorem local_exponent? (negative : Bool) (m : Nat) (e : Int) :
    (exponent? negative m e).Local := by
  refine local_peek_or_end (local_scaled _ _ _) (by simp) (fun g s => ?_) (fun g s u => ?_)
  · split
    · exact LocalAt.skip_then (local_exponent _ _ _ s)
    · exact LocalAt.skip_then (local_exponent _ _ _ s)
    · exact local_scaled _ _ _ _
  · split <;> simp_all

theorem local_fraction (negative : Bool) (m : Nat) (e : Int) : (fraction negative m e).Local := by
  refine local_someDigits.bind fun ds => ?_
  exact local_exponent? _ _ _

theorem local_numeral (negative : Bool) : (numeral negative).Local := by
  intro s
  refine LocalAt.peek (local_someDigits.bind (fun ds => ?_) s) ?_
  · split
    · exact local_fail _
    · refine local_peek_or_end ?_ (by simp) (fun g s => ?_) (fun g s u => ?_)
      · dsimp only
        split
        · exact local_pure _
        · exact local_scaled _ _ _
      · split
        · exact LocalAt.skip_then (local_fraction _ _ _ _)
        · exact LocalAt.skip_then (local_exponent _ _ _ _)
        · exact LocalAt.skip_then (local_exponent _ _ _ _)
        · split
          · exact local_pure _ _
          · exact local_scaled _ _ _ _
      · split <;> simp_all
  · intro u _ t b r h
    simp only [run_bind] at h ⊢
    split at h
    · split at h
      · cases h
      · simp_all
    · cases h

/-! ## Scalars -/

theorem localAt_scalar {g : Glyph} {scalar : Reader Json} (h : scalar? g = some scalar) (s : Text) :
    scalar.LocalAt (g :: s) := by
  unfold scalar? at h
  split at h
  case h_7 => cases h
  case h_6 =>
    split at h
    · cases h
      exact (local_numeral false).map _ _
    · cases h
  case h_4 =>
    cases h
    exact LocalAt.skip_then (local_quotation.bind (fun _ => local_pure _) s)
  case h_5 =>
    cases h
    exact LocalAt.skip_then ((local_numeral true).bind (fun _ => local_pure _) s)
  all_goals
    cases h
    exact LocalAt.skip_then ((local_word _).bind (fun _ => local_pure _) s)

/-! ## Items between brackets -/

theorem local_colon : colon.Local := by
  refine local_space.bind fun _ => ?_
  refine local_peek (fun t b r h => by cases h) (fun g s => ?_) (fun g s u t b r h => ?_)
  · dsimp only
    split
    · exact localAt_skip g s
    · exact local_fail _ _
  · dsimp only at h ⊢
    split at h
    · rwa [if_pos ‹_›]
    · cases h

theorem local_key : key.Local := by
  refine local_peek (fun t b r h => by cases h) (fun g s => ?_) (fun g s u t b r h => ?_)
  · split
    · exact LocalAt.skip_then (local_quotation _)
    · exact local_fail _ _
  · split at h
    · simp_all
    · cases h

theorem local_another (b : Brackets) (first : Bool) : (another b first).Local := by
  refine local_space.bind fun _ => ?_
  refine local_peek (fun t b r h => by cases h) (fun g s => ?_) (fun g s u t a r h => ?_)
  · dsimp only
    split
    · exact local_pure _ _
    · split
      · exact local_pure _ _
      · split
        · refine LocalAt.skip_then (local_space.bind (fun _ => ?_) s)
          refine local_peek (fun t b r h => by cases h) (fun g s => ?_) (fun g s u t b r h => ?_)
          · dsimp only
            split
            · exact local_fail _ _
            · exact local_pure _ _
          · dsimp only at h ⊢
            split at h
            · cases h
            · rwa [if_neg ‹_›]
        · exact local_fail _ _
  · dsimp only at h ⊢
    split at h
    · rwa [if_pos ‹_›]
    · split at h
      · simp_all
      · split at h
        · simp_all
        · cases h

end ScanDigest.Json
