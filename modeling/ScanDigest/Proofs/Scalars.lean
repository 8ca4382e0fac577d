import ScanDigest.Json.Printer
import ScanDigest.Json.Value

/-!
# Scalars as they are written are read back

A quoted string reads as the string (`quotation_quoted`): every escape that is written stands for
its character. A whole number of 64 bits reads as itself (`readsScalar_int`), as long as no character
that a numeral may go on with follows (`EndsNumeral`).
-/

set_option autoImplicit false

namespace ScanDigest

theorem Text.ofChars_cons (c : Char) (cs : List Char) :
    Text.ofChars (c :: cs) = .char c :: Text.ofChars cs := rfl

theorem Text.ofChars_append (cs ds : List Char) :
    Text.ofChars (cs ++ ds) = Text.ofChars cs ++ Text.ofChars ds := List.map_append

namespace Json

/-! ## Escapes -/

theorem hexDigit?_hexDigit : ∀ n < 16, hexDigit? (.char (hexDigit n)) = some n := by decide

theorem hexUnit_hexDigit {n : Nat} (h : n < 256) (t : Text) :
    hexUnit.run (Text.ofChars ['0', '0', hexDigit (n / 16), hexDigit (n % 16)] ++ t) =
      .ok (n, t) := by
  have h0 : hexDigit? (.char '0') = some 0 := by decide
  have hhigh := hexDigit?_hexDigit (n / 16) (by omega)
  have hlow := hexDigit?_hexDigit (n % 16) (by omega)
  simp only [hexUnit, hexOf?, Text.ofChars, List.map_cons, List.map_nil, List.cons_append,
    List.nil_append, List.take_succ_cons, List.take_zero, List.drop_succ_cons, List.drop_zero,
    List.mapM_cons, List.mapM_nil, h0, hhigh, hlow]
  have hsize : ¬ Text.size [.char '0', .char '0', .char (hexDigit (n / 16)),
      .char (hexDigit (n % 16))] < 4 := by
    have h1 := Glyph.size_pos (.char '0')
    have h2 := Glyph.size_pos (.char (hexDigit (n / 16)))
    have h3 := Glyph.size_pos (.char (hexDigit (n % 16)))
    simp only [Text.size_cons, Text.size_nil]
    omega
  rw [if_neg hsize]
  have hn : n / 16 * 16 + n % 16 = n := by omega
  simp [hn]

theorem codePoint_hexDigit {c : Char} (h : c.toNat < 0x20) (t : Text) :
    codePoint.run (Text.ofChars ['0', '0', hexDigit (c.toNat / 16), hexDigit (c.toNat % 16)] ++ t) =
      .ok (c, t) := by
  have hlow : isLowSurrogate c.toNat = false := by
    simp only [isLowSurrogate, Bool.and_eq_false_iff, decide_eq_false_iff_not]; omega
  have hhigh : isHighSurrogate c.toNat = false := by
    simp only [isHighSurrogate, Bool.and_eq_false_iff, decide_eq_false_iff_not]; omega
  rw [codePoint, Reader.run_bind, hexUnit_hexDigit (by omega)]
  simp [hlow, hhigh]

/-! ## Strings -/

theorem unquote_close (read t : Text) :
    unquote read (.char '"' :: t) = .ok (read.reverse, t) := by
  rw [unquote]; simp

theorem unquote_of_escape {read r t : Text} {c : Char} (h : escape.run r = .ok (c, t)) :
    unquote read (.char '\\' :: r) = unquote (.char c :: read) t := by
  rw [unquote]
  simp only [Glyph.char.injEq, Char.reduceEq, ↓reduceIte]
  split
  · rename_i e he
    rw [h] at he; cases he
  · rename_i c' t' he
    rw [h] at he; cases he; rfl

theorem unquote_of_plain {g : Glyph} (hq : g ≠ .char '"') (hb : g ≠ .char '\\')
    (hc : isControl g = false) (read t : Text) :
    unquote read (g :: t) = unquote (g :: read) t := by
  rw [unquote]
  simp [hq, hb, hc]

theorem escape_short {g : Glyph} {c : Char} (hu : g ≠ .char 'u') (h : shortEscape? g = some c)
    (t : Text) : escape.run (g :: t) = .ok (c, t) := by
  simp [escape, hu, h]

theorem escape_unicode (t : Text) : escape.run (.char 'u' :: t) = codePoint.run t := by
  simp [escape]

theorem unquote_escaped (c : Char) (read t : Text) :
    unquote read (Text.ofChars (escaped c) ++ t) = unquote (.char c :: read) t := by
  unfold escaped
  split
  case h_8 hq hb _ _ _ _ _ =>
    split
    · rename_i hc
      apply unquote_of_escape
      exact (escape_unicode _).trans (codePoint_hexDigit hc t)
    · rename_i hc
      apply unquote_of_plain
      · simpa using hq
      · simpa using hb
      · simpa [isControl] using hc
  all_goals exact unquote_of_escape (escape_short (by decide) rfl t)

theorem unquote_escapes (cs : List Char) (read t : Text) :
    unquote read (Text.ofChars (cs.flatMap escaped) ++ .char '"' :: t) =
      .ok (read.reverse ++ Text.ofChars cs, t) := by
  induction cs generalizing read with
  | nil => simpa [Text.ofChars] using unquote_close read t
  | cons c cs ih =>
    rw [List.flatMap_cons, Text.ofChars_append, List.append_assoc, unquote_escaped, ih]
    simp [Text.ofChars]

theorem quotation_quoted (s : String) (t : Text) :
    quotation.run (Text.ofChars (quoted s).tail ++ t) = .ok (s, t) := by
  have h : Text.ofChars (quoted s).tail ++ t =
      Text.ofChars (s.toList.flatMap escaped) ++ .char '"' :: t := by
    simp [quoted, Text.ofChars]
  have hs : Text.toString? (Text.ofChars s.toList) = some s := Text.toString?_ofString s
  rw [h, quotation, Reader.run_bind]
  simp [unquote_escapes, hs]

theorem quoted_eq (s : String) : quoted s = '"' :: (quoted s).tail := rfl

theorem key_quoted (s : String) (t : Text) : key.run (Text.ofChars (quoted s) ++ t) = .ok (s, t) := by
  rw [quoted_eq, Text.ofChars_cons]
  simp [key, quotation_quoted]

theorem string_quoted (wanted : Wanted) (s : String) (t : Text) :
    (string wanted).run (Text.ofChars (quoted s) ++ t) = .ok (s, t) := by
  rw [quoted_eq, Text.ofChars_cons]
  simp [string, trimSpace, isSpace, quotation_quoted]

/-! ## Whole numbers -/

/-- The text does not go on with a character that a numeral may have after its digits. -/
def EndsNumeral (t : Text) : Prop :=
  ∀ c, t.head? = some (.char c) → c.isDigit = false ∧ c ≠ '.' ∧ c ≠ 'e' ∧ c ≠ 'E'

theorem digit?_of_isDigit {c : Char} (h : c.isDigit = true) :
    digit? (.char c) = some (c.toNat - 48) := by
  simp [digit?, h]

theorem takeWhile_digits {cs : List Char} (hc : ∀ c ∈ cs, c.isDigit = true) {t : Text}
    (ht : EndsNumeral t) :
    (Text.ofChars cs ++ t).takeWhile (fun g => (digit? g).isSome) = Text.ofChars cs ∧
      (Text.ofChars cs ++ t).dropWhile (fun g => (digit? g).isSome) = t := by
  induction cs with
  | nil =>
    cases t with
    | nil => exact ⟨rfl, rfl⟩
    | cons g t =>
      have hg : (digit? g).isSome = false := by
        cases g with
        | stray => rfl
        | char c =>
          have hc := (ht c rfl).1
          simp [digit?, hc]
      simp [Text.ofChars, hg]
  | cons c cs ih =>
    have hd := digit?_of_isDigit (hc c (by simp))
    have ih := ih fun c hc' => hc c (by simp [hc'])
    simp [Text.ofChars_cons, hd, ih]

theorem digits_run {cs : List Char} (hc : ∀ c ∈ cs, c.isDigit = true) {t : Text}
    (ht : EndsNumeral t) :
    digits.run (Text.ofChars cs ++ t) = .ok (cs.map fun c => c.toNat - 48, t) := by
  have h : (Text.ofChars cs).filterMap digit? = cs.map fun c => c.toNat - 48 := by
    induction cs with
    | nil => rfl
    | cons c cs ih =>
      have hd := digit?_of_isDigit (hc c (by simp))
      rw [Text.ofChars_cons, List.filterMap_cons_some hd, ih fun c hc' => hc c (by simp [hc'])]
      rfl
  simp only [digits, digitsOf, takeWhile_digits hc ht, h]

theorem le_foldl_digits (ds : List Nat) (m : Nat) : m ≤ ds.foldl (fun m d => m * 10 + d) m := by
  induction ds generalizing m with
  | nil => exact Nat.le_refl m
  | cons d ds ih =>
    have := ih (m * 10 + d)
    rw [List.foldl_cons]
    omega

theorem absorb_eq {limit m : Nat} {ds : List Nat}
    (h : ds.foldl (fun m d => m * 10 + d) m ≤ limit) :
    absorb limit m ds = (ds.foldl (fun m d => m * 10 + d) m, []) := by
  induction ds generalizing m with
  | nil => rfl
  | cons d ds ih =>
    rw [List.foldl_cons] at h ⊢
    have := le_foldl_digits ds (m * 10 + d)
    rw [absorb, if_pos (by omega), ih h]

/-- The digits of a number. -/
def decimals (n : Nat) : List Nat := (Nat.toDigits 10 n).map fun c => c.toNat - 48

theorem foldl_decimals (n : Nat) : (decimals n).foldl (fun m d => m * 10 + d) 0 = n := by
  have h := @Nat.ofDigitChars_toDigits 10 n (by decide) (by decide)
  rw [Nat.ofDigitChars_eq_foldl] at h
  rw [decimals, List.foldl_map]
  simpa [Nat.mul_comm] using h

theorem decimals_of_lt {n : Nat} (h : n < 10) : decimals n = [n] := by
  rw [decimals, Nat.toDigits_of_lt_base h, List.map_singleton, Nat.toNat_digitChar_of_lt_ten h]
  simp

theorem decimals_head {n : Nat} (h : 0 < n) : ∃ d ds, decimals n = d :: ds ∧ d ≠ 0 := by
  induction n using Nat.strongRecOn with
  | ind n ih =>
    by_cases hn : n < 10
    · exact ⟨n, [], decimals_of_lt hn, by omega⟩
    · obtain ⟨d, ds, hd, h0⟩ := ih (n / 10) (by omega) (by omega)
      refine ⟨d, ds ++ [(n % 10).digitChar.toNat - 48], ?_, h0⟩
      rw [decimals] at hd ⊢
      rw [Nat.toDigits_eq_if (by decide), if_neg hn, List.map_append, hd]
      rfl

theorem isDigit_of_mem_toDigits {n : Nat} : ∀ c ∈ Nat.toDigits 10 n, c.isDigit = true :=
  fun _ => Nat.isDigit_of_mem_toDigits (by decide) (by decide)

theorem numeral_toDigits (negative : Bool) {n : Nat} (hn : n ≤ wordLimit) {t : Text}
    (ht : EndsNumeral t) :
    (numeral negative).run (Text.ofChars (Nat.toDigits 10 n) ++ t) = .ok (whole negative n, t) := by
  have hsome : someDigits.run (Text.ofChars (Nat.toDigits 10 n) ++ t) = .ok (decimals n, t) := by
    have hne : (decimals n).isEmpty = false := by simp [decimals]
    simp only [someDigits, Reader.run_bind, Reader.run_left, digits_run isDigit_of_mem_toDigits ht]
    rw [← decimals, hne]
    rfl
  have habsorb : absorb wordLimit 0 (decimals n) = (n, []) := by
    rw [absorb_eq] <;> rw [foldl_decimals]
    exact hn
  simp only [numeral, Reader.run_bind, Reader.run_left, hsome]
  have hzero : ∀ d ds, decimals n ≠ 0 :: d :: ds := by
    intro d ds h
    by_cases h0 : n = 0
    · rw [h0, decimals_of_lt (by decide)] at h
      cases h
    · obtain ⟨d', ds', hd, hne⟩ := decimals_head (by omega : 0 < n)
      rw [hd] at h
      cases h
      exact hne rfl
  split
  · rename_i d ds h
    exact absurd h (hzero d ds)
  · simp only [Reader.run_bind, Reader.run_left, habsorb]
    split
    · exact absurd rfl (ht _ rfl).2.1
    · exact absurd rfl (ht _ rfl).2.2.1
    · exact absurd rfl (ht _ rfl).2.2.2
    · rfl

/-- The whole numbers of 64 bits, with or without a sign. -/
def Fits (i : Int) : Prop := -0x8000000000000000 ≤ i ∧ i ≤ 0xFFFFFFFFFFFFFFFF

theorem text_ofNat (n : Nat) : (Number.int n).text.toList = Nat.toDigits 10 n := by
  show (Nat.repr n).toList = _
  rw [Nat.repr_eq_ofList_toDigits, String.toList_ofList]

theorem text_negSucc (n : Nat) :
    (Number.int (.negSucc n)).text.toList = '-' :: Nat.toDigits 10 (n + 1) := by
  show ("-" ++ Nat.repr (n + 1)).toList = _
  simp [Nat.repr_eq_ofList_toDigits]

/-! ## Scalars -/

/-- The characters are those of a scalar, which is read back from them. -/
def ReadsScalar (cs : List Char) (j : Json) : Prop :=
  ∀ t, EndsNumeral t → ∃ g r reader, Text.ofChars cs ++ t = g :: r ∧ scalar? g = some reader ∧
    reader.run (g :: r) = .ok (j, t)

theorem readsScalar_null : ReadsScalar (scalarChars .null) .null := by
  intro t _
  refine ⟨_, _, _, rfl, rfl, ?_⟩
  simp [word]

theorem readsScalar_bool (b : Bool) : ReadsScalar (scalarChars (.bool b)) (.bool b) := by
  intro t _
  cases b <;>
  · refine ⟨_, _, _, rfl, rfl, ?_⟩
    simp [word]

theorem readsScalar_str (s : String) : ReadsScalar (scalarChars (.str s)) (.str s) := by
  intro t _
  refine ⟨.char '"', Text.ofChars (quoted s).tail ++ t, _, rfl, rfl, ?_⟩
  simp [quotation_quoted]

theorem scalar?_digit {c : Char} (h : c.isDigit = true) :
    scalar? (.char c) = some (Json.num <$> numeral false) := by
  unfold scalar?
  split <;> simp_all

theorem readsScalar_int {i : Int} (h : Fits i) :
    ReadsScalar (scalarChars (.num (.int i))) (.num (.int i)) := by
  intro t ht
  unfold Fits at h
  cases i with
  | ofNat n =>
    have hn : n ≤ wordLimit := by
      simp only [Int.ofNat_eq_natCast] at h
      unfold wordLimit
      omega
    have hrun := numeral_toDigits false hn ht
    obtain ⟨c, cs, hcs⟩ := List.exists_cons_of_ne_nil (Nat.toDigits_ne_nil (n := n) (b := 10))
    have hc := isDigit_of_mem_toDigits c (hcs ▸ List.mem_cons_self)
    refine ⟨.char c, Text.ofChars cs ++ t, _, ?_, scalar?_digit hc, ?_⟩
    · show Text.ofChars (Number.int n).text.toList ++ t = _
      rw [text_ofNat, hcs]
      rfl
    · rw [hcs, Text.ofChars_cons, List.cons_append] at hrun
      simp only [Reader.run_map, hrun]
      rfl
  | negSucc n =>
    have hn : n + 1 ≤ 0x8000000000000000 := by omega
    have hrun := numeral_toDigits true (n := n + 1) (by unfold wordLimit; omega) ht
    have hwhole : whole true (n + 1) = .int (.negSucc n) := by
      simp [whole, hn]
      omega
    refine ⟨.char '-', Text.ofChars (Nat.toDigits 10 (n + 1)) ++ t, _, ?_, rfl, ?_⟩
    · show Text.ofChars (Number.int (.negSucc n)).text.toList ++ t = _
      rw [text_negSucc]
      rfl
    · simp [hrun, hwhole]

/-! ## No control characters -/

/-- No character of the text is a control character. -/
def NoControl (cs : List Char) : Prop := ∀ c ∈ cs, 0x20 ≤ c.toNat

theorem hexDigit_ge : ∀ n < 16, 0x20 ≤ (hexDigit n).toNat := by decide

theorem noControl_escaped (c : Char) : NoControl (escaped c) := by
  unfold NoControl escaped
  split
  case h_8 =>
    split
    · rename_i hc
      have hhigh := hexDigit_ge (c.toNat / 16) (by omega)
      have hlow := hexDigit_ge (c.toNat % 16) (by omega)
      simp [hhigh, hlow]
    · rename_i hc
      simpa using Nat.le_of_not_lt hc
  all_goals simp

theorem noControl_quoted (s : String) : NoControl (quoted s) := by
  intro d hd
  simp only [quoted, List.cons_append, List.mem_cons, List.mem_append, List.mem_flatMap,
    List.not_mem_nil, or_false] at hd
  rcases hd with rfl | ⟨c, -, hd⟩ | rfl
  · decide
  · exact noControl_escaped c d hd
  · decide

theorem noControl_toDigits (n : Nat) : NoControl (Nat.toDigits 10 n) := by
  intro d hd
  have h := isDigit_of_mem_toDigits d hd
  simp only [Char.isDigit, Bool.and_eq_true, decide_eq_true_eq] at h
  exact Nat.le_trans (by decide) h.1

theorem noControl_int (i : Int) : NoControl (Number.int i).text.toList := by
  cases i with
  | ofNat n => exact text_ofNat n ▸ noControl_toDigits n
  | negSucc n =>
    rw [text_negSucc]
    intro d hd
    rcases List.mem_cons.mp hd with rfl | hd
    · decide
    · exact noControl_toDigits _ d hd

end Json

end ScanDigest
