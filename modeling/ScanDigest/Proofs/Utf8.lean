import ScanDigest.Text.Glyph

/-!
# Files that hold strings

A character is read off exactly the bytes that encode it in UTF-8 (`Text.lead?_of_encode`,
`Text.encode_of_lead?`). So a file is cut into characters, with no stray byte, if it is a string in
UTF-8 and in no other case (`Text.toString?_ofBytes_eq_some_iff`).
-/

set_option autoImplicit false

namespace ScanDigest.Text

open String

/-! ## Parts of a character -/

theorem tailBits?_eq_some_iff {b : UInt8} {x : Nat} :
    tailBits? b = some x ↔ x < 0x40 ∧ b.toNat = x + 0x80 := by
  have hb := b.toNat_lt
  have hleast : UInt8.toNat 0x80 = 0x80 := rfl
  have hgreatest : UInt8.toNat 0xBF = 0xBF := rfl
  simp only [tailBits?, UInt8.le_iff_toNat_le, hleast, hgreatest]
  split
  · simp only [Option.some.injEq]
    omega
  · simp only [reduceCtorEq, false_iff]
    omega

theorem scalar?_eq_some_iff {least n : Nat} {c : Char} :
    scalar? least n = some c ↔ least ≤ n ∧ c.toNat = n := by
  unfold scalar?
  split
  · rename_i hn
    simp only [Option.some.injEq, hn.1, true_and]
    constructor
    · rintro rfl
      rw [Char.ofNat, dif_pos hn.2]
      rfl
    · rintro rfl
      exact c.ofNat_toNat
  · rename_i hn
    simp only [reduceCtorEq, false_iff]
    rintro ⟨hleast, rfl⟩
    exact hn ⟨hleast, c.valid⟩

section

variable {b : UInt8} {rest : List UInt8} {c : Char}

theorem bind_tailBits?_eq_some_iff {i x : Nat} : (rest[i]? >>= tailBits?) = some x ↔
    ∃ y, rest[i]? = some y ∧ x < 0x40 ∧ y.toNat = x + 0x80 := by
  simp only [Option.bind_eq_bind, Option.bind_eq_some_iff, tailBits?_eq_some_iff]

theorem map_scalar?_eq_some_iff {least v n m : Nat} :
    ((scalar? least v).map fun c => (c, n)) = some (c, m) ↔ least ≤ v ∧ c.toNat = v ∧ m = n := by
  simp only [Option.map_eq_some_iff, scalar?_eq_some_iff, Prod.mk.injEq]
  constructor
  · rintro ⟨_, ⟨hleast, hv⟩, rfl, rfl⟩
    exact ⟨hleast, hv, rfl⟩
  · rintro ⟨hleast, hv, rfl⟩
    exact ⟨c, ⟨hleast, hv⟩, rfl, rfl⟩

/-! ## Characters -/

/-- The first byte says how many bytes there are. -/
theorem lead?_eq (b : UInt8) (rest : List UInt8) : lead? b rest =
    if b.toNat < 0x80 then (scalar? 0 b.toNat).map (·, 0)
    else if b.toNat < 0xC0 then none
    else if b.toNat < 0xE0 then
      (rest[0]? >>= tailBits?).bind fun x =>
      (scalar? 0x80 ((b.toNat - 0xC0) * 0x40 + x)).map (·, 1)
    else if b.toNat < 0xF0 then
      (rest[0]? >>= tailBits?).bind fun x => (rest[1]? >>= tailBits?).bind fun y =>
      (scalar? 0x800 (((b.toNat - 0xE0) * 0x40 + x) * 0x40 + y)).map (·, 2)
    else if b.toNat < 0xF8 then
      (rest[0]? >>= tailBits?).bind fun x => (rest[1]? >>= tailBits?).bind fun y =>
      (rest[2]? >>= tailBits?).bind fun z =>
      (scalar? 0x10000 ((((b.toNat - 0xF0) * 0x40 + x) * 0x40 + y) * 0x40 + z)).map (·, 3)
    else none := rfl

theorem ofNat_eq_of_toNat {n : Nat} (h : b.toNat = n) : UInt8.ofNat n = b := by
  rw [← h, UInt8.ofNat_toNat]

/-- A character that is read off bytes is encoded by those. -/
theorem encode_of_lead? {n : Nat} (h : lead? b rest = some (c, n)) :
    utf8EncodeChar c = b :: rest.take n := by
  have hb := b.toNat_lt
  have hc : c.val.toNat = c.toNat := rfl
  simp only [lead?_eq] at h
  split at h
  · obtain ⟨-, hv, rfl⟩ := map_scalar?_eq_some_iff.mp h
    simp only [utf8EncodeChar, hc, hv]
    rw [if_pos (by omega), UInt8.ofNat_toNat, List.take_zero]
  split at h
  · cases h
  split at h
  · simp only [Option.bind_eq_some_iff, bind_tailBits?_eq_some_iff, map_scalar?_eq_some_iff] at h
    obtain ⟨x, ⟨y, hy, hx, hxy⟩, hleast, hv, rfl⟩ := h
    match rest, hy with
    | y :: rest, rfl =>
      simp only [utf8EncodeChar, hc, hv]
      rw [if_neg (by omega), if_pos (by omega), ofNat_eq_of_toNat (b := b) (by omega),
        ofNat_eq_of_toNat (b := y) (by omega)]
      rfl
  split at h
  · simp only [Option.bind_eq_some_iff, bind_tailBits?_eq_some_iff, map_scalar?_eq_some_iff] at h
    obtain ⟨x, ⟨y, hy, hx, hxy⟩, x', ⟨y', hy', hx', hxy'⟩, hleast, hv, rfl⟩ := h
    match rest, hy, hy' with
    | y :: y' :: rest, rfl, rfl =>
      simp only [utf8EncodeChar, hc, hv]
      rw [if_neg (by omega), if_neg (by omega), if_pos (by omega),
        ofNat_eq_of_toNat (b := b) (by omega), ofNat_eq_of_toNat (b := y) (by omega),
        ofNat_eq_of_toNat (b := y') (by omega)]
      rfl
  split at h
  · simp only [Option.bind_eq_some_iff, bind_tailBits?_eq_some_iff, map_scalar?_eq_some_iff] at h
    obtain ⟨x, ⟨y, hy, hx, hxy⟩, x', ⟨y', hy', hx', hxy'⟩, x'', ⟨y'', hy'', hx'', hxy''⟩, hleast, hv,
      rfl⟩ := h
    match rest, hy, hy', hy'' with
    | y :: y' :: y'' :: rest, rfl, rfl, rfl =>
      simp only [utf8EncodeChar, hc, hv]
      rw [if_neg (by omega), if_neg (by omega), if_neg (by omega),
        ofNat_eq_of_toNat (b := b) (by omega), ofNat_eq_of_toNat (b := y) (by omega),
        ofNat_eq_of_toNat (b := y') (by omega), ofNat_eq_of_toNat (b := y'') (by omega)]
      rfl
  · cases h

theorem toNat_ofNat {n : Nat} (h : n < 0x100) : (UInt8.ofNat n).toNat = n := by
  rw [UInt8.toNat_ofNat', Nat.mod_eq_of_lt h]

/-- A character is read off the bytes that encode it, whatever follows. -/
theorem lead?_of_encode {tail : List UInt8} (h : utf8EncodeChar c = b :: tail) (rest : List UInt8) :
    lead? b (tail ++ rest) = some (c, tail.length) := by
  have hlimit : c.toNat < 0x110000 := by
    have hvalid := c.valid
    simp only [UInt32.isValidChar, Nat.isValidChar] at hvalid
    unfold Char.toNat
    omega
  have hc : c.val.toNat = c.toNat := rfl
  simp only [utf8EncodeChar, hc] at h
  rw [lead?_eq]
  split at h
  · cases h
    rw [toNat_ofNat (by omega), if_pos (by omega)]
    exact map_scalar?_eq_some_iff.mpr ⟨Nat.zero_le _, rfl, rfl⟩
  split at h
  · cases h
    rw [toNat_ofNat (by omega), if_neg (by omega), if_neg (by omega), if_pos (by omega)]
    simp only [Option.bind_eq_some_iff, bind_tailBits?_eq_some_iff, map_scalar?_eq_some_iff]
    refine ⟨c.toNat % 0x40, ⟨_, rfl, by omega, toNat_ofNat (by omega)⟩, ?_, ?_, rfl⟩ <;> omega
  split at h
  · cases h
    rw [toNat_ofNat (by omega), if_neg (by omega), if_neg (by omega), if_neg (by omega),
      if_pos (by omega)]
    simp only [Option.bind_eq_some_iff, bind_tailBits?_eq_some_iff, map_scalar?_eq_some_iff]
    refine ⟨c.toNat / 0x40 % 0x40, ⟨_, rfl, by omega, toNat_ofNat (by omega)⟩,
      c.toNat % 0x40, ⟨_, rfl, by omega, toNat_ofNat (by omega)⟩, ?_, ?_, rfl⟩ <;> omega
  · cases h
    rw [toNat_ofNat (by omega), if_neg (by omega), if_neg (by omega), if_neg (by omega),
      if_neg (by omega), if_pos (by omega)]
    simp only [Option.bind_eq_some_iff, bind_tailBits?_eq_some_iff, map_scalar?_eq_some_iff]
    refine ⟨c.toNat / 0x1000 % 0x40, ⟨_, rfl, by omega, toNat_ofNat (by omega)⟩,
      c.toNat / 0x40 % 0x40, ⟨_, rfl, by omega, toNat_ofNat (by omega)⟩,
      c.toNat % 0x40, ⟨_, rfl, by omega, toNat_ofNat (by omega)⟩, ?_, ?_, rfl⟩ <;> omega

end

/-! ## Texts -/

section

variable {b : UInt8} {rest bytes : List UInt8}

theorem cut_append (s t : Text) (bytes : List UInt8) : cut (s ++ t) bytes = cut s bytes ++ t := by
  fun_induction cut s bytes with
  | case1 s => simp only [cut]
  | case2 s b rest c n h ih => rw [cut, h]; exact ih
  | case3 s b rest h ih => rw [cut, h]; exact ih

theorem cut_eq (s : Text) (bytes : List UInt8) : cut s bytes = (ofBytes bytes).reverse ++ s := by
  rw [ofBytes, List.reverse_reverse, ← cut_append, List.nil_append]

theorem ofBytes_nil : ofBytes [] = [] := by simp [ofBytes, cut]

theorem ofBytes_cons_char {c : Char} {n : Nat} (h : lead? b rest = some (c, n)) :
    ofBytes (b :: rest) = .char c :: ofBytes (rest.drop n) := by
  rw [ofBytes, cut, h]
  simp only [cut_eq, List.reverse_append, List.reverse_reverse, List.reverse_singleton]
  rfl

theorem ofBytes_cons_stray (h : lead? b rest = none) :
    ofBytes (b :: rest) = .stray :: ofBytes rest := by
  rw [ofBytes, cut, h]
  simp only [cut_eq, List.reverse_append, List.reverse_reverse, List.reverse_singleton]
  rfl

theorem ofBytes_encode (cs : List Char) : ofBytes (cs.flatMap utf8EncodeChar) = ofChars cs := by
  induction cs with
  | nil => exact ofBytes_nil
  | cons c cs ih =>
    obtain ⟨b, tail, htail⟩ := List.exists_cons_of_ne_nil (utf8EncodeChar_ne_nil (c := c))
    rw [List.flatMap_cons, htail, List.cons_append, ofBytes_cons_char (lead?_of_encode htail _),
      List.drop_left, ih]
    rfl

theorem encode_of_ofBytes {cs : List Char} (h : ofBytes bytes = ofChars cs) :
    bytes = cs.flatMap utf8EncodeChar := by
  induction hn : bytes.length using Nat.strongRecOn generalizing bytes cs with
  | ind n ih =>
    match bytes, cs with
    | [], [] => rfl
    | [], c :: cs =>
      rw [ofBytes_nil] at h
      cases h
    | b :: rest, cs =>
      cases hlead : lead? b rest with
      | none =>
        rw [ofBytes_cons_stray hlead] at h
        cases cs <;> cases h
      | some p =>
        obtain ⟨c, m⟩ := p
        rw [ofBytes_cons_char hlead] at h
        cases cs with
        | nil => cases h
        | cons d cs =>
          obtain ⟨hd, hrest⟩ := List.cons.inj h
          cases hd
          have hlength : (rest.drop m).length < n := by
            simp only [← hn, List.length_cons, List.length_drop]
            omega
          rw [List.flatMap_cons, encode_of_lead? hlead, ← ih _ hlength hrest rfl, List.cons_append,
            List.take_append_drop]

theorem toString?_eq_some_iff {t : Text} {s : String} : t.toString? = some s ↔ t = ofString s := by
  refine ⟨fun h => ?_, fun h => h ▸ toString?_ofString s⟩
  obtain ⟨cs, hcs, rfl⟩ := Option.map_eq_some_iff.mp h
  rw [ofString, String.toList_ofList]
  clear h
  induction t generalizing cs with
  | nil =>
    cases hcs
    rfl
  | cons g t ih =>
    simp only [List.mapM_cons, Option.pure_def, Option.bind_eq_bind, Option.bind_eq_some_iff,
      Option.some.injEq] at hcs
    obtain ⟨c, hc, cs, hcs, rfl⟩ := hcs
    cases g with
    | char d =>
      cases hc
      rw [ih cs hcs]
      rfl
    | stray => cases hc

theorem toList_toUTF8 (s : String) : s.toUTF8.data.toList = s.toList.flatMap utf8EncodeChar := by
  rw [String.toUTF8_eq_toByteArray, ← String.utf8Encode_toList, List.utf8Encode,
    List.toList_data_toByteArray]

/-- A file holds a string if it is that string in UTF-8. -/
theorem toString?_ofBytes_eq_some_iff {s : String} :
    (ofBytes bytes).toString? = some s ↔ bytes = s.toUTF8.data.toList := by
  rw [toString?_eq_some_iff, ofString, toList_toUTF8]
  refine ⟨encode_of_ofBytes, ?_⟩
  rintro rfl
  exact ofBytes_encode _

end

end ScanDigest.Text
