/-!
# Texts read glyph by glyph

A file is a sequence of bytes, and a position in it is counted in bytes. A `Text` keeps both views:
it is a list of glyphs, each a character or a byte that belongs to no character, and every glyph
knows how many bytes it takes. `Text.ofString` reads a string, which has no stray bytes;
`Text.ofBytes` cuts a file, which may have some.
-/

set_option autoImplicit false

namespace ScanDigest

/-- One step of a text: a character, or a byte that is part of no well-formed character. -/
inductive Glyph where
  | char (c : Char)
  | stray
  deriving DecidableEq, Repr, Inhabited

/-- Texts are read from the left. -/
abbrev Text := List Glyph

namespace Glyph

/-- The bytes a glyph takes in UTF-8. -/
def size : Glyph → Nat
  | char c => c.utf8Size
  | stray => 1

theorem size_pos (g : Glyph) : 0 < g.size := by
  cases g with
  | char c => exact Char.utf8Size_pos c
  | stray => exact Nat.one_pos

/-- The character, if the glyph is one. -/
def char? : Glyph → Option Char
  | char c => some c
  | stray => none

end Glyph

namespace Text

/-- The bytes of a text. -/
def size (t : Text) : Nat := t.foldr (fun g n => g.size + n) 0

@[simp] theorem size_nil : size [] = 0 := rfl

@[simp] theorem size_cons (g : Glyph) (t : Text) : size (g :: t) = g.size + size t := rfl

@[simp] theorem size_append (s t : Text) : size (s ++ t) = size s + size t := by
  induction s with
  | nil => simp
  | cons g s ih => simp [ih, Nat.add_assoc]

/-- The glyphs of a list of characters. -/
def ofChars (cs : List Char) : Text := cs.map .char

/-- The glyphs of a string. -/
def ofString (s : String) : Text := ofChars s.toList

/-- The part of a text before its first stray byte. -/
def clean (t : Text) : Text := t.takeWhile (· != .stray)

/-- A text without stray bytes is a string. -/
def toString? (t : Text) : Option String :=
  (t.mapM Glyph.char?).map String.ofList

theorem mapM_char?_ofChars (cs : List Char) : (ofChars cs).mapM Glyph.char? = some cs := by
  induction cs with
  | nil => rfl
  | cons c cs ih =>
    have h : ofChars (c :: cs) = .char c :: ofChars cs := rfl
    simp [h, List.mapM_cons, Glyph.char?, ih]

@[simp] theorem toString?_ofString (s : String) : toString? (ofString s) = some s := by
  simp [toString?, ofString, mapM_char?_ofChars]

/-! ## Cutting bytes -/

/-- The six bits that a continuation byte adds. -/
def tailBits? (b : UInt8) : Option Nat :=
  if 0x80 ≤ b ∧ b ≤ 0xBF then some (b.toNat - 0x80) else none

/-- The character of code point `n`, unless a shorter sequence holds it or it is no character. -/
def scalar? (least n : Nat) : Option Char :=
  if least ≤ n ∧ n.isValidChar then some (Char.ofNat n) else none

/-- The character that starts with byte `b`, and how many of the bytes after it belong to it. -/
def lead? (b : UInt8) (rest : List UInt8) : Option (Char × Nat) :=
  if b < 0x80 then (scalar? 0 b.toNat).map (·, 0)
  else if b < 0xC0 then none
  else if b < 0xE0 then do
    let x ← rest[0]? >>= tailBits?
    (scalar? 0x80 ((b.toNat - 0xC0) * 0x40 + x)).map (·, 1)
  else if b < 0xF0 then do
    let x ← rest[0]? >>= tailBits?
    let y ← rest[1]? >>= tailBits?
    (scalar? 0x800 (((b.toNat - 0xE0) * 0x40 + x) * 0x40 + y)).map (·, 2)
  else if b < 0xF8 then do
    let x ← rest[0]? >>= tailBits?
    let y ← rest[1]? >>= tailBits?
    let z ← rest[2]? >>= tailBits?
    (scalar? 0x10000 ((((b.toNat - 0xF0) * 0x40 + x) * 0x40 + y) * 0x40 + z)).map (·, 3)
  else none

/-- The glyphs of `bytes` put in reverse before those of `done`. -/
def cut (done : Text) : List UInt8 → Text
  | [] => done
  | b :: rest =>
    match lead? b rest with
    | some (c, more) => cut (.char c :: done) (rest.drop more)
    | none => cut (.stray :: done) rest
termination_by bytes => bytes.length
decreasing_by all_goals simp only [List.length_drop, List.length_cons]; omega

/-- The glyphs of a file: each well-formed UTF-8 sequence a character, every other byte stray. -/
def ofBytes (bytes : List UInt8) : Text := (cut [] bytes).reverse

end Text

end ScanDigest
