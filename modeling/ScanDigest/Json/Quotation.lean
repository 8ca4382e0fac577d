import ScanDigest.Json.Reader

/-!
# Quoted strings

Characters between double quotes, with escapes. The quotation has to close before its characters
are looked at as a whole: a byte that belongs to no character is found only then.
-/

set_option autoImplicit false

namespace ScanDigest.Json

/-- The value of a hexadecimal digit. -/
def hexDigit? : Glyph → Option Nat
  | .char c =>
    if c.isDigit then some (c.toNat - 48)
    else if 'a' ≤ c ∧ c ≤ 'f' then some (c.toNat - 87)
    else if 'A' ≤ c ∧ c ≤ 'F' then some (c.toNat - 55)
    else none
  | .stray => none

/-- The number that four hexadecimal digits at the front of a text stand for. -/
def hexOf? (s : Text) : Option Nat :=
  ((s.take 4).mapM hexDigit?).bind fun ds =>
    if ds.length = 4 then some (ds.foldl (· * 16 + ·) 0) else none

/-- Reads four bytes that are to be hexadecimal digits. -/
def hexUnit : Reader Nat where
  run s :=
    if Text.size (s.take 4) < 4 then .error (Cause.stringEnds.here [])
    else match hexOf? s with
      | some n => .ok (n, s.drop 4)
      | none => .error ⟨.invalidEscape, some (s.size - 4)⟩
  keeps {s a r} h := by
    split at h
    · cases h
    · split at h <;> cases h
      simp

def isHighSurrogate (n : Nat) : Bool := 0xD800 ≤ n && n ≤ 0xDBFF

def isLowSurrogate (n : Nat) : Bool := 0xDC00 ≤ n && n ≤ 0xDFFF

/-- Reads the glyph `g`, where a pair of surrogates goes on. -/
def insidePair (g : Char) : Reader Unit := do
  match ← Reader.left with
  | [] => Reader.fail (Cause.stringEnds.here [])
  | h :: r =>
    if h = .char g then Reader.skip
    else Reader.fail (Cause.openSurrogate.here (h :: r))

/-- A character by its UTF-16 code units, after `\u`. -/
def codePoint : Reader Char := do
  let high ← hexUnit
  if isLowSurrogate high then
    Reader.fail (Cause.loneSurrogate.before (← Reader.left))
  else if isHighSurrogate high then
    insidePair '\\'
    insidePair 'u'
    let low ← hexUnit
    if isLowSurrogate low then
      pure (Char.ofNat ((high - 0xD800) * 0x400 + (low - 0xDC00) + 0x10000))
    else Reader.fail (Cause.loneSurrogate.before (← Reader.left))
  else pure (Char.ofNat high)

/-- The character that a letter after a backslash stands for. -/
def shortEscape? : Glyph → Option Char
  | .char '"' => some '"'
  | .char '\\' => some '\\'
  | .char '/' => some '/'
  | .char 'b' => some '\x08'
  | .char 'f' => some '\x0c'
  | .char 'n' => some '\n'
  | .char 'r' => some '\r'
  | .char 't' => some '\t'
  | _ => none

/-- An escape after its backslash. -/
def escape : Reader Char := do
  match ← Reader.left with
  | [] => Reader.fail (Cause.stringEnds.here [])
  | g :: r =>
    Reader.skip
    if g = .char 'u' then codePoint
    else match shortEscape? g with
      | some c => pure c
      | none => Reader.fail (Cause.invalidEscape.here (g :: r))

/-- Bytes that stand in a string only escaped. -/
def isControl : Glyph → Bool
  | .char c => c.toNat < 0x20
  | .stray => false

/-- Reads to the closing quote; `read` are the glyphs so far, the last one first. -/
def unquote (read : Text) (s : Text) : Except Fault (Text × Text) :=
  match s with
  | [] => .error (Cause.stringEnds.here [])
  | g :: r =>
    if g = .char '"' then .ok (read.reverse, r)
    else if g = .char '\\' then
      match _he : escape.run r with
      | .error e => .error e
      | .ok (c, t) => unquote (.char c :: read) t
    else if isControl g then .error (Cause.controlCharacter.here (g :: r))
    else unquote (g :: read) r
termination_by s.length
decreasing_by
  · exact Nat.lt_succ_of_le (escape.keeps _he)
  · exact Nat.lt_succ_self _

theorem length_unquote_le {read s t r : Text} (h : unquote read s = .ok (t, r)) :
    r.length ≤ s.length := by
  fun_induction unquote read s with
  | case1 | case3 | case5 => cases h
  | case2 => cases h; simp
  | case4 read r _ _ he _ ih =>
    exact Nat.le_trans (ih h) (Nat.le_trans (escape.keeps he) (Nat.le_succ _))
  | case6 read g r _ _ _ ih => exact Nat.le_trans (ih h) (Nat.le_succ _)

/-- A string after its opening quote. A stray byte is found as many bytes before the end of the
quotation as the string is longer than the part before that byte. -/
def quotation : Reader String := do
  let t ← ⟨unquote [], length_unquote_le⟩
  match t.toString? with
  | some s => pure s
  | none =>
    let r ← Reader.left
    Reader.fail ⟨.invalidCodePoint, some (r.size + (t.size - t.clean.size))⟩

end ScanDigest.Json
