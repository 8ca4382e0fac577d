import ScanDigest.Json.Numeral
import ScanDigest.Json.Quotation

/-!
# Reading any value

`scalar?` reads what needs no bracket, `value` any value with brackets nested up to a given depth,
and `member` the key of an object's member with its colon. `expected` says what is wrong where one
kind of value is wanted and another one stands.
-/

set_option autoImplicit false

namespace ScanDigest.Json

/-- Reads the rest of a word whose first letter is already read. -/
def word : List Char → Reader Unit
  | [] => pure ()
  | c :: cs => do
    match ← Reader.left with
    | [] => Reader.fail (Cause.valueEnds.here [])
    | g :: r =>
      if g = .char c then
        Reader.skip
        word cs
      else Reader.fail (Cause.brokenWord.here (g :: r))

/-- The reader of the scalars that start with the glyph, from that glyph on. -/
def scalar? (g : Glyph) : Option (Reader Json) :=
  match g with
  | .char 'n' => some do
    Reader.skip
    word ['u', 'l', 'l']
    pure .null
  | .char 't' => some do
    Reader.skip
    word ['r', 'u', 'e']
    pure (.bool true)
  | .char 'f' => some do
    Reader.skip
    word ['a', 'l', 's', 'e']
    pure (.bool false)
  | .char '"' => some do
    Reader.skip
    return .str (← quotation)
  | .char '-' => some do
    Reader.skip
    return .num (← numeral true)
  | .char c => if c.isDigit then some (Json.num <$> numeral false) else none
  | .stray => none

/-- The fault where `wanted` should stand, on a text that starts otherwise. A scalar is read first,
so that a fault of its own is found first and the place is after it; a bracket is not opened. -/
def expected {α : Type} (wanted : Wanted) : Reader α := do
  let s ← Reader.left
  match s with
  | [] => Reader.fail (Cause.valueEnds.here [])
  | .char '[' :: _ => Reader.fail ((Cause.invalidType .sequence wanted).before s)
  | .char '{' :: _ => Reader.fail ((Cause.invalidType .map wanted).before s)
  | g :: _ =>
    match scalar? g with
    | some scalar =>
      let j ← scalar
      Reader.fail ((Cause.invalidType j.found wanted).before (← Reader.left))
    | none => Reader.fail (Cause.noValue.here s)

/-- Reads a string, of which `wanted` is the name. -/
def string (wanted : Wanted) : Reader String := do
  space
  match ← Reader.left with
  | .char '"' :: _ =>
    Reader.skip
    quotation
  | _ => expected wanted

/-- The colon after a key. -/
def colon : Reader Unit := do
  space
  match ← Reader.left with
  | [] => Reader.fail (Cause.objectEnds.here [])
  | g :: r => if g = .char ':' then Reader.skip else Reader.fail (Cause.noColon.here (g :: r))

/-- The key of a member. -/
def key : Reader String := do
  match ← Reader.left with
  | .char '"' :: _ =>
    Reader.skip
    quotation
  | s => Reader.fail (Cause.keyNotString.here s)

/-- A value that is no scalar, in which every item is read with `inner`; brackets are refused if
there is none. -/
def valueWith (inner : Option (Reader Json)) : Reader Json := do
  space
  let s ← Reader.left
  match s, inner with
  | [], _ => Reader.fail (Cause.valueEnds.here [])
  | .char '[' :: _, some inner =>
    Reader.skip
    let items ← separated .list (fun acc => return (← inner) :: acc) []
    return .arr items.reverse
  | .char '{' :: _, some inner =>
    Reader.skip
    let members ← separated .object (fun acc => do
      let k ← key
      colon
      return (k, ← inner) :: acc) []
    return .obj members.reverse
  | .char '[' :: _, none | .char '{' :: _, none => Reader.fail (Cause.tooDeep.here s)
  | g :: _, _ =>
    match scalar? g with
    | some scalar => scalar
    | none => Reader.fail (Cause.noValue.here s)

/-- Any value with at most `depth` brackets open at a time. -/
def value : (depth : Nat) → Reader Json
  | 0 => valueWith none
  | depth + 1 => valueWith (some (value depth))

/-- The brackets that a document may have open at a time. -/
def maxDepth : Nat := 127

/-- Reads a whole text: one value and nothing after it but white space. -/
def Reader.whole {α : Type} (reader : Reader α) (s : Text) : Except Fault α :=
  match reader.run s with
  | .error e => .error e
  | .ok (a, r) =>
    match trimSpace r with
    | [] => .ok a
    | g :: r => .error (Cause.trailingCharacters.here (g :: r))

/-- The document of a text. -/
def parse (s : Text) : Except Fault Json := (value maxDepth).whole s

end ScanDigest.Json
