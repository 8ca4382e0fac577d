import ScanDigest.Decimal.Scale
import ScanDigest.Json.Reader

/-!
# Numerals

Digits, then a fraction and an exponent if there are any. A whole number that fits 64 bits stays
whole. For the others the digits are taken into a whole number as long as it fits 64 bits; later
digits are dropped, those before the point count into the exponent.
-/

set_option autoImplicit false

namespace ScanDigest.Json

/-- The value of a decimal digit. -/
def digit? : Glyph → Option Nat
  | .char c => if c.isDigit then some (c.toNat - 48) else none
  | .stray => none

/-- The digits that a text starts with. -/
def digitsOf (s : Text) : List Nat := (s.takeWhile fun g => (digit? g).isSome).filterMap digit?

/-- Reads digits, possibly none. -/
def digits : Reader (List Nat) where
  run s := .ok (digitsOf s, s.dropWhile fun g => (digit? g).isSome)
  keeps {s a r} h := by cases h; exact (List.dropWhile_sublist _).length_le

/-- Takes digits into the number `m` up to `limit`; gives the digits that no longer fit, too. -/
def absorb (limit : Nat) : (m : Nat) → List Nat → Nat × List Nat
  | m, [] => (m, [])
  | m, d :: ds => if m * 10 + d ≤ limit then absorb limit (m * 10 + d) ds else (m, d :: ds)

/-- The greatest significand. -/
def wordLimit : Nat := 0xFFFFFFFFFFFFFFFF

/-- The greatest exponent that is counted. -/
def exponentLimit : Nat := 0x7FFFFFFF

def signed (negative : Bool) (x : Float) : Number := .float (if negative then -x else x)

/-- The whole number `m` with its sign, as a floating point number if it does not fit or is `-0`. -/
def whole (negative : Bool) (m : Nat) : Number :=
  if !negative then .int m
  else if 1 ≤ m ∧ m ≤ 0x8000000000000000 then .int (-m)
  else signed true (Float.ofNat m)

/-- The number `m · 10^e`, read up to here. -/
def scaled (negative : Bool) (m : Nat) (e : Int) : Reader Number := do
  match Decimal.scale? m e with
  | some x => pure (signed negative x)
  | none => Reader.fail (Cause.numberOutOfRange.before (← Reader.left))

/-- Digits where at least one has to stand. -/
def someDigits : Reader (List Nat) := do
  let s ← Reader.left
  let ds ← digits
  if ds.isEmpty then
    Reader.fail ((if s.isEmpty then Cause.valueEnds else Cause.invalidNumber).here s)
  else pure ds

/-- The sign of an exponent; says whether it is negative. -/
def exponentSign : Reader Bool := do
  match ← Reader.left with
  | .char '+' :: _ =>
    Reader.skip
    pure false
  | .char '-' :: _ =>
    Reader.skip
    pure true
  | _ => pure false

/-- What follows the `e` of `m · 10^e`. An exponent beyond the limit makes the number zero, or is
refused at the digit that passes the limit. -/
def exponent (negative : Bool) (m : Nat) (e : Int) : Reader Number := do
  let down ← exponentSign
  let ds ← someDigits
  let (x, beyond) := absorb exponentLimit 0 ds
  if beyond.isEmpty then scaled negative m (if down then e - x else e + x)
  else if m ≠ 0 ∧ !down then
    let s ← Reader.left
    Reader.fail ⟨.numberOutOfRange, some (s.size + (beyond.length - 1))⟩
  else pure (signed negative 0.0)

/-- An exponent, if one follows. -/
def exponent? (negative : Bool) (m : Nat) (e : Int) : Reader Number := do
  match ← Reader.left with
  | .char 'e' :: _ | .char 'E' :: _ =>
    Reader.skip
    exponent negative m e
  | _ => scaled negative m e

/-- What follows the point of `m.… · 10^e`. -/
def fraction (negative : Bool) (m : Nat) (e : Int) : Reader Number := do
  let ds ← someDigits
  let (m, beyond) := absorb wordLimit m ds
  exponent? negative m (e - (ds.length - beyond.length))

/-- A numeral after its sign. -/
def numeral (negative : Bool) : Reader Number := do
  let s ← Reader.left
  let ds ← someDigits
  match ds with
  | 0 :: _ :: _ => Reader.fail (Cause.invalidNumber.here s.tail)
  | _ =>
    let (m, beyond) := absorb wordLimit 0 ds
    match ← Reader.left with
    | .char '.' :: _ =>
      Reader.skip
      fraction negative m beyond.length
    | .char 'e' :: _ | .char 'E' :: _ =>
      Reader.skip
      exponent negative m beyond.length
    | _ => if beyond.isEmpty then pure (whole negative m) else scaled negative m beyond.length

end ScanDigest.Json
