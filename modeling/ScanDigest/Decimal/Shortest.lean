/-!
# The shortest decimal of a floating point number

A finite double is `m · 2^q`. All reals of an interval around it round to it; among the decimals
`d · 10^k` in that interval the coarsest grid `10^k` wins, on it the nearer of the value's two
neighbours, and of two equally near ones the even one. Everything is computed in `Nat`.
-/

set_option autoImplicit false

namespace ScanDigest.Decimal

/-- A positive double `m · 2^q` with the reals that round to it, all as fractions over `den`:
`value / den` is the number itself, `low / den` and `high / den` bound the interval. -/
structure Interval where
  low : Nat
  value : Nat
  high : Nat
  den : Nat
  /-- Whether the bounds themselves round to the number. -/
  closed : Bool
  deriving Repr, Inhabited

/-- The decimal `digits · 10^exponent`. -/
structure Numeral where
  digits : Nat
  exponent : Int
  deriving Repr, Inhabited

/-- The interval of `m · 2^q`. Below a power of two the grid of doubles is twice as fine; `step`
says whether the number is such a power. -/
def Interval.ofParts (m : Nat) (q : Int) (step : Bool) : Interval :=
  let up := 1 <<< (q - 2).toNat
  { low := (if step then 4 * m - 1 else 4 * m - 2) * up
    value := 4 * m * up
    high := (4 * m + 2) * up
    den := 1 <<< (2 - q).toNat
    closed := m % 2 == 0 }

/-- Both sides times `10^-k`, so that a grid of `10^k` becomes one of whole numbers. -/
def Interval.scaled (i : Interval) (k : Int) : Interval :=
  let up := Nat.pow 10 (-k).toNat
  { i with low := i.low * up, value := i.value * up, high := i.high * up,
           den := i.den * Nat.pow 10 k.toNat }

/-- Whether the whole number `d` lies in the interval. -/
def Interval.contains (i : Interval) (d : Nat) : Bool :=
  if i.closed then i.low ≤ d * i.den && d * i.den ≤ i.high
  else i.low < d * i.den && d * i.den < i.high

/-- The whole number of the interval that is nearest to its value, if it holds one of the two
neighbours of the value. -/
def Interval.whole? (i : Interval) : Option Nat :=
  let d := i.value / i.den
  let below := i.value - d * i.den
  let above := (d + 1) * i.den - i.value
  match i.contains d, i.contains (d + 1) with
  | true, true =>
    some (if below < above ∨ (below = above ∧ d % 2 = 0) then d else d + 1)
  | true, false => some d
  | false, true => some (d + 1)
  | false, false => none

/-- An exponent of ten above every number below `2^b`. -/
def topExponent (b : Int) : Int := (b * 30103).fdiv 100000 + 1

/-- The shortest decimal that reads back as `m · 2^q`. Twenty grids reach below the seventeenth
digit, where every double is told apart. -/
def shortest (m : Nat) (q : Int) (step : Bool) : Numeral :=
  let i := Interval.ofParts m q step
  let top := topExponent (m.log2 + 1 + q)
  let grids := (List.range 20).map fun n : Nat => top - (n : Int)
  (grids.findSome? fun k => (i.scaled k).whole?.map fun d => ⟨d, k⟩).getD ⟨0, 0⟩

/-- How numbers with a fraction are written. -/
structure Layout where
  /-- The least exponent of the leading digit that is written positionally. -/
  least : Int
  /-- The greatest one. -/
  greatest : Int

/-- The digits of `d` around a point, with at least one digit on either side. -/
def Numeral.positional (d : Numeral) : String :=
  let ds := Nat.toDigits 10 d.digits
  if 0 ≤ d.exponent then
    String.ofList (ds ++ List.replicate d.exponent.toNat '0') ++ ".0"
  else
    let places := (-d.exponent).toNat
    let padded := List.replicate (places + 1 - ds.length) '0' ++ ds
    let whole := padded.length - places
    String.ofList (padded.take whole ++ '.' :: padded.drop whole)

/-- The leading digit, the others after a point, and the exponent with its sign. -/
def Numeral.scientific (d : Numeral) (leading : Int) : String :=
  let mantissa := match Nat.toDigits 10 d.digits with
    | [] => []
    | [c] => [c]
    | c :: cs => c :: '.' :: cs
  let sign := if 0 ≤ leading then "+" else "-"
  String.ofList mantissa ++ "e" ++ sign ++ toString leading.natAbs

/-- The decimal in the layout. -/
def Numeral.text (layout : Layout) (d : Numeral) : String :=
  let leading := d.exponent + (Nat.toDigits 10 d.digits).length - 1
  if layout.least ≤ leading ∧ leading ≤ layout.greatest then d.positional
  else d.scientific leading

/-- One more than the greatest fraction of a double, which has 52 bits. The significand of a normal
number exceeds its fraction by as much. -/
def fractionSize : Nat := 0x10000000000000

/-- A finite double in the layout; zero keeps its sign. -/
def floatText (layout : Layout) (x : Float) : String :=
  let bits := x.toBits.toNat
  let sign := if bits >>> 63 = 1 then "-" else ""
  let exponent : Nat := (bits >>> 52) % 2048
  let fraction : Nat := bits % fractionSize
  if exponent = 0 ∧ fraction = 0 then sign ++ "0.0"
  else
    let d :=
      if exponent = 0 then shortest fraction (-1074) false
      else
        shortest (fractionSize + fraction) ((exponent : Int) - 1075) (fraction == 0 && 1 < exponent)
    sign ++ d.text layout

end ScanDigest.Decimal
