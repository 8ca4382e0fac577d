/-!
# Floating point numbers from decimal digits

The number `m · 10^e` for a whole `m` of 64 bits, by one multiplication or division with a power of
ten. Powers end at `10^308`; a smaller number is divided by that power as often as needed.
-/

set_option autoImplicit false

namespace ScanDigest.Decimal

/-- The power `10^k`. -/
def tenTo (k : Nat) : Float := Float.ofScientific 1 false k

/-- `x / 10^k`. -/
def shrink (x : Float) (k : Nat) : Float :=
  if k ≤ 308 then x / tenTo k
  else if x == 0 then x
  else shrink (x / tenTo 308) (k - 308)
termination_by k

/-- `m · 10^e`, unless that is too large. -/
def scale? (m : Nat) (e : Int) : Option Float :=
  let x := Float.ofNat m
  if e < 0 then some (shrink x e.natAbs)
  else if e ≤ 308 then
    let y := x * tenTo e.natAbs
    if y.isInf then none else some y
  else if x == 0 then some x
  else none

end ScanDigest.Decimal
