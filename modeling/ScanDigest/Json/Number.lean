import ScanDigest.Decimal.Shortest

/-!
# Numbers of a document

A number without fraction and exponent that fits 64 bits is whole; every other number is a binary
floating point number.
-/

set_option autoImplicit false

namespace ScanDigest

inductive Number where
  | int (value : Int)
  | float (value : Float)
  deriving Repr, Inhabited

namespace Number

/-- Floating point numbers are positional from `10^-5` up to, not including, `10^16`. -/
def layout : Decimal.Layout := ⟨-5, 15⟩

/-- A number as documents and messages show it. -/
def text : Number → String
  | int i => toString i
  | float x => Decimal.floatText layout x

end Number

end ScanDigest
