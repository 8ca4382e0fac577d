/-!
# Dates of the Gregorian calendar

Years 0 and later, with the leap years of the Gregorian rule throughout.
-/

set_option autoImplicit false

namespace ScanDigest.Time

def isLeapYear (year : Nat) : Bool := year % 4 == 0 && (year % 100 != 0 || year % 400 == 0)

/-- The days of a month, none unless it is one of the twelve. -/
def daysInMonth (year month : Nat) : Nat :=
  match month with
  | 1 | 3 | 5 | 7 | 8 | 10 | 12 => 31
  | 4 | 6 | 9 | 11 => 30
  | 2 => if isLeapYear year then 29 else 28
  | _ => 0

/-- The days from the first day of year 0 to that of the year. -/
def daysBeforeYear (year : Nat) : Nat :=
  365 * year + (year + 3) / 4 - (year + 99) / 100 + (year + 399) / 400

/-- The days from the first day of year 0 to the date. -/
def dayNumber (year month day : Nat) : Nat :=
  daysBeforeYear year + (List.range month).foldr (fun m n => daysInMonth year m + n) 0 + (day - 1)

/-- The first day of 1970. -/
def epoch : Nat := dayNumber 1970 1 1

end ScanDigest.Time
