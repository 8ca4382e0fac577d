import ScanDigest.Text.Blank
import ScanDigest.Time.Calendar
import ScanDigest.Time.Timestamp

/-!
# Timestamps as RFC 3339 writes them

A date and a time with any one byte between them, a fraction of a second if there is one, and the
offset from UTC. First all parts are read, then their ranges are checked, each in order; the first
that fails is the fault. Second 60 stands for the last nanosecond of a month in UTC.
-/

set_option autoImplicit false

namespace ScanDigest.Time

/-- The parts of a written timestamp. -/
inductive Part where
  | year
  | month
  | day
  | separator
  | hour
  | minute
  | second
  | subsecond
  | offsetHour
  | offsetMinute
  deriving DecidableEq, Repr

def Part.name : Part → String
  | year => "year"
  | month => "month"
  | day => "day"
  | separator => "separator"
  | hour => "hour"
  | minute => "minute"
  | second => "second"
  | subsecond => "subsecond"
  | offsetHour => "offset hour"
  | offsetMinute => "offset minute"

/-- Why a text is no timestamp. -/
inductive Fault where
  | unreadable (part : Part)
  | literal
  | outOfRange (part : Part)
  | trailing
  deriving DecidableEq, Repr

def Fault.message : Fault → String
  | unreadable part => "the '" ++ part.name ++ "' component could not be parsed"
  | literal => "a character literal was not valid"
  | outOfRange part => part.name ++ " was not in range"
  | trailing => "unexpected trailing characters; the end of input was expected"

/-! ## Reading the parts -/

/-- A number of exactly `n` digits. -/
def number? (n : Nat) (cs : List Char) : Option (Nat × List Char) :=
  let ds := cs.take n
  if ds.length = n ∧ ds.all Char.isDigit then
    some (ds.foldl (fun m c => m * 10 + (c.toNat - 48)) 0, cs.drop n)
  else none

/-- A part of exactly `n` digits. -/
def part (p : Part) (n : Nat) (cs : List Char) : Except Fault (Nat × List Char) :=
  match number? n cs with
  | some r => .ok r
  | none => .error (.unreadable p)

/-- A character that has to stand here. -/
def literal (c : Char) : List Char → Except Fault (List Char)
  | d :: cs => if d = c then .ok cs else .error .literal
  | [] => .error .literal

/-- The byte between the date and the time. The other bytes of a longer character would stand for
the hour. -/
def separator : List Char → Except Fault (List Char)
  | c :: cs => if c.utf8Size = 1 then .ok cs else .error (.unreadable .hour)
  | [] => .error (.unreadable .separator)

/-- The nanoseconds of a fraction of a second; digits beyond the ninth do not count. -/
def subsecond : List Char → Except Fault (Nat × List Char)
  | '.' :: cs =>
    let ds := cs.takeWhile Char.isDigit
    if ds.isEmpty then .error (.unreadable .subsecond)
    else
      let nine := ds.take 9 ++ List.replicate (9 - ds.length) '0'
      .ok (nine.foldl (fun m c => m * 10 + (c.toNat - 48)) 0, cs.dropWhile Char.isDigit)
  | cs => .ok (0, cs)

/-- The hours and minutes after the sign of an offset, in seconds. -/
def zoneSize (cs : List Char) : Except Fault (Nat × List Char) := do
  let (hour, cs) ← part .offsetHour 2 cs
  if 23 < hour then throw (.unreadable .offsetHour)
  let cs ← literal ':' cs
  let (minute, cs) ← part .offsetMinute 2 cs
  if 59 < minute then throw (.outOfRange .offsetMinute)
  return (hour * 3600 + minute * 60, cs)

/-- The offset from UTC in seconds. -/
def zone : List Char → Except Fault (Int × List Char)
  | 'Z' :: cs | 'z' :: cs => .ok (0, cs)
  | '+' :: cs => do
    let (n, cs) ← zoneSize cs
    return ((n : Int), cs)
  | '-' :: cs => do
    let (n, cs) ← zoneSize cs
    return (-(n : Int), cs)
  | _ => .error (.unreadable .offsetHour)

/-- A timestamp in its parts, as written. -/
structure Written where
  year : Nat
  month : Nat
  day : Nat
  hour : Nat
  minute : Nat
  second : Nat
  nanos : Nat
  offset : Int
  deriving DecidableEq, Repr

/-- Reads the parts. -/
def Written.read (cs : List Char) : Except Fault Written := do
  let (year, cs) ← part .year 4 cs
  let cs ← literal '-' cs
  let (month, cs) ← part .month 2 cs
  if month = 0 then throw (.unreadable .month)
  let cs ← literal '-' cs
  let (day, cs) ← part .day 2 cs
  let cs ← separator cs
  let (hour, cs) ← part .hour 2 cs
  let cs ← literal ':' cs
  let (minute, cs) ← part .minute 2 cs
  let cs ← literal ':' cs
  let (second, cs) ← part .second 2 cs
  let (nanos, cs) ← subsecond cs
  let (offset, cs) ← zone cs
  if cs.isEmpty then return ⟨year, month, day, hour, minute, second, nanos, offset⟩
  else throw .trailing

/-! ## The instant -/

/-- The timestamp that the parts denote if they are in their ranges. -/
def Written.timestamp (w : Written) : Timestamp :=
  let days : Int := dayNumber w.year w.month w.day - epoch
  let seconds : Int := days * 86400 + w.hour * 3600 + w.minute * 60 + w.second - w.offset
  ⟨seconds * 1000000000 + w.nanos, w.offset⟩

/-- Whether the parts are in their ranges. -/
def Written.inRange (w : Written) : Except Fault Unit := do
  if 12 < w.month then throw (.outOfRange .month)
  if w.day = 0 ∨ daysInMonth w.year w.month < w.day then throw (.outOfRange .day)
  if 23 < w.hour then throw (.outOfRange .hour)
  if 59 < w.minute then throw (.outOfRange .minute)
  if 59 < w.second then throw (.outOfRange .second)

/-- The nanosecond that starts a day, counted from the first of year 0. -/
def dayStart (day : Nat) : Int := ((day : Int) - epoch) * 86400 * 1000000000

/-- Whether the nanosecond after the timestamp starts a month in UTC. An offset is less than a day,
so it can only be the month as written or the one after it. -/
def Written.endsMonth (w : Written) : Bool :=
  let first := dayNumber w.year w.month 1
  let next := w.timestamp.nanos + 1
  next == dayStart first || next == dayStart (first + daysInMonth w.year w.month)

/-- The timestamp of a text, blanks around it not counted. -/
def parse (s : String) : Except Fault Timestamp := do
  let w ← Written.read (Text.trim s.toList)
  if w.second = 60 then
    let w := { w with second := 59, nanos := 999999999 }
    w.inRange
    if w.endsMonth then return w.timestamp else throw (.outOfRange .second)
  else
    w.inRange
    return w.timestamp

end ScanDigest.Time
