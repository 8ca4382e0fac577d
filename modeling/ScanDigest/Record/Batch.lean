import ScanDigest.Failure
import ScanDigest.Record.Codec

/-!
# Batches of records

A batch is a JSON array of records, or a text with a record on each line that is not blank. What
cannot be decoded is reported by its number and passed over; only an array that is no JSON document
as a whole fails.
-/

set_option autoImplicit false

namespace ScanDigest

open Json

/-- A line, or an item of an array, that is no record; counted from 1. -/
structure LineError where
  line : Nat
  reason : String
  deriving DecidableEq, Repr

structure Batch where
  records : List Record
  lineErrors : List LineError
  deriving Repr

namespace Batch

/-- A decoded entry with its number. -/
abbrev Entry := Nat × Except String Record

def Entry.record? : Entry → Option Record
  | (_, .ok r) => some r
  | (_, .error _) => none

def Entry.error? : Entry → Option LineError
  | (_, .ok _) => none
  | (line, .error reason) => some ⟨line, reason⟩

def ofEntries (entries : List Entry) : Batch :=
  ⟨entries.filterMap Entry.record?, entries.filterMap Entry.error?⟩

/-- The record on a line, blanks around it not counted; its faults have places in what is left. -/
def decodeLine (line : List Char) : Except String Record :=
  let t := Text.ofChars (Text.trim line)
  (Record.codec.ofText t).mapError fun f => f.message t

/-- The lines that are not blank, with their numbers from `n` on, decoded. -/
def lineEntries (n : Nat) (lines : List (List Char)) : List Entry :=
  ((lines.zipIdx n).filter fun l => !(Text.trim l.1).isEmpty).map fun l => (l.2, decodeLine l.1)

/-- The batch of a text with a record on each line. -/
def ofLines (s : String) : Batch := ofEntries (lineEntries 1 (Text.lines s.toList))

/-- The items of an array, with their numbers from `n` on, decoded. -/
def itemEntries (n : Nat) (items : List Json) : List Entry :=
  (items.zipIdx n).map fun i => (i.2, (Record.codec.ofJson i.1).mapError Cause.message)

/-- Arrays of any values. -/
def items : Codec (List Json) := .list ⟨Record.inner, fun _ => .ok, id⟩

/-- The batch of a JSON array. -/
def ofArray (s : String) : Except Failure Batch :=
  let t := Text.ofString s
  match items.ofText t with
  | .ok js => .ok (ofEntries (itemEntries 1 js))
  | .error f => .error (.invalidInput ("Failed to parse JSON records: " ++ f.message t))

/-- Whether a text starts as an array, blanks before it not counted. -/
def startsArray (s : String) : Bool := (Text.trimStart s.toList).head? == some '['

/-- The batch of a text in either form. -/
def ofString (s : String) : Except Failure Batch :=
  if startsArray s then ofArray s else .ok (ofLines s)

end Batch

end ScanDigest
