import ScanDigest.Json.Skip
import Std.Data.ExtTreeMap

/-!
# Codecs

A `Codec` reads a type's values in two ways, off a text while it is parsed and from a value that was
parsed before, and writes them. Faults of the first way have a place, those of the second have none.
This module has the codecs of strings, counts, lists, optional values, tables and enumerations.
-/

set_option autoImplicit false

namespace ScanDigest

open Json

/-- Where a parsed value stands: on its own, or inside a record, whose members are put aside until
the record's type is known. -/
inductive Setting where
  | document
  | record
  deriving DecidableEq, Repr

structure Codec (α : Type) where
  read : Reader α
  decode : Setting → Json → Except Cause α
  encode : α → Json

namespace Codec

variable {α : Type}

/-- The value of a whole text. -/
def ofText (c : Codec α) (s : Text) : Except Fault α := c.read.whole s

/-- The value that a document denotes. -/
def ofJson (c : Codec α) (j : Json) : Except Cause α := c.decode .document j.sorted

/-- The same values under another type. -/
def imap {β : Type} (c : Codec α) (f : α → β) (g : β → α) : Codec β where
  read := f <$> c.read
  decode setting j := f <$> c.decode setting j
  encode b := c.encode (g b)

/-! ## Scalars -/

/-- Strings. -/
def text : Codec String where
  read := string .text
  decode _ j := match j with
    | .str s => .ok s
    | j => .error (.invalidType j.found .text)
  encode := .str

/-- A number as a count. -/
def countOf : Number → Except Cause Nat
  | .int i =>
    if i < 0 then .error (.invalidValue (.num (.int i)) .count) else .ok i.toNat
  | .float x => .error (.invalidType (.num (.float x)) .count)

/-- Goes on with a result, or finds its fault in what was just read. -/
def check (x : Except Cause α) : Reader α := do
  match x with
  | .ok a => pure a
  | .error c => Reader.fail (c.before (← Reader.left))

/-- Counts, below `2^64`. -/
def count : Codec Nat where
  read := do
    space
    match ← Reader.left with
    | .char '-' :: _ =>
      Reader.skip
      check (countOf (← numeral true))
    | g :: _ =>
      if (digit? g).isSome then check (countOf (← numeral false)) else expected .count
    | [] => expected .count
  decode _ j := match j with
    | .num n => countOf n
    | j => .error (.invalidType j.found .count)
  encode := .ofNat

/-! ## Lists and options -/

/-- Lists of such values. -/
def list (c : Codec α) : Codec (List α) where
  read := do
    space
    match ← Reader.left with
    | .char '[' :: _ =>
      Reader.skip
      List.reverse <$> separated .list (fun acc => return (← c.read) :: acc) []
    | _ => expected .sequence
  decode setting j := match j with
    | .arr items => items.mapM (c.decode setting)
    | j => .error (.invalidType j.found .sequence)
  encode as := .arr (as.map c.encode)

/-- Reads `null`, of which the first letter is seen. -/
def readNull : Reader Unit := do
  Reader.skip
  word ['u', 'l', 'l']

/-- Such values, and `null` for none. -/
def optional (c : Codec α) : Codec (Option α) where
  read := do
    space
    match ← Reader.left with
    | .char 'n' :: _ =>
      readNull
      pure none
    | _ => some <$> c.read
  decode setting j := match j with
    | .null => .ok none
    | j => some <$> c.decode setting j
  encode := Json.ofOption c.encode

/-! ## Tables -/

/-- How the keys of a table are written. -/
structure Keys (κ : Type) where
  ofString : String → Except Cause κ
  toString : κ → String

/-- Any strings. -/
def Keys.text : Keys String := ⟨.ok, id⟩

/-- Objects as tables: of a repeated key the last value counts. -/
def table {κ : Type} [Ord κ] [Std.TransOrd κ] (keys : Keys κ) (c : Codec α) :
    Codec (Std.ExtTreeMap κ α) where
  read := do
    space
    match ← Reader.left with
    | .char '{' :: _ =>
      Reader.skip
      separated .object (fun t => do
        let k ← check (keys.ofString (← key))
        colon
        return t.insert k (← c.read)) ∅
    | _ => expected .map
  decode setting j := match j with
    | .obj members => members.foldlM (fun t (k, v) => do
        let k ← keys.ofString k
        return t.insert k (← c.decode setting v)) ∅
    | j => .error (.invalidType j.found .map)
  encode t := .obj (t.toList.map fun (k, a) => (keys.toString k, c.encode a))

/-! ## Enumerations -/

/-- The value with a name. -/
def named (all : List α) (name : α → String) (s : String) : Except Cause α :=
  match all.find? fun a => name a == s with
  | some a => .ok a
  | none => .error (.unknownVariant s (all.map name))

/-- Values by their names: a string, or an object with the name as its only key and `null` under
it. -/
def enumeration (all : List α) (name : α → String) : Codec α where
  read := do
    space
    match ← Reader.left with
    | [] => Reader.fail (Cause.valueEnds.here [])
    | .char '"' :: _ =>
      Reader.skip
      check (named all name (← quotation))
    | .char '{' :: _ =>
      Reader.skip
      unless ← another .object true do Reader.fail (Cause.noValue.here (← Reader.left))
      let a ← check (named all name (← key))
      colon
      space
      match ← Reader.left with
      | .char 'n' :: _ => readNull
      | _ => expected .unit
      space
      match ← Reader.left with
      | [] => Reader.fail (Cause.objectEnds.here [])
      | .char '}' :: _ =>
        Reader.skip
        pure a
      | s => Reader.fail (Cause.noValue.before s)
    | s => Reader.fail (Cause.noValue.here s)
  decode _ j := match j with
    | .str s => named all name s
    | .obj [(k, v)] => do
      let a ← named all name k
      match v with
      | .null => pure a
      | v => .error (.invalidType v.found .unit)
    | .obj _ => .error (.invalidValue .map .singleMember)
    | j => .error (.invalidType j.found .textOrMap)
  encode a := .str (name a)

end Codec

end ScanDigest
