import ScanDigest.Json.Number

/-!
# JSON values

A document as it was written: members of an object keep their order, and a key may stand twice.
`Json.sorted` is the value the document denotes, with the members of every object in ascending
order of their keys and the last of repeated keys kept.
-/

set_option autoImplicit false

namespace ScanDigest

inductive Json where
  | null
  | bool (value : Bool)
  | num (value : Number)
  | str (value : String)
  | arr (items : List Json)
  | obj (members : List (String × Json))
  deriving Repr, Inhabited

namespace Json

/-- A natural number as a value. -/
def ofNat (n : Nat) : Json := .num (.int n)

/-- The value, or `null` where there is none. -/
def ofOption {α : Type} (f : α → Json) : Option α → Json
  | some a => f a
  | none => .null

/-- Puts a member into members in ascending order of their keys, in place of one with its key. -/
def insertMember (key : String) (value : Json) : List (String × Json) → List (String × Json)
  | [] => [(key, value)]
  | (k, v) :: rest =>
    if key < k then (key, value) :: (k, v) :: rest
    else if key = k then (key, value) :: rest
    else (k, v) :: insertMember key value rest

mutual

/-- The value that a document denotes. -/
def sorted : Json → Json
  | .arr items => .arr (sortedItems items)
  | .obj members => .obj (sortedMembers [] members)
  | .null => .null
  | .bool b => .bool b
  | .num n => .num n
  | .str s => .str s

/-- The values of the items. -/
def sortedItems : List Json → List Json
  | [] => []
  | j :: rest => j.sorted :: sortedItems rest

/-- The members as they stand after `done`, a later one in place of an earlier one. -/
def sortedMembers (done : List (String × Json)) : List (String × Json) → List (String × Json)
  | [] => done
  | (k, v) :: rest => sortedMembers (insertMember k v.sorted done) rest

end

/-- The value under a key of an object, the first if the key stands twice. -/
def get? : Json → String → Option Json
  | .obj members, key => members.lookup key
  | _, _ => none

end Json

end ScanDigest
