import ScanDigest.Codec.Basic

/-!
# Codecs of structures

A structure is written as an object with a member for each of its fields, and may also be read from
an array of its fields in their order. `Fields` lists the fields, its index the type of their
values together; `Codec.struct` makes a codec of them. Members of other names are passed over.
-/

set_option autoImplicit false

namespace ScanDigest

open Json

/-- A field of a structure. -/
structure Field (α : Type) where
  name : String
  codec : Codec α
  /-- The value if an object has no such member. -/
  absent : Option α
  /-- The value if an array ends before this field. -/
  short : Option α
  /-- Whether the value is written by leaving the member out. -/
  omits : α → Bool

namespace Field

variable {α : Type}

/-- A field that has to be there. -/
def required (name : String) (codec : Codec α) : Field α :=
  ⟨name, codec, none, none, fun _ => false⟩

/-- A field with a value of its own where it is absent. -/
def defaulted (name : String) (codec : Codec α) (value : α) : Field α :=
  ⟨name, codec, some value, some value, fun _ => false⟩

/-- A field that is left out where it has no value; an array has to have it. -/
def optional (name : String) (codec : Codec α) : Field (Option α) :=
  ⟨name, codec.optional, some none, none, Option.isNone⟩

/-- A field that is left out where it has no value. -/
def omittable (name : String) (codec : Codec α) : Field (Option α) :=
  ⟨name, codec.optional, some none, some none, Option.isNone⟩

end Field

/-- The fields of a structure, in order. -/
inductive Fields : Type → Type 1 where
  | nil : Fields Unit
  | cons {α β : Type} (field : Field α) (more : Fields β) : Fields (α × β)

namespace Fields

/-- What is known of the fields while their members are read. -/
def Slots : {τ : Type} → Fields τ → Type
  | _, nil => Unit
  | _, @cons α _ _ more => Option α × more.Slots

/-- Nothing is known yet. -/
def empty : {τ : Type} → (fs : Fields τ) → fs.Slots
  | _, nil => ()
  | _, cons _ more => (none, more.empty)

/-- The number of fields. -/
def count : {τ : Type} → Fields τ → Nat
  | _, nil => 0
  | _, cons _ more => more.count + 1

/-- What a member is to a structure: the way `M` to take its value in, if its key names a field that
is not filled yet. -/
inductive Member (M : Type → Type) (σ : Type) where
  | other
  | again
  | fill (take : M σ)

def Member.map {M : Type → Type} [Functor M] {σ ρ : Type} (f : σ → ρ) :
    Member M σ → Member M ρ
  | other => other
  | again => again
  | fill take => fill (f <$> take)

/-- The member with a key, where `use` takes in the value of a field. -/
def member {M : Type → Type} [Functor M] (use : {α : Type} → Codec α → M α) :
    {τ : Type} → (fs : Fields τ) → String → fs.Slots → Member M fs.Slots
  | _, nil, _, _ => .other
  | _, @cons α _ f more, key, slots =>
    let (a, slots) : Option α × more.Slots := slots
    if key = f.name then
      if a.isSome then .again else .fill ((fun x => (some x, slots)) <$> use f.codec)
    else (more.member use key slots).map fun slots => (a, slots)

/-- The values of the fields, once all members are taken in. -/
def finish : {τ : Type} → (fs : Fields τ) → fs.Slots → Except Cause τ
  | _, nil, _ => .ok ()
  | _, @cons α _ f more, slots =>
    let (a, slots) : Option α × more.Slots := slots
    match a <|> f.absent with
    | some a => return (a, ← more.finish slots)
    | none => .error (.missingField f.name)

/-! ## Off a text -/

/-- A text after the white space and a closing brace at its front. -/
def afterBrace (s : Text) : Text :=
  match trimSpace s with
  | .char '}' :: r => r
  | r => r

/-- Reads a member of an object. -/
def readMember {τ : Type} (fs : Fields τ) (slots : fs.Slots) : Reader fs.Slots := do
  let k ← key
  match fs.member Codec.read k slots with
  | .other =>
    colon
    pass
    pure slots
  | .again => Reader.fail ((Cause.duplicateField k).before (afterBrace (← Reader.left)))
  | .fill take =>
    colon
    take

/-- Reads the fields from an array, the one with number `n` first. -/
def readItems (wanted : WantedLength) : {τ : Type} → (n : Nat) → Fields τ → Reader τ
  | _, _, nil => pure ()
  | _, n, cons f more => do
    let a ← do
      if ← another .list (n == 0) then f.codec.read
      else match f.short with
        | some a => pure a
        | none => Reader.fail ((Cause.invalidLength n wanted).before (← Reader.left).tail)
    return (a, ← more.readItems wanted (n + 1))

/-- The closing bracket of an array that has all it should have. -/
def closeItems : Reader Unit := do
  space
  let s ← Reader.left
  match s with
  | [] => Reader.fail (Cause.listEnds.here [])
  | .char ']' :: _ => Reader.skip
  | .char ',' :: r =>
    match trimSpace r with
    | .char ']' :: r => Reader.fail (Cause.trailingComma.here (.char ']' :: r))
    | r => Reader.fail (Cause.trailingCharacters.here r)
  | _ => Reader.fail (Cause.trailingCharacters.here s)

/-- Reads the fields of a structure. -/
def read {τ : Type} (name : String) (fs : Fields τ) : Reader τ := do
  space
  match ← Reader.left with
  | .char '[' :: _ =>
    Reader.skip
    let a ← fs.readItems (.fields name fs.count) 0
    closeItems
    pure a
  | .char '{' :: _ =>
    Reader.skip
    Codec.check (fs.finish (← separated .object fs.readMember fs.empty))
  | _ => expected (.struct name)

/-! ## From a value -/

/-- Takes in a member of an object. -/
def decodeMember {τ : Type} (setting : Setting) (fs : Fields τ) (slots : fs.Slots)
    (m : String × Json) : Except Cause fs.Slots :=
  match fs.member (fun c => ReaderT.mk (c.decode setting)) m.1 slots with
  | .other => .ok slots
  | .again => .error (.duplicateField m.1)
  | .fill take => take.run m.2

/-- Takes in the fields from items, the one with number `n` first; the items left over, too. -/
def decodeItems (setting : Setting) (wanted : WantedLength) :
    {τ : Type} → (n : Nat) → Fields τ → List Json → Except Cause (τ × List Json)
  | _, _, nil, items => .ok ((), items)
  | _, n, cons f more, [] =>
    match f.short with
    | some a => do
      let (x, rest) ← more.decodeItems setting wanted (n + 1) []
      return ((a, x), rest)
    | none => .error (.invalidLength n wanted)
  | _, n, cons f more, j :: items => do
    let a ← f.codec.decode setting j
    let (x, rest) ← more.decodeItems setting wanted (n + 1) items
    return ((a, x), rest)

/-- What length is wanted of an array with more items than there are fields. -/
def wantedLess {τ : Type} (fs : Fields τ) : Setting → WantedLength
  | .document => .fewer
  | .record => .items fs.count

/-- The fields of a structure. -/
def decode {τ : Type} (name : String) (fs : Fields τ) (setting : Setting) :
    Json → Except Cause τ
  | .arr items => do
    let (a, rest) ← fs.decodeItems setting (.fields name fs.count) 0 items
    if rest.isEmpty then return a
    else throw (.invalidLength items.length (fs.wantedLess setting))
  | .obj members => do fs.finish (← members.foldlM (fs.decodeMember setting) fs.empty)
  | j => .error (.invalidType j.found (.struct name))

/-! ## Writing -/

/-- The members of an object. -/
def members : {τ : Type} → Fields τ → τ → List (String × Json)
  | _, nil, _ => []
  | _, cons f more, (a, x) =>
    if f.omits a then more.members x else (f.name, f.codec.encode a) :: more.members x

end Fields

/-- A structure by its fields: `build` makes it of their values and `parts` takes it apart. -/
def Codec.struct {α τ : Type} (name : String) (fs : Fields τ) (build : τ → α) (parts : α → τ) :
    Codec α where
  read := build <$> fs.read name
  decode setting j := build <$> fs.decode name setting j
  encode a := .obj (fs.members (parts a))

end ScanDigest
