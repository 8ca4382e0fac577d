import ScanDigest.Json.Basic
import ScanDigest.Text.Glyph
import ScanDigest.Text.Quoted

/-!
# What is wrong with a document

A `Cause` is what was found wrong, a `Fault` adds where: by the bytes that are left of the text from
there on. `Fault.message` gives the wording, with the line and the column of that place.
-/

set_option autoImplicit false

namespace ScanDigest.Json

/-- What stands where something else is wanted. -/
inductive Found where
  | null
  | bool (value : Bool)
  | num (value : Number)
  | str (value : String)
  | sequence
  | map
  deriving Repr

/-- The kind of a value, with a scalar's own value. -/
def found : Json → Found
  | .null => .null
  | .bool b => .bool b
  | .num n => .num n
  | .str s => .str s
  | .arr _ => .sequence
  | .obj _ => .map

/-- What is wanted in a place. -/
inductive Wanted where
  | text
  | sequence
  | map
  | count
  | unit
  | struct (name : String)
  | tagged (name : String)
  | tag
  | textOrMap
  | singleMember
  deriving Repr

/-- What length is wanted of an array. -/
inductive WantedLength where
  | fields (struct : String) (count : Nat)
  | fewer
  | items (count : Nat)
  deriving Repr

inductive Cause where
  | valueEnds
  | listEnds
  | objectEnds
  | stringEnds
  | noColon
  | noListSeparator
  | noObjectSeparator
  | brokenWord
  | noValue
  | invalidEscape
  | invalidNumber
  | numberOutOfRange
  | controlCharacter
  | keyNotString
  | trailingComma
  | trailingCharacters
  | loneSurrogate
  | openSurrogate
  | tooDeep
  | invalidCodePoint
  | invalidType (found : Found) (wanted : Wanted)
  | invalidValue (found : Found) (wanted : Wanted)
  | invalidLength (length : Nat) (wanted : WantedLength)
  | unknownVariant (name : String) (variants : List String)
  | missingField (name : String)
  | duplicateField (name : String)
  deriving Repr

/-- A cause and its place: the bytes left from there to the end of the text. Faults of values that
were read before have no place. -/
structure Fault where
  cause : Cause
  left : Option Nat
  deriving Repr

/-! ## Wording -/

/-- A name between backticks. -/
def ticked (s : String) : String := "`" ++ s ++ "`"

def Found.message : Found → String
  | .null => "null"
  | .bool b => "boolean " ++ ticked (if b then "true" else "false")
  | .num (.int i) => "integer " ++ ticked (Number.int i).text
  | .num (.float x) => "floating point " ++ ticked (Number.float x).text
  | .str s => "string " ++ Text.quote s
  | .sequence => "sequence"
  | .map => "map"

def Wanted.message : Wanted → String
  | .text => "a string"
  | .sequence => "a sequence"
  | .map => "a map"
  | .count => "usize"
  | .unit => "unit"
  | .struct name => "struct " ++ name
  | .tagged name => "internally tagged enum " ++ name
  | .tag => "variant identifier"
  | .textOrMap => "string or map"
  | .singleMember => "map with a single key"

/-- A number of elements, in words. -/
def elements (n : Nat) : String := toString n ++ if n = 1 then " element" else " elements"

def WantedLength.message : WantedLength → String
  | .fields struct count => "struct " ++ struct ++ " with " ++ elements count
  | .fewer => "fewer elements in array"
  | .items count => elements count ++ " in sequence"

def Cause.message : Cause → String
  | .valueEnds => "EOF while parsing a value"
  | .listEnds => "EOF while parsing a list"
  | .objectEnds => "EOF while parsing an object"
  | .stringEnds => "EOF while parsing a string"
  | .noColon => "expected `:`"
  | .noListSeparator => "expected `,` or `]`"
  | .noObjectSeparator => "expected `,` or `\x7d`"
  | .brokenWord => "expected ident"
  | .noValue => "expected value"
  | .invalidEscape => "invalid escape"
  | .invalidNumber => "invalid number"
  | .numberOutOfRange => "number out of range"
  | .controlCharacter =>
    "control character (\\u0000-\\u001F) found while parsing a string"
  | .keyNotString => "key must be a string"
  | .trailingComma => "trailing comma"
  | .trailingCharacters => "trailing characters"
  | .loneSurrogate => "lone leading surrogate in hex escape"
  | .openSurrogate => "unexpected end of hex escape"
  | .tooDeep => "recursion limit exceeded"
  | .invalidCodePoint => "invalid unicode code point"
  | .invalidType found wanted =>
    "invalid type: " ++ found.message ++ ", expected " ++ wanted.message
  | .invalidValue found wanted =>
    "invalid value: " ++ found.message ++ ", expected " ++ wanted.message
  | .invalidLength length wanted =>
    "invalid length " ++ toString length ++ ", expected " ++ wanted.message
  | .unknownVariant name variants =>
    "unknown variant " ++ ticked name ++ ", expected one of " ++
      String.intercalate ", " (variants.map ticked)
  | .missingField name => "missing field " ++ ticked name
  | .duplicateField name => "duplicate field " ++ ticked name

/-- The line and the column that `offset` bytes of the text lead to from the given ones. A line feed
among them starts a line; a column counts bytes. -/
def place : Text → (offset line column : Nat) → Nat × Nat
  | [], _, line, column => (line, column)
  | g :: t, offset, line, column =>
    if offset = 0 then (line, column)
    else if g = .char '\n' then place t (offset - 1) (line + 1) 0
    else place t (offset - g.size) line (column + min g.size offset)

/-- The message about a fault in the text. -/
def Fault.message (f : Fault) (t : Text) : String :=
  match f.left with
  | none => f.cause.message
  | some left =>
    let (line, column) := place t (t.size - left) 1 0
    f.cause.message ++ " at line " ++ toString line ++ " column " ++ toString column

end ScanDigest.Json
