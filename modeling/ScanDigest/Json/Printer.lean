import ScanDigest.Json.Basic

/-!
# Writing values

`compact` writes a value without white space, `pretty` with one item a line, indented by two spaces
a level, and an empty list or object in one line.
-/

set_option autoImplicit false

namespace ScanDigest.Json

/-- A hexadecimal digit, lower case. -/
def hexDigit (n : Nat) : Char := if n < 10 then Char.ofNat (48 + n) else Char.ofNat (87 + n)

/-- A character inside quotes. -/
def escaped (c : Char) : List Char :=
  match c with
  | '"' => ['\\', '"']
  | '\\' => ['\\', '\\']
  | '\x08' => ['\\', 'b']
  | '\x0c' => ['\\', 'f']
  | '\n' => ['\\', 'n']
  | '\r' => ['\\', 'r']
  | '\t' => ['\\', 't']
  | c =>
    if c.toNat < 0x20 then
      ['\\', 'u', '0', '0', hexDigit (c.toNat / 16), hexDigit (c.toNat % 16)]
    else [c]

/-- A string between quotes. -/
def quoted (s : String) : List Char := '"' :: s.toList.flatMap escaped ++ ['"']

/-- A scalar; brackets that hold nothing, too. -/
def scalarChars : Json → List Char
  | .null => ['n', 'u', 'l', 'l']
  | .bool true => ['t', 'r', 'u', 'e']
  | .bool false => ['f', 'a', 'l', 's', 'e']
  | .num n => n.text.toList
  | .str s => quoted s
  | .arr _ => ['[', ']']
  | .obj _ => ['{', '}']

mutual

/-- The value without white space. -/
def chars : Json → List Char
  | .arr (j :: js) => '[' :: chars j ++ itemChars js
  | .obj ((k, j) :: ms) => '{' :: quoted k ++ ':' :: chars j ++ memberChars ms
  | j => scalarChars j

/-- Further items, and the bracket that closes them. -/
def itemChars : List Json → List Char
  | [] => [']']
  | j :: js => ',' :: chars j ++ itemChars js

/-- Further members, and the bracket that closes them. -/
def memberChars : List (String × Json) → List Char
  | [] => ['}']
  | (k, j) :: ms => ',' :: quoted k ++ ':' :: chars j ++ memberChars ms

end

/-- The value without white space. -/
def compact (j : Json) : String := String.ofList j.chars

/-! ## Indented -/

/-- The start of a line at a level. -/
def newLine (level : Nat) : List Char := '\n' :: List.replicate (2 * level) ' '

mutual

/-- The value with its brackets at a level. -/
def prettyChars (level : Nat) : Json → List Char
  | .arr (j :: js) =>
    '[' :: newLine (level + 1) ++ prettyChars (level + 1) j ++ prettyItemChars level js
  | .obj ((k, j) :: ms) =>
    '{' :: newLine (level + 1) ++ quoted k ++ ':' :: ' ' :: prettyChars (level + 1) j ++
      prettyMemberChars level ms
  | j => scalarChars j

/-- Further items, and the bracket that closes them, at a level. -/
def prettyItemChars (level : Nat) : List Json → List Char
  | [] => newLine level ++ [']']
  | j :: js =>
    ',' :: newLine (level + 1) ++ prettyChars (level + 1) j ++ prettyItemChars level js

/-- Further members, and the bracket that closes them, at a level. -/
def prettyMemberChars (level : Nat) : List (String × Json) → List Char
  | [] => newLine level ++ ['}']
  | (k, j) :: ms =>
    ',' :: newLine (level + 1) ++ quoted k ++ ':' :: ' ' :: prettyChars (level + 1) j ++
      prettyMemberChars level ms

end

/-- The value with one item a line. -/
def pretty (j : Json) : String := String.ofList (j.prettyChars 0)

end ScanDigest.Json
