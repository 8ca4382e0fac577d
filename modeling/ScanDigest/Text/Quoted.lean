import ScanDigest.Text.Printable

/-!
# Quoted texts

How a message shows a text it complains about: between double quotes, with the usual short escapes,
and every unprintable character as its code point in hexadecimal.
-/

set_option autoImplicit false

namespace ScanDigest.Text

/-- The hexadecimal digits of a number, lower case, without leading zeros. -/
def hex (n : Nat) : String := String.ofList (Nat.toDigits 16 n)

/-- A character inside a quoted text. -/
def quoteChar (c : Char) : String :=
  match c with
  | '\x00' => "\\0"
  | '\t' => "\\t"
  | '\r' => "\\r"
  | '\n' => "\\n"
  | '\\' => "\\\\"
  | '"' => "\\\""
  | c => if isPrintable c then c.toString else "\\u\x7b" ++ hex c.toNat ++ "\x7d"

/-- A text between quotes. -/
def quote (s : String) : String := "\"" ++ String.join (s.toList.map quoteChar) ++ "\""

end ScanDigest.Text
