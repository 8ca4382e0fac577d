/-!
# Blank characters and lines

Which characters count as white space between records and around a timestamp (the Unicode property
`White_Space`), trimming, and cutting a text into lines.
-/

set_option autoImplicit false

namespace ScanDigest.Text

/-- The characters with the Unicode property `White_Space`. -/
def isBlank (c : Char) : Bool :=
  let n := c.toNat
  (0x09 ≤ n && n ≤ 0x0D) || n == 0x20 || n == 0x85 || n == 0xA0 || n == 0x1680 ||
    (0x2000 ≤ n && n ≤ 0x200A) || n == 0x2028 || n == 0x2029 || n == 0x202F || n == 0x205F ||
    n == 0x3000

/-- The characters without the blanks before them. -/
def trimStart (cs : List Char) : List Char := cs.dropWhile isBlank

/-- The characters without the blanks around them. -/
def trim (cs : List Char) : List Char :=
  ((trimStart cs).reverse.dropWhile isBlank).reverse

/-- A string of blanks only. -/
def isBlankString (s : String) : Bool := s.toList.all isBlank

/-- Puts a character before the first of some lines; a line feed starts a line of its own. -/
def addToLines (c : Char) (ls : List (List Char)) : List (List Char) :=
  if c = '\n' then [] :: ls
  else match ls with
    | [] => [[c]]
    | l :: ls => (c :: l) :: ls

/-- The pieces of a text between its line feeds. A carriage return stays with its line: it is blank,
so trimming the line takes it away. -/
def lines (cs : List Char) : List (List Char) := cs.foldr addToLines [[]]

@[simp] theorem lines_nil : lines [] = [[]] := rfl

@[simp] theorem lines_cons (c : Char) (cs : List Char) :
    lines (c :: cs) = addToLines c (lines cs) := rfl

theorem lines_ne_nil (cs : List Char) : lines cs ≠ [] := by
  cases cs with
  | nil => simp
  | cons c cs => rw [lines_cons]; unfold addToLines; split <;> (try split) <;> simp

end ScanDigest.Text
