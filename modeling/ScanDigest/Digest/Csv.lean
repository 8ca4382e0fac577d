import ScanDigest.Event.Basic

/-!
# Digests as CSV

A header, then a row for each entry of each event, with commas between fields and a line feed after
each row. A field with a comma, a quote or a line break in it stands between quotes, and a quote in
it is written twice.
-/

set_option autoImplicit false

namespace ScanDigest.Csv

/-- The characters for which a field is quoted. -/
def isSpecial (c : Char) : Bool := c == ',' || c == '"' || c == '\r' || c == '\n'

/-- A quote twice, all else once. -/
def doubled (cs : List Char) : List Char :=
  cs.flatMap fun c => if c = '"' then ['"', '"'] else [c]

def field (s : String) : List Char :=
  if s.toList.any isSpecial then '"' :: doubled s.toList ++ ['"'] else s.toList

/-- Fields with commas between them, and the end of the row. -/
def row : List String → List Char
  | [] => ['\n']
  | [s] => field s ++ ['\n']
  | s :: t :: rest => field s ++ ',' :: row (t :: rest)

def header : List String :=
  ["project", "project_version", "category", "label", "value", "event_key"]

/-- The rows of an event. -/
def eventRows (e : Event) : List (List String) :=
  e.dataset.map fun x =>
    [e.project.name, e.project.versionName, e.category.name, x.label, x.value, e.key.text]

/-- The rows of events in the order of their keys, after the header. -/
def rows (es : List Event) : List (List String) := header :: (Event.byKey es).flatMap eventRows

def render (es : List Event) : String := String.ofList ((rows es).flatMap row)

end ScanDigest.Csv
