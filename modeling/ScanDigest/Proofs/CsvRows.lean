import Mathlib.Data.List.Basic
import ScanDigest.Digest.Csv
import ScanDigest.Proofs.Chronology
import ScanDigest.Proofs.Fingerprints

/-!
# CSV is read back as the rows of a digest

A reader of CSV goes through a text by characters (`Cursor.step`): a comma ends a field and a line
feed a row, unless they stand between quotes, and a quote between quotes is written twice. It takes
a field back wherever one may begin (`foldlM_field`), hence a row (`foldlM_row`) and all rows
(`read_rows`). So the CSV of a digest tells the entries of all its events, whatever their texts
(`read_render`).
-/

set_option autoImplicit false

namespace ScanDigest

namespace Csv

/-! ## Reading -/

/-- Where a reader stands. -/
inductive Place where
  /-- Before a field. -/
  | start
  /-- In a field without quotes. -/
  | bare
  /-- Between the quotes of a field. -/
  | quoted
  /-- After a quote between quotes, which ends the field unless a second one follows. -/
  | closing
  deriving DecidableEq, Repr

/-- A reader on its way: the field, the fields before it in its row, and the rows before that. -/
structure Cursor where
  place : Place
  field : String
  fields : List String
  rows : List (List String)
  deriving DecidableEq, Repr

namespace Cursor

/-- Before a row. -/
def atRow (rows : List (List String)) : Cursor := ⟨.start, "", [], rows⟩

/-- Takes a character into the field. -/
def push (s : Cursor) (place : Place) (c : Char) : Cursor :=
  { s with place, field := s.field.push c }

def endField (s : Cursor) : Cursor :=
  { s with place := .start, field := "", fields := s.fields ++ [s.field] }

def endRow (s : Cursor) : Cursor := atRow (s.rows ++ [s.endField.fields])

/-- Reads a character. A quote may stand at the two ends of a field, or twice between them, and a
carriage return only between quotes. -/
def step (s : Cursor) (c : Char) : Option Cursor :=
  match s.place, c with
  | .start, '"' => some { s with place := .quoted }
  | .bare, '"' => none
  | .quoted, '"' => some { s with place := .closing }
  | .quoted, c => some (s.push .quoted c)
  | .closing, '"' => some (s.push .quoted '"')
  | _, ',' => some s.endField
  | _, '\n' => some s.endRow
  | .closing, _ => none
  | _, '\r' => none
  | _, c => some (s.push .bare c)

/-- The rows at the end of a text. The last line feed may be missing, but no quote. -/
def finish (s : Cursor) : Option (List (List String)) :=
  match s.place with
  | .quoted => none
  | .start => if s.fields = [] then some s.rows else some s.endRow.rows
  | _ => some s.endRow.rows

end Cursor

/-- The rows of a text, if it is CSV. -/
def read (text : String) : Option (List (List String)) :=
  (text.toList.foldlM Cursor.step (.atRow [])).bind Cursor.finish

/-! ## A field is taken back -/

section

variable {f : String} {fs : List String} {rs : List (List String)}

theorem push_append_ofList (f : String) (c : Char) (cs : List Char) :
    f.push c ++ String.ofList cs = f ++ String.ofList (c :: cs) := by
  rw [← String.toList_inj]
  simp

theorem step_plain {place : Place} (hp : place = .start ∨ place = .bare) {c : Char}
    (hc : isSpecial c = false) :
    Cursor.step ⟨place, f, fs, rs⟩ c = some ⟨.bare, f.push c, fs, rs⟩ := by
  simp only [isSpecial, Bool.or_eq_false_iff, beq_eq_false_iff_ne] at hc
  unfold Cursor.step
  rcases hp with rfl | rfl <;> split <;> simp_all [Cursor.push]

theorem foldlM_plain {cs : List Char} (h : ∀ c ∈ cs, isSpecial c = false) :
    cs.foldlM Cursor.step ⟨.bare, f, fs, rs⟩ = some ⟨.bare, f ++ String.ofList cs, fs, rs⟩ := by
  induction cs generalizing f with
  | nil => simp
  | cons c cs ih =>
    rw [List.foldlM_cons, step_plain (.inr rfl) (h c List.mem_cons_self)]
    show cs.foldlM Cursor.step ⟨.bare, f.push c, fs, rs⟩ = _
    rw [ih fun d hd => h d (List.mem_cons_of_mem c hd), push_append_ofList]

/-- Between quotes, a quote that is written twice is read once. -/
theorem foldlM_doubled (cs : List Char) :
    (doubled cs).foldlM Cursor.step ⟨.quoted, f, fs, rs⟩ =
      some ⟨.quoted, f ++ String.ofList cs, fs, rs⟩ := by
  induction cs generalizing f with
  | nil => simp [doubled]
  | cons c cs ih =>
    have hc : (if c = '"' then ['"', '"'] else [c]).foldlM Cursor.step ⟨.quoted, f, fs, rs⟩ =
        some ⟨.quoted, f.push c, fs, rs⟩ := by
      split
      · subst c
        rfl
      · simp [Cursor.step, Cursor.push, *]
    rw [doubled, List.flatMap_cons, List.foldlM_append, hc]
    show (doubled cs).foldlM Cursor.step ⟨.quoted, f.push c, fs, rs⟩ = _
    rw [ih, push_append_ofList]

/-- Where a field begins, a reader takes it back, and it may end there. -/
theorem foldlM_field (t : String) (fs : List String) (rs : List (List String)) :
    ∃ place, place ≠ .quoted ∧
      (field t).foldlM Cursor.step ⟨.start, "", fs, rs⟩ = some ⟨place, t, fs, rs⟩ := by
  by_cases hspecial : t.toList.any isSpecial
  · refine ⟨.closing, by decide, ?_⟩
    rw [field, if_pos hspecial, List.cons_append, List.foldlM_cons]
    show (doubled t.toList ++ ['"']).foldlM Cursor.step ⟨.quoted, "", fs, rs⟩ = _
    rw [List.foldlM_append, foldlM_doubled]
    simp [Cursor.step]
  · have hplain : ∀ c ∈ t.toList, isSpecial c = false := by simpa using hspecial
    rw [field, if_neg hspecial]
    cases ht : t.toList with
    | nil =>
      obtain rfl : t = "" := String.toList_eq_nil_iff.mp ht
      exact ⟨.start, by decide, rfl⟩
    | cons c cs =>
      rw [ht] at hplain
      refine ⟨.bare, by decide, ?_⟩
      rw [List.foldlM_cons, step_plain (.inl rfl) (hplain c List.mem_cons_self)]
      show cs.foldlM Cursor.step ⟨.bare, "".push c, fs, rs⟩ = _
      rw [foldlM_plain fun d hd => hplain d (List.mem_cons_of_mem c hd), push_append_ofList, ← ht]
      simp

/-! ## Rows are taken back -/

theorem step_comma {place : Place} (hp : place ≠ .quoted) :
    Cursor.step ⟨place, f, fs, rs⟩ ',' = some ⟨.start, "", fs ++ [f], rs⟩ := by
  cases place <;> first | rfl | exact absurd rfl hp

theorem step_feed {place : Place} (hp : place ≠ .quoted) :
    Cursor.step ⟨place, f, fs, rs⟩ '\n' = some (.atRow (rs ++ [fs ++ [f]])) := by
  cases place <;> first | rfl | exact absurd rfl hp

theorem foldlM_row {row : List String} (h : row ≠ []) :
    (Csv.row row).foldlM Cursor.step ⟨.start, "", fs, rs⟩ = some (.atRow (rs ++ [fs ++ row])) := by
  induction row generalizing fs with
  | nil => exact absurd rfl h
  | cons t row ih =>
    obtain ⟨place, hp, ht⟩ := foldlM_field t fs rs
    cases row with
    | nil =>
      rw [Csv.row, List.foldlM_append, ht]
      simp [step_feed hp]
    | cons u row =>
      rw [Csv.row, List.foldlM_append, ht]
      show (',' :: Csv.row (u :: row)).foldlM Cursor.step ⟨place, t, fs, rs⟩ = _
      rw [List.foldlM_cons, step_comma hp]
      show (Csv.row (u :: row)).foldlM Cursor.step ⟨.start, "", fs ++ [t], rs⟩ = _
      rw [ih (List.cons_ne_nil u row), List.append_assoc, List.singleton_append]

theorem foldlM_rows {rows : List (List String)} (h : ∀ row ∈ rows, row ≠ []) :
    (rows.flatMap row).foldlM Cursor.step (.atRow rs) = some (.atRow (rs ++ rows)) := by
  induction rows generalizing rs with
  | nil => simp
  | cons row rows ih =>
    rw [List.flatMap_cons, List.foldlM_append, Cursor.atRow, foldlM_row (h row List.mem_cons_self)]
    show (rows.flatMap Csv.row).foldlM Cursor.step (.atRow (rs ++ [[] ++ row])) = _
    rw [ih fun r hr => h r (List.mem_cons_of_mem row hr), List.append_assoc]
    rfl

end

/-! ## Tables -/

/-- The text of rows of one length; other rows are refused. -/
def write? (rows : List (List String)) : Option String :=
  if rows.Pairwise fun row next => next.length = row.length then
    some (String.ofList (rows.flatMap row))
  else none

/-- Rows with a field at least are read back. -/
theorem read_rows {rows : List (List String)} (h : ∀ row ∈ rows, row ≠ []) :
    read (String.ofList (rows.flatMap row)) = some rows := by
  rw [read, String.toList_ofList, foldlM_rows h]
  rfl

example : read "a,\"b,\"\"\n\"\n,\n" = some [["a", "b,\"\n"], ["", ""]] := by decide

/-! ## The table of a digest -/

theorem length_of_mem_rows {es : List Event} {row : List String} (h : row ∈ rows es) :
    row.length = 6 := by
  rcases List.mem_cons.mp h with rfl | h
  · rfl
  · obtain ⟨e, -, he⟩ := List.mem_flatMap.mp h
    obtain ⟨x, -, rfl⟩ := List.mem_map.mp he
    rfl

theorem write?_rows (es : List Event) : write? (rows es) = some (render es) := by
  refine if_pos (List.pairwise_of_forall_mem_list fun row hrow next hnext => ?_)
  rw [length_of_mem_rows hrow, length_of_mem_rows hnext]

end Csv

/-- Sorting by keys leaves the events of a key in order. -/
theorem Event.under_byKey (k : EventKey) (es : List Event) :
    under k (byKey es) = under k es :=
  filter_mergeSort key (fun _ _ _ => Std.TransCmp.isLE_trans) isLE_key_total
    (fun a b h => by rw [h, Std.ReflOrd.compare_self]; rfl) es k

namespace Csv

/-- **CSV tells the entries of a digest.** Its rows are of one length, and they are read back as the
header and a row for each entry: the events by their keys, events of one key and entries of one event
in their order. Events of different keys may be listed in any order. -/
theorem read_render (es : List Event) :
    write? (rows es) = some (render es) ∧
    read (render es) = some (
      ["project", "project_version", "category", "label", "value", "event_key"] ::
      (Event.byKey es).flatMap fun e => e.dataset.map fun x =>
        [e.project.name, e.project.versionName, e.category.name, x.label, x.value, e.key.text]) ∧
    (Event.byKey es).Perm es ∧
    (Event.byKey es).Pairwise (fun a b => (compare a.key b.key).isLE) ∧
    (∀ k, Event.under k (Event.byKey es) = Event.under k es) ∧
    ((es.map Event.key).Nodup → ∀ fs, fs.Perm es → render fs = render es) := by
  refine ⟨write?_rows es, ?_, Event.byKey_perm es, Event.pairwise_byKey es,
    fun k => Event.under_byKey k es, fun hnodup fs hperm => ?_⟩
  · show read (String.ofList ((rows es).flatMap row)) = some (rows es)
    refine read_rows fun row hrow hnil => ?_
    have hlength := length_of_mem_rows hrow
    rw [hnil] at hlength
    cases hlength
  · rw [render, render, rows, rows, (Event.byKey_eq_iff_perm hnodup).mpr hperm.symm]

/-- Two events in either order; one has texts with commas, quotes and line breaks in them. -/
theorem read_render_quoted :
    let p : ProjectVersion := ⟨"billing, \"new\"", "", "/pv/1"⟩
    let a : Event := ⟨⟨"b"⟩, .violation, p, [⟨"RULE", "No GPL\r\nin releases"⟩, ⟨"", " 1.0,"⟩]⟩
    let b : Event := ⟨⟨"a"⟩, .vulnerability, p, [⟨"ADDED", "\"\n"⟩]⟩
    ([a, b].map Event.key).Nodup ∧ [b, a].Perm [a, b] ∧ render [b, a] = render [a, b] := by
  intro p a b
  have hnodup : ([a, b].map Event.key).Nodup := by decide
  have hperm : [b, a].Perm [a, b] := .swap a b []
  exact ⟨hnodup, hperm, (read_render [a, b]).2.2.2.2.2 hnodup [b, a] hperm⟩

end Csv

end ScanDigest
