import ScanDigest.Proofs.Records
import ScanDigest.Record.Batch

/-!
# Record files

Records written one on a line, or as one array, are read back as the same records in the same order
(`Batch.ofString_encode`). No line is broken or trimmed on the way, since a written record has no
control character and stands between braces.
-/

set_option autoImplicit false

namespace ScanDigest

open Json

/-! ## Lines -/

namespace Text

theorem lines_eq_splitOn (cs : List Char) : lines cs = cs.splitOn '\n' := by
  induction cs with
  | nil => rfl
  | cons c cs ih =>
    obtain ⟨l, ls, hls⟩ := List.exists_cons_of_ne_nil (lines_ne_nil cs)
    rw [List.splitOn_cons_eq_if_modifyHead, ← ih, lines_cons, hls, addToLines]
    by_cases hc : c = '\n' <;> simp [hc]

/-- A line feed ends one line and starts another. -/
theorem lines_append (cs ds : List Char) : lines (cs ++ '\n' :: ds) = lines cs ++ lines ds := by
  simp only [lines_eq_splitOn, List.splitOn_append_cons_self]

theorem lines_intercalate {ls : List (List Char)} (hne : ls ≠ []) (h : ∀ l ∈ ls, '\n' ∉ l) :
    lines (['\n'].intercalate ls) = ls := by
  rw [lines_eq_splitOn, List.splitOn_intercalate _ h hne]

/-- Nothing is trimmed off a text that starts and ends with no blank. -/
theorem trim_of_not_blank {c d : Char} (cs : List Char) (hc : isBlank c = false)
    (hd : isBlank d = false) : trim (c :: cs ++ [d]) = c :: cs ++ [d] := by
  simp [trim, trimStart, hc, hd]

end Text

/-! ## Batches -/

namespace Batch

theorem ofEntries_of_ok {entries : List Entry} {rs : List Record}
    (h : entries.map Prod.snd = rs.map .ok) : ofEntries entries = ⟨rs, []⟩ := by
  induction entries generalizing rs with
  | nil => cases rs <;> [rfl; cases h]
  | cons e entries ih =>
    cases rs with
    | nil => cases h
    | cons r rs =>
      obtain ⟨n, x⟩ := e
      rw [List.map_cons, List.map_cons, List.cons.injEq] at h
      obtain ⟨hx, hrest⟩ := h
      have ih := ih hrest
      subst hx
      simp only [ofEntries, Batch.mk.injEq] at ih ⊢
      exact ⟨congrArg (r :: ·) ih.1, ih.2⟩

theorem map_snd_zipIdx {α : Type} (f : α → Except String Record) (as : List α) (n : Nat) :
    ((as.zipIdx n).map fun a => ((a.2, f a.1) : Entry)).map Prod.snd = as.map f := by
  rw [List.map_map]
  conv => rhs; rw [← List.zipIdx_map_fst n as, List.map_map]
  rfl

theorem ofEntries_lineEntries {ls : List (List Char)} {rs : List Record} (n : Nat)
    (hblank : ∀ l ∈ ls, (Text.trim l).isEmpty = false) (h : ls.map decodeLine = rs.map .ok) :
    ofEntries (lineEntries n ls) = ⟨rs, []⟩ := by
  apply ofEntries_of_ok
  have hkeep : (ls.zipIdx n).filter (fun l => !(Text.trim l.1).isEmpty) = ls.zipIdx n := by
    rw [List.filter_eq_self]
    intro l hl
    have hmem : l.1 ∈ ls := by
      rw [← List.zipIdx_map_fst n ls]
      exact List.mem_map_of_mem hl
    rw [hblank l.1 hmem]
    rfl
  rw [lineEntries, hkeep, map_snd_zipIdx, h]

theorem ofEntries_itemEntries {js : List Json} {rs : List Record} (n : Nat)
    (h : js.map Record.codec.ofJson = rs.map .ok) : ofEntries (itemEntries n js) = ⟨rs, []⟩ := by
  apply ofEntries_of_ok
  have hsnd := map_snd_zipIdx (fun j => (Record.codec.ofJson j).mapError Cause.message) js n
  have hmessage : js.map (fun j => (Record.codec.ofJson j).mapError Cause.message) =
      (js.map Record.codec.ofJson).map (Except.mapError Cause.message) := by
    rw [List.map_map]
    rfl
  rw [itemEntries, hsnd, hmessage, h, List.map_map]
  rfl

end Batch

/-! ## Written records -/

namespace Record

/-- The text of a record stands between braces. -/
theorem exists_chars_eq (r : Record) : ∃ cs, r.encode.chars = '{' :: cs ++ ['}'] := by
  rw [encode_eq, chars_obj]
  obtain ⟨cs, hcs⟩ := exists_text_eq .object memberText ((tagKey, .str r.kind) :: r.body)
  exact ⟨cs, by rw [hcs]; rfl⟩

theorem not_mem_chars (r : Record) : '\n' ∉ r.encode.chars := by
  intro h
  have hge := (lawful.plain r).noControl '\n' h
  exact absurd hge (by decide)

theorem trim_chars (r : Record) : Text.trim r.encode.chars = r.encode.chars := by
  obtain ⟨cs, hcs⟩ := r.exists_chars_eq
  rw [hcs]
  exact Text.trim_of_not_blank cs (by decide) (by decide)

theorem decodeLine_chars (r : Record) : Batch.decodeLine r.encode.chars = .ok r := by
  rw [Batch.decodeLine, trim_chars]
  simp only [ofText_encode]
  rfl

end Record

/-! ## Arrays -/

theorem Codec.list_reads {α : Type} {c : Codec α} {as : List α}
    (hopens : ∀ a ∈ as, Opens (c.encode a).chars)
    (hreads : ∀ a ∈ as, c.read.Reads (c.encode a).chars a) :
    (Codec.list c).read.Reads ((Codec.list c).encode as).chars as := by
  intro t ht
  have hitems : Reader.Reads (separated .list (fun acc => return (← c.read) :: acc) [])
      (Brackets.list.text (fun a => (c.encode a).chars) as)
      (as.foldl (fun acc a => a :: acc) []) :=
    separated_reads (.inl rfl) hopens fun acc a ha t ht => by simp [hreads a ha t ht]
  show (Codec.list c).read.run (Text.ofChars (Json.arr (as.map c.encode)).chars ++ t) = _
  rw [chars_arr, Brackets.text_map, Text.ofChars_cons]
  simp [Codec.list, trimSpace, isSpace, hitems t ht]

namespace Batch

/-- A file with each record on a line of its own. -/
def ndjson (rs : List Record) : String :=
  String.intercalate "\n" (rs.map fun r => (Record.codec.encode r).compact)

/-- A file with the array of the records. -/
def array (rs : List Record) : String := ((Codec.list Record.codec).encode rs).compact

theorem toList_ndjson (rs : List Record) :
    (ndjson rs).toList = ['\n'].intercalate (rs.map fun r => r.encode.chars) := by
  have hfeed : "\n".toList = ['\n'] := by decide
  have hlines : (rs.map fun r => (Record.codec.encode r).compact).map String.toList =
      rs.map fun r => r.encode.chars := by
    rw [List.map_map]
    exact List.map_congr_left fun r _ => r.encode.toList_compact
  rw [ndjson, String.toList_intercalate, hfeed, hlines]

theorem ofEntries_chars (n : Nat) (rs : List Record) :
    ofEntries (lineEntries n (rs.map fun r => r.encode.chars)) = ⟨rs, []⟩ := by
  apply ofEntries_lineEntries
  · intro l hl
    obtain ⟨r, -, rfl⟩ := List.mem_map.mp hl
    obtain ⟨cs, hcs⟩ := r.exists_chars_eq
    rw [r.trim_chars, hcs]
    rfl
  · rw [List.map_map]
    apply List.map_congr_left
    intro r _
    rw [Function.comp_apply, r.decodeLine_chars]

theorem ofLines_ndjson (rs : List Record) : ofLines (ndjson rs) = ⟨rs, []⟩ := by
  rw [ofLines, toList_ndjson]
  cases rs with
  | nil => rfl
  | cons r rs =>
    have hfeed : ∀ l ∈ (r :: rs).map fun r => r.encode.chars, '\n' ∉ l := by
      intro l hl
      obtain ⟨r, -, rfl⟩ := List.mem_map.mp hl
      exact r.not_mem_chars
    have hne : (r :: rs).map (fun r => r.encode.chars) ≠ [] := List.cons_ne_nil _ _
    rw [Text.lines_intercalate hne hfeed, ofEntries_chars]

theorem startsArray_ndjson (rs : List Record) : startsArray (ndjson rs) = false := by
  rw [startsArray, toList_ndjson]
  cases rs with
  | nil => rfl
  | cons r rs =>
    obtain ⟨cs, hcs⟩ := r.exists_chars_eq
    obtain ⟨ds, hds⟩ : ∃ ds, ['\n'].intercalate ((r :: rs).map fun r => r.encode.chars) =
        '{' :: ds := by
      rw [List.map_cons, hcs]
      cases rs.map fun r => r.encode.chars with
      | nil => exact ⟨_, List.intercalate_singleton⟩
      | cons l ls => exact ⟨_, List.intercalate_cons_cons⟩
    rw [hds]
    rfl

theorem toList_array (rs : List Record) :
    (array rs).toList = (Json.arr (rs.map Record.encode)).chars := toList_compact _

theorem startsArray_array (rs : List Record) : startsArray (array rs) = true := by
  rw [startsArray, toList_array, chars_arr]
  rfl

theorem items_array (rs : List Record) :
    items.ofText (Text.ofString (array rs)) = .ok (rs.map Record.encode) := by
  have hplain : ∀ j ∈ rs.map Record.encode, j.Plain 126 := by
    intro j hj
    obtain ⟨r, -, rfl⟩ := List.mem_map.mp hj
    exact (Record.lawful.plain r).mono (by decide)
  have hreads : items.read.Reads (items.encode (rs.map Record.encode)).chars
      (rs.map Record.encode) :=
    Codec.list_reads (fun j hj => (hplain j hj).opens) fun j hj => value_reads (hplain j hj)
  have hencode : items.encode (rs.map Record.encode) = .arr (rs.map Record.encode) :=
    congrArg Json.arr (List.map_id _)
  rw [Text.ofString, toList_array, ← hencode]
  exact hreads.whole

theorem ofArray_array (rs : List Record) : ofArray (array rs) = .ok ⟨rs, []⟩ := by
  have hjson : (rs.map Record.encode).map Record.codec.ofJson = rs.map .ok := by
    rw [List.map_map]
    exact List.map_congr_left fun r _ => Record.lawful.ofJson_encode r
  rw [ofArray]
  simp only [items_array, ofEntries_itemEntries 1 hjson]

/-- **Record files are read back**, in either form. -/
theorem ofString_encode (rs : List Record) :
    ofString (ndjson rs) = .ok ⟨rs, []⟩ ∧ ofString (array rs) = .ok ⟨rs, []⟩ := by
  constructor
  · rw [ofString, startsArray_ndjson, if_neg Bool.false_ne_true, ofLines_ndjson]
  · rw [ofString, startsArray_array, if_pos rfl, ofArray_array]

end Batch

end ScanDigest
