import ScanDigest.Proofs.RecordFiles
import ScanDigest.Proofs.RecordTexts

/-!
# The two forms of a batch agree

Texts of documents give the same batch one on a line and as the items of one array
(`Batch.formats_agree`), whether they hold records or not. In the array each document is read up to
the comma after it, since a value is read locally; on its line it is read after trimming, which takes
away white space only.
-/

set_option autoImplicit false

namespace ScanDigest

open Json Reader

/-! ## White space between items -/

namespace Json

variable {b : Brackets} {first : Bool} {sp s t u r : Text} {g : Glyph}

theorem run_another_append (hsp : ∀ g ∈ sp, isSpace g = true) (s : Text) :
    (another b first).run (sp ++ s) = (another b first).run s := by
  simp only [another, run_bind, run_space, trimSpace_append hsp]

/-- An item may have white space before it, after the comma. -/
theorem run_another_comma (hb : b.close ≠ ',') (hs : trimSpace s = g :: t) (hg : g ≠ .char b.close) :
    (another b false).run (.char ',' :: s) = .ok (true, g :: t) := by
  have hcomma : trimSpace (.char ',' :: s) = .char ',' :: s := by
    simp [trimSpace, isSpace]
  simp [another, hcomma, hs, hg, Ne.symm hb]

theorem run_another_first (hs : trimSpace s = g :: t) (hg : g ≠ .char b.close) :
    (another b true).run s = .ok (true, g :: t) := by
  simp [another, hs, hg]

theorem isBlank_eq_false_of_isDigit {c : Char} (h : c.isDigit = true) :
    Text.isBlank c = false := by
  simp only [Char.isDigit, Bool.and_eq_true, decide_eq_true_eq] at h
  have hlow : 48 ≤ c.toNat := h.1
  have hhigh : c.toNat ≤ 57 := h.2
  simp only [Text.isBlank, Bool.or_eq_false_iff, Bool.and_eq_false_iff, decide_eq_false_iff_not,
    beq_eq_false_iff_ne]
  omega

theorem exists_char_of_scalar? {scalar : Reader Json} (h : scalar? g = some scalar) :
    ∃ c, g = .char c ∧ Text.isBlank c = false ∧ c ≠ ']' ∧ c ≠ '}' := by
  unfold scalar? at h
  split at h
  case h_7 => cases h
  case h_6 c _ _ _ _ _ =>
    split at h
    · rename_i hdigit
      refine ⟨c, rfl, isBlank_eq_false_of_isDigit hdigit, ?_, ?_⟩ <;>
      · rintro rfl
        cases hdigit
    · cases h
  all_goals exact ⟨_, rfl, by decide⟩

/-- A value starts with a character that is no blank and closes no bracket. -/
theorem exists_head_of_run_value {d : Nat} {j : Json} (h : (value d).run s = .ok (j, r)) :
    ∃ c t, trimSpace s = .char c :: t ∧ Text.isBlank c = false ∧ c ≠ ']' ∧ c ≠ '}' := by
  rcases run_value_eq_ok_iff.mp h with ⟨_, t, _, _, ht, _⟩ | ⟨_, t, _, _, ht, _⟩ |
    ⟨g, t, scalar, ht, hscalar, _⟩
  · exact ⟨'[', t, ht, by decide⟩
  · exact ⟨'{', t, ht, by decide⟩
  · obtain ⟨c, rfl, hc⟩ := exists_char_of_scalar? hscalar
    exact ⟨c, t, ht, hc⟩

theorem Plain.shallow {d : Nat} {j : Json} (h : j.Plain d) : j.Shallow d := by
  induction h with
  | null => exact .null
  | bool b => exact .bool b
  | int => exact .num _
  | str s => exact .str s
  | arr _ ih => exact .arr ih
  | obj _ ih => exact .obj ih

/-! ## Documents as the items of an array -/

/-- The text holds one document, with no more than `d` brackets open at a time, and nothing else. -/
def Holds (d : Nat) (s : Text) (j : Json) : Prop :=
  ∃ r, (value d).run s = .ok (j, r) ∧ trimSpace r = []

theorem whole_eq_ok_iff {α : Type} {reader : Reader α} {a : α} :
    reader.whole s = .ok a ↔ ∃ r, reader.run s = .ok (a, r) ∧ trimSpace r = [] := by
  rw [Reader.whole]
  cases reader.run s with
  | error e => simp
  | ok p =>
    obtain ⟨a, r⟩ := p
    dsimp only
    constructor
    · intro h
      split at h
      · rename_i hr
        cases h
        exact ⟨r, rfl, hr⟩
      · cases h
    · rintro ⟨_, heq, hr⟩
      cases heq
      rw [hr]

theorem parse_eq_ok_iff {j : Json} : parse s = .ok j ↔ Holds maxDepth s j := whole_eq_ok_iff

theorem forall_isSpace_of_trimSpace_eq_nil (h : trimSpace r = []) : ∀ g ∈ r, isSpace g = true := by
  obtain ⟨sp, hsp, hr⟩ := exists_eq_append_trimSpace r
  rw [h, List.append_nil] at hr
  exact hr ▸ hsp

/-- A document is an item of an array: in front of a comma or a closing bracket it is read up to the
white space there. -/
theorem Holds.run_item {d : Nat} {j : Json} (h : Holds d s j) {u : Text} (hu : Stops u) :
    ∃ c t sp, trimSpace (s ++ u) = .char c :: t ∧ c ≠ ']' ∧
      (value d).run (.char c :: t) = .ok (j, sp ++ u) ∧ ∀ g ∈ sp, isSpace g = true := by
  obtain ⟨r, hrun, hr⟩ := h
  have hread : (value d).run (s ++ u) = .ok (j, r ++ u) := by
    obtain ⟨cs, rfl, hcs⟩ := local_value d _ hrun
    rw [List.append_assoc]
    apply hcs
    cases r with
    | nil => exact .inr ⟨rfl, hu⟩
    | cons g r => exact .inl rfl
  obtain ⟨c, t, ht, -, hclose, -⟩ := exists_head_of_run_value hread
  refine ⟨c, t, r, ht, hclose, ?_, forall_isSpace_of_trimSpace_eq_nil hr⟩
  rw [← hread]
  exact run_value_of_trimSpace_eq d (by rw [trimSpace_of_trimSpace_eq ht, ht])

theorem stops_more (ts : List String) (u : Text) :
    Stops (Text.ofChars (Brackets.list.more String.toList ts) ++ u) := by
  cases ts with
  | nil => exact ⟨']', u, rfl, .inr (.inl rfl)⟩
  | cons t ts => exact ⟨',', _, rfl, .inl rfl⟩

section Array

variable {d : Nat} {ts : List String} {js : List Json}
  (h : List.Forall₂ (fun t j => Holds d (Text.ofString t) j) ts js)

include h

theorem items_more (hsp : ∀ g ∈ sp, isSpace g = true) (u : Text) :
    Items .list (value d) false
      (sp ++ (Text.ofChars (Brackets.list.more String.toList ts) ++ u)) js u := by
  induction h generalizing sp with
  | nil =>
    refine .close ?_
    rw [run_another_append hsp]
    exact another_close (.inl rfl) false u
  | @cons t j ts js ht hts ih =>
    obtain ⟨c, t', sp', ht', hclose, hread, hsp'⟩ := ht.run_item (stops_more ts u)
    have htext : Text.ofChars (Brackets.list.more String.toList (t :: ts)) ++ u =
        .char ',' :: (Text.ofString t ++ (Text.ofChars (Brackets.list.more String.toList ts) ++ u)) := by
      simp [Brackets.more, Text.ofChars, Text.ofString]
    have hnext := run_another_comma (b := .list) (by decide) ht' (by simpa [Brackets.list] using hclose)
    rw [← run_another_append hsp, ← htext] at hnext
    exact .item hnext hread (ih hsp')

theorem items_text (u : Text) :
    Items .list (value d) true (Text.ofChars (Brackets.list.text String.toList ts) ++ u) js u := by
  cases h with
  | nil => exact .close (another_close (.inl rfl) true u)
  | @cons t j ts js ht hts =>
    obtain ⟨c, t', sp, ht', hclose, hread, hsp⟩ := ht.run_item (stops_more ts u)
    have htext : Text.ofChars (Brackets.list.text String.toList (t :: ts)) ++ u =
        Text.ofString t ++ (Text.ofChars (Brackets.list.more String.toList ts) ++ u) := by
      simp [Brackets.text, Text.ofChars, Text.ofString]
    have hnext := run_another_first (b := .list) ht' (by simpa [Brackets.list] using hclose)
    rw [← htext] at hnext
    exact .item hnext hread (items_more hts hsp u)

end Array

end Json

namespace Batch

theorem run_items_eq_ok_iff {s r : Text} {js : List Json} :
    items.read.run s = .ok (js, r) ↔ (value maxDepth).run s = .ok (.arr js, r) := by
  rw [run_value_eq_ok_iff]
  constructor
  · intro h
    obtain ⟨⟨⟩, _, hspace, h⟩ := run_bind_eq_ok_iff.mp h
    obtain ⟨_, _, hleft, h⟩ := run_bind_eq_ok_iff.mp h
    cases hspace
    cases hleft
    split at h
    · rename_i t ht
      obtain ⟨⟨⟩, _, hskip, h⟩ := run_bind_eq_ok_iff.mp h
      rw [ht] at hskip
      cases hskip
      obtain ⟨_, hitems, rfl⟩ := (run_map_separated_collect id js).mp h
      exact .inl ⟨126, t, _, rfl, ht, hitems, rfl⟩
    · exact absurd h (run_expected_ne_ok _ _ _)
  · rintro (⟨e, t, _, he, ht, hitems, heq⟩ | ⟨e, t, _, -, -, -, heq⟩ | ⟨g, t, scalar, -, hscalar, hrun⟩)
    · cases he
      cases heq
      have hread : items.read.run s =
          ((fun js => id js.reverse) <$> separated .list (collect Record.inner) []).run t := by
        simp only [items, Codec.list, run_bind, run_space, run_left, ht]
        rfl
      rw [hread]
      exact (run_map_separated_collect id js).mpr ⟨js, hitems, rfl⟩
    · cases heq
    · cases scalarAt hscalar hrun

/-- The array of a batch is a document that is an array. -/
theorem ofText_items_eq_ok_iff {s : Text} {js : List Json} :
    items.ofText s = .ok js ↔ parse s = .ok (.arr js) := by
  rw [Codec.ofText, parse, whole_eq_ok_iff, whole_eq_ok_iff]
  simp only [run_items_eq_ok_iff]

/-! ## Texts in an array and on lines -/

theorem toList_intercalate_comma (ts : List String) :
    (String.intercalate "," ts ++ "]").toList = Brackets.list.text String.toList ts := by
  have hcomma : ",".toList = [','] := by decide
  rw [String.toList_append, String.toList_intercalate, hcomma]
  induction ts with
  | nil => rfl
  | cons t ts ih =>
    cases ts with
    | nil => simp [Brackets.text, Brackets.more, Brackets.list]
    | cons u ts =>
      rw [List.map_cons, List.map_cons, List.intercalate_cons_cons, List.append_assoc,
        List.append_assoc]
      rw [List.map_cons] at ih
      rw [ih]
      rfl

theorem ofText_items_array {ts : List String} {js : List Json}
    (h : List.Forall₂ (fun t j => Holds 126 (Text.ofString t) j) ts js) :
    items.ofText (Text.ofString ("[" ++ String.intercalate "," ts ++ "]")) = .ok js := by
  have htext : Text.ofString ("[" ++ String.intercalate "," ts ++ "]") =
      .char '[' :: (Text.ofChars (Brackets.list.text String.toList ts) ++ []) := by
    have hopen : "[".toList = ['['] := by decide
    rw [List.append_nil, ← toList_intercalate_comma, String.append_assoc, Text.ofString,
      String.toList_append, hopen]
    rfl
  have hitems := items_text h []
  rw [ofText_items_eq_ok_iff, parse_eq_ok_iff, htext]
  exact ⟨[], run_value_eq_ok_iff.mpr (.inl ⟨126, _, js, rfl, rfl, hitems, rfl⟩), rfl⟩

end Batch

/-! ## Trimmed lines -/

namespace Text

theorem isBlank_of_isSpace {c : Char} (h : isSpace (.char c) = true) : isBlank c = true := by
  simp only [isSpace, Bool.or_eq_true, beq_iff_eq, Glyph.char.injEq] at h
  rcases h with ((rfl | rfl) | rfl) | rfl <;> rfl

theorem exists_eq_append_of_ofChars {l : List Char} {c : Char} {s t : Text}
    (h : ofChars l = s ++ .char c :: t) :
    ∃ a b, l = a ++ c :: b ∧ ofChars a = s ∧ ofChars b = t := by
  obtain ⟨a, b, rfl, rfl, hb⟩ := List.map_eq_append_iff.mp h
  obtain ⟨d, b, rfl, hd, rfl⟩ := List.map_eq_cons_iff.mp hb
  cases hd
  exact ⟨a, b, rfl, rfl, rfl⟩

theorem forall_isBlank_of_isSpace {l : List Char} (h : ∀ g ∈ ofChars l, isSpace g = true) :
    ∀ c ∈ l, isBlank c = true :=
  fun _ hc => isBlank_of_isSpace (h _ (List.mem_map_of_mem hc))

theorem trimStart_append {sp : List Char} (hsp : ∀ c ∈ sp, isBlank c = true) {c : Char}
    (hc : isBlank c = false) (l : List Char) : trimStart (sp ++ c :: l) = c :: l := by
  rw [trimStart, List.dropWhile_append_of_pos hsp]
  simp [hc]

/-- A trimmed line starts with the first character that is no blank. -/
theorem exists_trim_eq_cons {sp : List Char} (hsp : ∀ c ∈ sp, isBlank c = true) {c : Char}
    (hc : isBlank c = false) (l : List Char) : ∃ m, trim (sp ++ c :: l) = c :: m := by
  rw [trim, trimStart_append hsp hc, List.reverse_cons, List.dropWhile_append]
  split
  · exact ⟨[], by simp [hc]⟩
  · exact ⟨_, by rw [List.reverse_append]; rfl⟩

/-- Trimming takes the blanks around a text that starts and ends with no blank. -/
theorem trim_append {sp r : List Char} (hsp : ∀ c ∈ sp, isBlank c = true)
    (hr : ∀ c ∈ r, isBlank c = true) {c d : Char} (hc : isBlank c = false) (hd : isBlank d = false)
    (m : List Char) : trim (sp ++ c :: (m ++ d :: r)) = c :: (m ++ [d]) := by
  have hreverse : (c :: (m ++ d :: r)).reverse = r.reverse ++ d :: (m.reverse ++ [c]) := by simp
  have hr : ∀ c ∈ r.reverse, isBlank c = true := fun c hc => hr c (List.mem_reverse.mp hc)
  rw [trim, trimStart_append hsp hc, hreverse, List.dropWhile_append_of_pos hr]
  simp [hd]

end Text

namespace Batch

theorem toOption_whole {α : Type} {reader : Reader α} {s : Text} {o : Option α}
    (h : (reader.run s).toOption = o.map (·, [])) : (reader.whole s).toOption = o := by
  rw [Reader.whole]
  cases hrun : reader.run s with
  | error e =>
    rw [hrun] at h
    cases o <;> cases h
    rfl
  | ok p =>
    rw [hrun] at h
    cases o <;> cases h
    rfl

theorem ofChars_trim {l : List Char} {c d : Char} {cs r : Text}
    (h : trimSpace (Text.ofChars l) = .char c :: (cs ++ .char d :: r)) (hr : trimSpace r = [])
    (hc : Text.isBlank c = false) (hd : Text.isBlank d = false) :
    Text.ofChars (Text.trim l) = .char c :: (cs ++ [.char d]) := by
  obtain ⟨sp, hsp, hl⟩ := exists_eq_append_trimSpace (Text.ofChars l)
  rw [h] at hl
  obtain ⟨a, b, rfl, rfl, hb⟩ := Text.exists_eq_append_of_ofChars hl
  obtain ⟨m, b, rfl, rfl, rfl⟩ := Text.exists_eq_append_of_ofChars hb
  have hr := Text.forall_isBlank_of_isSpace (forall_isSpace_of_trimSpace_eq_nil hr)
  rw [Text.trim_append (Text.forall_isBlank_of_isSpace hsp) hr hc hd]
  simp [Text.ofChars]

theorem exists_trim_of_holds {d : Nat} {l : List Char} {j : Json} (h : Holds d (Text.ofChars l) j) :
    ∃ c t m, trimSpace (Text.ofChars l) = .char c :: t ∧ Text.trim l = c :: m ∧
      isSpace (.char c) = false := by
  obtain ⟨r, hrun, -⟩ := h
  obtain ⟨c, t, ht, hc, -⟩ := exists_head_of_run_value hrun
  obtain ⟨sp, hsp, hl⟩ := exists_eq_append_trimSpace (Text.ofChars l)
  rw [ht] at hl
  obtain ⟨a, b, rfl, rfl, -⟩ := Text.exists_eq_append_of_ofChars hl
  obtain ⟨m, hm⟩ := Text.exists_trim_eq_cons (Text.forall_isBlank_of_isSpace hsp) hc b
  refine ⟨c, t, m, ht, hm, Bool.eq_false_iff.mpr fun hspace => ?_⟩
  rw [Text.isBlank_of_isSpace hspace] at hc
  cases hc

/-- The record on a trimmed line is the one that the line's document decodes to. -/
theorem toOption_ofText_trim {l : List Char} {j : Json} (h : Holds maxDepth (Text.ofChars l) j)
    (hj : j.Distinct) :
    (Record.codec.ofText (Text.ofChars (Text.trim l))).toOption = (Record.decode j).toOption := by
  obtain ⟨c, t, m, ht, hm, hspace⟩ := exists_trim_of_holds h
  obtain ⟨r, hrun, hr⟩ := h
  rcases run_value_eq_ok_iff.mp hrun with ⟨e, t', items, he, ht', hitems, rfl⟩ |
    ⟨e, t', ms, he, ht', hms, rfl⟩ | ⟨g, t', scalar, ht', hscalar, hrun⟩
  · cases he
    obtain ⟨cs, rfl, hcs⟩ := hitems.extent (local_value _)
    have htrim := ofChars_trim ht' hr (by decide) (by decide)
    have hwhole : (value maxDepth).run (Text.ofChars (Text.trim l)) = .ok (.arr items, []) := by
      rw [htrim]
      exact run_value_eq_ok_iff.mpr (.inl ⟨126, _, items, rfl, rfl, hcs [], rfl⟩)
    exact toOption_whole (Record.toOption_read hwhole hj)
  · cases he
    obtain ⟨cs, rfl, hcs⟩ := hms.extent (local_value _).member
    have htrim := ofChars_trim ht' hr (by decide) (by decide)
    have hwhole : (value maxDepth).run (Text.ofChars (Text.trim l)) = .ok (.obj ms, []) := by
      rw [htrim]
      exact run_value_eq_ok_iff.mpr (.inr (.inl ⟨126, _, ms, rfl, rfl, hcs [], rfl⟩))
    exact toOption_whole (Record.toOption_read hwhole hj)
  · rw [ht] at ht'
    cases ht'
    have htrim : trimSpace (Text.ofChars (c :: m)) = .char c :: Text.ofChars m := by
      simp [trimSpace, Text.ofChars, hspace]
    have hread := Record.toOption_read_scalar htrim hscalar
    rw [Record.toOption_decode_scalar hscalar hrun, hm]
    exact toOption_whole hread

/-! ## Entries -/

theorem toOption_mapError {ε ε' α : Type} (f : ε → ε') (x : Except ε α) :
    (x.mapError f).toOption = x.toOption := by
  cases x <;> rfl

/-- The number of an entry, and its record if it decodes. -/
def Entry.outline (e : Entry) : Nat × Option Record := (e.1, e.2.toOption)

/-- Entries that decode alike give the same records, and errors at the same numbers. -/
theorem ofEntries_congr {es fs : List Entry} (h : es.map Entry.outline = fs.map Entry.outline) :
    (ofEntries es).records = (ofEntries fs).records ∧
      (ofEntries es).lineErrors.map LineError.line =
        (ofEntries fs).lineErrors.map LineError.line := by
  have hrecord : ∀ es : List Entry,
      es.filterMap Entry.record? = (es.map Entry.outline).filterMap Prod.snd := by
    intro es
    rw [List.filterMap_map]
    apply List.filterMap_congr
    rintro ⟨n, _ | r⟩ - <;> rfl
  have herror : ∀ es : List Entry, (es.filterMap Entry.error?).map LineError.line =
      ((es.map Entry.outline).filter fun e => e.2.isNone).map Prod.fst := by
    intro es
    induction es with
    | nil => rfl
    | cons e es ih =>
      obtain ⟨n, _ | r⟩ := e
      · exact congrArg (n :: ·) ih
      · exact ih
  simp only [ofEntries, hrecord, herror, h, and_self]

/-- A text of one line, with one document that could be an item of an array and repeats no key. -/
structure IsLine (t : String) (j : Json) : Prop where
  parsed : parse (Text.ofString t) = .ok j
  shallow : j.Shallow 126
  distinct : j.Distinct
  unbroken : '\n' ∉ t.toList

theorem IsLine.holds {t : String} {j : Json} (h : IsLine t j) : Holds 126 (Text.ofString t) j := by
  obtain ⟨r, hrun, hr⟩ := parse_eq_ok_iff.mp h.parsed
  exact ⟨r, h.shallow.run_value hrun, hr⟩

/-- A document of whole numbers, written without white space, is such a text. -/
theorem IsLine.of_plain {j : Json} (h : j.Plain 126) (hj : j.Distinct) : IsLine j.compact j where
  parsed := (h.mono (by decide)).parse_compact
  shallow := h.shallow
  distinct := hj
  unbroken hfeed := by
    rw [toList_compact] at hfeed
    exact absurd (h.noControl '\n' hfeed) (by decide)

theorem IsLine.toOption_decodeLine {t : String} {j : Json} (h : IsLine t j) :
    (decodeLine t.toList).toOption = (Record.codec.ofJson j).toOption := by
  have hdecode : (Record.codec.ofJson j).toOption = (Record.decode j).toOption := by
    refine Option.ext fun r => ?_
    rw [toOption_eq_some_iff, toOption_eq_some_iff]
    exact Record.decode_sorted h.distinct r
  rw [decodeLine, toOption_mapError, hdecode]
  exact toOption_ofText_trim (parse_eq_ok_iff.mp h.parsed) h.distinct

theorem IsLine.trim_ne_nil {t : String} {j : Json} (h : IsLine t j) :
    (Text.trim t.toList).isEmpty = false := by
  obtain ⟨c, _, m, -, hm, -⟩ := exists_trim_of_holds h.holds
  rw [hm]
  rfl

theorem outline_entries {ts : List String} {js : List Json} (h : List.Forall₂ IsLine ts js)
    (n : Nat) :
    (lineEntries n (ts.map String.toList)).map Entry.outline =
      (itemEntries n js).map Entry.outline := by
  induction h generalizing n with
  | nil => rfl
  | @cons t j ts js ht hts ih =>
    have ih := ih (n + 1)
    rw [lineEntries, itemEntries] at ih ⊢
    simp only [List.map_cons, List.zipIdx_cons, List.filter_cons, ht.trim_ne_nil, Bool.not_false,
      ↓reduceIte, Entry.outline, ht.toOption_decodeLine, toOption_mapError, ih]

theorem lineEntries_intercalate {ts : List String} (h : ∀ t ∈ ts, '\n' ∉ t.toList) :
    lineEntries 1 (Text.lines (String.intercalate "\n" ts).toList) =
      lineEntries 1 (ts.map String.toList) := by
  have hfeed : "\n".toList = ['\n'] := by decide
  rw [String.toList_intercalate, hfeed]
  cases ts with
  | nil => rfl
  | cons t ts =>
    rw [Text.lines_intercalate (by simp)]
    intro l hl
    obtain ⟨t, ht, rfl⟩ := List.mem_map.mp hl
    exact h t ht

/-- **The two forms of a batch agree**, on any documents. -/
theorem formats_agree (ts : List String) (h : ∀ t ∈ ts, ∃ j, IsLine t j) :
    ∃ b, ofArray ("[" ++ String.intercalate "," ts ++ "]") = .ok b ∧
      (ofLines (String.intercalate "\n" ts)).records = b.records ∧
      (ofLines (String.intercalate "\n" ts)).lineErrors.map LineError.line =
        b.lineErrors.map LineError.line := by
  obtain ⟨js, hjs⟩ : ∃ js, List.Forall₂ IsLine ts js := by
    induction ts with
    | nil => exact ⟨[], .nil⟩
    | cons t ts ih =>
      obtain ⟨js, hjs⟩ := ih fun t ht => h t (List.mem_cons_of_mem _ ht)
      obtain ⟨j, hj⟩ := h t List.mem_cons_self
      exact ⟨j :: js, .cons hj hjs⟩
  refine ⟨ofEntries (itemEntries 1 js), ?_, ?_⟩
  · simp only [ofArray, ofText_items_array (hjs.imp fun _ _ hj => hj.holds)]
  · have hlines : ∀ t ∈ ts, '\n' ∉ t.toList := fun t ht => (h t ht).elim fun _ hj => hj.unbroken
    rw [ofLines, lineEntries_intercalate hlines]
    exact ofEntries_congr (outline_entries hjs 1)

/-- A record that names its type last and its component in an array, and a line that is no record. -/
theorem formats_agree_type_last :
    let component : Json := .arr (["p", "1", "c", "2", "/p", "/c"].map .str)
    let cleared : Json := .obj [("component", component), ("rules", .arr []),
      ("timestamp", .str ""), ("type", .str "POLICY_CLEAR")]
    let ts : List String := [cleared.compact, " 7\t"]
    (∀ t ∈ ts, ∃ j, IsLine t j) ∧
      ∃ b, ofArray ("[" ++ String.intercalate "," ts ++ "]") = .ok b ∧
        (ofLines (String.intercalate "\n" ts)).records = b.records ∧
        (ofLines (String.intercalate "\n" ts)).lineErrors.map LineError.line =
          b.lineErrors.map LineError.line := by
  intro component cleared ts
  have hcleared : ∃ j, IsLine cleared.compact j := by
    have hplain : Plain 2 cleared := by
      have hcomponent : Plain 1 component := .arr (by simp [Plain.str])
      have hrules : Plain 1 (.arr []) := .arr (by simp)
      exact .obj (by simp [hcomponent, hrules, Plain.str])
    have hdistinct : Distinct cleared := by
      have hcomponent : Distinct component := .arr (by simp [Distinct.str])
      have hrules : Distinct (.arr []) := .arr (by simp)
      exact .obj (by decide) (by simp [hcomponent, hrules, Distinct.str])
    exact ⟨cleared, .of_plain (hplain.mono (by decide)) hdistinct⟩
  have hnumber : ∃ j, IsLine " 7\t" j := by
    have hrun : (value 0).run (Text.ofString " 7\t") = .ok (.num (.int 7), [.char '\t']) := by rfl
    have hparsed : Holds maxDepth (Text.ofString " 7\t") (.num (.int 7)) :=
      ⟨_, (Shallow.num _).run_value hrun, rfl⟩
    exact ⟨_, parse_eq_ok_iff.mpr hparsed, .num _, .num _, by decide⟩
  have hlines : ∀ t ∈ ts, ∃ j, IsLine t j :=
    List.forall_mem_cons.mpr ⟨hcleared, List.forall_mem_singleton.mpr hnumber⟩
  exact ⟨hlines, formats_agree ts hlines⟩

end Batch

end ScanDigest
