import ScanDigest.Proofs.Scalars

/-!
# Documents as they are written are read back

Items between brackets are read back if each item is (`separated_reads`). From it, a value written
without white space is read back (`value_reads`), provided that its numbers are whole and that its
brackets are not nested deeper than the reader goes (`Plain`).
-/

set_option autoImplicit false

namespace ScanDigest.Json

/-- The reader takes the value off its text, whatever follows that ends a numeral. -/
def Reader.Reads {α : Type} (reader : Reader α) (cs : List Char) (a : α) : Prop :=
  ∀ t, EndsNumeral t → reader.run (Text.ofChars cs ++ t) = .ok (a, t)

/-- A text of an item: it starts with no white space and no closing bracket. -/
def Opens (cs : List Char) : Prop :=
  ∃ c, cs.head? = some c ∧ isSpace (.char c) = false ∧ c ≠ ']' ∧ c ≠ '}'

theorem Opens.append {cs : List Char} (h : Opens cs) (ds : List Char) : Opens (cs ++ ds) := by
  obtain ⟨c, hc, h⟩ := h
  exact ⟨c, by simp [hc], h⟩

theorem trimSpace_of_opens {cs : List Char} (h : Opens cs) (t : Text) :
    trimSpace (Text.ofChars cs ++ t) = Text.ofChars cs ++ t := by
  obtain ⟨c, hc, hspace, -⟩ := h
  cases cs with
  | nil => cases hc
  | cons d cs =>
    cases hc
    simp [trimSpace, Text.ofChars_cons, hspace]

theorem Reader.Reads.whole {α : Type} {reader : Reader α} {cs : List Char} {a : α}
    (h : reader.Reads cs a) : reader.whole (Text.ofChars cs) = .ok a := by
  have hrun := h [] fun c hc => by cases hc
  rw [List.append_nil] at hrun
  rw [Reader.whole, hrun]
  rfl

theorem endsNumeral_cons {c : Char} (h : c = ',' ∨ c = ']' ∨ c = '}') (t : Text) :
    EndsNumeral (.char c :: t) := by
  intro d hd
  cases hd
  rcases h with rfl | rfl | rfl <;> decide

/-! ## Items between brackets -/

namespace Brackets

variable {ι : Type}

/-- Further items, each after a comma, and the closing bracket. -/
def more (b : Brackets) (write : ι → List Char) : List ι → List Char
  | [] => [b.close]
  | i :: is => ',' :: write i ++ b.more write is

/-- Items and the closing bracket. -/
def text (b : Brackets) (write : ι → List Char) : List ι → List Char
  | [] => [b.close]
  | i :: is => write i ++ b.more write is

theorem text_map {κ : Type} (b : Brackets) (f : ι → κ) (write : κ → List Char) (is : List ι) :
    b.text write (is.map f) = b.text (fun i => write (f i)) is := by
  have hmore : ∀ is, b.more write (is.map f) = b.more (fun i => write (f i)) is := by
    intro is
    induction is with
    | nil => rfl
    | cons i is ih => rw [List.map_cons, more, ih, more]
  cases is with
  | nil => rfl
  | cons i is => rw [List.map_cons, text, hmore, text]

end Brackets

section Items

variable {σ ι : Type} {b : Brackets} {item : σ → Reader σ} {write : ι → List Char}
  {take : σ → ι → σ} {cs : List Char} {is : List ι} {acc acc' : σ} {r s t : Text}

theorem moreItems_of_close (h : (another b false).run s = .ok (false, r)) :
    moreItems b item acc s = .ok (acc, r.tail) := by
  rw [moreItems]
  split <;> rename_i h' <;> rw [h] at h' <;> cases h'
  rfl

theorem moreItems_of_item (h : (another b false).run s = .ok (true, r))
    (hitem : (item acc).run r = .ok (acc', t)) :
    moreItems b item acc s = moreItems b item acc' t := by
  rw [moreItems]
  split <;> rename_i h' <;> rw [h] at h' <;> cases h'
  split <;> rename_i hitem' <;> rw [hitem] at hitem' <;> cases hitem'
  rfl

section Close

variable (hb : b.close = ']' ∨ b.close = '}')

include hb

theorem endsNumeral_more (is : List ι) (t : Text) :
    EndsNumeral (Text.ofChars (b.more write is) ++ t) := by
  cases is with
  | nil => exact endsNumeral_cons (.inr hb) _
  | cons i is => exact endsNumeral_cons (.inl rfl) _

theorem another_close (first : Bool) (t : Text) :
    (another b first).run (.char b.close :: t) = .ok (false, .char b.close :: t) := by
  have hspace : isSpace (.char b.close) = false := by rcases hb with h | h <;> rw [h] <;> decide
  simp [another, trimSpace, hspace]

theorem Opens.cons_ne_close (h : Opens cs) :
    ∃ c ds, cs = c :: ds ∧ isSpace (.char c) = false ∧ c ≠ b.close := by
  obtain ⟨c, hc, hspace, hlist, hobject⟩ := h
  cases cs with
  | nil => cases hc
  | cons d ds =>
    cases hc
    refine ⟨c, ds, rfl, hspace, ?_⟩
    rcases hb with h | h <;> rw [h] <;> assumption

theorem another_first (h : Opens cs) (t : Text) :
    (another b true).run (Text.ofChars cs ++ t) = .ok (true, Text.ofChars cs ++ t) := by
  obtain ⟨c, ds, rfl, hspace, hclose⟩ := h.cons_ne_close hb
  simp [another, trimSpace, Text.ofChars_cons, hspace, hclose]

theorem another_comma (h : Opens cs) (t : Text) :
    (another b false).run (.char ',' :: (Text.ofChars cs ++ t)) =
      .ok (true, Text.ofChars cs ++ t) := by
  have hcomma : ',' ≠ b.close := by rcases hb with h | h <;> rw [h] <;> decide
  have hspace : isSpace (.char ',') = false := by decide
  obtain ⟨c, ds, rfl, hspace', hclose⟩ := h.cons_ne_close hb
  simp [another, trimSpace, Text.ofChars_cons, hspace, hcomma, hspace', hclose]

theorem furtherItems_reads (hopens : ∀ i ∈ is, Opens (write i))
    (hreads : ∀ acc, ∀ i ∈ is, (item acc).Reads (write i) (take acc i)) :
    (furtherItems b item acc).Reads (b.more write is) (is.foldl take acc) := by
  intro t ht
  show moreItems b item acc _ = _
  induction is generalizing acc with
  | nil => exact moreItems_of_close (another_close hb false t)
  | cons i is ih =>
    have htext : Text.ofChars (b.more write (i :: is)) ++ t =
        .char ',' :: (Text.ofChars (write i) ++ (Text.ofChars (b.more write is) ++ t)) := by
      simp [Brackets.more, Text.ofChars]
    have hnext := another_comma hb (hopens i List.mem_cons_self)
      (Text.ofChars (b.more write is) ++ t)
    have hitem := hreads acc i List.mem_cons_self (Text.ofChars (b.more write is) ++ t)
      (endsNumeral_more hb is t)
    rw [htext, moreItems_of_item hnext hitem, List.foldl_cons]
    apply ih
    · exact fun i hi => hopens i (List.mem_cons_of_mem _ hi)
    · exact fun acc i hi => hreads acc i (List.mem_cons_of_mem _ hi)

/-- The first item may be read in its own way. -/
theorem separated_cons_reads {i : ι} (hopens : Opens (write i))
    (hitem : (item acc).Reads (write i) acc')
    (hmore : (furtherItems b item acc').Reads (b.more write is) (is.foldl take acc')) :
    (separated b item acc).Reads (b.text write (i :: is)) (is.foldl take acc') := by
  intro t ht
  have hfirst := another_first hb hopens (Text.ofChars (b.more write is) ++ t)
  have hrun := hitem (Text.ofChars (b.more write is) ++ t) (endsNumeral_more hb is t)
  simp only [separated, Brackets.text, Text.ofChars_append, List.append_assoc, Reader.run_bind,
    hfirst, ↓reduceIte, hrun]
  exact hmore t ht

theorem separated_reads (hopens : ∀ i ∈ is, Opens (write i))
    (hreads : ∀ acc, ∀ i ∈ is, (item acc).Reads (write i) (take acc i)) :
    (separated b item acc).Reads (b.text write is) (is.foldl take acc) := by
  cases is with
  | nil =>
    intro t ht
    have hclose := another_close hb true t
    simp only [separated, Brackets.text, Text.ofChars, List.map_cons, List.map_nil,
      List.singleton_append, Reader.run_bind, hclose]
    rfl
  | cons i is =>
    exact separated_cons_reads hb (hopens i List.mem_cons_self)
      (hreads acc i List.mem_cons_self)
      (furtherItems_reads hb (fun i hi => hopens i (List.mem_cons_of_mem _ hi))
        fun acc i hi => hreads acc i (List.mem_cons_of_mem _ hi))

end Close

end Items

/-! ## Values -/

/-- A value whose numbers are whole, with at most `depth` brackets open at a time. -/
inductive Plain : (depth : Nat) → Json → Prop where
  | null {depth : Nat} : Plain depth .null
  | bool {depth : Nat} (b : Bool) : Plain depth (.bool b)
  | int {depth : Nat} {i : Int} (fits : Fits i) : Plain depth (.num (.int i))
  | str {depth : Nat} (s : String) : Plain depth (.str s)
  | arr {depth : Nat} {items : List Json} (plain : ∀ j ∈ items, Plain depth j) :
      Plain (depth + 1) (.arr items)
  | obj {depth : Nat} {ms : List (String × Json)} (plain : ∀ m ∈ ms, Plain depth m.2) :
      Plain (depth + 1) (.obj ms)

theorem Plain.mono {d e : Nat} {j : Json} (h : Plain d j) (hde : d ≤ e) : Plain e j := by
  induction h generalizing e with
  | null => exact .null
  | bool b => exact .bool b
  | int fits => exact .int fits
  | str s => exact .str s
  | arr _ ih =>
    obtain ⟨e, rfl⟩ : ∃ e', e = e' + 1 := ⟨e - 1, by omega⟩
    exact .arr fun j hj => ih j hj (by omega)
  | obj _ ih =>
    obtain ⟨e, rfl⟩ : ∃ e', e = e' + 1 := ⟨e - 1, by omega⟩
    exact .obj fun m hm => ih m hm (by omega)

theorem toList_compact (j : Json) : j.compact.toList = j.chars := String.toList_ofList

/-- A member of an object. -/
def memberText (m : String × Json) : List Char := quoted m.1 ++ ':' :: m.2.chars

theorem itemChars_eq (js : List Json) : itemChars js = Brackets.list.more chars js := by
  induction js with
  | nil => rfl
  | cons j js ih => rw [itemChars, ih, Brackets.more]

theorem memberChars_eq (ms : List (String × Json)) :
    memberChars ms = Brackets.object.more memberText ms := by
  induction ms with
  | nil => rfl
  | cons m ms ih =>
    obtain ⟨k, j⟩ := m
    rw [memberChars, ih, Brackets.more]
    simp [memberText]

theorem chars_arr (js : List Json) : chars (.arr js) = '[' :: Brackets.list.text chars js := by
  cases js with
  | nil => rfl
  | cons j js => rw [chars, itemChars_eq, Brackets.text, List.cons_append]

theorem chars_obj (ms : List (String × Json)) :
    chars (.obj ms) = '{' :: Brackets.object.text memberText ms := by
  cases ms with
  | nil => rfl
  | cons m ms =>
    obtain ⟨k, j⟩ := m
    rw [chars, memberChars_eq, Brackets.text]
    simp [memberText]

theorem scalar?_char {c : Char} {reader : Reader Json} (h : scalar? (.char c) = some reader) :
    isSpace (.char c) = false ∧ c ≠ ']' ∧ c ≠ '}' ∧ c ≠ '[' ∧ c ≠ '{' := by
  refine ⟨?_, ?_, ?_, ?_, ?_⟩
  · apply Bool.eq_false_iff.mpr
    intro hspace
    simp only [isSpace, Bool.or_eq_true, beq_iff_eq] at hspace
    rcases hspace with ((hc | hc) | hc) | hc <;> cases hc <;> cases h
  all_goals
    rintro rfl
    cases h

theorem ReadsScalar.opens {cs : List Char} {j : Json} (h : ReadsScalar cs j) : Opens cs := by
  obtain ⟨g, r, reader, htext, hscalar, -⟩ := h [] (by intro c hc; cases hc)
  cases cs with
  | nil => cases htext
  | cons c cs =>
    cases htext
    have := scalar?_char hscalar
    exact ⟨c, rfl, this.1, this.2.1, this.2.2.1⟩

theorem opens_quoted (s : String) : Opens (quoted s) := ⟨'"', rfl, by decide⟩

theorem Plain.opens {d : Nat} {j : Json} (h : Plain d j) : Opens j.chars := by
  cases h with
  | null => exact readsScalar_null.opens
  | bool b => exact (readsScalar_bool b).opens
  | int fits => exact (readsScalar_int fits).opens
  | str s => exact (readsScalar_str s).opens
  | arr => exact chars_arr _ ▸ ⟨'[', rfl, by decide⟩
  | obj => exact chars_obj _ ▸ ⟨'{', rfl, by decide⟩

theorem valueWith_scalar (inner : Option (Reader Json)) {cs : List Char} {j : Json}
    (h : ReadsScalar cs j) : (valueWith inner).Reads cs j := by
  intro t ht
  have hspace := trimSpace_of_opens h.opens t
  obtain ⟨g, r, reader, htext, hscalar, hrun⟩ := h t ht
  have hlist : g ≠ .char '[' := by
    rintro rfl
    exact (scalar?_char hscalar).2.2.2.1 rfl
  have hobject : g ≠ .char '{' := by
    rintro rfl
    exact (scalar?_char hscalar).2.2.2.2 rfl
  rw [htext] at hspace ⊢
  simp only [valueWith, Reader.run_bind, run_space, Reader.run_left, hspace]
  split
  case h_6 heq _ _ _ _ =>
    cases heq
    simp only [hscalar, hrun]
  all_goals simp_all

theorem colon_run (t : Text) : colon.run (.char ':' :: t) = .ok ((), t) := by
  simp [colon, trimSpace, isSpace]

theorem ofChars_memberText (m : String × Json) (t : Text) :
    Text.ofChars (memberText m) ++ t =
      Text.ofChars (quoted m.1) ++ .char ':' :: (Text.ofChars m.2.chars ++ t) := by
  simp [memberText, Text.ofChars]

theorem opens_memberText (m : String × Json) : Opens (memberText m) :=
  (opens_quoted m.1).append (':' :: m.2.chars)

theorem member_reads {inner : Reader Json} {m : String × Json} (h : inner.Reads m.2.chars m.2)
    (acc : List (String × Json)) :
    Reader.Reads (do
      let k ← key
      colon
      return (k, ← inner) :: acc) (memberText m) (m :: acc) := by
  intro t ht
  simp only [ofChars_memberText, Reader.run_bind, key_quoted, colon_run, h t ht, Reader.run_pure]

/-- A scalar needs no depth. -/
theorem ReadsScalar.value {cs : List Char} {j : Json} (h : ReadsScalar cs j) (d : Nat) :
    (value d).Reads cs j := by
  cases d <;> exact valueWith_scalar _ h

theorem value_reads {d : Nat} {j : Json} (h : Plain d j) : (value d).Reads j.chars j := by
  induction h with
  | null => exact readsScalar_null.value _
  | bool b => exact (readsScalar_bool b).value _
  | int fits => exact (readsScalar_int fits).value _
  | str s => exact (readsScalar_str s).value _
  | @arr d items plain ih =>
    intro t ht
    have hitems : Reader.Reads (separated .list (fun acc => return (← value d) :: acc) [])
        (Brackets.list.text chars items) (items.foldl (fun acc j => j :: acc) []) :=
      separated_reads (.inl rfl) (fun j hj => (plain j hj).opens)
        fun acc j hj t ht => by simp [ih j hj t ht]
    rw [chars_arr, Text.ofChars_cons]
    simp [value, valueWith, trimSpace, isSpace, hitems t ht]
  | @obj d ms plain ih =>
    intro t ht
    have hmembers : Reader.Reads (separated .object (fun acc => do
          let k ← key
          colon
          return (k, ← value d) :: acc) [])
        (Brackets.object.text memberText ms) (ms.foldl (fun acc m => m :: acc) []) :=
      separated_reads (.inr rfl) (fun m _ => opens_memberText m)
        fun acc m hm => member_reads (ih m hm) acc
    rw [chars_obj, Text.ofChars_cons]
    simp [value, valueWith, trimSpace, isSpace, hmembers t ht]

/-- A value of whole numbers is read back from its text. -/
theorem Plain.parse_compact {j : Json} (h : j.Plain maxDepth) :
    parse (Text.ofString j.compact) = .ok j := by
  rw [Text.ofString, toList_compact]
  exact (value_reads h).whole

theorem Plain.compact_inj {i j : Json} (hi : i.Plain maxDepth) (hj : j.Plain maxDepth)
    (h : i.compact = j.compact) : i = j := by
  have hparse := hi.parse_compact
  rw [h, hj.parse_compact] at hparse
  exact (Except.ok.inj hparse).symm

/-! ## Characters of a document -/

section Items

variable {ι : Type} {b : Brackets} {write : ι → List Char}

theorem exists_more_eq (b : Brackets) (write : ι → List Char) (is : List ι) :
    ∃ cs, b.more write is = cs ++ [b.close] := by
  induction is with
  | nil => exact ⟨[], rfl⟩
  | cons i is ih =>
    obtain ⟨cs, hcs⟩ := ih
    exact ⟨',' :: write i ++ cs, by simp [Brackets.more, hcs]⟩

theorem exists_text_eq (b : Brackets) (write : ι → List Char) (is : List ι) :
    ∃ cs, b.text write is = cs ++ [b.close] := by
  cases is with
  | nil => exact ⟨[], rfl⟩
  | cons i is =>
    obtain ⟨cs, hcs⟩ := exists_more_eq b write is
    exact ⟨write i ++ cs, by simp [Brackets.text, hcs]⟩

theorem noControl_more (hb : 0x20 ≤ b.close.toNat) {is : List ι}
    (h : ∀ i ∈ is, NoControl (write i)) : NoControl (b.more write is) := by
  induction is with
  | nil =>
    intro c hc
    rw [List.mem_singleton.mp hc]
    exact hb
  | cons i is ih =>
    intro c hc
    simp only [Brackets.more, List.cons_append, List.mem_cons, List.mem_append] at hc
    rcases hc with rfl | hc | hc
    · decide
    · exact h i List.mem_cons_self c hc
    · exact ih (fun i hi => h i (List.mem_cons_of_mem _ hi)) c hc

theorem noControl_text (hb : 0x20 ≤ b.close.toNat) {is : List ι}
    (h : ∀ i ∈ is, NoControl (write i)) : NoControl (b.text write is) := by
  intro c hc
  apply noControl_more hb h
  cases is with
  | nil => exact hc
  | cons i is => exact List.mem_cons_of_mem _ hc

end Items

theorem noControl_memberText {m : String × Json} (h : NoControl m.2.chars) :
    NoControl (memberText m) := by
  intro c hc
  simp only [memberText, List.mem_append, List.mem_cons] at hc
  rcases hc with hc | rfl | hc
  · exact noControl_quoted m.1 c hc
  · decide
  · exact h c hc

theorem Plain.noControl {d : Nat} {j : Json} (h : Plain d j) : NoControl j.chars := by
  induction h with
  | null => simp [NoControl, chars, scalarChars]
  | bool b => cases b <;> simp [NoControl, chars, scalarChars]
  | int => exact noControl_int _
  | str s => exact noControl_quoted s
  | arr _ ih =>
    rw [chars_arr]
    intro c hc
    rcases List.mem_cons.mp hc with rfl | hc
    · decide
    · exact noControl_text (by decide) ih c hc
  | obj _ ih =>
    rw [chars_obj]
    intro c hc
    rcases List.mem_cons.mp hc with rfl | hc
    · decide
    · exact noControl_text (by decide) (fun m hm => noControl_memberText (ih m hm)) c hc

end ScanDigest.Json
