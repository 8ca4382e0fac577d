import ScanDigest.Proofs.Canonical
import ScanDigest.Proofs.Formats
import ScanDigest.Proofs.Utf8

/-!
# The canonical text is a normal form

Two documents whose numbers are whole have the same canonical bytes exactly if they say the same
(`canonical_normal_form`). The bytes are a document again, whose keys ascend, that says what the
first one says and is its own normal form. All of it rests on reading the text back, so a document
has to be `Plain`; one that was read is so, if its numbers are whole (`Integral.plain`): the reader
takes a number for whole only if it fits 64 bits.
-/

set_option autoImplicit false

namespace ScanDigest.Json

open Reader

/-! ## Numerals read as whole numbers -/

/-- The reader never gives a whole number. -/
def Reader.Floats (x : Reader Number) : Prop := ∀ s i r, x.run s ≠ .ok (.int i, r)

namespace Reader.Floats

theorem fail (e : Fault) : (Reader.fail e).Floats := by
  rintro s i r ⟨⟩

theorem pure_signed (negative : Bool) (x : Float) : Reader.Floats (pure (signed negative x)) := by
  rintro s i r ⟨⟩

theorem bind {α : Type} {x : Reader α} {f : α → Reader Number} (h : ∀ a, (f a).Floats) :
    (x >>= f).Floats := by
  intro s i r hrun
  obtain ⟨a, t, -, hf⟩ := run_bind_eq_ok_iff.mp hrun
  exact h a t i r hf

variable (negative : Bool) (m : Nat) (e : Int)

theorem scaled : (scaled negative m e).Floats := by
  unfold Json.scaled
  split
  · exact pure_signed negative _
  · exact bind fun _ => fail _

theorem exponent : (exponent negative m e).Floats := by
  refine bind fun down => bind fun ds => ?_
  dsimp only
  split
  · exact scaled _ _ _
  · split
    · exact bind fun _ => fail _
    · exact pure_signed _ _

theorem exponent? : (exponent? negative m e).Floats := by
  refine bind fun s => ?_
  split
  · exact bind fun _ => exponent _ _ _
  · exact bind fun _ => exponent _ _ _
  · exact scaled _ _ _

theorem fraction : (fraction negative m e).Floats := bind fun _ => exponent? _ _ _

end Reader.Floats

theorem absorb_le {limit m : Nat} (h : m ≤ limit) (ds : List Nat) :
    (absorb limit m ds).1 ≤ limit := by
  induction ds generalizing m with
  | nil => exact h
  | cons d ds ih =>
    rw [absorb]
    split
    · exact ih ‹_›
    · exact h

theorem fits_of_whole {negative : Bool} {m : Nat} {i : Int} (hm : m ≤ wordLimit)
    (h : whole negative m = .int i) : Fits i := by
  unfold wordLimit at hm
  unfold whole at h
  split at h
  · cases h
    exact ⟨by omega, by omega⟩
  · split at h <;> cases h
    exact ⟨by omega, by omega⟩

/-- A numeral with a fraction, an exponent or more digits than fit is no whole number. -/
theorem fits_of_numeral {negative : Bool} {s r : Text} {i : Int}
    (h : (numeral negative).run s = .ok (.int i, r)) : Fits i := by
  obtain ⟨_, _, -, h⟩ := run_bind_eq_ok_iff.mp h
  obtain ⟨ds, t, -, h⟩ := run_bind_eq_ok_iff.mp h
  dsimp only at h
  split at h
  · cases h
  obtain ⟨_, _, -, h⟩ := run_bind_eq_ok_iff.mp h
  -- Only a numeral that ends after its digits, with none left over, can be whole.
  split at h
  · exact absurd h (Floats.bind (fun _ => .fraction _ _ _) _ _ _)
  · exact absurd h (Floats.bind (fun _ => .exponent _ _ _) _ _ _)
  · exact absurd h (Floats.bind (fun _ => .exponent _ _ _) _ _ _)
  · split at h
    · simp only [run_pure, Except.ok.injEq, Prod.mk.injEq] at h
      exact fits_of_whole (absorb_le (Nat.zero_le _) ds) h.1
    · exact absurd h (Floats.scaled _ _ _ _ _ _)

/-! ## Documents of whole numbers -/

/-- All numbers of the document are whole: they were written without fraction and exponent, fit 64
bits, and none is `-0`. -/
inductive Integral : Json → Prop where
  | null : Integral .null
  | bool (b : Bool) : Integral (.bool b)
  | int (i : Int) : Integral (.num (.int i))
  | str (s : String) : Integral (.str s)
  | arr {items : List Json} (integral : ∀ j ∈ items, Integral j) : Integral (.arr items)
  | obj {ms : List (String × Json)} (integral : ∀ m ∈ ms, Integral m.2) : Integral (.obj ms)

section Read

variable {s r t : Text} {j : Json}

theorem ScalarAt.plain {g : Glyph} (h : ScalarAt g t j r) (hj : j.Integral) (d : Nat) :
    j.Plain d := by
  cases h with
  | null => exact .null
  | bool b => exact .bool b
  | str => exact .str _
  | negative rest =>
    cases hj
    exact .int (fits_of_numeral rest)
  | number _ all =>
    cases hj
    exact .int (fits_of_numeral all)

/-- Every item was read off some text. -/
theorem Items.exists_read {α : Type} {b : Brackets} {x : Reader α} {first : Bool} {as : List α}
    (h : Items b x first s as r) : ∀ a ∈ as, ∃ t u, x.run t = .ok (a, u) := by
  induction h with
  | close => exact List.forall_mem_nil _
  | item _ read _ ih => exact List.forall_mem_cons.mpr ⟨⟨_, _, read⟩, ih⟩

theorem Integral.plain {d : Nat} (h : j.Integral) (hrun : (value d).run s = .ok (j, r)) :
    j.Plain d := by
  induction d using Nat.strongRecOn generalizing s r j with
  | ind d ih =>
    rcases run_value_eq_ok_iff.mp hrun with ⟨e, t, items, rfl, -, hitems, rfl⟩ |
      ⟨e, t, ms, rfl, -, hms, rfl⟩ | ⟨g, t, scalar, -, hscalar, hread⟩
    · cases h with
      | arr integral =>
        refine .arr fun j hj => ?_
        obtain ⟨_, _, hread⟩ := hitems.exists_read j hj
        exact ih e (Nat.lt_succ_self e) (integral j hj) hread
    · cases h with
      | obj integral =>
        refine .obj fun m hm => ?_
        obtain ⟨_, _, hread⟩ := hms.exists_read m hm
        obtain ⟨_, _, -, -, hvalue⟩ := run_member_eq_ok_iff.mp hread
        exact ih e (Nat.lt_succ_self e) (integral m hm) hvalue
    · exact (scalarAt hscalar hread).plain h d

theorem Integral.plain_of_parse (h : j.Integral) (hs : parse s = .ok j) : j.Plain maxDepth := by
  obtain ⟨_, hrun, -⟩ := parse_eq_ok_iff.mp hs
  exact h.plain hrun

/-- A document that needs few brackets is read as if only as many were allowed. -/
theorem Integral.parse_of_run_value {d : Nat} (h : j.Integral) (hd : d ≤ maxDepth)
    (hrun : (value d).run s = .ok (j, r)) (hr : trimSpace r = []) : parse s = .ok j :=
  parse_eq_ok_iff.mpr ⟨r, ((h.plain hrun).mono hd).shallow.run_value hrun, hr⟩

end Read

/-! ## Canonical bytes -/

/-- The bytes of the canonical text. -/
def canonicalBytes (j : Json) : List UInt8 := j.canonical.toUTF8.data.toList

theorem canonicalBytes_sorted (j : Json) : j.sorted.canonicalBytes = j.canonicalBytes := by
  rw [canonicalBytes, canonical, sorted_sorted]
  rfl

section Plain

variable {i j : Json}

/-- The value that a document denotes is read off its canonical bytes. -/
theorem Plain.parse_canonicalBytes (h : j.Plain maxDepth) :
    parse (Text.ofBytes j.canonicalBytes) = .ok j.sorted := by
  have htext : Text.ofBytes j.canonicalBytes = Text.ofString j.canonical :=
    Text.toString?_eq_some_iff.mp (Text.toString?_ofBytes_eq_some_iff.mpr rfl)
  rw [htext, canonical, h.sorted.parse_compact]

theorem Plain.canonicalBytes_eq_iff (hi : i.Plain maxDepth) (hj : j.Plain maxDepth) :
    i.canonicalBytes = j.canonicalBytes ↔ i.sorted = j.sorted := by
  refine ⟨fun h => ?_, fun h => ?_⟩
  · have hparse := hi.parse_canonicalBytes
    rw [h, hj.parse_canonicalBytes] at hparse
    exact (Except.ok.inj hparse).symm
  · rw [← canonicalBytes_sorted i, h, canonicalBytes_sorted]

end Plain

/-- **Canonical bytes are a normal form**: documents of whole numbers have the same ones exactly if
they say the same, and the bytes are a document of ascending keys, with these bytes again, that says
it, too. -/
theorem canonical_normal_form {s t : Text} {i j : Json} (hs : parse s = .ok i)
    (ht : parse t = .ok j) (hi : i.Integral) (hj : j.Integral) :
    (i.canonicalBytes = j.canonicalBytes ↔ i.meaning = j.meaning) ∧
      ∃ k, parse (Text.ofBytes i.canonicalBytes) = .ok k ∧ k.meaning = i.meaning ∧
        k.canonicalBytes = i.canonicalBytes ∧ k.Ordered := by
  have hplain := hi.plain_of_parse hs
  refine ⟨?_, i.sorted, hplain.parse_canonicalBytes, meaning_sorted i, canonicalBytes_sorted i,
    ordered_sorted i⟩
  rw [hplain.canonicalBytes_eq_iff (hj.plain_of_parse ht), sorted_eq_iff_meaning_eq]

/-- White space, the order of keys, a key that is repeated and an escape make no difference. -/
theorem canonical_normal_form_respelled :
    let s := Text.ofString "\x7b \"b\": [-2, null],\n \"a\": 7, \"a\": \"\\u0041\" \x7d\n"
    let t := Text.ofString "\x7b\"a\":\"A\",\"b\":[-2,null]\x7d"
    let b : Json := .arr [.num (.int (-2)), .null]
    let i : Json := .obj [("b", b), ("a", .num (.int 7)), ("a", .str "A")]
    let j : Json := .obj [("a", .str "A"), ("b", b)]
    parse s = .ok i ∧ parse t = .ok j ∧ i.Integral ∧ j.Integral ∧
      i.canonicalBytes = j.canonicalBytes ∧
      ∃ k, parse (Text.ofBytes i.canonicalBytes) = .ok k ∧ k.meaning = i.meaning ∧
        k.canonicalBytes = i.canonicalBytes ∧ k.Ordered := by
  intro s t b i j
  have hb : b.Integral := .arr (by simp [Integral.int, Integral.null])
  have hi : i.Integral := .obj (by simp [hb, Integral.int, Integral.str])
  have hj : j.Integral := .obj (by simp [hb, Integral.str])
  have hs : parse s = .ok i := by
    -- Items are read by recursion on the length of the text, which `rfl` does not unfold by itself.
    have hrun : (value 2).run s = .ok (i, [.char '\n']) := by with_unfolding_all rfl
    exact hi.parse_of_run_value (by decide) hrun rfl
  have ht : parse t = .ok j := by
    have hrun : (value 2).run t = .ok (j, []) := by with_unfolding_all rfl
    exact hj.parse_of_run_value (by decide) hrun rfl
  have hsame : i.meaning = j.meaning := sorted_eq_iff_meaning_eq.mp (by cbv)
  have hnormal := canonical_normal_form hs ht hi hj
  exact ⟨hs, ht, hi, hj, hnormal.1.mpr hsame, hnormal.2⟩

end ScanDigest.Json
