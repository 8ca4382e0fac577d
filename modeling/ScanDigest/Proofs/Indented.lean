import ScanDigest.Proofs.Formats

/-!
# Indented documents are read back

A value written with one item a line reads as the value (`Plain.pretty_reads`): the line feeds and
spaces stand where the reader passes over white space, before an item and before the closing bracket.
-/

set_option autoImplicit false

namespace ScanDigest.Json

open Reader

theorem forall_isSpace_newLine (level : Nat) : ∀ g ∈ Text.ofChars (newLine level), isSpace g = true := by
  intro g hg
  obtain ⟨c, hc, rfl⟩ := List.mem_map.mp hg
  rcases List.mem_cons.mp hc with rfl | hc
  · rfl
  · rw [List.eq_of_mem_replicate hc]
    rfl

theorem endsNumeral_newLine (level : Nat) (t : Text) :
    EndsNumeral (Text.ofChars (newLine level) ++ t) := by
  intro c hc
  cases hc
  decide

/-! ## Items on lines -/

section Lines

variable {α : Type} {b : Brackets} {write : α → List Char} {x : Reader α} {level : Nat}

/-- Further items, each after a comma and on a line of its own, and the closing bracket. -/
def moreLines (b : Brackets) (write : α → List Char) (level : Nat) : List α → List Char
  | [] => newLine level ++ [b.close]
  | a :: as => ',' :: newLine (level + 1) ++ write a ++ moreLines b write level as

/-- Items, each on a line of its own, and the closing bracket. -/
def lines (b : Brackets) (write : α → List Char) (level : Nat) : List α → List Char
  | [] => [b.close]
  | a :: as => newLine (level + 1) ++ write a ++ moreLines b write level as

theorem endsNumeral_moreLines (b : Brackets) (write : α → List Char) (level : Nat) (as : List α)
    (t : Text) : EndsNumeral (Text.ofChars (moreLines b write level as) ++ t) := by
  cases as with
  | nil =>
    rw [moreLines, Text.ofChars_append, List.append_assoc]
    exact endsNumeral_newLine level _
  | cons a as => exact endsNumeral_cons (.inl rfl) _

/-- An item is found after the start of its line. -/
theorem trimSpace_line {cs : List Char} (h : Opens cs) (level : Nat) (t : Text) :
    trimSpace (Text.ofChars (newLine level) ++ (Text.ofChars cs ++ t)) = Text.ofChars cs ++ t := by
  rw [trimSpace_append (forall_isSpace_newLine level), trimSpace_of_opens h]

variable (hb : b.close = ']' ∨ b.close = '}')

include hb

theorem items_moreLines {as : List α} (hopens : ∀ a ∈ as, Opens (write a))
    (hreads : ∀ a ∈ as, x.Reads (write a) a) (u : Text) :
    Items b x false (Text.ofChars (moreLines b write level as) ++ u) as u := by
  induction as with
  | nil =>
    refine .close ?_
    rw [moreLines, Text.ofChars_append, List.append_assoc,
      run_another_append (forall_isSpace_newLine level)]
    exact another_close hb false u
  | cons a as ih =>
    have hcomma : b.close ≠ ',' := by rcases hb with h | h <;> rw [h] <;> decide
    obtain ⟨c, ds, hcs, -, hclose⟩ := (hopens a List.mem_cons_self).cons_ne_close hb
    have htext : Text.ofChars (moreLines b write level (a :: as)) ++ u =
        .char ',' :: (Text.ofChars (newLine (level + 1)) ++
          (Text.ofChars (write a) ++ (Text.ofChars (moreLines b write level as) ++ u))) := by
      simp [moreLines, Text.ofChars]
    have hline := trimSpace_line (hopens a List.mem_cons_self) (level + 1)
      (Text.ofChars (moreLines b write level as) ++ u)
    have hread := hreads a List.mem_cons_self _ (endsNumeral_moreLines b write level as u)
    rw [hcs] at hline hread
    rw [htext, hcs]
    exact .item (run_another_comma hcomma hline (by simpa using hclose)) hread
      (ih (fun a ha => hopens a (List.mem_cons_of_mem _ ha))
        fun a ha => hreads a (List.mem_cons_of_mem _ ha))

theorem items_lines {as : List α} (hopens : ∀ a ∈ as, Opens (write a))
    (hreads : ∀ a ∈ as, x.Reads (write a) a) (u : Text) :
    Items b x true (Text.ofChars (lines b write level as) ++ u) as u := by
  cases as with
  | nil => exact .close (another_close hb true u)
  | cons a as =>
    obtain ⟨c, ds, hcs, -, hclose⟩ := (hopens a List.mem_cons_self).cons_ne_close hb
    have htext : Text.ofChars (lines b write level (a :: as)) ++ u =
        Text.ofChars (newLine (level + 1)) ++
          (Text.ofChars (write a) ++ (Text.ofChars (moreLines b write level as) ++ u)) := by
      simp [lines, Text.ofChars]
    have hline := trimSpace_line (hopens a List.mem_cons_self) (level + 1)
      (Text.ofChars (moreLines b write level as) ++ u)
    have hread := hreads a List.mem_cons_self _ (endsNumeral_moreLines b write level as u)
    rw [hcs] at hline hread
    rw [htext, hcs]
    exact .item (run_another_first hline (by simpa using hclose)) hread
      (items_moreLines hb (fun a ha => hopens a (List.mem_cons_of_mem _ ha))
        (fun a ha => hreads a (List.mem_cons_of_mem _ ha)) u)

end Lines

/-! ## Values -/

/-- A member of an object on a line. -/
def memberLine (level : Nat) (m : String × Json) : List Char :=
  quoted m.1 ++ ':' :: ' ' :: prettyChars level m.2

theorem prettyItemChars_eq (level : Nat) (js : List Json) :
    prettyItemChars level js = moreLines .list (prettyChars (level + 1)) level js := by
  induction js with
  | nil => rfl
  | cons j js ih => rw [prettyItemChars, ih, moreLines]

theorem prettyMemberChars_eq (level : Nat) (ms : List (String × Json)) :
    prettyMemberChars level ms = moreLines .object (memberLine (level + 1)) level ms := by
  induction ms with
  | nil => rfl
  | cons m ms ih =>
    obtain ⟨k, j⟩ := m
    rw [prettyMemberChars, ih, moreLines]
    simp [memberLine]

theorem prettyChars_arr (level : Nat) (js : List Json) :
    prettyChars level (.arr js) = '[' :: lines .list (prettyChars (level + 1)) level js := by
  cases js with
  | nil => rfl
  | cons j js => rw [prettyChars, prettyItemChars_eq, lines, List.cons_append, List.cons_append]

theorem prettyChars_obj (level : Nat) (ms : List (String × Json)) :
    prettyChars level (.obj ms) = '{' :: lines .object (memberLine (level + 1)) level ms := by
  cases ms with
  | nil => rfl
  | cons m ms =>
    obtain ⟨k, j⟩ := m
    rw [prettyChars, prettyMemberChars_eq, lines]
    simp [memberLine]

theorem Plain.opens_pretty {d : Nat} {j : Json} (h : j.Plain d) (level : Nat) :
    Opens (prettyChars level j) := by
  cases h with
  | arr => exact prettyChars_arr level _ ▸ ⟨'[', rfl, by decide⟩
  | obj => exact prettyChars_obj level _ ▸ ⟨'{', rfl, by decide⟩
  | null => exact readsScalar_null.opens
  | bool b => exact (readsScalar_bool b).opens
  | int fits => exact (readsScalar_int fits).opens
  | str s => exact (readsScalar_str s).opens

theorem memberLine_reads {d level : Nat} {m : String × Json}
    (h : (value d).Reads (prettyChars level m.2) m.2) :
    (member (value d)).Reads (memberLine level m) m := by
  intro t ht
  have htext : Text.ofChars (memberLine level m) ++ t = Text.ofChars (quoted m.1) ++
      .char ':' :: (.char ' ' :: (Text.ofChars (prettyChars level m.2) ++ t)) := by
    simp [memberLine, Text.ofChars]
  have hspace : trimSpace (.char ' ' :: (Text.ofChars (prettyChars level m.2) ++ t)) =
      trimSpace (Text.ofChars (prettyChars level m.2) ++ t) := by simp [trimSpace, isSpace]
  rw [htext]
  refine run_member_eq_ok_iff.mpr ⟨_, _, key_quoted _ _, colon_run _, ?_⟩
  rw [run_value_of_trimSpace_eq d hspace]
  exact h t ht

theorem Plain.pretty_reads {d : Nat} {j : Json} (h : j.Plain d) (level : Nat) :
    (value d).Reads (prettyChars level j) j := by
  induction h generalizing level with
  | null => exact readsScalar_null.value _
  | bool b => exact (readsScalar_bool b).value _
  | int fits => exact (readsScalar_int fits).value _
  | str s => exact (readsScalar_str s).value _
  | @arr d items plain ih =>
    intro t ht
    have hitems : Items .list (value d) true
        (Text.ofChars (lines .list (prettyChars (level + 1)) level items) ++ t) items t :=
      items_lines (.inl rfl) (fun j hj => (plain j hj).opens_pretty _)
        (fun j hj => ih j hj (level + 1)) t
    rw [prettyChars_arr]
    exact run_value_eq_ok_iff.mpr (.inl ⟨d, _, items, rfl, rfl, hitems, rfl⟩)
  | @obj d ms plain ih =>
    intro t ht
    have hms : Items .object (member (value d)) true
        (Text.ofChars (lines .object (memberLine (level + 1)) level ms) ++ t) ms t :=
      items_lines (.inr rfl)
        (fun m _ => (opens_quoted m.1).append (':' :: ' ' :: prettyChars (level + 1) m.2))
        (fun m hm => memberLine_reads (ih m hm (level + 1))) t
    rw [prettyChars_obj]
    exact run_value_eq_ok_iff.mpr (.inr (.inl ⟨d, _, ms, rfl, rfl, hms, rfl⟩))

end ScanDigest.Json
