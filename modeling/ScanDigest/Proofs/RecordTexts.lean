import ScanDigest.Proofs.Items
import ScanDigest.Proofs.Records

/-!
# Reading a record and decoding its document

A record that is read off a text is the one that the document there decodes to
(`Record.toOption_read`), and the one succeeds if the other does: wherever the type stands, and
whatever else the document holds, as long as it does not name the type twice.
-/

set_option autoImplicit false

namespace ScanDigest

open Json Reader

namespace Json

/-- The string that a value is. -/
def text? : Json → Option String
  | .str s => some s
  | _ => none

variable {d : Nat} {s t r : Text} {j : Json}

theorem run_expected_ne_ok {α : Type} (wanted : Wanted) (s : Text) (p : α × Text) :
    (expected wanted).run s ≠ .ok p := by
  intro h
  obtain ⟨a, r⟩ := p
  simp only [expected, run_bind, run_left] at h
  split at h
  · cases h
  · cases h
  · cases h
  · split at h
    · obtain ⟨j, t, -, h⟩ := run_bind_eq_ok_iff.mp h
      cases h
    · cases h

theorem run_string_of_quote (wanted : Wanted) (h : trimSpace s = .char '"' :: t) :
    (string wanted).run s = quotation.run t := by
  simp only [string, run_bind, run_space, run_left, h]
  rfl

theorem run_string_ne_ok (wanted : Wanted) (h : ∀ t, trimSpace s ≠ .char '"' :: t)
    (p : String × Text) : (string wanted).run s ≠ .ok p := by
  intro hrun
  obtain ⟨v, r⟩ := p
  obtain ⟨⟨⟩, t, hspace, hrun⟩ := run_bind_eq_ok_iff.mp hrun
  obtain ⟨_, _, hleft, hrun⟩ := run_bind_eq_ok_iff.mp hrun
  cases hspace
  cases hleft
  split at hrun
  · rename_i t ht
    exact h t ht
  · exact run_expected_ne_ok wanted _ _ hrun

theorem toOption_string (wanted : Wanted) (h : (value d).run s = .ok (j, r)) :
    ((string wanted).run s).toOption = j.text?.map (·, r) := by
  have hnone : (∀ t, trimSpace s ≠ .char '"' :: t) → j.text? = none →
      ((string wanted).run s).toOption = j.text?.map (·, r) := by
    intro hs hj
    rw [hj]
    cases hrun : (string wanted).run s with
    | error e => rfl
    | ok p => exact absurd hrun (run_string_ne_ok wanted hs p)
  cases valueAt h with
  | list ht => exact hnone (by simp [ht]) rfl
  | object ht => exact hnone (by simp [ht]) rfl
  | scalar ht hscalar =>
    cases hscalar with
    | str hv =>
      rw [run_string_of_quote wanted ht, hv]
      rfl
    | null | negative => exact hnone (by simp [ht]) rfl
    | bool b letter => exact hnone (by rcases letter with rfl | rfl <;> simp [ht]) rfl
    | number digit =>
      refine hnone (fun t' ht' => ?_) rfl
      cases ht.symm.trans ht'
      exact absurd digit (by decide)

end Json

namespace Record

/-- Takes a member in as the type or as one of the others, unless the type stands there already. -/
def take (acc : Option String × List (String × Json)) (m : String × Json) :
    Option (Option String × List (String × Json)) :=
  if m.1 = tagKey then
    if acc.1.isSome then none else m.2.text?.map fun tag => (some tag, acc.2)
  else some (acc.1, m :: acc.2)

theorem toOption_readMember (acc : Option String × List (String × Json)) {m : String × Json}
    {s t : Text} (h : (member inner).run s = .ok (m, t)) :
    ((readMember acc).run s).toOption = (take acc m).map (·, t) := by
  obtain ⟨s', s'', hkey, hcolon, hvalue⟩ := run_member_eq_ok_iff.mp h
  have hstring : ((string .tag).run s'').toOption = m.2.text?.map (·, t) :=
    toOption_string .tag hvalue
  rw [readMember, run_bind, hkey]
  dsimp only [take]
  split
  · split
    · rfl
    · refine (congrArg Except.toOption (run_bind_of_ok hcolon)).trans ?_
      rw [toOption_run_bind hstring]
      cases m.2.text? <;> rfl
  · simp only [run_bind, hcolon, hvalue, run_pure]
    rfl

theorem foldlM_take_of_not_mem {ms : List (String × Json)} (h : tagKey ∉ ms.map Prod.fst)
    (acc : Option String × List (String × Json)) :
    ms.foldlM take acc = some (acc.1, ms.reverse ++ acc.2) := by
  induction ms generalizing acc with
  | nil => rfl
  | cons m ms ih =>
    rw [List.map_cons, List.mem_cons, not_or] at h
    rw [List.foldlM_cons, take, if_neg (Ne.symm h.1), Option.bind_eq_bind, Option.bind_some,
      ih h.2, List.reverse_cons, List.append_assoc]
    rfl

/-- The type may stand anywhere among the members, once. -/
theorem foldlM_take {ms : List (String × Json)} (h : (ms.map Prod.fst).Nodup)
    (acc : List (String × Json)) :
    ms.foldlM take (none, acc) = match ms.lookup tagKey with
      | some j => j.text?.map fun tag =>
          (some tag, (ms.filter fun m => m.1 != tagKey).reverse ++ acc)
      | none => some (none, ms.reverse ++ acc) := by
  induction ms generalizing acc with
  | nil => rfl
  | cons m ms ih =>
    obtain ⟨hnew, h⟩ := List.nodup_cons.mp h
    rw [List.foldlM_cons, take, lookup_cons, List.filter_cons]
    by_cases htag : m.1 = tagKey
    · have hall : (ms.filter fun m => m.1 != tagKey) = ms := by
        rw [List.filter_eq_self]
        refine fun n hn => bne_iff_ne.mpr fun heq => hnew ?_
        rw [htag, ← heq]
        exact List.mem_map_of_mem hn
      rw [if_pos htag, if_pos htag.symm, if_neg (by simp), if_neg (by simp [htag]), hall]
      dsimp only
      cases m.2.text? with
      | none => rfl
      | some tag => exact foldlM_take_of_not_mem (htag ▸ hnew) _
    · have hkeep : (m.1 != tagKey) = true := bne_iff_ne.mpr htag
      rw [if_neg htag, if_neg (Ne.symm htag), if_pos hkeep, Option.bind_eq_bind, Option.bind_some,
        ih h]
      simp only [List.reverse_cons, List.append_assoc, List.singleton_append]

theorem toOption_ofBody (tag : String) (body : Json) (r : Text) :
    ((ofBody tag body).run r).toOption =
      (decodeBody (.ofTag tag) body).toOption.map (·, r) := by
  rw [ofBody]
  cases decodeBody (.ofTag tag) body <;> rfl

/-! ## Brackets of a record -/

/-- The record of the type and the other members, once all of them are read. -/
def ofMembers (acc : Option String × List (String × Json)) : Reader Record :=
  match acc.1 with
  | some tag => ofBody tag (.obj acc.2.reverse)
  | none => do Reader.fail ((Cause.missingField tagKey).before (← Reader.left))

/-- Reads a record that is an object, after the bracket. -/
def readObject : Reader Record := do ofMembers (← separated .object readMember (none, []))

/-- Reads a record that is an array, after the bracket. -/
def readArray : Reader Record := do
  if ← another .list true then
    let tag ← string .tag
    let items ← furtherItems .list (collect inner) []
    ofBody tag (.arr items.reverse)
  else Reader.fail ((Cause.missingField tagKey).before (← Reader.left).tail)

section Read

variable {s t r : Text}

theorem run_read_object (hs : trimSpace s = .char '{' :: t) : read.run s = readObject.run t := by
  simp only [read, run_bind, run_space, run_left, hs]
  rfl

theorem run_read_array (hs : trimSpace s = .char '[' :: t) : read.run s = readArray.run t := by
  simp only [read, run_bind, run_space, run_left, hs]
  rfl

/-- A record starts with a bracket. -/
theorem exists_bracket_of_run_read {p : Record × Text} (h : read.run s = .ok p) :
    (∃ t, trimSpace s = .char '{' :: t) ∨ ∃ t, trimSpace s = .char '[' :: t := by
  obtain ⟨a, r⟩ := p
  obtain ⟨⟨⟩, _, hspace, h⟩ := run_bind_eq_ok_iff.mp h
  obtain ⟨_, _, hleft, h⟩ := run_bind_eq_ok_iff.mp h
  cases hspace
  cases hleft
  split at h
  · rename_i t ht
    exact .inl ⟨t, ht⟩
  · rename_i t ht
    exact .inr ⟨t, ht⟩
  · exact absurd h (run_expected_ne_ok _ _ _)

theorem toOption_read_arr {items : List Json} (hs : trimSpace s = .char '[' :: t)
    (h : Items .list inner true t items r) :
    (read.run s).toOption = (decode (.arr items)).toOption.map (·, r) := by
  rw [run_read_array hs, readArray]
  cases h with
  | close ends =>
    simp only [run_bind, ends]
    rfl
  | @item _ _ s' t' _ j items more first rest =>
    have hstring : ((string .tag).run s').toOption = j.text?.map (·, t') :=
      toOption_string .tag first
    have hrest := (run_furtherItems_collect [] _).mpr ⟨items, rest, rfl⟩
    rw [run_bind, more]
    dsimp only
    rw [if_pos rfl, toOption_run_bind hstring]
    simp only [run_bind, hrest, List.append_nil, List.reverse_reverse, toOption_ofBody]
    cases j <;> rfl

theorem toOption_read_obj {ms : List (String × Json)} (hs : trimSpace s = .char '{' :: t)
    (h : Items .object (Json.member inner) true t ms r) (hkeys : (ms.map Prod.fst).Nodup) :
    (read.run s).toOption = (decode (.obj ms)).toOption.map (·, r) := by
  have hfold := toOption_separated (fun m _ acc s t h => toOption_readMember acc h) h (none, [])
  rw [foldlM_take hkeys] at hfold
  rw [run_read_object hs, readObject, toOption_run_bind hfold, decode]
  cases ms.lookup tagKey with
  | none => rfl
  | some j =>
    cases j with
    | str tag =>
      simp only [text?, ofMembers, Option.map_some, Option.bind_some, List.append_nil,
        List.reverse_reverse, toOption_ofBody]
    | _ => rfl

theorem toOption_read_scalar {g : Glyph} {scalar : Reader Json} (hs : trimSpace s = g :: t)
    (hscalar : scalar? g = some scalar) : (read.run s).toOption = none := by
  refine Option.eq_none_iff_forall_ne_some.mpr fun p hp => ?_
  rcases exists_bracket_of_run_read (toOption_eq_some_iff.mp hp) with ⟨t', ht⟩ | ⟨t', ht⟩
  · cases hs.symm.trans ht
    cases hscalar
  · cases hs.symm.trans ht
    cases hscalar

theorem toOption_decode_scalar {g : Glyph} {scalar : Reader Json} {j : Json}
    (hscalar : scalar? g = some scalar) (hrun : scalar.run (g :: t) = .ok (j, r)) :
    (decode j).toOption = none := by
  cases scalarAt hscalar hrun <;> rfl

/-- **Reading a record off a text is decoding the document there.** -/
theorem toOption_read {j : Json} (h : (value maxDepth).run s = .ok (j, r)) (hj : j.Distinct) :
    (read.run s).toOption = (decode j).toOption.map (·, r) := by
  rcases run_value_eq_ok_iff.mp h with ⟨e, t, items, he, ht, hitems, rfl⟩ |
    ⟨e, t, ms, he, ht, hms, rfl⟩ | ⟨g, t, scalar, ht, hscalar, hrun⟩
  · cases he
    exact toOption_read_arr ht hitems
  · cases he
    cases hj with
    | obj hkeys => exact toOption_read_obj ht hms hkeys
  · rw [toOption_read_scalar ht hscalar, toOption_decode_scalar hscalar hrun]
    rfl

end Read

end Record

end ScanDigest
