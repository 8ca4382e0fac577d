import Mathlib.Data.List.Nodup
import ScanDigest.Json.Basic

/-!
# The value that a document denotes

`Json.sorted` keeps under each key the last value that a document has there (`lookup_sortedMembers`)
and puts the keys of an object in strictly ascending order (`ascending_sortedMembers`). Where no key
is repeated (`Distinct`), a key is looked up in the value as it is in the document.
-/

set_option autoImplicit false

namespace ScanDigest.Json

/-- No object in the value, however deep, repeats a key. -/
inductive Distinct : Json → Prop where
  | null : Distinct .null
  | bool (b : Bool) : Distinct (.bool b)
  | num (n : Number) : Distinct (.num n)
  | str (s : String) : Distinct (.str s)
  | arr {items : List Json} (distinct : ∀ j ∈ items, Distinct j) : Distinct (.arr items)
  | obj {ms : List (String × Json)} (keys : (ms.map Prod.fst).Nodup)
      (distinct : ∀ m ∈ ms, Distinct m.2) : Distinct (.obj ms)

/-- Induction over a value: arrays by their items, objects by the values of their members. -/
@[elab_as_elim]
theorem induct {motive : Json → Prop} (null : motive .null) (bool : ∀ b, motive (.bool b))
    (num : ∀ n, motive (.num n)) (str : ∀ s, motive (.str s))
    (arr : ∀ items, (∀ j ∈ items, motive j) → motive (.arr items))
    (obj : ∀ ms, (∀ m ∈ ms, motive m.2) → motive (.obj ms)) (j : Json) : motive j := by
  refine @Json.rec motive (fun items => ∀ j ∈ items, motive j) (fun ms => ∀ m ∈ ms, motive m.2)
    (fun m => motive m.2) null bool num str arr obj ?_ ?_ ?_ ?_ ?_ j
  · exact List.forall_mem_nil _
  · exact fun j items hj hitems => List.forall_mem_cons.mpr ⟨hj, hitems⟩
  · exact List.forall_mem_nil _
  · exact fun m ms hm hms => List.forall_mem_cons.mpr ⟨hm, hms⟩
  · exact fun _ _ hj => hj

theorem sortedItems_eq (items : List Json) : sortedItems items = items.map sorted := by
  induction items with
  | nil => rfl
  | cons j js ih => rw [sortedItems, ih, List.map_cons]

/-! ## Looking up a key -/

section Lookup

variable {ms : List (String × Json)} {k : String} {j : Json}

theorem lookup_cons (m : String × Json) (ms : List (String × Json)) (k : String) :
    (m :: ms).lookup k = if k = m.1 then some m.2 else ms.lookup k := by
  obtain ⟨k', j⟩ := m
  rw [List.lookup_cons]
  by_cases h : k = k'
  · simp [h]
  · simp [h, beq_eq_false_iff_ne.mpr h]

theorem lookup_eq_some_iff (h : (ms.map Prod.fst).Nodup) : ms.lookup k = some j ↔ (k, j) ∈ ms := by
  induction ms with
  | nil => simp
  | cons m ms ih =>
    rw [List.map_cons, List.nodup_cons] at h
    rw [lookup_cons, List.mem_cons]
    split
    · rename_i hk
      subst hk
      have hnew : (m.1, j) ∉ ms := fun hj => h.1 (List.mem_map.mpr ⟨_, hj, rfl⟩)
      simp [hnew, Prod.ext_iff, eq_comm]
    · rename_i hk
      have hne : (k, j) ≠ m := fun heq => hk (heq ▸ rfl)
      simp [hne, ih h.2]

theorem lookup_eq_none (h : k ∉ ms.map Prod.fst) : ms.lookup k = none := by
  rw [List.lookup_eq_none_iff]
  intro m hm
  refine bne_iff_ne.mpr fun heq => h ?_
  rw [heq]
  exact List.mem_map_of_mem hm

theorem lookup_concat {m : String × Json} (h : m.1 ∉ ms.map Prod.fst) (k : String) :
    (ms ++ [m]).lookup k = if k = m.1 then some m.2 else ms.lookup k := by
  rw [List.lookup_append, lookup_cons, List.lookup_nil]
  split
  · rename_i hk
    rw [hk, lookup_eq_none h]
    rfl
  · rw [Option.or_none]

/-- What members have under a key: of a repeated key, the last value. -/
def last (ms : List (String × Json)) (k : String) : Option Json := ms.reverse.lookup k

theorem last_cons (m : String × Json) (ms : List (String × Json)) (k : String) :
    last (m :: ms) k = (last ms k).or (if k = m.1 then some m.2 else none) := by
  rw [last, last, List.reverse_cons, List.lookup_append, lookup_cons, List.lookup_nil]

theorem mem_of_last_eq_some (h : last ms k = some j) : (k, j) ∈ ms := by
  obtain ⟨before, after, hms, -⟩ := List.lookup_eq_some_iff.mp h
  exact List.mem_reverse.mp (hms ▸ List.mem_append_right _ List.mem_cons_self)

theorem last_eq_lookup (h : (ms.map Prod.fst).Nodup) (k : String) : last ms k = ms.lookup k := by
  have hr : (ms.reverse.map Prod.fst).Nodup := by
    rw [List.map_reverse]
    exact List.nodup_reverse.mpr h
  apply Option.ext
  intro j
  rw [last, lookup_eq_some_iff hr, lookup_eq_some_iff h, List.mem_reverse]

theorem lookup_filter_ne (ms : List (String × Json)) {k t : String} (h : k ≠ t) :
    (ms.filter fun m => m.1 != t).lookup k = ms.lookup k := by
  induction ms with
  | nil => rfl
  | cons m ms ih =>
    rw [List.filter_cons]
    split
    · rw [lookup_cons, lookup_cons, ih]
    · rename_i hm
      have hm : m.1 = t := by simpa using hm
      rw [ih, lookup_cons, if_neg (hm ▸ h)]

theorem lookup_filter_self (ms : List (String × Json)) (t : String) :
    (ms.filter fun m => m.1 != t).lookup t = none := by
  apply lookup_eq_none
  simp [List.mem_map, List.mem_filter]

end Lookup

/-! ## Members in ascending order -/

/-- The members stand in strictly ascending order of their keys. -/
def Ascending (ms : List (String × Json)) : Prop := ms.Pairwise fun m n => m.1 < n.1

theorem Ascending.nodup_keys {ms : List (String × Json)} (h : Ascending ms) :
    (ms.map Prod.fst).Nodup := by
  refine List.pairwise_map.mpr (h.imp ?_)
  intro m n hlt heq
  exact String.lt_irrefl _ (heq ▸ hlt)

/-- Members in order are decided by what is found under each key. -/
theorem Ascending.ext {ms ns : List (String × Json)} (hms : Ascending ms) (hns : Ascending ns)
    (h : ∀ k, ms.lookup k = ns.lookup k) : ms = ns := by
  have hmem : ∀ m, m ∈ ms ↔ m ∈ ns := by
    intro m
    rw [← lookup_eq_some_iff hms.nodup_keys, ← lookup_eq_some_iff hns.nodup_keys, h]
  have hperm : ms.Perm ns :=
    (List.perm_ext_iff_of_nodup hms.nodup_keys.of_map hns.nodup_keys.of_map).mpr hmem
  refine hperm.eq_of_pairwise ?_ hms hns
  intro m n _ _ hmn hnm
  exact absurd (String.lt_trans hmn hnm) (String.lt_irrefl _)

theorem lookup_insertMember (key : String) (value : Json) (ms : List (String × Json)) (k : String) :
    (insertMember key value ms).lookup k = if k = key then some value else ms.lookup k := by
  induction ms with
  | nil => rw [insertMember, lookup_cons]
  | cons m ms ih =>
    obtain ⟨k', j⟩ := m
    unfold insertMember
    split
    · rw [lookup_cons]
    · split
      · rename_i heq
        subst heq
        rw [lookup_cons, lookup_cons]
        split <;> rfl
      · rename_i hne
        rw [lookup_cons, ih, lookup_cons]
        by_cases hk : k = key
        · subst hk
          simp [hne]
        · simp [hk]

theorem mem_insertMember {key : String} {value : Json} {ms : List (String × Json)}
    {m : String × Json} (h : m ∈ insertMember key value ms) : m = (key, value) ∨ m ∈ ms := by
  induction ms with
  | nil => exact .inl (List.mem_singleton.mp h)
  | cons n ms ih =>
    obtain ⟨k, j⟩ := n
    unfold insertMember at h
    split at h
    · exact List.mem_cons.mp h
    · split at h
      · rcases List.mem_cons.mp h with h | h
        · exact .inl h
        · exact .inr (List.mem_cons_of_mem _ h)
      · rcases List.mem_cons.mp h with h | h
        · exact .inr (List.mem_cons.mpr (.inl h))
        · exact (ih h).imp_right (List.mem_cons_of_mem _)

theorem Ascending.insertMember {ms : List (String × Json)} (h : Ascending ms) (key : String)
    (value : Json) : Ascending (insertMember key value ms) := by
  unfold Ascending at h ⊢
  induction ms with
  | nil => exact List.pairwise_singleton _ _
  | cons m ms ih =>
    obtain ⟨k, j⟩ := m
    obtain ⟨hhead, htail⟩ := List.pairwise_cons.mp h
    unfold Json.insertMember
    split
    · rename_i hlt
      refine List.pairwise_cons.mpr ⟨?_, h⟩
      intro n hn
      rcases List.mem_cons.mp hn with rfl | hn
      · exact hlt
      · exact String.lt_trans hlt (hhead n hn)
    · split
      · rename_i heq
        subst heq
        exact List.pairwise_cons.mpr ⟨hhead, htail⟩
      · rename_i hlt hne
        refine List.pairwise_cons.mpr ⟨?_, ih htail⟩
        intro n hn
        rcases mem_insertMember hn with rfl | hn
        · exact Std.lt_of_le_of_ne (String.not_lt.mp hlt) (Ne.symm hne)
        · exact hhead n hn

theorem ascending_sortedMembers (ms : List (String × Json)) {done : List (String × Json)}
    (h : Ascending done) : Ascending (sortedMembers done ms) := by
  induction ms generalizing done with
  | nil => exact h
  | cons m ms ih => exact ih (h.insertMember m.1 m.2.sorted)

theorem lookup_sortedMembers_or (ms done : List (String × Json)) (k : String) :
    (sortedMembers done ms).lookup k = ((last ms k).map sorted).or (done.lookup k) := by
  induction ms generalizing done with
  | nil => rfl
  | cons m ms ih =>
    rw [sortedMembers, ih, lookup_insertMember, last_cons]
    cases last ms k with
    | some j => rfl
    | none => by_cases h : k = m.1 <;> simp [h]

theorem lookup_sortedMembers (ms : List (String × Json)) (k : String) :
    (sortedMembers [] ms).lookup k = (last ms k).map sorted := by
  rw [lookup_sortedMembers_or, List.lookup_nil, Option.or_none]

theorem lookup_sorted {ms : List (String × Json)} (h : (ms.map Prod.fst).Nodup) (k : String) :
    (sortedMembers [] ms).lookup k = (ms.lookup k).map sorted := by
  rw [lookup_sortedMembers, last_eq_lookup h]

theorem filter_sortedMembers {ms : List (String × Json)} (h : (ms.map Prod.fst).Nodup) (t : String) :
    (sortedMembers [] ms).filter (fun m => m.1 != t) =
      sortedMembers [] (ms.filter fun m => m.1 != t) := by
  have hsub : ((ms.filter fun m => m.1 != t).map Prod.fst).Nodup :=
    h.sublist (List.filter_sublist.map _)
  refine Ascending.ext ((ascending_sortedMembers ms .nil).filter _)
    (ascending_sortedMembers _ .nil) fun k => ?_
  rw [lookup_sorted hsub]
  by_cases hk : k = t
  · rw [hk, lookup_filter_self, lookup_filter_self, Option.map_none]
  · rw [lookup_filter_ne _ hk, lookup_filter_ne _ hk, lookup_sorted h]

theorem nodup_keys_sorted (ms : List (String × Json)) :
    ((sortedMembers [] ms).map Prod.fst).Nodup :=
  (ascending_sortedMembers ms .nil).nodup_keys

/-- A member of the value that an object denotes comes from a member of the object. -/
theorem exists_of_mem_sortedMembers {ms : List (String × Json)} {m : String × Json}
    (h : m ∈ sortedMembers [] ms) :
    ∃ j, (m.1, j) ∈ ms ∧ j.sorted = m.2 := by
  have hlookup := (lookup_eq_some_iff (nodup_keys_sorted ms)).mpr h
  rw [lookup_sortedMembers] at hlookup
  obtain ⟨j, hj, hsorted⟩ := Option.map_eq_some_iff.mp hlookup
  exact ⟨j, mem_of_last_eq_some hj, hsorted⟩

end ScanDigest.Json
