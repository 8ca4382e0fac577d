import Mathlib.Data.List.Forall2
import ScanDigest.Proofs.Denotation

/-!
# What documents say

`Json.meaning` reads a document as data: an array is a list, an object is a map from keys, in which
the last of repeated keys wins, and the order of the members is gone. Two documents say the same
exactly if they denote one value (`sorted_eq_iff_meaning_eq`), since members in ascending order are
decided by what stands under each key. In the value the keys of every object ascend
(`ordered_sorted`).
-/

set_option autoImplicit false

namespace ScanDigest.Json

inductive Meaning where
  | null
  | bool (value : Bool)
  | num (value : Number)
  | str (value : String)
  | arr (items : List Meaning)
  /-- A map from keys. -/
  | obj (members : String → Option Meaning)

mutual

/-- What a document says. -/
def meaning : Json → Meaning
  | .null => .null
  | .bool b => .bool b
  | .num n => .num n
  | .str s => .str s
  | .arr items => .arr (itemMeanings items)
  | .obj ms => .obj (memberMeaning ms)

def itemMeanings : List Json → List Meaning
  | [] => []
  | j :: rest => j.meaning :: itemMeanings rest

/-- What members say under a key: a later member comes before an earlier one. -/
def memberMeaning : List (String × Json) → String → Option Meaning
  | [], _ => none
  | (k, j) :: rest, key => (memberMeaning rest key).or (if key = k then some j.meaning else none)

end

theorem itemMeanings_eq (items : List Json) : itemMeanings items = items.map meaning := by
  induction items with
  | nil => rfl
  | cons j js ih => rw [itemMeanings, ih, List.map_cons]

theorem memberMeaning_eq (ms : List (String × Json)) (key : String) :
    memberMeaning ms key = (last ms key).map meaning := by
  induction ms with
  | nil => rfl
  | cons m ms ih =>
    obtain ⟨k, j⟩ := m
    rw [memberMeaning, ih, last_cons, Option.map_or, apply_ite (Option.map meaning)]
    rfl

/-- Sorting keeps what a document says. -/
theorem meaning_sorted (j : Json) : j.sorted.meaning = j.meaning := by
  induction j using induct with
  | null | bool | num | str => rfl
  | arr items ih =>
    rw [sorted, meaning, meaning, itemMeanings_eq, itemMeanings_eq, sortedItems_eq, List.map_map]
    exact congrArg Meaning.arr (List.map_congr_left ih)
  | obj ms ih =>
    rw [sorted, meaning, meaning]
    refine congrArg Meaning.obj (funext fun key => ?_)
    rw [memberMeaning_eq, memberMeaning_eq, last_eq_lookup (nodup_keys_sorted ms),
      lookup_sortedMembers, Option.map_map]
    exact Option.map_congr fun j hj => ih (key, j) (mem_of_last_eq_some hj)

/-! ## One value for each meaning -/

/-- Every document that says the same denotes the same value. -/
def Decided (i : Json) : Prop := ∀ j : Json, i.meaning = j.meaning → i.sorted = j.sorted

theorem map_sorted_eq {is js : List Json} (ih : ∀ i ∈ is, i.Decided)
    (h : is.map meaning = js.map meaning) : is.map sorted = js.map sorted := by
  rw [← List.forall₂_eq_eq_eq, List.forall₂_map_left_iff, List.forall₂_map_right_iff] at h ⊢
  exact ((List.forall₂_and_left _ _).mpr ⟨ih, h⟩).imp fun i j hij => hij.1 j hij.2

theorem sortedMembers_eq {ms ns : List (String × Json)} (ih : ∀ m ∈ ms, m.2.Decided)
    (h : memberMeaning ms = memberMeaning ns) : sortedMembers [] ms = sortedMembers [] ns := by
  refine (ascending_sortedMembers ms .nil).ext (ascending_sortedMembers ns .nil) fun key => ?_
  have hkey : (last ms key).map meaning = (last ns key).map meaning := by
    rw [← memberMeaning_eq, h, memberMeaning_eq]
  rw [lookup_sortedMembers, lookup_sortedMembers]
  cases hm : last ms key with
  | none =>
    rw [hm, Option.map_none, eq_comm, Option.map_eq_none_iff] at hkey
    rw [hkey]
  | some i =>
    rw [hm, Option.map_some, eq_comm, Option.map_eq_some_iff] at hkey
    obtain ⟨j, hj, hij⟩ := hkey
    rw [hj, Option.map_some, Option.map_some, ih (key, i) (mem_of_last_eq_some hm) j hij.symm]

theorem decided (i : Json) : i.Decided := by
  induction i using induct with
  | null | bool | num | str =>
    intro j h
    cases j <;> cases h
    rfl
  | arr is ih =>
    intro j h
    cases j with
    | arr js =>
      rw [meaning, meaning, itemMeanings_eq, itemMeanings_eq] at h
      rw [sorted, sorted, sortedItems_eq, sortedItems_eq, map_sorted_eq ih (Meaning.arr.inj h)]
    | _ => cases h
  | obj ms ih =>
    intro j h
    cases j with
    | obj ns =>
      rw [meaning, meaning] at h
      rw [sorted, sorted, sortedMembers_eq ih (Meaning.obj.inj h)]
    | _ => cases h

/-- **Documents denote one value exactly if they say the same.** -/
theorem sorted_eq_iff_meaning_eq {i j : Json} : i.sorted = j.sorted ↔ i.meaning = j.meaning := by
  refine ⟨fun h => ?_, decided i j⟩
  rw [← meaning_sorted i, h, meaning_sorted]

/-! ## Keys in order -/

/-- The keys of every object, however deep, stand in strictly ascending order. -/
inductive Ordered : Json → Prop where
  | null : Ordered .null
  | bool (b : Bool) : Ordered (.bool b)
  | num (n : Number) : Ordered (.num n)
  | str (s : String) : Ordered (.str s)
  | arr {items : List Json} (ordered : ∀ j ∈ items, Ordered j) : Ordered (.arr items)
  | obj {ms : List (String × Json)} (keys : Ascending ms) (ordered : ∀ m ∈ ms, Ordered m.2) :
      Ordered (.obj ms)

theorem ordered_sorted (j : Json) : j.sorted.Ordered := by
  induction j using induct with
  | null => exact .null
  | bool b => exact .bool b
  | num n => exact .num n
  | str s => exact .str s
  | arr items ih =>
    rw [sorted, sortedItems_eq]
    exact .arr (List.forall_mem_map.mpr ih)
  | obj ms ih =>
    rw [sorted]
    refine .obj (ascending_sortedMembers ms .nil) fun m hm => ?_
    obtain ⟨j, hj, hsorted⟩ := exists_of_mem_sortedMembers hm
    exact hsorted ▸ ih (m.1, j) hj

theorem Ordered.distinct {j : Json} (h : j.Ordered) : j.Distinct := by
  induction h with
  | null => exact .null
  | bool b => exact .bool b
  | num n => exact .num n
  | str s => exact .str s
  | arr _ ih => exact .arr ih
  | obj keys _ ih => exact .obj keys.nodup_keys ih

end ScanDigest.Json
