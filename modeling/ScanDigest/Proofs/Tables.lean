import ScanDigest.Event.Codec
import ScanDigest.Proofs.Structures

/-!
# Counts, optional values and tables

The codecs of counts, optional values and tables are faithful. A table decodes from an object to what
the codec makes of the values under its keys, whatever the order of the members
(`Codec.decode_table_eq_ok_iff`), as long as different keys are written differently
(`Codec.Keys.Lawful`). A count beyond 64 bits is decoded as it was written, but its text is not read
back: counts are faithful and not lawful.
-/

set_option autoImplicit false

namespace ScanDigest

open Json Std

namespace Codec

variable {α κ : Type} {c : Codec α} {setting : Setting}

theorem Faithful.count : Codec.count.Faithful where
  distinct _ := .num _
  decode_encode _ n := by
    show countOf (.int n) = .ok n
    rw [countOf, if_neg (by omega), Int.toNat_natCast]
  decode_sorted {j} _ _ _ := by cases j <;> simp [Codec.count, sorted]

/-! ## Optional values -/

theorem decode_optional {j : Json} (h : j ≠ .null) :
    c.optional.decode setting j = some <$> c.decode setting j := by
  cases j with
  | null => exact absurd rfl h
  | _ => rfl

/-- `null` has to be left to stand for no value. -/
theorem Faithful.optional (h : c.Faithful) (hnull : ∀ a, c.encode a ≠ .null) :
    c.optional.Faithful where
  distinct
    | none => .null
    | some a => h.distinct a
  decode_encode setting
    | none => rfl
    | some a => by
      show c.optional.decode setting (c.encode a) = .ok (some a)
      rw [decode_optional (hnull a), h.decode_encode]
      rfl
  decode_sorted {j} hj setting a := by
    by_cases hj' : j = .null
    · rw [hj', sorted]
    · have hsorted : j.sorted ≠ .null := by cases j <;> simp_all [sorted]
      rw [decode_optional hj', decode_optional hsorted]
      simp only [map_eq_ok, h.decode_sorted hj]

theorem Lawful.optional {depth : Nat} (h : c.Lawful depth) (hnull : ∀ a, c.encode a ≠ .null) :
    c.optional.Lawful depth :=
  (h.faithful.optional hnull).lawful fun
    | none => .null
    | some a => h.plain a

/-- A field that is left out where it has no value, and then taken for none. -/
theorem Lawful.optional_field {depth : Nat} (h : c.Lawful depth) (hnull : ∀ a, c.encode a ≠ .null)
    (name : String) (short : Option (Option α)) :
    (Field.mk name c.optional (some none) short Option.isNone).Lawful depth where
  codec := h.optional hnull
  omits a hnone := by rw [Option.isNone_iff_eq_none.mp hnone]

/-! ## Tables -/

/-- A key is read back, and nothing else is read as it. -/
def Keys.Lawful (keys : Keys κ) : Prop := ∀ s k, keys.ofString s = .ok k ↔ keys.toString k = s

theorem Keys.Lawful.inj {keys : Keys κ} (h : keys.Lawful) {k l : κ}
    (heq : keys.toString k = keys.toString l) : k = l :=
  Except.ok.inj (((h _ k).mpr heq).symm.trans ((h _ l).mpr rfl))

theorem Keys.Lawful.text : Keys.text.Lawful := fun s k => by
  simp only [Keys.text, id_eq, Except.ok.injEq, eq_comm]

/-- Values that are told by their names. -/
theorem Keys.Lawful.named {all : List κ} {name : κ → String}
    (h : ∀ k, Codec.named all name (name k) = .ok k) :
    (Keys.mk (Codec.named all name) name).Lawful := by
  intro s k
  constructor
  · intro hs
    change Codec.named all name s = .ok k at hs
    rw [Codec.named] at hs
    split at hs
    · rename_i l hl
      cases hs
      have hmatch := List.find?_some hl
      exact beq_iff_eq.mp hmatch
    · cases hs
  · rintro rfl
    exact h k

section Table

variable [Ord κ] [TransOrd κ] {keys : Keys κ} {t t' : ExtTreeMap κ α} {m : String × Json}
  {look : String → Option Json}

/-- The members that a table is written as. -/
def entries (keys : Keys κ) (c : Codec α) (t : ExtTreeMap κ α) : List (String × Json) :=
  t.toList.map fun p => (keys.toString p.1, c.encode p.2)

theorem nodup_entries (hkeys : keys.Lawful) (t : ExtTreeMap κ α) :
    ((entries keys c t).map Prod.fst).Nodup := by
  have hnames : (entries keys c t).map Prod.fst = t.keys.map keys.toString := by
    rw [entries, List.map_map, ← ExtTreeMap.map_fst_toList_eq_keys, List.map_map]
    rfl
  rw [hnames]
  exact ExtTreeMap.nodup_keys.map fun _ _ => hkeys.inj

/-- Takes a member into a table. -/
def enter (keys : Keys κ) (c : Codec α) (setting : Setting) (t : ExtTreeMap κ α)
    (m : String × Json) : Except Cause (ExtTreeMap κ α) := do
  let k ← keys.ofString m.1
  return t.insert k (← c.decode setting m.2)

theorem decode_table_obj (ms : List (String × Json)) :
    (table keys c).decode setting (.obj ms) = ms.foldlM (enter keys c setting) ∅ := rfl

theorem enter_eq_ok_iff (hkeys : keys.Lawful) :
    enter keys c setting t m = .ok t' ↔
      ∃ k a, keys.toString k = m.1 ∧ c.decode setting m.2 = .ok a ∧ t.insert k a = t' := by
  simp only [enter, bind_eq_ok, pure_eq_ok, hkeys m.1]
  constructor
  · rintro ⟨k, hk, a, ha, ht⟩
    exact ⟨k, a, hk, ha, ht⟩
  · rintro ⟨k, a, hk, ha, ht⟩
    exact ⟨k, hk, a, ha, ht⟩

/-- The table has what the codec makes of the values that `look` finds under the keys, and `look`
finds no others. -/
structure Tabulates (keys : Keys κ) (c : Codec α) (setting : Setting) (look : String → Option Json)
    (t : ExtTreeMap κ α) : Prop where
  known : ∀ s, (look s).isSome → ∃ k, keys.toString k = s
  values : ∀ k, (look (keys.toString k)).map (c.decode setting) = t[k]?.map .ok

namespace Tabulates

/-- A key of the table that has a value has one that is decoded. -/
theorem exists_decode (h : Tabulates keys c setting look t) {k : κ} {j : Json}
    (hlook : look (keys.toString k) = some j) : ∃ a, c.decode setting j = .ok a := by
  have hk := h.values k
  rw [hlook, Option.map_some] at hk
  cases ht : t[k]? with
  | none =>
    rw [ht] at hk
    cases hk
  | some a =>
    rw [ht] at hk
    exact ⟨a, Option.some.inj hk⟩

/-- Sorting the values changes nothing. -/
theorem sorted_iff (h : c.Faithful) (hlook : ∀ s j, look s = some j → j.Distinct) :
    Tabulates keys c setting (fun s => (look s).map sorted) t ↔
      Tabulates keys c setting look t := by
  have hvalues : ∀ s (a? : Option α), ((look s).map sorted).map (c.decode setting) = a?.map .ok ↔
      (look s).map (c.decode setting) = a?.map .ok := by
    intro s a?
    cases hs : look s with
    | none => exact Iff.rfl
    | some j =>
      cases a? with
      | none => simp
      | some a => simp [h.decode_sorted (hlook s j hs)]
  constructor
  · exact fun ⟨known, values⟩ => ⟨by simpa using known, fun k => (hvalues _ _).mp (values k)⟩
  · exact fun ⟨known, values⟩ => ⟨by simpa using known, fun k => (hvalues _ _).mpr (values k)⟩

variable [LawfulEqOrd κ]

theorem unique (h : Tabulates keys c setting look t) (h' : Tabulates keys c setting look t') :
    t = t' :=
  ExtTreeMap.ext_getElem? fun {k} => Fields.map_ok_inj ((h.values k).symm.trans (h'.values k))

theorem insert (hkeys : keys.Lawful) (h : Tabulates keys c setting look t) {k : κ} {a : α}
    (hk : keys.toString k = m.1) (ha : c.decode setting m.2 = .ok a) :
    Tabulates keys c setting (fun s => if s = m.1 then some m.2 else look s) (t.insert k a) where
  known s hs := by
    split at hs
    · rename_i heq
      exact ⟨k, hk.trans heq.symm⟩
    · exact h.known s hs
  values l := by
    rw [ExtTreeMap.getElem?_insert]
    by_cases hl : k = l
    · subst hl
      simp [hk, ha]
    · have hne : keys.toString l ≠ m.1 := fun heq => hl (hkeys.inj (hk.trans heq.symm))
      have hcompare : compare k l ≠ .eq := fun heq => hl (LawfulEqCmp.eq_of_compare heq)
      rw [if_neg hcompare, if_neg hne]
      exact h.values l

theorem erase (hkeys : keys.Lawful) {k : κ} (hk : keys.toString k = m.1) (hnone : look m.1 = none)
    (h : Tabulates keys c setting (fun s => if s = m.1 then some m.2 else look s) t) :
    Tabulates keys c setting look (t.erase k) where
  known s hs := by
    have hne : s ≠ m.1 := by
      rintro rfl
      rw [hnone] at hs
      cases hs
    exact h.known s (by rwa [if_neg hne])
  values l := by
    rw [ExtTreeMap.getElem?_erase]
    by_cases hl : k = l
    · subst hl
      simp [hk, hnone]
    · have hne : keys.toString l ≠ m.1 := fun heq => hl (hkeys.inj (hk.trans heq.symm))
      have hcompare : compare k l ≠ .eq := fun heq => hl (LawfulEqCmp.eq_of_compare heq)
      have hvalue := h.values l
      rw [if_neg hne] at hvalue
      rw [if_neg hcompare]
      exact hvalue

end Tabulates

variable [LawfulEqOrd κ]

theorem foldlM_enter_eq_ok_iff (hkeys : keys.Lawful) {ms : List (String × Json)}
    (hms : (ms.map Prod.fst).Nodup) :
    ms.foldlM (enter keys c setting) ∅ = .ok t ↔
      Tabulates keys c setting (fun s => ms.lookup s) t := by
  induction ms using List.reverseRecOn generalizing t with
  | nil =>
    have hempty : Tabulates keys c setting (fun _ => none) (∅ : ExtTreeMap κ α) :=
      ⟨fun _ h => absurd h (by simp), fun k => by simp⟩
    constructor
    · intro h
      cases h
      exact hempty
    · intro h
      rw [hempty.unique h]
      rfl
  | append_singleton ms m ih =>
    rw [List.map_append, List.nodup_append] at hms
    obtain ⟨hms, -, hdisjoint⟩ := hms
    have hnew : m.1 ∉ ms.map Prod.fst := fun hm => hdisjoint _ hm _ List.mem_cons_self rfl
    have hnone := lookup_eq_none hnew
    simp only [List.foldlM_append, List.foldlM_cons, List.foldlM_nil, bind_eq_ok, pure_eq_ok,
      exists_eq_right, lookup_concat hnew, ih hms, enter_eq_ok_iff hkeys]
    constructor
    · rintro ⟨s, hs, k, a, hk, ha, rfl⟩
      exact hs.insert hkeys hk ha
    · intro h
      obtain ⟨k, hk⟩ := h.known m.1 (by rw [if_pos rfl]; rfl)
      obtain ⟨a, ha⟩ := h.exists_decode (by rw [hk, if_pos rfl])
      have herase := h.erase hkeys hk hnone
      exact ⟨t.erase k, herase, k, a, hk, ha, (herase.insert hkeys hk ha).unique h⟩

theorem decode_table_eq_ok_iff (hkeys : keys.Lawful) {ms : List (String × Json)}
    (hms : (ms.map Prod.fst).Nodup) :
    (table keys c).decode setting (.obj ms) = .ok t ↔
      Tabulates keys c setting (fun s => ms.lookup s) t := by
  rw [decode_table_obj, foldlM_enter_eq_ok_iff hkeys hms]

theorem lookup_entries (hkeys : keys.Lawful) (t : ExtTreeMap κ α) (k : κ) :
    (entries keys c t).lookup (keys.toString k) = t[k]?.map c.encode := by
  refine Option.ext fun j => ?_
  rw [lookup_eq_some_iff (nodup_entries hkeys t), Option.map_eq_some_iff, entries, List.mem_map]
  constructor
  · rintro ⟨⟨l, a⟩, ha, heq⟩
    obtain ⟨hk, rfl⟩ := Prod.mk.inj heq
    exact ⟨a, hkeys.inj hk ▸ ExtTreeMap.mem_toList_iff_getElem?_eq_some.mp ha, rfl⟩
  · rintro ⟨a, ha, rfl⟩
    exact ⟨(k, a), ExtTreeMap.mem_toList_iff_getElem?_eq_some.mpr ha, rfl⟩

theorem Faithful.tabulates_entries (h : c.Faithful) (hkeys : keys.Lawful) (setting : Setting)
    (t : ExtTreeMap κ α) :
    Tabulates keys c setting (fun s => (entries keys c t).lookup s) t where
  known s hs := by
    obtain ⟨j, hj⟩ := Option.isSome_iff_exists.mp hs
    obtain ⟨p, -, heq⟩ := List.mem_map.mp ((lookup_eq_some_iff (nodup_entries hkeys t)).mp hj)
    exact ⟨p.1, congrArg Prod.fst heq⟩
  values k := by
    rw [lookup_entries hkeys, Option.map_map]
    exact Option.map_congr fun a _ => h.decode_encode setting a

theorem Faithful.table (h : c.Faithful) (hkeys : keys.Lawful) : (Codec.table keys c).Faithful where
  distinct t := by
    refine .obj (nodup_entries hkeys t) fun m hm => ?_
    obtain ⟨p, -, rfl⟩ := List.mem_map.mp hm
    exact h.distinct p.2
  decode_encode setting t :=
    (decode_table_eq_ok_iff hkeys (nodup_entries hkeys t)).mpr (h.tabulates_entries hkeys setting t)
  decode_sorted {j} hj setting t := by
    cases hj with
    | @obj ms hms hdistinct =>
      rw [sorted, decode_table_eq_ok_iff hkeys hms,
        decode_table_eq_ok_iff hkeys (nodup_keys_sorted ms)]
      simp only [lookup_sorted hms]
      refine Tabulates.sorted_iff h fun s j hs => ?_
      exact hdistinct (s, j) ((lookup_eq_some_iff hms).mp hs)
    | _ => simp [Codec.table, sorted]

theorem plain_table {d : Nat} {t : ExtTreeMap κ α}
    (h : ∀ (k : κ) (a : α), t[k]? = some a → (c.encode a).Plain d) :
    ((Codec.table keys c).encode t).Plain (d + 1) := by
  refine .obj fun m hm => ?_
  obtain ⟨⟨k, a⟩, ha, rfl⟩ := List.mem_map.mp hm
  exact h k a (ExtTreeMap.mem_toList_iff_getElem?_eq_some.mp ha)

theorem Lawful.table {depth : Nat} (h : c.Lawful depth) (hkeys : keys.Lawful) :
    (Codec.table keys c).Lawful (depth + 1) :=
  (h.faithful.table hkeys).lawful fun _ => plain_table fun _ a _ => h.plain a

end Table

end Codec

theorem Category.keys_lawful : Category.keys.Lawful :=
  .named fun c => by cases c <;> rfl

end ScanDigest
