import Mathlib.Data.List.Induction
import ScanDigest.Codec.Struct
import ScanDigest.Proofs.Denotation
import ScanDigest.Proofs.Documents
import ScanDigest.Proofs.Guards

/-!
# What a codec writes it decodes

A structure decodes from an object to what each field makes of the value under its name, whatever
the order of the members (`Fields.decode_obj_eq_ok_iff`). So a codec of fields that are faithful is
faithful (`Codec.Faithful.struct`): it decodes what it wrote, and it takes a document for the value
that the document denotes. It is lawful if the values it writes can be read back from their text, too
(`Codec.Lawful.struct`): all numbers fit, and brackets are not nested too deep.
-/

set_option autoImplicit false

namespace ScanDigest

open Json

/-! ## Slots of a structure -/

namespace Fields

/-- The names of the fields. -/
def names : {τ : Type} → Fields τ → List String
  | _, nil => []
  | _, cons f more => f.name :: more.names

/-- The slots hold what the fields make of the values that `look` finds under their names. -/
def Knows (setting : Setting) (look : String → Option Json) :
    {τ : Type} → (fs : Fields τ) → fs.Slots → Prop
  | _, nil, _ => True
  | _, @cons α _ f more, slots =>
    let (a, slots) : Option α × more.Slots := slots
    (look f.name).map (f.codec.decode setting) = a.map .ok ∧ more.Knows setting look slots

/-- The fields are what `look` finds under their names, and their own values where it finds
nothing. -/
def Holds (setting : Setting) (look : String → Option Json) :
    {τ : Type} → Fields τ → τ → Prop
  | _, nil, _ => True
  | _, cons f more, (a, x) =>
    (match look f.name with
      | some j => f.codec.decode setting j = .ok a
      | none => f.absent = some a) ∧ more.Holds setting look x

variable {τ : Type} {fs : Fields τ} {setting : Setting} {look look' : String → Option Json}

theorem Knows.congr {slots : fs.Slots} (h : fs.Knows setting look slots)
    (hlook : ∀ k ∈ fs.names, look' k = look k) : fs.Knows setting look' slots := by
  induction fs with
  | nil => trivial
  | cons f more ih =>
    refine ⟨?_, ih h.2 fun k hk => hlook k (List.mem_cons_of_mem _ hk)⟩
    rw [hlook f.name List.mem_cons_self]
    exact h.1

theorem Holds.congr {x : τ} (h : fs.Holds setting look x)
    (hlook : ∀ k ∈ fs.names, look' k = look k) : fs.Holds setting look' x := by
  induction fs with
  | nil => trivial
  | cons f more ih =>
    refine ⟨?_, ih h.2 fun k hk => hlook k (List.mem_cons_of_mem _ hk)⟩
    rw [hlook f.name List.mem_cons_self]
    exact h.1

theorem map_ok_inj {α : Type} {a a' : Option α}
    (h : a.map Except.ok = (a'.map Except.ok : Option (Except Cause α))) : a = a' := by
  cases a <;> cases a' <;> cases h <;> rfl

theorem Knows.unique {slots slots' : fs.Slots} (h : fs.Knows setting look slots)
    (h' : fs.Knows setting look slots') : slots = slots' := by
  induction fs with
  | nil => rfl
  | cons f more ih => exact Prod.ext (map_ok_inj (h.1.symm.trans h'.1)) (ih h.2 h'.2)

/-- What is known of all members is known of some of them. -/
theorem Knows.restrict {slots : fs.Slots} (h : fs.Knows setting look slots)
    (hsub : ∀ k j, look' k = some j → look k = some j) : ∃ s, fs.Knows setting look' s := by
  induction fs with
  | nil => exact ⟨(), trivial⟩
  | cons f more ih =>
    obtain ⟨s, hs⟩ := ih h.2
    cases hf : look' f.name with
    | none => exact ⟨(none, s), by simp [hf], hs⟩
    | some j =>
      refine ⟨(slots.1, s), ?_, hs⟩
      rw [hf, ← hsub _ _ hf]
      exact h.1

theorem knows_empty (fs : Fields τ) : fs.Knows setting (fun _ => none) fs.empty := by
  induction fs with
  | nil => trivial
  | cons f more ih => exact ⟨rfl, ih⟩

theorem Holds.exists_knows {x : τ} (h : fs.Holds setting look x) :
    ∃ slots, fs.Knows setting look slots := by
  induction fs with
  | nil => exact ⟨(), trivial⟩
  | cons f more ih =>
    obtain ⟨a, x⟩ := x
    obtain ⟨hhead, htail⟩ := h
    obtain ⟨slots, hslots⟩ := ih htail
    cases hf : look f.name with
    | none => exact ⟨(none, slots), by simp [hf], hslots⟩
    | some j =>
      rw [hf] at hhead
      exact ⟨(some a, slots), by simp [hf, hhead], hslots⟩

theorem finish_cons_eq_ok_iff {α β : Type} {f : Field α} {more : Fields β} {a : Option α}
    {slots : more.Slots} {b : α} {x : β} :
    (cons f more).finish (a, slots) = .ok (b, x) ↔
      (a <|> f.absent) = some b ∧ more.finish slots = .ok x := by
  cases h : a <|> f.absent with
  | none => simp [finish, h]
  | some c => simp [finish, h, and_comm]

theorem finish_eq_ok_iff {slots : fs.Slots} (h : fs.Knows setting look slots) {x : τ} :
    fs.finish slots = .ok x ↔ fs.Holds setting look x := by
  induction fs with
  | nil => simp [finish, Holds]
  | cons f more ih =>
    obtain ⟨a, slots⟩ := slots
    obtain ⟨b, x⟩ := x
    obtain ⟨hhead, htail⟩ := h
    rw [finish_cons_eq_ok_iff, ih htail, Holds]
    cases hf : look f.name with
    | none =>
      rw [hf] at hhead
      cases a with
      | none => simp
      | some a => cases hhead
    | some j =>
      rw [hf] at hhead
      cases a with
      | none => cases hhead
      | some a =>
        have hdecode : f.codec.decode setting j = .ok a := by simpa using hhead
        simp [hdecode]

/-! ## Taking in members -/

theorem decodeMember_cons_same {α β : Type} {f : Field α} {more : Fields β} {j : Json}
    {a : Option α} {slots slots' : more.Slots} :
    (cons f more).decodeMember setting (none, slots) (f.name, j) = .ok (a, slots') ↔
      (∃ b, f.codec.decode setting j = .ok b ∧ a = some b) ∧ slots' = slots := by
  simp only [decodeMember, member, ↓reduceIte, Option.isSome_none, Bool.false_eq_true]
  refine (map_eq_ok (b := ((a, slots') : Option α × more.Slots))).trans ?_
  constructor
  · rintro ⟨b, hb, heq⟩
    cases heq
    exact ⟨⟨b, hb, rfl⟩, rfl⟩
  · rintro ⟨⟨b, hb, rfl⟩, rfl⟩
    exact ⟨b, hb, rfl⟩

theorem decodeMember_cons_ne {α β : Type} {f : Field α} {more : Fields β} {m : String × Json}
    {a a' : Option α} {slots slots' : more.Slots} (h : m.1 ≠ f.name) :
    (cons f more).decodeMember setting (a, slots) m = .ok (a', slots') ↔
      a' = a ∧ more.decodeMember setting slots m = .ok slots' := by
  have hmap : (cons f more).decodeMember setting (a, slots) m =
      (fun s => ((a, s) : Option α × more.Slots)) <$> more.decodeMember setting slots m := by
    simp only [decodeMember, member, if_neg h]
    cases more.member (fun c => ReaderT.mk (c.decode setting)) m.1 slots <;> rfl
  rw [hmap]
  refine (map_eq_ok (b := ((a', slots') : Option α × more.Slots))).trans ?_
  constructor
  · rintro ⟨s, hs, heq⟩
    cases heq
    exact ⟨rfl, hs⟩
  · rintro ⟨rfl, hs⟩
    exact ⟨slots', hs, rfl⟩

theorem decodeMember_eq_ok_iff (hnames : fs.names.Nodup) {slots slots' : fs.Slots}
    (h : fs.Knows setting look slots) {m : String × Json} (hm : look m.1 = none) :
    fs.decodeMember setting slots m = .ok slots' ↔
      fs.Knows setting (fun k => if k = m.1 then some m.2 else look k) slots' := by
  induction fs with
  | nil => exact ⟨fun _ => trivial, fun _ => rfl⟩
  | cons f more ih =>
    obtain ⟨k, j⟩ := m
    obtain ⟨a, slots⟩ := slots
    obtain ⟨a', slots'⟩ := slots'
    obtain ⟨hhead, htail⟩ := h
    obtain ⟨hnew, hmore⟩ := List.nodup_cons.mp hnames
    by_cases hk : k = f.name
    · subst hk
      have ha : a = none := by
        rw [hm] at hhead
        cases a <;> [rfl; cases hhead]
      subst ha
      have hrest : more.Knows setting (fun k => if k = f.name then some j else look k) slots := by
        refine htail.congr fun k hk => if_neg ?_
        rintro rfl
        exact hnew hk
      refine decodeMember_cons_same.trans ?_
      constructor
      · rintro ⟨⟨b, hb, rfl⟩, rfl⟩
        exact ⟨by simp [hb], hrest⟩
      · rintro ⟨hfound, hslots⟩
        refine ⟨?_, hslots.unique hrest⟩
        cases a' with
        | none => simp at hfound
        | some b => exact ⟨b, by simpa using hfound, rfl⟩
    · refine (decodeMember_cons_ne hk).trans ?_
      constructor
      · rintro ⟨rfl, hs⟩
        exact ⟨by simpa [Ne.symm hk] using hhead, (ih hmore htail).mp hs⟩
      · rintro ⟨hfound, hslots⟩
        refine ⟨?_, (ih hmore htail).mpr hslots⟩
        have hfound : (look f.name).map (f.codec.decode setting) = a'.map .ok := by
          simpa [Ne.symm hk] using hfound
        exact map_ok_inj (hfound.symm.trans hhead)

theorem foldlM_decodeMember_eq_ok_iff (hnames : fs.names.Nodup) {ms : List (String × Json)}
    (hkeys : (ms.map Prod.fst).Nodup) {slots : fs.Slots} :
    ms.foldlM (fs.decodeMember setting) fs.empty = .ok slots ↔
      fs.Knows setting (fun k => ms.lookup k) slots := by
  induction ms using List.reverseRecOn generalizing slots with
  | nil =>
    have hempty : fs.Knows setting (fun _ => none) fs.empty := fs.knows_empty
    constructor
    · intro h
      cases h
      exact hempty
    · intro h
      rw [hempty.unique h]
      rfl
  | append_singleton ms m ih =>
    rw [List.map_append, List.nodup_append] at hkeys
    obtain ⟨hkeys, -, hdisjoint⟩ := hkeys
    have hnew : m.1 ∉ ms.map Prod.fst := fun hm => hdisjoint _ hm _ List.mem_cons_self rfl
    have hnone := lookup_eq_none hnew
    simp only [List.foldlM_append, List.foldlM_cons, List.foldlM_nil, bind_eq_ok, pure_eq_ok,
      exists_eq_right, lookup_concat hnew, ih hkeys]
    constructor
    · rintro ⟨s, hs, hstep⟩
      exact (decodeMember_eq_ok_iff hnames hs hnone).mp hstep
    · intro h
      have hsub : ∀ k j, ms.lookup k = some j →
          (if k = m.1 then some m.2 else ms.lookup k) = some j := by
        intro k j hk
        have hne : k ≠ m.1 := by
          rintro rfl
          rw [hnone] at hk
          cases hk
        rw [if_neg hne, hk]
      obtain ⟨s, hs⟩ := h.restrict hsub
      exact ⟨s, hs, (decodeMember_eq_ok_iff hnames hs hnone).mpr h⟩

theorem decode_obj_eq_ok_iff (hnames : fs.names.Nodup) {ms : List (String × Json)}
    (hkeys : (ms.map Prod.fst).Nodup) {name : String} {x : τ} :
    fs.decode name setting (.obj ms) = .ok x ↔ fs.Holds setting (fun k => ms.lookup k) x := by
  simp only [decode, bind_eq_ok, foldlM_decodeMember_eq_ok_iff hnames hkeys]
  constructor
  · rintro ⟨slots, hslots, hfinish⟩
    exact (finish_eq_ok_iff hslots).mp hfinish
  · intro h
    obtain ⟨slots, hslots⟩ := h.exists_knows
    exact ⟨slots, hslots, (finish_eq_ok_iff hslots).mpr h⟩

/-! ## Taking in items -/

/-- The fields are what they make of the items in their order, and their own values where there are
no more items. -/
def HoldsItems (setting : Setting) : {τ : Type} → Fields τ → List Json → τ → Prop
  | _, nil, _, _ => True
  | _, cons f more, items, (a, x) =>
    (match items.head? with
      | some j => f.codec.decode setting j = .ok a
      | none => f.short = some a) ∧ more.HoldsItems setting items.tail x

theorem decodeItems_eq_ok_iff (wanted : WantedLength) (n : Nat) (items left : List Json) (x : τ) :
    fs.decodeItems setting wanted n items = .ok (x, left) ↔
      fs.HoldsItems setting items x ∧ left = items.drop fs.count := by
  induction fs generalizing n items with
  | nil => simp [decodeItems, HoldsItems, count, eq_comm]
  | cons f more ih =>
    obtain ⟨a, x⟩ := x
    cases items with
    | nil =>
      cases hshort : f.short with
      | none => simp [decodeItems, HoldsItems, hshort]
      | some b =>
        simp [decodeItems, HoldsItems, hshort, ih, and_comm, and_left_comm]
    | cons j items =>
      simp [decodeItems, HoldsItems, ih, count, and_assoc]

theorem decode_arr_eq_ok_iff {name : String} {items : List Json} {x : τ} :
    fs.decode name setting (.arr items) = .ok x ↔
      fs.HoldsItems setting items x ∧ items.length ≤ fs.count := by
  simp only [decode, bind_eq_ok, Prod.exists, decodeItems_eq_ok_iff]
  constructor
  · rintro ⟨y, left, ⟨hy, rfl⟩, hlength⟩
    split at hlength
    · rename_i hempty
      cases hlength
      exact ⟨hy, List.drop_eq_nil_iff.mp (List.isEmpty_iff.mp hempty)⟩
    · cases hlength
  · rintro ⟨hx, hlength⟩
    refine ⟨x, [], ⟨hx, (List.drop_eq_nil_of_le hlength).symm⟩, ?_⟩
    rfl

end Fields

/-! ## Plain values -/

theorem Codec.plain_list {α : Type} {c : Codec α} {d : Nat} {as : List α}
    (h : ∀ a ∈ as, (c.encode a).Plain d) : ((Codec.list c).encode as).Plain (d + 1) := by
  refine .arr fun j hj => ?_
  obtain ⟨a, ha, rfl⟩ := List.mem_map.mp hj
  exact h a ha

/-- The values of all fields are plain. -/
inductive Fields.PlainAt (d : Nat) : {τ : Type} → Fields τ → τ → Prop where
  | nil : PlainAt d .nil ()
  | cons {α β : Type} {f : Field α} {more : Fields β} {a : α} {x : β}
      (value : (f.codec.encode a).Plain d) (rest : PlainAt d more x) :
      PlainAt d (.cons f more) (a, x)

theorem Fields.PlainAt.members {d : Nat} {τ : Type} {fs : Fields τ} {x : τ} (h : fs.PlainAt d x) :
    ∀ m ∈ fs.members x, m.2.Plain d := by
  induction h with
  | nil => exact List.forall_mem_nil _
  | cons value _ ih =>
    rw [Fields.members]
    split
    · exact ih
    · exact List.forall_mem_cons.mpr ⟨value, ih⟩

theorem Codec.plain_struct {α τ : Type} {fs : Fields τ} {name : String} {build : τ → α}
    {parts : α → τ} {d : Nat} {a : α} (h : fs.PlainAt d (parts a)) :
    ((Codec.struct name fs build parts).encode a).Plain (d + 1) :=
  .obj h.members

/-! ## Faithful codecs -/

/-- The codec decodes what it wrote, and decodes a document as it decodes the value that the document
denotes. -/
structure Codec.Faithful {α : Type} (c : Codec α) : Prop where
  distinct : ∀ a, (c.encode a).Distinct
  decode_encode : ∀ setting a, c.decode setting (c.encode a) = .ok a
  decode_sorted : ∀ {j}, j.Distinct → ∀ setting a,
    c.decode setting j.sorted = .ok a ↔ c.decode setting j = .ok a

theorem mapM_congr {ε β γ : Type} {f g : β → Except ε γ} {bs : List β}
    (h : ∀ b ∈ bs, ∀ c, f b = .ok c ↔ g b = .ok c) (cs : List γ) :
    bs.mapM f = .ok cs ↔ bs.mapM g = .ok cs := by
  induction bs generalizing cs with
  | nil => exact Iff.rfl
  | cons b bs ih =>
    have ih := ih fun b hb => h b (List.mem_cons_of_mem _ hb)
    simp only [List.mapM_cons, bind_eq_ok, pure_eq_ok, h b List.mem_cons_self, ih]

theorem mapM_encode {α : Type} {f : Json → Except Cause α} {g : α → Json} (h : ∀ a, f (g a) = .ok a)
    (as : List α) : (as.map g).mapM f = .ok as := by
  induction as with
  | nil => rfl
  | cons a as ih => simp [List.mapM_cons, h, ih]

namespace Codec.Faithful

variable {α : Type} {c : Codec α}

theorem ofJson_encode (h : c.Faithful) (a : α) : c.ofJson (c.encode a) = .ok a :=
  (h.decode_sorted (h.distinct a) .document a).mpr (h.decode_encode .document a)

theorem text : Codec.text.Faithful where
  distinct s := .str s
  decode_encode _ _ := rfl
  decode_sorted {j} _ _ _ := by cases j <;> simp [Codec.text, sorted]

theorem list (h : c.Faithful) : (Codec.list c).Faithful where
  distinct as := by
    refine .arr fun j hj => ?_
    obtain ⟨a, -, rfl⟩ := List.mem_map.mp hj
    exact h.distinct a
  decode_encode setting as := by
    show (as.map c.encode).mapM (c.decode setting) = .ok as
    exact mapM_encode (h.decode_encode setting) as
  decode_sorted {j} hj setting as := by
    cases hj with
    | @arr items hitems =>
      show (sortedItems items).mapM (c.decode setting) = .ok as ↔
        items.mapM (c.decode setting) = .ok as
      rw [sortedItems_eq, List.mapM_map]
      exact mapM_congr (fun j hj => h.decode_sorted (hitems j hj) setting) as
    | _ => simp [Codec.list, sorted]

end Codec.Faithful

/-! ## Faithful structures -/

/-- Fields of faithful codecs and of different names. A field leaves out only the value that is taken
for an absent one. -/
inductive Fields.Faithful : {τ : Type} → Fields τ → Prop where
  | nil : Faithful .nil
  | cons {α β : Type} {f : Field α} {more : Fields β} (codec : f.codec.Faithful)
      (omits : ∀ a, f.omits a = true → f.absent = some a) (name : f.name ∉ more.names)
      (rest : more.Faithful) : Faithful (.cons f more)

/-- A member that is written comes from a field. -/
theorem Fields.mem_names_of_mem_members {τ : Type} {fs : Fields τ} {x : τ} {m : String × Json}
    (h : m ∈ fs.members x) : m.1 ∈ fs.names := by
  induction fs with
  | nil => cases h
  | cons f more ih =>
    obtain ⟨a, x⟩ := x
    unfold members at h
    split at h
    · exact List.mem_cons_of_mem _ (ih h)
    · rcases List.mem_cons.mp h with rfl | h
      · exact List.mem_cons_self
      · exact List.mem_cons_of_mem _ (ih h)

theorem Fields.not_mem_keys {τ : Type} {fs : Fields τ} {k : String} (h : k ∉ fs.names) (x : τ) :
    k ∉ (fs.members x).map Prod.fst := by
  intro hmem
  obtain ⟨m, hm, rfl⟩ := List.mem_map.mp hmem
  exact h (mem_names_of_mem_members hm)

namespace Fields.Faithful

variable {τ : Type} {fs : Fields τ}

theorem required {α : Type} {name : String} {c : Codec α} (hc : c.Faithful)
    (hname : name ∉ fs.names) (h : fs.Faithful) : (Fields.cons (.required name c) fs).Faithful :=
  .cons hc (fun _ homits => by cases homits) hname h

theorem nodup_names (h : fs.Faithful) : fs.names.Nodup := by
  induction h with
  | nil => exact List.nodup_nil
  | cons _ _ name _ ih => exact List.nodup_cons.mpr ⟨name, ih⟩

theorem nodup_members (h : fs.Faithful) (x : τ) : ((fs.members x).map Prod.fst).Nodup := by
  induction h with
  | nil => exact List.nodup_nil
  | cons _ _ name _ ih =>
    obtain ⟨a, x⟩ := x
    unfold members
    split
    · exact ih x
    · exact List.nodup_cons.mpr ⟨not_mem_keys name x, ih x⟩

theorem distinct_members (h : fs.Faithful) (x : τ) : ∀ m ∈ fs.members x, m.2.Distinct := by
  induction h with
  | nil => exact List.forall_mem_nil _
  | cons codec _ _ _ ih =>
    obtain ⟨a, x⟩ := x
    unfold members
    split
    · exact ih x
    · exact List.forall_mem_cons.mpr ⟨codec.distinct a, ih x⟩

theorem holds_members (h : fs.Faithful) (setting : Setting) (x : τ) :
    fs.Holds setting (fun k => (fs.members x).lookup k) x := by
  induction h with
  | nil => trivial
  | @cons α β f more codec omits name _ ih =>
    obtain ⟨a, x⟩ := x
    have hnone := lookup_eq_none (not_mem_keys name x)
    by_cases homits : f.omits a = true
    · rw [members, if_pos homits]
      exact ⟨by simp only [hnone, omits a homits], ih x⟩
    · rw [members, if_neg homits]
      refine ⟨?_, (ih x).congr fun k hk => ?_⟩
      · simp only [lookup_cons, ↓reduceIte, codec.decode_encode]
      · have hne : k ≠ f.name := by
          rintro rfl
          exact name hk
        simp only [lookup_cons, if_neg hne]

theorem holds_sorted (h : fs.Faithful) {setting : Setting} {look : String → Option Json}
    (hlook : ∀ k j, look k = some j → j.Distinct) (x : τ) :
    fs.Holds setting (fun k => (look k).map sorted) x ↔ fs.Holds setting look x := by
  induction h with
  | nil => exact Iff.rfl
  | @cons α β f more codec _ _ _ ih =>
    obtain ⟨a, x⟩ := x
    unfold Holds
    refine and_congr ?_ (ih x)
    cases hf : look f.name with
    | none => exact Iff.rfl
    | some j => exact codec.decode_sorted (hlook _ _ hf) setting a

theorem holdsItems_sorted (h : fs.Faithful) (setting : Setting) {items : List Json}
    (hitems : ∀ j ∈ items, j.Distinct) (x : τ) :
    fs.HoldsItems setting (items.map sorted) x ↔ fs.HoldsItems setting items x := by
  induction h generalizing items with
  | nil => exact Iff.rfl
  | @cons α β f more codec _ _ _ ih =>
    obtain ⟨a, x⟩ := x
    cases items with
    | nil => exact Iff.rfl
    | cons j items =>
      exact and_congr (codec.decode_sorted (hitems j List.mem_cons_self) setting a)
        (ih (fun j hj => hitems j (List.mem_cons_of_mem _ hj)) x)

theorem decode_sorted (h : fs.Faithful) (name : String) (setting : Setting) {j : Json}
    (hj : j.Distinct) (x : τ) :
    fs.decode name setting j.sorted = .ok x ↔ fs.decode name setting j = .ok x := by
  cases hj with
  | @arr items hitems =>
    rw [sorted, sortedItems_eq, decode_arr_eq_ok_iff, decode_arr_eq_ok_iff, List.length_map,
      h.holdsItems_sorted setting hitems]
  | @obj ms hkeys hms =>
    rw [sorted, decode_obj_eq_ok_iff h.nodup_names (nodup_keys_sorted ms),
      decode_obj_eq_ok_iff h.nodup_names hkeys]
    simp only [lookup_sorted hkeys]
    refine h.holds_sorted (fun k j hk => ?_) x
    exact hms (k, j) ((lookup_eq_some_iff hkeys).mp hk)
  | _ => simp [sorted, decode]

end Fields.Faithful

theorem Codec.Faithful.struct {α τ : Type} {fs : Fields τ} (h : fs.Faithful) (name : String)
    {build : τ → α} {parts : α → τ} (hbuild : ∀ a, build (parts a) = a) :
    (Codec.struct name fs build parts).Faithful where
  distinct a := .obj (h.nodup_members (parts a)) (h.distinct_members (parts a))
  decode_encode setting a := by
    have hdecode : fs.decode name setting (.obj (fs.members (parts a))) = .ok (parts a) :=
      (Fields.decode_obj_eq_ok_iff h.nodup_names (h.nodup_members (parts a))).mpr
        (h.holds_members setting (parts a))
    show build <$> fs.decode name setting (.obj (fs.members (parts a))) = .ok a
    rw [hdecode]
    exact congrArg Except.ok (hbuild a)
  decode_sorted {j} hj setting a := by
    show build <$> fs.decode name setting j.sorted = .ok a ↔
      build <$> fs.decode name setting j = .ok a
    simp only [map_eq_ok, h.decode_sorted name setting hj]

/-! ## Lawful codecs -/

/-- The codec decodes what it wrote, and decodes a document as it decodes the value that the document
denotes. What it writes has at most `depth` brackets open at a time. -/
structure Codec.Lawful {α : Type} (c : Codec α) (depth : Nat) : Prop where
  plain : ∀ a, (c.encode a).Plain depth
  distinct : ∀ a, (c.encode a).Distinct
  decode_encode : ∀ setting a, c.decode setting (c.encode a) = .ok a
  decode_sorted : ∀ {j}, j.Distinct → ∀ setting a,
    c.decode setting j.sorted = .ok a ↔ c.decode setting j = .ok a

/-- A field of a lawful codec, which leaves out only the value that is taken for an absent one. -/
structure Field.Lawful {α : Type} (f : Field α) (depth : Nat) : Prop where
  codec : f.codec.Lawful depth
  omits : ∀ a, f.omits a = true → f.absent = some a

/-- Lawful fields of different names. -/
inductive Fields.Lawful (depth : Nat) : {τ : Type} → Fields τ → Prop where
  | nil : Lawful depth .nil
  | cons {α β : Type} {f : Field α} {more : Fields β} (field : f.Lawful depth)
      (name : f.name ∉ more.names) (rest : more.Lawful depth) : Lawful depth (.cons f more)

section

variable {α : Type} {c : Codec α} {depth : Nat}

/-- A lawful codec is a faithful one that writes only plain values. -/
theorem Codec.Faithful.lawful (h : c.Faithful) (plain : ∀ a, (c.encode a).Plain depth) :
    c.Lawful depth :=
  ⟨plain, h.distinct, h.decode_encode, h.decode_sorted⟩

namespace Codec.Lawful

theorem faithful (h : c.Lawful depth) : c.Faithful := ⟨h.distinct, h.decode_encode, h.decode_sorted⟩

theorem ofJson_encode (h : c.Lawful depth) (a : α) : c.ofJson (c.encode a) = .ok a :=
  h.faithful.ofJson_encode a

theorem text (depth : Nat) : Codec.text.Lawful depth := Faithful.text.lawful fun s => .str s

theorem list (h : c.Lawful depth) : (Codec.list c).Lawful (depth + 1) :=
  h.faithful.list.lawful fun _ => plain_list fun a _ => h.plain a

end Codec.Lawful

end

namespace Fields.Lawful

variable {τ : Type} {fs : Fields τ} {depth : Nat}

theorem required {α : Type} {name : String} {c : Codec α} (hc : c.Lawful depth)
    (hname : name ∉ fs.names) (h : fs.Lawful depth) :
    (Fields.cons (.required name c) fs).Lawful depth :=
  .cons ⟨hc, fun _ homits => by cases homits⟩ hname h

theorem defaulted {α : Type} {name : String} {c : Codec α} {a : α} (hc : c.Lawful depth)
    (hname : name ∉ fs.names) (h : fs.Lawful depth) :
    (Fields.cons (.defaulted name c a) fs).Lawful depth :=
  .cons ⟨hc, fun _ homits => by cases homits⟩ hname h

theorem faithful (h : fs.Lawful depth) : fs.Faithful := by
  induction h with
  | nil => exact .nil
  | cons field name _ ih => exact .cons field.codec.faithful field.omits name ih

theorem plainAt (h : fs.Lawful depth) (x : τ) : fs.PlainAt depth x := by
  induction h with
  | nil => exact .nil
  | cons field _ _ ih => exact .cons (field.codec.plain x.1) (ih x.2)

end Fields.Lawful

theorem Codec.Lawful.struct {α τ : Type} {fs : Fields τ} {depth : Nat} (h : fs.Lawful depth)
    (name : String) {build : τ → α} {parts : α → τ} (hbuild : ∀ a, build (parts a) = a) :
    (Codec.struct name fs build parts).Lawful (depth + 1) :=
  (Faithful.struct h.faithful name hbuild).lawful fun a => plain_struct (h.plainAt (parts a))

end ScanDigest
