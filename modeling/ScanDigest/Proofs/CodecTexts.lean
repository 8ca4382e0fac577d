import ScanDigest.Proofs.Passing
import ScanDigest.Proofs.RecordTexts
import ScanDigest.Proofs.Tables

/-!
# Reading a value and decoding its document

Each codec has two ways to take a value in, off a text and from a document. They agree on every text
that has a document at its front (`Codec.Agrees`): the one succeeds where the other does, with the
same value and the rest of the text after that document. Codecs that are made of codecs that agree
agree, also a structure, which passes over the members it does not know (`Codec.Agrees.struct`).
-/

set_option autoImplicit false

namespace ScanDigest

open Json Reader Std

variable {α β : Type}

/-! ## Readers -/

namespace Json

/-- The first letter of `null` tells it from all other values. -/
theorem ValueAt.null_or {s r : Text} {j : Json} (h : ValueAt s j r) :
    (j = .null ∧ ∃ t, trimSpace s = .char 'n' :: t ∧
      Codec.readNull.run (.char 'n' :: t) = .ok ((), r)) ∨
    (j ≠ .null ∧ ∀ t, trimSpace s ≠ .char 'n' :: t) := by
  cases h with
  | list hs => exact .inr ⟨by simp, by simp [hs]⟩
  | object hs => exact .inr ⟨by simp, by simp [hs]⟩
  | scalar hs hscalar =>
    cases hscalar with
    | null hrest => exact .inl ⟨rfl, _, hs, hrest⟩
    | bool b letter => exact .inr ⟨by simp, by rcases letter with rfl | rfl <;> simp [hs]⟩
    | str | negative => exact .inr ⟨by simp, by simp [hs]⟩
    | number digit =>
      refine .inr ⟨by simp, fun t ht => ?_⟩
      cases hs.symm.trans ht
      exact absurd digit (by decide)

/-- The reader takes off a text what `f` makes of the document at its front. -/
def Reader.Decodes (x : Reader α) (f : Json → Except Cause α) : Prop :=
  ∀ ⦃d : Nat⦄ ⦃s : Text⦄ ⦃j : Json⦄ ⦃r : Text⦄, (value d).run s = .ok (j, r) →
    (x.run s).toOption = (f j).toOption.map (·, r)

theorem toOption_run_map {x : Reader α} {s t : Text} {o : Option α} (f : α → β)
    (h : (x.run s).toOption = o.map (·, t)) :
    ((f <$> x).run s).toOption = (o.map f).map (·, t) := by
  refine (toOption_run_bind (f := fun a => pure (f a)) h).trans ?_
  cases o <;> rfl

theorem Reader.Decodes.map {x : Reader α} {f : Json → Except Cause α} (h : x.Decodes f) (g : α → β) :
    (g <$> x).Decodes fun j => g <$> f j := by
  intro d s j r hs
  rw [toOption_run_map g (h hs)]
  dsimp only
  cases f j <;> rfl

theorem toOption_run_expected (wanted : Wanted) (s : Text) :
    ((expected wanted : Reader α).run s).toOption = none :=
  Option.eq_none_iff_forall_ne_some.mpr fun p hp =>
    run_expected_ne_ok wanted s p (toOption_eq_some_iff.mp hp)

theorem toOption_run_check (x : Except Cause α) (s : Text) :
    ((Codec.check x).run s).toOption = x.toOption.map (·, s) := by
  cases x <;> rfl

theorem toOption_foldlM {σ ε : Type} (f : σ → α → Except ε σ) (as : List α) (acc : σ) :
    (as.foldlM f acc).toOption = as.foldlM (fun acc a => (f acc a).toOption) acc := by
  induction as generalizing acc with
  | nil => rfl
  | cons a as ih =>
    rw [List.foldlM_cons, List.foldlM_cons]
    cases f acc a with
    | error e => rfl
    | ok acc => exact ih acc

end Json

/-! ## Codecs -/

/-- Reading a value off a text is decoding the document there. -/
def Codec.Agrees (c : Codec α) : Prop := c.read.Decodes (c.decode .document)

namespace Codec.Agrees

variable {c : Codec α}

theorem text : Codec.text.Agrees := by
  intro d s j r h
  refine (toOption_string .text h).trans ?_
  cases j <;> rfl

theorem imap (h : c.Agrees) (f : α → β) (g : β → α) : (c.imap f g).Agrees := h.map f

/-! ### Counts -/

theorem run_count_negative {s t : Text} (hs : trimSpace s = .char '-' :: t) :
    Codec.count.read.run s = (numeral true >>= fun n => check (countOf n)).run t := by
  simp only [Codec.count, run_bind, run_space, run_left, hs]
  rfl

theorem run_count_number {s t : Text} {ch : Char} (hs : trimSpace s = .char ch :: t)
    (hch : ch.isDigit = true) :
    Codec.count.read.run s = (numeral false >>= fun n => check (countOf n)).run (.char ch :: t) := by
  have hminus : Glyph.char ch ≠ .char '-' := by
    rintro ⟨⟩
    exact absurd hch (by decide)
  simp only [Codec.count, run_bind, run_space, run_left, hs, digit?_of_isDigit hch]
  rfl

theorem run_count_other {s t : Text} {g : Glyph} (hs : trimSpace s = g :: t) (hminus : g ≠ .char '-')
    (hdigit : digit? g = none) : Codec.count.read.run s = (expected .count).run (g :: t) := by
  simp only [Codec.count, run_bind, run_space, run_left, hs, hdigit]
  rfl

theorem count : Codec.count.Agrees := by
  intro d s j r h
  have hother : ∀ {g t}, trimSpace s = g :: t → g ≠ .char '-' → digit? g = none →
      (Codec.count.read.run s).toOption = none := fun hs hminus hdigit => by
    rw [run_count_other hs hminus hdigit, toOption_run_expected]
  cases valueAt h with
  | list hs => exact hother hs (by decide) rfl
  | object hs => exact hother hs (by decide) rfl
  | scalar hs hscalar =>
    cases hscalar with
    | null => exact hother hs (by decide) rfl
    | bool b letter =>
      rcases letter with rfl | rfl
      · exact hother hs (by decide) rfl
      · exact hother hs (by decide) rfl
    | str => exact hother hs (by decide) rfl
    | negative hn =>
      rw [run_count_negative hs, run_bind, hn]
      exact toOption_run_check _ _
    | number hdigit hn =>
      rw [run_count_number hs hdigit, run_bind, hn]
      exact toOption_run_check _ _

/-! ### Lists -/

theorem foldlM_cons_eq {ε : Type} (f : α → Except ε β) (as : List α) (acc : List β) :
    as.foldlM (fun acc a => (f a).toOption.map (· :: acc)) acc =
      (as.mapM f).toOption.map fun bs => bs.reverse ++ acc := by
  induction as generalizing acc with
  | nil => rfl
  | cons a as ih =>
    rw [List.foldlM_cons, List.mapM_cons]
    cases f a with
    | error e => rfl
    | ok b =>
      refine (ih (b :: acc)).trans ?_
      cases as.mapM f with
      | error e => rfl
      | ok bs =>
        show some (bs.reverse ++ b :: acc) = some ((b :: bs).reverse ++ acc)
        simp

theorem run_list_list {s t : Text} (hs : trimSpace s = .char '[' :: t) :
    (Codec.list c).read.run s = (List.reverse <$>
      separated .list (fun acc => return (← c.read) :: acc) []).run t := by
  simp only [Codec.list, run_bind, run_space, run_left, hs]
  rfl

theorem run_list_other {s : Text} (hs : ∀ t, trimSpace s ≠ .char '[' :: t) :
    (Codec.list c).read.run s = (expected .sequence).run (trimSpace s) := by
  simp only [Codec.list, run_bind, run_space, run_left]

theorem list (h : c.Agrees) : (Codec.list c).Agrees := by
  intro d s j r hj
  have hother : (∀ t, trimSpace s ≠ .char '[' :: t) → ((Codec.list c).read.run s).toOption = none :=
    fun hs => by rw [run_list_other hs, toOption_run_expected]
  cases valueAt hj with
  | @list e t _ items hs hitems =>
    have hitem : ∀ j ∈ items, ∀ acc s t, (value e).run s = .ok (j, t) →
        (((do return (← c.read) :: acc : Reader (List α))).run s).toOption =
          ((c.decode .document j).toOption.map (· :: acc)).map (·, t) := by
      intro j _ acc s t hj
      exact toOption_run_map (· :: acc) (h hj)
    rw [run_list_list hs, toOption_run_map List.reverse (toOption_separated hitem hitems []),
      foldlM_cons_eq]
    show _ = (items.mapM (c.decode .document)).toOption.map (·, r)
    cases items.mapM (c.decode .document) with
    | error e => rfl
    | ok as => simp [Except.toOption]
  | object hs => exact hother (by simp [hs])
  | scalar hs hscalar =>
    rw [hother (by simp [hs, hscalar.ne_bracket.1])]
    cases hscalar <;> rfl

/-! ### Optional values -/

theorem run_optional_null {s t : Text} (hs : trimSpace s = .char 'n' :: t) :
    c.optional.read.run s = ((fun _ => none) <$> readNull).run (.char 'n' :: t) := by
  simp only [Codec.optional, run_bind, run_space, run_left, hs]
  rfl

theorem run_optional_other {s : Text} (hs : ∀ t, trimSpace s ≠ .char 'n' :: t) :
    c.optional.read.run s = (some <$> c.read).run (trimSpace s) := by
  simp only [Codec.optional, run_bind, run_space, run_left]

theorem optional (h : c.Agrees) : c.optional.Agrees := by
  intro d s j r hj
  rcases (valueAt hj).null_or with ⟨rfl, t, hs, hnull⟩ | ⟨hne, hs⟩
  · rw [run_optional_null hs, run_map, hnull]
    rfl
  · have htrim : (value d).run (trimSpace s) = .ok (j, r) := by
      rw [run_value_of_trimSpace_eq d (trimSpace_trimSpace s), hj]
    rw [run_optional_other hs, decode_optional hne]
    exact h.map some htrim

/-! ### Tables -/

section Table

variable {κ : Type} [Ord κ] [TransOrd κ] {keys : Keys κ}

/-- Reads a member into a table. -/
def readEntry (keys : Keys κ) (c : Codec α) (t : ExtTreeMap κ α) : Reader (ExtTreeMap κ α) := do
  let k ← check (keys.ofString (← key))
  colon
  return t.insert k (← c.read)

theorem toOption_readEntry (h : c.Agrees) (t : ExtTreeMap κ α) {e : Nat} {m : String × Json}
    {s r : Text} (hm : (member (value e)).run s = .ok (m, r)) :
    ((readEntry keys c t).run s).toOption = (enter keys c .document t m).toOption.map (·, r) := by
  obtain ⟨s', s'', hkey, hcolon, hvalue⟩ := run_member_eq_ok_iff.mp hm
  rw [readEntry, run_bind, hkey]
  dsimp only
  rw [toOption_run_bind (toOption_run_check _ _), enter]
  cases keys.ofString m.1 with
  | error e => rfl
  | ok k =>
    have hrun := run_bind_of_ok (f := fun _ => t.insert k <$> c.read) hcolon
    refine (congrArg Except.toOption hrun).trans ((h.map (t.insert k) hvalue).trans ?_)
    dsimp only
    cases c.decode .document m.2 <;> rfl

theorem run_table_object {s t : Text} (hs : trimSpace s = .char '{' :: t) :
    (Codec.table keys c).read.run s = (separated .object (readEntry keys c) ∅).run t := by
  simp only [Codec.table, run_bind, run_space, run_left, hs]
  rfl

theorem run_table_other {s : Text} (hs : ∀ t, trimSpace s ≠ .char '{' :: t) :
    (Codec.table keys c).read.run s = (expected .map).run (trimSpace s) := by
  simp only [Codec.table, run_bind, run_space, run_left]

theorem table (h : c.Agrees) : (Codec.table keys c).Agrees := by
  intro d s j r hj
  have hother : (∀ t, trimSpace s ≠ .char '{' :: t) →
      ((Codec.table keys c).read.run s).toOption = none :=
    fun hs => by rw [run_table_other hs, toOption_run_expected]
  cases valueAt hj with
  | list hs => exact hother (by simp [hs])
  | object hs hms =>
    rw [run_table_object hs, toOption_separated (fun m _ t s r hm => toOption_readEntry h t hm) hms ∅,
      ← toOption_foldlM, ← decode_table_obj]
  | scalar hs hscalar =>
    rw [hother (by simp [hs, hscalar.ne_bracket.2])]
    cases hscalar <;> rfl

end Table

/-! ### Enumerations -/

section Enumeration

variable {all : List α} {name : α → String}

/-- Reads a value by its name as the only key of an object, after the bracket. -/
def readSole (all : List α) (name : α → String) : Reader α := do
  unless ← another .object true do Reader.fail (Cause.noValue.here (← Reader.left))
  let a ← check (named all name (← key))
  colon
  space
  match ← Reader.left with
  | .char 'n' :: _ => readNull
  | _ => expected .unit
  space
  match ← Reader.left with
  | [] => Reader.fail (Cause.objectEnds.here [])
  | .char '}' :: _ =>
    Reader.skip
    pure a
  | s => Reader.fail (Cause.noValue.before s)

theorem run_enumeration_str {s t : Text} (hs : trimSpace s = .char '"' :: t) :
    (Codec.enumeration all name).read.run s =
      (quotation >>= fun n => check (named all name n)).run t := by
  simp only [Codec.enumeration, run_bind, run_space, run_left, hs]
  rfl

theorem run_enumeration_object {s t : Text} (hs : trimSpace s = .char '{' :: t) :
    (Codec.enumeration all name).read.run s = (readSole all name).run t := by
  simp only [Codec.enumeration, run_bind, run_space, run_left, hs]
  rfl

/-- The only key of an object, with `null` under it. -/
def soleKey? : List (String × Json) → Option String
  | [(k, .null)] => some k
  | _ => none

theorem soleKey?_eq_some_iff {ms : List (String × Json)} {k : String} :
    soleKey? ms = some k ↔ ms = [(k, .null)] := by
  constructor
  · intro h
    unfold soleKey? at h
    split at h
    · cases h
      rfl
    · cases h
  · rintro rfl
    rfl

theorem toOption_decode_obj (ms : List (String × Json)) :
    ((Codec.enumeration all name).decode .document (.obj ms)).toOption =
      (soleKey? ms).bind fun k => (named all name k).toOption := by
  rcases ms with _ | ⟨⟨k, v⟩, _ | ⟨n, ms⟩⟩
  · rfl
  · cases v <;> simp only [Codec.enumeration, soleKey?, Option.bind_some, Option.bind_none] <;>
      cases named all name k <;> rfl
  · cases v <;> rfl

theorem toOption_readSole {e : Nat} {s r : Text} {ms : List (String × Json)}
    (h : Items .object (member (value e)) true s ms r) :
    ((readSole all name).run s).toOption =
      ((Codec.enumeration all name).decode .document (.obj ms)).toOption.map (·, r) := by
  rw [toOption_decode_obj]
  cases h with
  | close ends =>
    simp only [readSole, run_bind, ends]
    rfl
  | @item _ _ s' t _ m ms more read rest =>
    obtain ⟨k, j⟩ := m
    obtain ⟨s'', u, hkey, hcolon, hvalue⟩ := run_member_eq_ok_iff.mp read
    simp only [readSole, run_bind, more, hkey, ↓reduceIte]
    cases hk : named all name k with
    | error c =>
      cases hsole : soleKey? ((k, j) :: ms) with
      | none => rfl
      | some l =>
        cases soleKey?_eq_some_iff.mp hsole
        rw [Option.bind_some, hk]
        rfl
    | ok a =>
      simp only [check, run_pure, hcolon, run_space, run_left]
      rcases (valueAt hvalue).null_or with ⟨rfl, v, hv, hrun⟩ | ⟨hne, hv⟩
      · simp only [hv, run_bind, hrun, run_space, run_left]
        cases rest with
        | close ends =>
          rw [(another_eq_false ends).1]
          simp [soleKey?, hk, Brackets.object, Except.toOption]
        | item more =>
          obtain ⟨w, hw, -⟩ := trimSpace_of_another_comma more
          rw [hw]
          rfl
      · have hsole : soleKey? ((k, j) :: ms) = none := by
          refine Option.eq_none_iff_forall_ne_some.mpr fun l hl => ?_
          cases soleKey?_eq_some_iff.mp hl
          exact hne rfl
        rw [hsole]
        split
        · rename_i v hs
          exact absurd hs (hv v)
        · have hnone : ((expected .unit : Reader Unit).run (trimSpace u)).toOption =
              Option.map (·, trimSpace u) none := toOption_run_expected .unit (trimSpace u)
          rw [toOption_run_bind hnone]
          rfl

theorem enumeration : (Codec.enumeration all name).Agrees := by
  intro d s j r hj
  have hother : (∀ t, trimSpace s ≠ .char '"' :: t) → (∀ t, trimSpace s ≠ .char '{' :: t) →
      ((Codec.enumeration all name).read.run s).toOption = none := by
    intro hquote hobject
    simp only [Codec.enumeration, run_bind, run_space, run_left]
    split
    · rfl
    · rename_i t hs
      exact absurd hs (hquote t)
    · rename_i t hs
      exact absurd hs (hobject t)
    · rfl
  cases valueAt hj with
  | list hs => exact hother (by simp [hs]) (by simp [hs])
  | object hs hms => rw [run_enumeration_object hs, toOption_readSole hms]
  | scalar hs hscalar =>
    cases hscalar with
    | str hv =>
      rw [run_enumeration_str hs, run_bind, hv]
      exact toOption_run_check _ _
    | null | negative => exact hother (by simp [hs]) (by simp [hs])
    | bool b letter => rcases letter with rfl | rfl <;> exact hother (by simp [hs]) (by simp [hs])
    | number digit =>
      refine hother (fun t ht => ?_) fun t ht => ?_ <;>
      · cases hs.symm.trans ht
        exact absurd digit (by decide)

end Enumeration

end Codec.Agrees

/-! ## Structures -/

namespace Fields

/-- The codecs of all fields agree. -/
inductive Agree : {τ : Type} → Fields τ → Prop where
  | nil : Agree .nil
  | cons {α β : Type} {f : Field α} {more : Fields β} (codec : f.codec.Agrees) (rest : more.Agree) :
      Agree (.cons f more)

/-- A member is the same to a structure that is read and to one that is decoded. -/
inductive Member.Agree {σ : Type} : Member Reader σ → Member (ReaderT Json (Except Cause)) σ → Prop
    where
  | other : Agree .other .other
  | again : Agree .again .again
  | fill {x : Reader σ} {f : ReaderT Json (Except Cause) σ} (take : x.Decodes f.run) :
      Agree (.fill x) (.fill f)

theorem Member.Agree.map {σ ρ : Type} {x : Member Reader σ}
    {y : Member (ReaderT Json (Except Cause)) σ} (h : Member.Agree x y) (f : σ → ρ) :
    Member.Agree (x.map f) (y.map f) := by
  cases h with
  | other => exact .other
  | again => exact .again
  | fill take => exact .fill (take.map f)

variable {τ : Type} {fs : Fields τ}

theorem Agree.member (h : fs.Agree) (k : String) (slots : fs.Slots) :
    Member.Agree (fs.member Codec.read k slots)
      (fs.member (fun c => ReaderT.mk (c.decode .document)) k slots) := by
  induction h with
  | nil => exact .other
  | @cons α β f more codec rest ih =>
    obtain ⟨a, slots⟩ := slots
    simp only [Fields.member]
    split
    · split
      · exact .again
      · exact .fill (codec.map _)
    · exact (ih slots).map _

/-! ### Members -/

theorem toOption_readMember (h : fs.Agree) (slots : fs.Slots) {e : Nat} {m : String × Json}
    {s r : Text} (hm : (Json.member (value e)).run s = .ok (m, r)) :
    ((fs.readMember slots).run s).toOption =
      (fs.decodeMember .document slots m).toOption.map (·, r) := by
  obtain ⟨s', s'', hkey, hcolon, hvalue⟩ := run_member_eq_ok_iff.mp hm
  have hagree := h.member m.1 slots
  rw [readMember, run_bind, hkey, decodeMember]
  dsimp only
  generalize fs.member (fun c => ReaderT.mk (c.decode .document)) m.1 slots = y at hagree ⊢
  generalize fs.member Codec.read m.1 slots = x at hagree ⊢
  cases hagree with
  | other =>
    -- passing over the value leaves off where reading it does
    simp only [run_bind, hcolon, run_pass_of_value hvalue, run_pure]
    rfl
  | again => rfl
  | fill take => exact (congrArg Except.toOption (run_bind_of_ok hcolon)).trans (take hvalue)

/-! ### Items -/

theorem toOption_closeItems {x : Reader α} {first : Bool} {s r : Text} {as : List α}
    (h : Items .list x first s as r) :
    (closeItems.run s).toOption = if as.isEmpty then some ((), r) else none := by
  have hother : (∀ t, trimSpace s ≠ .char ']' :: t) → (closeItems.run s).toOption = none := by
    intro hs
    simp only [closeItems, run_bind, run_space, run_left]
    split
    · rfl
    · rename_i t ht
      exact absurd ht (hs t)
    · -- a comma is a fault, whether an item or the bracket follows
      split <;> rfl
    · rfl
  cases h with
  | close ends =>
    simp only [closeItems, run_bind, run_space, run_left, (another_eq_false ends).1]
    rfl
  | item more =>
    refine hother fun t ht => ?_
    cases first with
    | true =>
      obtain ⟨hs, g, u, rfl, hg⟩ := trimSpace_of_another_first more
      cases ht.symm.trans hs
      exact hg rfl
    | false =>
      obtain ⟨u, hu, -⟩ := trimSpace_of_another_comma more
      cases ht.symm.trans hu

/-- Reads to the end of an array after its items. -/
def closed (x : Reader α) : Reader α := do
  let a ← x
  closeItems
  pure a

theorem run_closed_congr {x y : Reader α} {s t : Text} (h : x.run s = y.run t) :
    (closed x).run s = (closed y).run t := by
  simp only [closed, run_bind, h]

theorem closed_bind (x : Reader α) (f : α → Reader β) :
    closed (x >>= f) = x >>= fun a => closed (f a) := by
  refine Reader.ext fun s => ?_
  simp only [closed, run_bind]
  cases x.run s <;> rfl

theorem closed_map (x : Reader α) (f : α → β) : closed (f <$> x) = f <$> closed x := by
  refine Reader.ext fun s => ?_
  simp only [closed, run_bind, run_map]
  cases x.run s with
  | error e => rfl
  | ok p =>
    dsimp only
    cases closeItems.run p.2 <;> rfl

section ReadItems

variable {f : Field α} {more : Fields β} {wanted : WantedLength} {n : Nat} {s t : Text}

theorem run_readItems_item (h : (another .list (n == 0)).run s = .ok (true, t)) :
    ((cons f more).readItems wanted n).run s =
      (f.codec.read >>= fun a => (fun x => (a, x)) <$> more.readItems wanted (n + 1)).run t := by
  simp only [readItems, run_bind, h]
  rfl

theorem run_readItems_short {a : α} (h : (another .list (n == 0)).run s = .ok (false, t))
    (hshort : f.short = some a) :
    ((cons f more).readItems wanted n).run s =
      ((fun x => (a, x)) <$> more.readItems wanted (n + 1)).run t := by
  simp only [readItems, run_bind, h, hshort]
  rfl

theorem run_readItems_missing (h : (another .list (n == 0)).run s = .ok (false, t))
    (hshort : f.short = none) :
    ((cons f more).readItems wanted n).run s =
      .error ((Cause.invalidLength n wanted).before t.tail) := by
  simp only [readItems, run_bind, h, hshort]
  rfl

end ReadItems

/-- The values of the fields, if no items are left over. -/
def settled (x : Except Cause (τ × List Json)) : Option τ :=
  x.toOption.bind fun p => if p.2.isEmpty then some p.1 else none

theorem settled_map {ρ : Type} (x : Except Cause (τ × List Json)) (f : τ → ρ) :
    settled ((fun p => (f p.1, p.2)) <$> x) = (settled x).map f := by
  cases x with
  | error e => rfl
  | ok p =>
    obtain ⟨a, left⟩ := p
    cases left <;> rfl

theorem settled_decodeItems_short {f : Field α} {more : Fields β} {wanted : WantedLength} {n : Nat}
    {a : α} (h : f.short = some a) :
    settled ((cons f more).decodeItems .document wanted n []) =
      (settled (more.decodeItems .document wanted (n + 1) [])).map fun x => (a, x) := by
  simp only [decodeItems, h]
  exact settled_map _ fun x => (a, x)

theorem settled_decodeItems_item {f : Field α} {more : Fields β} {wanted : WantedLength} {n : Nat}
    (j : Json) (items : List Json) :
    settled ((cons f more).decodeItems .document wanted n (j :: items)) =
      (f.codec.decode .document j).toOption.bind fun a =>
        (settled (more.decodeItems .document wanted (n + 1) items)).map fun x => (a, x) := by
  rw [decodeItems]
  cases f.codec.decode .document j with
  | error e => rfl
  | ok a => exact settled_map _ fun x => (a, x)

theorem toOption_closed_readItems (h : fs.Agree) (wanted : WantedLength) {e n : Nat} {s r : Text}
    {items : List Json} (hitems : Items .list (value e) (n == 0) s items r) :
    ((closed (fs.readItems wanted n)).run s).toOption =
      (settled (fs.decodeItems .document wanted n items)).map (·, r) := by
  -- over the fields; `n` counts those before, and says only whether a comma comes first
  induction h generalizing n s items with
  | nil =>
    have hclose : (closeItems.run s).toOption =
        (if items.isEmpty then some () else none : Option Unit).map (·, r) := by
      rw [toOption_closeItems hitems]
      split <;> rfl
    refine (toOption_run_bind (f := fun _ => pure ()) hclose).trans ?_
    cases items <;> rfl
  | @cons α β f more codec rest ih =>
    cases hitems with
    | close ends =>
      cases hshort : f.short with
      | none =>
        simp only [closed, run_bind, run_readItems_missing ends hshort, decodeItems, hshort]
        rfl
      | some a =>
        have hclose : Items .list (value e) (n + 1 == 0) (.char Brackets.list.close :: r) [] r :=
          .close (another_close (.inl rfl) _ r)
        rw [run_closed_congr (run_readItems_short ends hshort), closed_map,
          toOption_run_map _ (ih hclose), settled_decodeItems_short hshort]
    | @item _ _ s' t _ j items next read further =>
      have hmore : Items .list (value e) (n + 1 == 0) t items r := further
      rw [run_closed_congr (run_readItems_item next), closed_bind, toOption_run_bind (codec read)]
      simp only [closed_map, toOption_run_map _ (ih hmore), settled_decodeItems_item]
      cases (f.codec.decode .document j).toOption <;> rfl

/-! ### Whole structures -/

variable {name : String} {s t : Text}

theorem run_read_array (hs : trimSpace s = .char '[' :: t) :
    (fs.read name).run s = (closed (fs.readItems (.fields name fs.count) 0)).run t := by
  simp only [read, run_bind, run_space, run_left, hs]
  rfl

theorem run_read_object (hs : trimSpace s = .char '{' :: t) :
    (fs.read name).run s =
      (separated .object fs.readMember fs.empty >>= fun slots => Codec.check (fs.finish slots)).run t := by
  simp only [read, run_bind, run_space, run_left, hs]
  rfl

theorem run_read_other (hlist : ∀ t, trimSpace s ≠ .char '[' :: t)
    (hobject : ∀ t, trimSpace s ≠ .char '{' :: t) :
    (fs.read name).run s = (expected (.struct name)).run (trimSpace s) := by
  simp only [read, run_bind, run_space, run_left]

theorem toOption_decode_arr (items : List Json) :
    (fs.decode name .document (.arr items)).toOption =
      settled (fs.decodeItems .document (.fields name fs.count) 0 items) := by
  rw [decode]
  cases fs.decodeItems .document (.fields name fs.count) 0 items with
  | error e => rfl
  | ok p =>
    obtain ⟨x, left⟩ := p
    cases left <;> rfl

theorem toOption_decode_obj (ms : List (String × Json)) :
    (fs.decode name .document (.obj ms)).toOption =
      (ms.foldlM (fs.decodeMember .document) fs.empty).toOption.bind fun slots =>
        (fs.finish slots).toOption := by
  rw [decode]
  cases ms.foldlM (fs.decodeMember .document) fs.empty <;> rfl

theorem decodes (h : fs.Agree) (name : String) : (fs.read name).Decodes (fs.decode name .document) := by
  intro d s j r hj
  cases valueAt hj with
  | list hs hitems =>
    rw [run_read_array hs, toOption_closed_readItems h _ hitems, toOption_decode_arr]
  | @object _ _ _ ms hs hms =>
    have hfold := toOption_separated (fun m _ slots s r hm => toOption_readMember h slots hm) hms fs.empty
    rw [run_read_object hs, toOption_run_bind hfold, ← toOption_foldlM, toOption_decode_obj]
    simp only [toOption_run_check]
    cases (ms.foldlM (fs.decodeMember .document) fs.empty).toOption <;> rfl
  | scalar hs hscalar =>
    rw [run_read_other (by simp [hs, hscalar.ne_bracket.1]) (by simp [hs, hscalar.ne_bracket.2]),
      toOption_run_expected]
    cases hscalar <;> rfl

end Fields

theorem Codec.Agrees.struct {τ : Type} {fs : Fields τ} (h : fs.Agree) (name : String) (build : τ → α)
    (parts : α → τ) : (Codec.struct name fs build parts).Agrees :=
  (Fields.decodes h name).map build

end ScanDigest
