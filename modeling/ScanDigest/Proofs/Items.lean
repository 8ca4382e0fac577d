import ScanDigest.Proofs.Documents
import ScanDigest.Proofs.Guards
import ScanDigest.Proofs.Lookahead

/-!
# Items between brackets as a relation

`Items` says which items stand between brackets, without the way a reader collects them:
`run_separated_collect` is for a reader that keeps them all, `toOption_separated` for one that takes
each in as it likes, and may refuse it. From it, any value is read locally (`local_value`), and with
no more brackets allowed than it has open at a time (`Shallow.run_value`).
-/

set_option autoImplicit false

namespace ScanDigest.Json

open Reader

variable {α σ : Type}

theorem Reader.run_bind_eq_ok_iff {β : Type} {x : Reader α} {f : α → Reader β} {s r : Text}
    {b : β} :
    (x >>= f).run s = .ok (b, r) ↔ ∃ a t, x.run s = .ok (a, t) ∧ (f a).run t = .ok (b, r) := by
  rw [run_bind]
  split
  · rename_i a t h
    simp only [h, Except.ok.injEq, Prod.mk.injEq]
    constructor
    · exact fun hf => ⟨a, t, ⟨rfl, rfl⟩, hf⟩
    · rintro ⟨_, _, ⟨rfl, rfl⟩, hf⟩
      exact hf
  · rename_i e h
    simp [h]

theorem Reader.run_bind_of_ok {β : Type} {x : Reader α} {f : α → Reader β} {s t : Text} {a : α}
    (h : x.run s = .ok (a, t)) : (x >>= f).run s = (f a).run t := by
  rw [run_bind, h]

theorem Reader.run_map_eq_ok_iff {β : Type} {x : Reader α} {f : α → β} {s r : Text} {b : β} :
    (f <$> x).run s = .ok (b, r) ↔ ∃ a, x.run s = .ok (a, r) ∧ f a = b := by
  rw [run_map]
  split
  · rename_i a t h
    simp only [h, Except.ok.injEq, Prod.mk.injEq]
    constructor
    · rintro ⟨rfl, rfl⟩
      exact ⟨a, ⟨rfl, rfl⟩, rfl⟩
    · rintro ⟨_, ⟨rfl, rfl⟩, rfl⟩
      exact ⟨rfl, rfl⟩
  · rename_i e h
    simp [h]

/-- From the text `s` on, `x` reads the items up to the closing bracket, after which `r` is left.
The first item has a comma before it unless `first`. -/
inductive Items (b : Brackets) (x : Reader α) : (first : Bool) → Text → List α → Text → Prop where
  | close {first : Bool} {s r : Text}
      (ends : (another b first).run s = .ok (false, .char b.close :: r)) : Items b x first s [] r
  | item {first : Bool} {s s' t r : Text} {a : α} {as : List α}
      (more : (another b first).run s = .ok (true, s')) (read : x.run s' = .ok (a, t))
      (rest : Items b x false t as r) : Items b x first s (a :: as) r

section Another

variable {b : Brackets} {first : Bool} {s r : Text}

/-- No item follows where the closing bracket stands. -/
theorem another_eq_false (h : (another b first).run s = .ok (false, r)) :
    trimSpace s = r ∧ ∃ t, r = .char b.close :: t := by
  simp only [another, run_bind, run_space, run_left] at h
  split at h
  · cases h
  · rename_i g t heq
    split at h
    · rename_i hg
      cases h
      exact ⟨rfl, t, by rw [heq, hg]⟩
    · split at h
      · cases h
      · split at h
        · simp only [run_bind, run_skip, run_space, run_left] at h
          split at h
          · cases h
          · split at h <;> cases h
        · cases h

theorem trimSpace_of_another_first (h : (another b true).run s = .ok (true, r)) :
    trimSpace s = r ∧ ∃ g t, r = g :: t ∧ g ≠ .char b.close := by
  simp only [another, run_bind, run_space, run_left] at h
  split at h
  · cases h
  · rename_i g t hs
    split at h
    · cases h
    · rename_i hg
      rw [if_pos trivial] at h
      cases h
      exact ⟨rfl, g, t, hs, hg⟩

theorem trimSpace_of_another_comma (h : (another b false).run s = .ok (true, r)) :
    ∃ t, trimSpace s = .char ',' :: t ∧ ',' ≠ b.close ∧ trimSpace t = r := by
  simp only [another, run_bind, run_space, run_left] at h
  split at h
  · cases h
  · rename_i g t hs
    rw [hs] at h
    split at h
    · cases h
    · rename_i hg
      rw [if_neg Bool.false_ne_true] at h
      split at h
      · rename_i hcomma
        subst hcomma
        simp only [run_bind, run_skip, List.tail_cons, run_space, run_left] at h
        refine ⟨t, hs, fun heq => hg (congrArg Glyph.char heq), ?_⟩
        split at h
        · cases h
        · split at h <;> cases h
          rfl
      · cases h

end Another

namespace Items

variable {b : Brackets} {x y : Reader α} {first : Bool} {s r : Text} {as : List α}

theorem imp (h : Items b x first s as r)
    (hxy : ∀ a ∈ as, ∀ s t, x.run s = .ok (a, t) → y.run s = .ok (a, t)) :
    Items b y first s as r := by
  induction h with
  | close ends => exact .close ends
  | item more read _ ih =>
    refine .item more (hxy _ List.mem_cons_self _ _ read) (ih fun a ha => ?_)
    exact hxy a (List.mem_cons_of_mem _ ha)

/-- Nothing after the closing bracket counts. -/
theorem extent (h : Items b x first s as r) (hx : x.Local) :
    ∃ cs, s = cs ++ .char b.close :: r ∧ ∀ u, Items b x first (cs ++ .char b.close :: u) as u := by
  induction h with
  | close ends =>
    obtain ⟨cs, rfl, hcs⟩ := local_another _ _ _ ends
    exact ⟨cs, rfl, fun u => .close (hcs _ (.inl rfl))⟩
  | @item _ _ _ _ r _ _ more read _ ih =>
    obtain ⟨ds, rfl, hds⟩ := ih
    obtain ⟨cs, rfl, hcs⟩ := hx _ read
    obtain ⟨bs, rfl, hbs⟩ := local_another _ _ _ more
    refine ⟨bs ++ (cs ++ ds), by simp, fun u => ?_⟩
    have hu : Replaces (ds ++ .char b.close :: u) (ds ++ .char b.close :: r) :=
      (replaces_cons_iff.mpr ⟨u, rfl⟩).append ds
    have hmore := hbs _ (hu.append cs)
    have hread := hcs _ hu
    simp only [List.append_assoc]
    exact .item hmore hread (hds u)

end Items

/-! ## Readers of items -/

section Readers

variable {b : Brackets} {x : Reader α} {item : σ → Reader σ} {take : σ → α → Option σ}
  {first : Bool} {s r : Text} {as : List α}

theorem run_furtherItems_of_item {s' : Text} {acc : σ}
    (h : (another b false).run s = .ok (true, s')) :
    (furtherItems b item acc).run s = (item acc >>= furtherItems b item).run s' := by
  show moreItems b item acc s = _
  rw [moreItems]
  split <;> rename_i h' <;> (rw [h] at h'; cases h')
  rw [run_bind]
  split
  · rename_i hitem
    rw [hitem]
  · rename_i hitem
    rw [hitem]
    rfl

/-- A step that reads up to `t`, if it succeeds at all, is followed by what comes after it. -/
theorem toOption_run_bind {β : Type} {y : Reader α} {f : α → Reader β} {t : Text} {o : Option α}
    (h : (y.run s).toOption = o.map (·, t)) :
    ((y >>= f).run s).toOption = o.bind fun a => ((f a).run t).toOption := by
  rw [run_bind]
  cases hy : y.run s with
  | error e =>
    rw [hy] at h
    cases o <;> cases h
    rfl
  | ok p =>
    rw [hy] at h
    cases o <;> cases h
    rfl

variable (hitem : ∀ a ∈ as, ∀ acc s t, x.run s = .ok (a, t) →
  ((item acc).run s).toOption = (take acc a).map (·, t))

include hitem

theorem toOption_furtherItems (h : Items b x false s as r) (acc : σ) :
    ((furtherItems b item acc).run s).toOption = (as.foldlM take acc).map (·, r) := by
  generalize hfirst : false = first at h
  induction h generalizing acc with
  | close ends =>
    subst hfirst
    show (moreItems b item acc _).toOption = _
    rw [moreItems_of_close ends]
    rfl
  | @item _ s s' t r a as more read _ ih =>
    subst hfirst
    have hstep := hitem a List.mem_cons_self acc s' t read
    have hrest := fun acc => ih (fun a ha => hitem a (List.mem_cons_of_mem _ ha)) acc rfl
    rw [run_furtherItems_of_item more, toOption_run_bind hstep, List.foldlM_cons]
    simp only [hrest]
    cases take acc a <;> rfl

theorem toOption_separated (h : Items b x true s as r) (acc : σ) :
    ((separated b item acc).run s).toOption = (as.foldlM take acc).map (·, r) := by
  cases h with
  | close ends =>
    simp only [separated, run_bind, ends]
    rfl
  | @item _ _ s' t _ a as more read rest =>
    have hstep := hitem a List.mem_cons_self acc s' t read
    have hrest := toOption_furtherItems (fun a ha => hitem a (List.mem_cons_of_mem _ ha)) rest
    have hrun : (separated b item acc).run s = (item acc >>= furtherItems b item).run s' := by
      rw [separated, run_bind, more]
      rfl
    rw [hrun, toOption_run_bind hstep, List.foldlM_cons]
    simp only [hrest]
    cases take acc a <;> rfl

omit hitem

/-! ## A reader that keeps all items -/

/-- Keeps the items that are read, the last one first. -/
def collect (x : Reader α) (acc : List α) : Reader (List α) := do return (← x) :: acc

theorem run_collect_eq_ok_iff {acc acc' : List α} {t : Text} :
    (collect x acc).run s = .ok (acc', t) ↔ ∃ a, x.run s = .ok (a, t) ∧ a :: acc = acc' :=
  run_map_eq_ok_iff

theorem items_of_moreItems {acc acc' : List α} (h : moreItems b (collect x) acc s = .ok (acc', r)) :
    ∃ as, Items b x false s as r ∧ acc' = as.reverse ++ acc := by
  fun_induction moreItems b (collect x) acc s with
  | case1 | case3 => cases h
  | case2 acc s t ha =>
    cases h
    obtain ⟨-, t, rfl⟩ := another_eq_false ha
    exact ⟨[], .close ha, rfl⟩
  | case4 acc s t ha acc₁ t₁ hi ih =>
    obtain ⟨as, has, rfl⟩ := ih h
    obtain ⟨a, hread, rfl⟩ := run_collect_eq_ok_iff.mp hi
    exact ⟨a :: as, .item ha hread has, by simp⟩

theorem items_of_separated {acc acc' : List α}
    (h : (separated b (collect x) acc).run s = .ok (acc', r)) :
    ∃ as, Items b x true s as r ∧ acc' = as.reverse ++ acc := by
  simp only [separated, run_bind] at h
  split at h
  · rename_i more t ha
    cases more with
    | false =>
      cases h
      obtain ⟨-, t, rfl⟩ := another_eq_false ha
      exact ⟨[], .close ha, rfl⟩
    | true =>
      simp only [↓reduceIte, run_bind] at h
      split at h
      · rename_i acc₁ t₁ hi
        obtain ⟨a, hread, rfl⟩ := run_collect_eq_ok_iff.mp hi
        obtain ⟨as, has, rfl⟩ := items_of_moreItems h
        exact ⟨a :: as, .item ha hread has, by simp⟩
      · cases h
  · cases h

theorem foldlM_collect (as acc : List α) :
    as.foldlM (fun acc a => some (a :: acc)) acc = some (as.reverse ++ acc) := by
  induction as generalizing acc with
  | nil => rfl
  | cons a as ih => rw [List.foldlM_cons, Option.bind_eq_bind, Option.bind_some, ih]; simp

theorem toOption_collect (as : List α) : ∀ a ∈ as, ∀ acc s t, x.run s = .ok (a, t) →
    ((collect x acc).run s).toOption = (some (a :: acc)).map (·, t) :=
  fun a _ _ _ _ h => toOption_eq_some_iff.mpr (run_collect_eq_ok_iff.mpr ⟨a, h, rfl⟩)

theorem run_separated_collect (acc acc' : List α) :
    (separated b (collect x) acc).run s = .ok (acc', r) ↔
      ∃ as, Items b x true s as r ∧ acc' = as.reverse ++ acc := by
  refine ⟨items_of_separated, ?_⟩
  rintro ⟨as, has, rfl⟩
  rw [← toOption_eq_some_iff, toOption_separated (toOption_collect as) has, foldlM_collect]
  rfl

theorem run_map_separated_collect {β : Type} (f : List α → β) (c : β) :
    ((fun as => f as.reverse) <$> separated b (collect x) []).run s = .ok (c, r) ↔
      ∃ as, Items b x true s as r ∧ f as = c := by
  simp only [run_map_eq_ok_iff, run_separated_collect, List.append_nil]
  constructor
  · rintro ⟨_, ⟨as, has, rfl⟩, rfl⟩
    exact ⟨as, has, by rw [List.reverse_reverse]⟩
  · rintro ⟨as, has, rfl⟩
    exact ⟨as.reverse, ⟨as, has, rfl⟩, by rw [List.reverse_reverse]⟩

theorem run_furtherItems_collect (acc acc' : List α) :
    (furtherItems b (collect x) acc).run s = .ok (acc', r) ↔
      ∃ as, Items b x false s as r ∧ acc' = as.reverse ++ acc := by
  refine ⟨items_of_moreItems, ?_⟩
  rintro ⟨as, has, rfl⟩
  rw [← toOption_eq_some_iff, toOption_furtherItems (toOption_collect as) has, foldlM_collect]
  rfl

end Readers

/-! ## Values -/

theorem Reader.ext {x y : Reader α} (h : ∀ s, x.run s = y.run s) : x = y := by
  obtain ⟨f, _⟩ := x
  obtain ⟨g, _⟩ := y
  obtain rfl : f = g := funext h
  rfl

/-- A member of an object. -/
def member (inner : Reader Json) : Reader (String × Json) := do
  let k ← key
  colon
  return (k, ← inner)

theorem Reader.Local.member {inner : Reader Json} (h : inner.Local) : (member inner).Local :=
  local_key.bind fun _ => local_colon.bind fun _ => h.bind fun _ => local_pure _

theorem run_member_eq_ok_iff {inner : Reader Json} {s t : Text} {m : String × Json} :
    (member inner).run s = .ok (m, t) ↔
      ∃ s' s'', key.run s = .ok (m.1, s') ∧ colon.run s' = .ok ((), s'') ∧
        inner.run s'' = .ok (m.2, t) := by
  obtain ⟨k, j⟩ := m
  simp only [member, run_bind_eq_ok_iff, run_pure, Except.ok.injEq, Prod.mk.injEq]
  constructor
  · rintro ⟨_, s', hkey, ⟨⟩, s'', hcolon, _, _, hread, ⟨rfl, rfl⟩, rfl⟩
    exact ⟨s', s'', hkey, hcolon, hread⟩
  · rintro ⟨s', s'', hkey, hcolon, hread⟩
    exact ⟨k, s', hkey, (), s'', hcolon, j, t, hread, ⟨rfl, rfl⟩, rfl⟩

theorem collect_member (inner : Reader Json) (acc : List (String × Json)) :
    (do
      let k ← key
      colon
      return (k, ← inner) :: acc) = collect (member inner) acc := by
  refine Reader.ext fun s => ?_
  simp only [collect, member, run_bind]
  cases key.run s with
  | error e => rfl
  | ok p =>
    dsimp only
    cases colon.run p.2 with
    | error e => rfl
    | ok q =>
      dsimp only
      cases inner.run q.2 <;> rfl

section Values

variable {d : Nat} {s t r : Text} {j : Json}

theorem run_value_list (h : trimSpace s = .char '[' :: t) :
    (value (d + 1)).run s =
      ((fun items => .arr items.reverse) <$> separated .list (collect (value d)) []).run t := by
  simp only [value, valueWith, run_bind, run_space, run_left, h]
  rfl

theorem run_value_object (h : trimSpace s = .char '{' :: t) :
    (value (d + 1)).run s =
      ((fun ms => .obj ms.reverse) <$> separated .object (collect (member (value d))) []).run t := by
  simp only [value, valueWith, run_bind, run_space, run_left, h, collect_member]
  rfl

theorem run_value_scalar {g : Glyph} {scalar : Reader Json} (h : trimSpace s = g :: t)
    (hscalar : scalar? g = some scalar) : (value d).run s = scalar.run (g :: t) := by
  have hlist : g ≠ .char '[' := by
    rintro rfl
    cases hscalar
  have hobject : g ≠ .char '{' := by
    rintro rfl
    cases hscalar
  have hwith : ∀ inner, (valueWith inner).run s = scalar.run (g :: t) := by
    intro inner
    simp only [valueWith, run_bind, run_space, run_left, h]
    split
    case h_6 heq _ _ _ _ =>
      cases heq
      simp only [hscalar]
    all_goals simp_all
  cases d <;> exact hwith _

theorem run_value_nil (h : trimSpace s = []) : (value d).run s ≠ .ok (j, r) := by
  cases d <;> simp [value, valueWith, h]

theorem run_value_zero {g : Glyph} (h : trimSpace s = g :: t) (hscalar : scalar? g = none) :
    (value 0).run s ≠ .ok (j, r) := by
  intro hrun
  simp only [value, valueWith, run_bind, run_space, run_left, h] at hrun
  split at hrun <;> simp_all

theorem run_value_other {g : Glyph} (h : trimSpace s = g :: t) (hscalar : scalar? g = none)
    (hlist : g ≠ .char '[') (hobject : g ≠ .char '{') :
    (value (d + 1)).run s ≠ .ok (j, r) := by
  intro hrun
  simp only [value, valueWith, run_bind, run_space, run_left, h] at hrun
  split at hrun <;> simp_all

/-- From the glyph `g` before the text on, a scalar is read, after which `r` is left. -/
inductive ScalarAt : (g : Glyph) → Text → Json → (r : Text) → Prop where
  | null {t r : Text} (rest : (word ['u', 'l', 'l']).run t = .ok ((), r)) :
      ScalarAt (.char 'n') t .null r
  | bool {c : Char} {t r : Text} (b : Bool) (letter : c = 't' ∨ c = 'f') :
      ScalarAt (.char c) t (.bool b) r
  | str {t r : Text} {v : String} (rest : quotation.run t = .ok (v, r)) :
      ScalarAt (.char '"') t (.str v) r
  | negative {t r : Text} {n : Number} (rest : (numeral true).run t = .ok (n, r)) :
      ScalarAt (.char '-') t (.num n) r
  | number {c : Char} {t r : Text} {n : Number} (digit : c.isDigit = true)
      (all : (numeral false).run (.char c :: t) = .ok (n, r)) : ScalarAt (.char c) t (.num n) r

theorem scalarAt {g : Glyph} {scalar : Reader Json} (hscalar : scalar? g = some scalar)
    (hrun : scalar.run (g :: t) = .ok (j, r)) : ScalarAt g t j r := by
  unfold scalar? at hscalar
  split at hscalar
  case h_7 => cases hscalar
  case h_6 =>
    split at hscalar
    · rename_i hdigit
      cases hscalar
      obtain ⟨n, hn, rfl⟩ := run_map_eq_ok_iff.mp hrun
      exact .number hdigit hn
    · cases hscalar
  all_goals
    cases hscalar
    obtain ⟨⟨⟩, _, hskip, hrun⟩ := run_bind_eq_ok_iff.mp hrun
    cases hskip
    obtain ⟨v, hv, rfl⟩ := run_map_eq_ok_iff.mp hrun
  · exact .null hv
  · exact .bool _ (.inl rfl)
  · exact .bool _ (.inr rfl)
  · exact .str hv
  · exact .negative hv

/-- How a value starts, and what is read of it after that. -/
theorem run_value_eq_ok_iff :
    (value d).run s = .ok (j, r) ↔
      (∃ e t items, d = e + 1 ∧ trimSpace s = .char '[' :: t ∧
        Items .list (value e) true t items r ∧ .arr items = j) ∨
      (∃ e t ms, d = e + 1 ∧ trimSpace s = .char '{' :: t ∧
        Items .object (member (value e)) true t ms r ∧ .obj ms = j) ∨
      (∃ g t scalar, trimSpace s = g :: t ∧ scalar? g = some scalar ∧
        scalar.run (g :: t) = .ok (j, r)) := by
  constructor
  · intro h
    cases hs : trimSpace s with
    | nil => exact absurd h (run_value_nil hs)
    | cons g t =>
      cases hscalar : scalar? g with
      | some scalar =>
        rw [run_value_scalar hs hscalar] at h
        exact .inr (.inr ⟨g, t, scalar, rfl, hscalar, h⟩)
      | none =>
        cases d with
        | zero => exact absurd h (run_value_zero hs hscalar)
        | succ e =>
          by_cases hlist : g = .char '['
          · subst hlist
            rw [run_value_list hs] at h
            obtain ⟨items, hitems, rfl⟩ := (run_map_separated_collect _ _).mp h
            exact .inl ⟨e, t, items, rfl, rfl, hitems, rfl⟩
          by_cases hobject : g = .char '{'
          · subst hobject
            rw [run_value_object hs] at h
            obtain ⟨ms, hms, rfl⟩ := (run_map_separated_collect _ _).mp h
            exact .inr (.inl ⟨e, t, ms, rfl, rfl, hms, by simp⟩)
          · exact absurd h (run_value_other hs hscalar hlist hobject)
  · rintro (⟨e, t, items, rfl, hs, hitems, rfl⟩ | ⟨e, t, ms, rfl, hs, hms, rfl⟩ | ⟨g, t, scalar, hs, hscalar, hrun⟩)
    · rw [run_value_list hs]
      exact (run_map_separated_collect _ _).mpr ⟨items, hitems, rfl⟩
    · rw [run_value_object hs]
      exact (run_map_separated_collect _ _).mpr ⟨ms, hms, rfl⟩
    · rw [run_value_scalar hs hscalar, hrun]

/-- What stands at the front of a text, by the glyph that it starts with. -/
inductive ValueAt (s : Text) : Json → (r : Text) → Prop where
  | list {e : Nat} {t r : Text} {items : List Json} (start : trimSpace s = .char '[' :: t)
      (rest : Items .list (value e) true t items r) : ValueAt s (.arr items) r
  | object {e : Nat} {t r : Text} {ms : List (String × Json)} (start : trimSpace s = .char '{' :: t)
      (rest : Items .object (member (value e)) true t ms r) : ValueAt s (.obj ms) r
  | scalar {g : Glyph} {t r : Text} {j : Json} (start : trimSpace s = g :: t)
      (scalar : ScalarAt g t j r) : ValueAt s j r

theorem valueAt (h : (value d).run s = .ok (j, r)) :
    ValueAt s j r := by
  rcases run_value_eq_ok_iff.mp h with ⟨e, t, items, -, hs, hitems, rfl⟩ |
    ⟨e, t, ms, -, hs, hms, rfl⟩ | ⟨g, t, scalar, hs, hscalar, hrun⟩
  · exact .list hs hitems
  · exact .object hs hms
  · exact .scalar hs (scalarAt hscalar hrun)

theorem ScalarAt.ne_bracket {g : Glyph} (h : ScalarAt g t j r) :
    g ≠ .char '[' ∧ g ≠ .char '{' := by
  cases h with
  | null | str | negative => decide
  | bool b letter => rcases letter with rfl | rfl <;> decide
  | number digit =>
    refine ⟨?_, ?_⟩ <;>
    · rintro ⟨⟩
      exact absurd digit (by decide)

/-- The white space before a value may be anything. -/
theorem exists_eq_append_trimSpace (s : Text) :
    ∃ sp, (∀ g ∈ sp, isSpace g = true) ∧ s = sp ++ trimSpace s :=
  ⟨s.takeWhile isSpace, List.all_eq_true.mp List.all_takeWhile,
    List.takeWhile_append_dropWhile.symm⟩

theorem trimSpace_append {sp : Text} (hsp : ∀ g ∈ sp, isSpace g = true) (u : Text) :
    trimSpace (sp ++ u) = trimSpace u :=
  List.dropWhile_append_of_pos hsp

theorem trimSpace_of_trimSpace_eq {g : Glyph} (h : trimSpace s = g :: t) (u : Text) :
    trimSpace (g :: u) = g :: u := by
  have hg : isSpace g = false := by
    have := List.head?_dropWhile_not isSpace s
    rw [show s.dropWhile isSpace = g :: t from h] at this
    simpa using this
  simp [trimSpace, hg]

theorem trimSpace_trimSpace (s : Text) : trimSpace (trimSpace s) = trimSpace s := by
  cases h : trimSpace s with
  | nil => rfl
  | cons g t => exact trimSpace_of_trimSpace_eq h t

/-- White space before a value is passed over. -/
theorem run_value_of_trimSpace_eq (d : Nat) (h : trimSpace s = trimSpace t) :
    (value d).run s = (value d).run t := by
  cases d <;> simp only [value, valueWith, run_bind, run_space, h]

theorem local_value (d : Nat) : (value d).Local := by
  induction d using Nat.strongRecOn with
  | ind d ih =>
    intro s j r h
    obtain ⟨sp, hsp, hs⟩ := exists_eq_append_trimSpace s
    rcases run_value_eq_ok_iff.mp h with ⟨e, t, items, rfl, ht, hitems, rfl⟩ |
      ⟨e, t, ms, rfl, ht, hms, rfl⟩ | ⟨g, t, scalar, ht, hscalar, hrun⟩
    · obtain ⟨cs, rfl, hcs⟩ := hitems.extent (ih e (Nat.lt_succ_self e))
      refine ⟨sp ++ .char '[' :: (cs ++ [.char ']']), ?_, fun u _ => ?_⟩
      · rw [hs, ht]
        simp [Brackets.list]
      · refine run_value_eq_ok_iff.mpr (.inl ⟨e, _, items, rfl, ?_, hcs u, rfl⟩)
        simp [trimSpace_append hsp, trimSpace_of_trimSpace_eq ht, Brackets.list]
    · obtain ⟨cs, rfl, hcs⟩ := hms.extent (ih e (Nat.lt_succ_self e)).member
      refine ⟨sp ++ .char '{' :: (cs ++ [.char '}']), ?_, fun u _ => ?_⟩
      · rw [hs, ht]
        simp [Brackets.object]
      · refine run_value_eq_ok_iff.mpr (.inr (.inl ⟨e, _, ms, rfl, ?_, hcs u, rfl⟩))
        simp [trimSpace_append hsp, trimSpace_of_trimSpace_eq ht, Brackets.object]
    · obtain ⟨cs, hcs, hlocal⟩ := localAt_scalar hscalar t hrun
      refine ⟨sp ++ cs, ?_, fun u hu => ?_⟩
      · rw [hs, ht, hcs, List.append_assoc]
      · obtain ⟨t', ht'⟩ := replaces_cons_iff.mp (hcs ▸ hu.append cs)
        have hspace : trimSpace (sp ++ cs ++ u) = g :: t' := by
          rw [List.append_assoc, trimSpace_append hsp, ht', trimSpace_of_trimSpace_eq ht]
        rw [run_value_scalar hspace hscalar, ← ht']
        exact hlocal u hu

/-- No more than `depth` brackets are open at a time. -/
inductive Shallow : (depth : Nat) → Json → Prop where
  | null {depth : Nat} : Shallow depth .null
  | bool {depth : Nat} (b : Bool) : Shallow depth (.bool b)
  | num {depth : Nat} (n : Number) : Shallow depth (.num n)
  | str {depth : Nat} (s : String) : Shallow depth (.str s)
  | arr {depth : Nat} {items : List Json} (shallow : ∀ j ∈ items, Shallow depth j) :
      Shallow (depth + 1) (.arr items)
  | obj {depth : Nat} {ms : List (String × Json)} (shallow : ∀ m ∈ ms, Shallow depth m.2) :
      Shallow (depth + 1) (.obj ms)

/-- A value needs no more depth than it has. -/
theorem Shallow.run_value {e : Nat} (h : j.Shallow d) (hrun : (value e).run s = .ok (j, r)) :
    (value d).run s = .ok (j, r) := by
  induction e using Nat.strongRecOn generalizing d s j r with
  | ind e ih =>
    rcases run_value_eq_ok_iff.mp hrun with ⟨e, t, items, rfl, ht, hitems, rfl⟩ |
      ⟨e, t, ms, rfl, ht, hms, rfl⟩ | hscalar
    · cases h with
      | @arr d _ shallow =>
        refine run_value_eq_ok_iff.mpr (.inl ⟨d, t, items, rfl, ht, ?_, rfl⟩)
        exact hitems.imp fun j hj _ _ hread => ih e (Nat.lt_succ_self e) (shallow j hj) hread
    · cases h with
      | @obj d _ shallow =>
        refine run_value_eq_ok_iff.mpr (.inr (.inl ⟨d, t, ms, rfl, ht, ?_, rfl⟩))
        refine hms.imp fun m hm _ _ hread => ?_
        obtain ⟨s', s'', hkey, hcolon, hvalue⟩ := run_member_eq_ok_iff.mp hread
        have hvalue := ih e (Nat.lt_succ_self e) (shallow m hm) hvalue
        exact run_member_eq_ok_iff.mpr ⟨s', s'', hkey, hcolon, hvalue⟩
    · exact run_value_eq_ok_iff.mpr (.inr (.inr hscalar))

end Values

end ScanDigest.Json
