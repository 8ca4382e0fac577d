import ScanDigest.Json.Fault

/-!
# Readers

A `Reader` takes a value off the front of a text, or says what is wrong with it. It never makes the
text longer (`Reader.keeps`), so a loop that takes at least a separator on each round ends:
`separated` reads the items between two brackets on that ground.
-/

set_option autoImplicit false

namespace ScanDigest.Json

structure Reader (α : Type) where
  run : Text → Except Fault (α × Text)
  keeps : ∀ {s : Text} {a : α} {r : Text}, run s = .ok (a, r) → r.length ≤ s.length

namespace Reader

variable {α β : Type}

/-- Reads nothing. -/
def done (a : α) : Reader α where
  run s := .ok (a, s)
  keeps h := by cases h; exact Nat.le_refl _

/-- Reads with the one, then with the other on what is left. -/
def andThen (x : Reader α) (f : α → Reader β) : Reader β where
  run s := match x.run s with
    | .ok (a, r) => (f a).run r
    | .error e => .error e
  keeps {s b t} h := by
    split at h
    · rename_i a r hx
      exact Nat.le_trans ((f a).keeps h) (x.keeps hx)
    · cases h

instance : Monad Reader where
  pure := done
  bind := andThen

/-- Finds a fault. -/
def fail (e : Fault) : Reader α where
  run _ := .error e
  keeps h := by cases h

/-- What is left of the text, without reading any of it. -/
def left : Reader Text where
  run s := .ok (s, s)
  keeps h := by cases h; exact Nat.le_refl _

/-- Passes over a glyph. -/
def skip : Reader Unit where
  run s := .ok ((), s.tail)
  keeps {s a r} h := by cases h; simp

@[simp] theorem run_pure (a : α) (s : Text) : (pure a : Reader α).run s = .ok (a, s) := rfl

@[simp] theorem run_bind (x : Reader α) (f : α → Reader β) (s : Text) :
    (x >>= f).run s = match x.run s with
      | .ok (a, r) => (f a).run r
      | .error e => .error e := rfl

@[simp] theorem run_map (f : α → β) (x : Reader α) (s : Text) :
    (f <$> x).run s = match x.run s with
      | .ok (a, r) => .ok (f a, r)
      | .error e => .error e := rfl

@[simp] theorem run_fail (e : Fault) (s : Text) : (fail e : Reader α).run s = .error e := rfl

@[simp] theorem run_left (s : Text) : left.run s = .ok (s, s) := rfl

@[simp] theorem run_skip (s : Text) : skip.run s = .ok ((), s.tail) := rfl

end Reader

/-! ## Places -/

/-- A fault at the first byte of `s`, or at the end of the text if nothing is left. -/
def Cause.here (c : Cause) (s : Text) : Fault := ⟨c, some (s.size - 1)⟩

/-- A fault of what was read before `s`. -/
def Cause.before (c : Cause) (s : Text) : Fault := ⟨c, some s.size⟩

/-! ## White space -/

/-- The white space of documents. -/
def isSpace (g : Glyph) : Bool :=
  g == .char ' ' || g == .char '\n' || g == .char '\t' || g == .char '\r'

/-- A text without the white space before it. -/
def trimSpace (s : Text) : Text := s.dropWhile isSpace

theorem length_trimSpace_le (s : Text) : (trimSpace s).length ≤ s.length :=
  (List.dropWhile_sublist _).length_le

/-- Passes over white space. -/
def space : Reader Unit where
  run s := .ok ((), trimSpace s)
  keeps {s a r} h := by cases h; exact length_trimSpace_le s

@[simp] theorem run_space (s : Text) : space.run s = .ok ((), trimSpace s) := rfl

/-! ## Items between brackets -/

/-- A pair of brackets, after the opening one. -/
structure Brackets where
  close : Char
  /-- The text ends where a separator or the closing bracket may stand. -/
  ends : Cause
  /-- Something else stands there. -/
  noSeparator : Cause

def Brackets.list : Brackets := ⟨']', .listEnds, .noListSeparator⟩

def Brackets.object : Brackets := ⟨'}', .objectEnds, .noObjectSeparator⟩

/-- Reads up to the next item between brackets: over the comma before it, unless it is the first.
Says whether there is one; the closing bracket is not read. -/
def another (b : Brackets) (first : Bool) : Reader Bool := do
  space
  match ← Reader.left with
  | [] => Reader.fail (b.ends.here [])
  | g :: r =>
    if g = .char b.close then pure false
    else if first then pure true
    else if g = .char ',' then
      Reader.skip
      space
      match ← Reader.left with
      | [] => Reader.fail (Cause.valueEnds.here [])
      | g' :: r' =>
        if g' = .char b.close then Reader.fail (Cause.trailingComma.here (g' :: r'))
        else pure true
    else Reader.fail (b.noSeparator.here (g :: r))

theorem length_another_lt {b : Brackets} {s r : Text}
    (h : (another b false).run s = .ok (true, r)) : r.length < s.length := by
  have hs := length_trimSpace_le s
  simp only [another, Reader.run_bind, run_space, Reader.run_left] at h
  split at h
  · cases h
  · rename_i g t heq
    rw [heq] at hs h
    have ht := length_trimSpace_le t
    split at h
    · cases h
    · simp only [Bool.false_eq_true, ↓reduceIte] at h
      split at h
      · simp only [Reader.run_bind, Reader.run_skip, List.tail_cons, run_space,
          Reader.run_left] at h
        split at h
        · cases h
        · split at h
          · cases h
          · cases h
            exact Nat.lt_of_le_of_lt ht hs
      · cases h

/-- Reads further items and the closing bracket of a text. -/
def moreItems {σ : Type} (b : Brackets) (item : σ → Reader σ) (acc : σ) (s : Text) :
    Except Fault (σ × Text) :=
  match _ha : (another b false).run s with
  | .error e => .error e
  | .ok (false, r) => .ok (acc, r.tail)
  | .ok (true, r) =>
    match _hi : (item acc).run r with
    | .error e => .error e
    | .ok (acc, t) => moreItems b item acc t
termination_by s.length
decreasing_by exact Nat.lt_of_le_of_lt ((item _).keeps _hi) (length_another_lt _ha)

theorem length_moreItems_le {σ : Type} {b : Brackets} {item : σ → Reader σ} {acc acc' : σ}
    {s t : Text} (h : moreItems b item acc s = .ok (acc', t)) : t.length ≤ s.length := by
  fun_induction moreItems b item acc s with
  | case1 => cases h
  | case2 acc s r ha =>
    cases h
    exact Nat.le_trans (by simp) ((another b false).keeps ha)
  | case3 => cases h
  | case4 acc s r ha acc₁ t₁ hi ih =>
    exact Nat.le_trans (ih h) (Nat.le_trans ((item _).keeps hi) ((another b false).keeps ha))

/-- Reads further items up to and with the closing bracket. -/
def furtherItems {σ : Type} (b : Brackets) (item : σ → Reader σ) (acc : σ) : Reader σ :=
  ⟨moreItems b item acc, length_moreItems_le⟩

/-- Reads the items between brackets, the opening one already read: none, or items with commas
between them. Each item starts from what the items before it gave. -/
def separated {σ : Type} (b : Brackets) (item : σ → Reader σ) (acc : σ) : Reader σ := do
  if ← another b true then
    let acc ← item acc
    furtherItems b item acc
  else
    Reader.skip
    pure acc

end ScanDigest.Json
