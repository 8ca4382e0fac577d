import ScanDigest.Json.Value

/-!
# Passing over a value

A member that nobody asks for is passed over with less care than a value that is read: brackets may
nest to any depth, numbers may have any size, and escapes of surrogates may stand alone.
-/

set_option autoImplicit false

namespace ScanDigest.Json

/-- Digits where at least one has to stand; the end of the text is no other fault here. -/
def passDigits : Reader (List Nat) := do
  let s ← Reader.left
  let ds ← digits
  if ds.isEmpty then Reader.fail (Cause.invalidNumber.here s) else pure ds

/-- Passes over an exponent, if one follows. -/
def passExponent : Reader Unit := do
  match ← Reader.left with
  | .char 'e' :: _ | .char 'E' :: _ =>
    Reader.skip
    let _ ← exponentSign
    let _ ← passDigits
    pure ()
  | _ => pure ()

/-- Passes over a numeral after its sign. -/
def passNumeral : Reader Unit := do
  let s ← Reader.left
  match ← passDigits with
  | 0 :: _ :: _ => Reader.fail (Cause.invalidNumber.here s.tail)
  | _ =>
    match ← Reader.left with
    | .char '.' :: _ =>
      Reader.skip
      let _ ← passDigits
      passExponent
    | _ => passExponent

/-- Passes over an escape after its backslash. -/
def passEscape : Reader Unit := do
  match ← Reader.left with
  | [] => Reader.fail (Cause.stringEnds.here [])
  | g :: r =>
    Reader.skip
    if g = .char 'u' then
      let _ ← hexUnit
    else if (shortEscape? g).isNone then
      Reader.fail (Cause.invalidEscape.here (g :: r))

/-- Passes over a string after its opening quote. -/
def passQuoted (s : Text) : Except Fault (Unit × Text) :=
  match s with
  | [] => .error (Cause.stringEnds.here [])
  | g :: r =>
    if g = .char '"' then .ok ((), r)
    else if g = .char '\\' then
      match _he : passEscape.run r with
      | .error e => .error e
      | .ok ((), t) => passQuoted t
    else if isControl g then .error (Cause.controlCharacter.before (g :: r))
    else passQuoted r
termination_by s.length
decreasing_by
  · exact Nat.lt_succ_of_le (passEscape.keeps _he)
  · exact Nat.lt_succ_self _

theorem length_passQuoted_le {u : Unit} {s r : Text} (h : passQuoted s = .ok (u, r)) :
    r.length ≤ s.length := by
  fun_induction passQuoted s with
  | case1 | case3 | case5 => cases h
  | case2 => cases h; simp
  | case4 r _ he _ ih =>
    exact Nat.le_trans (ih h) (Nat.le_trans (passEscape.keeps he) (Nat.le_succ _))
  | case6 g r _ _ _ ih => exact Nat.le_trans (ih h) (Nat.le_succ _)

/-- Passes over a string after its opening quote. -/
def passString : Reader Unit := ⟨passQuoted, length_passQuoted_le⟩

/-- Passes over a scalar that starts with the glyph. -/
def passScalar (g : Glyph) : Reader Unit := do
  if g = .char '"' then
    Reader.skip
    passString
  else if g = .char '-' then
    Reader.skip
    passNumeral
  else if (digit? g).isSome then passNumeral
  else match scalar? g with
    | some scalar =>
      let _ ← scalar
    | none => Reader.fail (Cause.noValue.here (← Reader.left))

/-- In an object, passes over the key before a value, and its colon. -/
def passKey (b : Brackets) : Reader Unit := do
  if b.close = '}' then
    space
    match ← Reader.left with
    | [] => Reader.fail (b.ends.here [])
    | .char '"' :: _ =>
      Reader.skip
      passString
      colon
    | s => Reader.fail (Cause.keyNotString.here s)

/-- The brackets that a glyph opens. -/
def opens? (g : Glyph) : Option Brackets :=
  if g = .char '[' then some .list else if g = .char '{' then some .object else none

/-- After an opening bracket, passes over the closing one, or up to the first value. -/
def passOpening (b : Brackets) : Reader (Option Brackets) := do
  space
  match ← Reader.left with
  | [] => Reader.fail (b.ends.here [])
  | g :: _ =>
    if g = .char b.close then
      Reader.skip
      pure none
    else
      passKey b
      pure (some b)

/-- Passes over a scalar or an empty pair of brackets, or up to the first value between brackets;
these are then open. -/
def passHead : Reader (Option Brackets) := do
  space
  match ← Reader.left with
  | [] => Reader.fail (Cause.valueEnds.here [])
  | g :: _ =>
    match opens? g with
    | some b =>
      Reader.skip
      passOpening b
    | none =>
      passScalar g
      pure none

theorem length_passHead_lt {b : Brackets} {s r : Text} (h : passHead.run s = .ok (some b, r)) :
    r.length < s.length := by
  have hs := length_trimSpace_le s
  simp only [passHead, Reader.run_bind, run_space, Reader.run_left] at h
  split at h
  · cases h
  · rename_i g t heq
    rw [heq] at hs h
    split at h
    · simp only [Reader.run_bind, Reader.run_skip, List.tail_cons] at h
      exact Nat.lt_of_le_of_lt ((passOpening _).keeps h) hs
    · simp only [Reader.run_bind] at h
      split at h
      · cases h
      · cases h

/-- Passes over the comma after a value, and the key after it, or over the closing bracket; says
whether a value follows. -/
def passSeparator (b : Brackets) : Reader Bool := do
  space
  match ← Reader.left with
  | [] => Reader.fail (b.ends.here [])
  | g :: r =>
    Reader.skip
    if g = .char b.close then pure false
    else if g = .char ',' then
      passKey b
      pure true
    else Reader.fail (b.noSeparator.here (g :: r))

theorem length_passSeparator_lt {b : Brackets} {more : Bool} {s r : Text}
    (h : (passSeparator b).run s = .ok (more, r)) : r.length < s.length := by
  have hs := length_trimSpace_le s
  simp only [passSeparator, Reader.run_bind, run_space, Reader.run_left] at h
  split at h
  · cases h
  · rename_i g t heq
    rw [heq] at hs h
    simp only [Reader.run_bind, Reader.run_skip, List.tail_cons] at h
    split at h
    · cases h
      exact hs
    · split at h
      · simp only [Reader.run_bind] at h
        split at h
        · rename_i u t' hk
          cases h
          exact Nat.lt_of_le_of_lt ((passKey b).keeps hk) hs
        · cases h
      · cases h

mutual

/-- Passes over a value and what follows it in the brackets that are open. -/
def passValue (opened : List Brackets) (s : Text) : Except Fault (Unit × Text) :=
  match _h : passHead.run s with
  | .error e => .error e
  | .ok (some b, r) => passValue (b :: opened) r
  | .ok (none, r) => passRest opened r
termination_by (s.length, 1)
decreasing_by
  · exact Prod.Lex.left _ _ (length_passHead_lt _h)
  · rcases Nat.lt_or_eq_of_le (passHead.keeps _h) with hlt | heq
    · exact Prod.Lex.left _ _ hlt
    · rw [heq]; exact Prod.Lex.right _ Nat.one_pos

/-- Passes over what follows a value in the brackets that are open. -/
def passRest (opened : List Brackets) (s : Text) : Except Fault (Unit × Text) :=
  match opened with
  | [] => .ok ((), s)
  | b :: outer =>
    match _h : (passSeparator b).run s with
    | .error e => .error e
    | .ok (true, r) => passValue (b :: outer) r
    | .ok (false, r) => passRest outer r
termination_by (s.length, 0)
decreasing_by all_goals exact Prod.Lex.left _ _ (length_passSeparator_lt _h)

end

theorem length_pass_le :
    (∀ (opened : List Brackets) (s : Text) {u : Unit} {r : Text},
      passValue opened s = .ok (u, r) → r.length ≤ s.length) ∧
    (∀ (opened : List Brackets) (s : Text) {u : Unit} {r : Text},
      passRest opened s = .ok (u, r) → r.length ≤ s.length) := by
  apply passValue.mutual_induct
    (fun opened s => ∀ {u : Unit} {r : Text}, passValue opened s = .ok (u, r) →
      r.length ≤ s.length)
    (fun opened s => ∀ {u : Unit} {r : Text}, passRest opened s = .ok (u, r) →
      r.length ≤ s.length)
  · intro opened s e hp u r h
    rw [passValue] at h
    split at h <;> simp_all
  · intro opened s b t hp ih u r h
    have h' : passValue (b :: opened) t = .ok (u, r) := by
      rw [passValue] at h
      split at h <;> simp_all
    exact Nat.le_trans (ih h') (passHead.keeps hp)
  · intro opened s t hp ih u r h
    have h' : passRest opened t = .ok (u, r) := by
      rw [passValue] at h
      split at h <;> simp_all
    exact Nat.le_trans (ih h') (passHead.keeps hp)
  · intro s u r h
    rw [passRest] at h
    cases h
    exact Nat.le_refl _
  · intro s b outer e hp u r h
    rw [passRest] at h
    split at h <;> simp_all
  · intro s b outer t hp ih u r h
    have h' : passValue (b :: outer) t = .ok (u, r) := by
      rw [passRest] at h
      split at h <;> simp_all
    exact Nat.le_trans (ih h') ((passSeparator b).keeps hp)
  · intro s b outer t hp ih u r h
    have h' : passRest outer t = .ok (u, r) := by
      rw [passRest] at h
      split at h <;> simp_all
    exact Nat.le_trans (ih h') ((passSeparator b).keeps hp)

/-- Passes over a value. -/
def pass : Reader Unit := ⟨passValue [], length_pass_le.1 [] _⟩

end ScanDigest.Json
