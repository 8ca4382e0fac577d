/-!
# Checks in sequence

A check throws or lets the next one go on. `simp` turns the success of a sequence of checks into
what each of them asks for.
-/

set_option autoImplicit false

namespace ScanDigest

section

variable {ε ε' α β : Type}

/-- A sequence succeeds if each of its steps does. -/
@[simp] theorem bind_eq_ok {x : Except ε α} {f : α → Except ε β} {b : β} :
    (x >>= f) = .ok b ↔ ∃ a, x = .ok a ∧ f a = .ok b := by
  cases x <;> simp [bind, Except.bind]

@[simp] theorem map_eq_ok {x : Except ε α} {f : α → β} {b : β} :
    (f <$> x) = .ok b ↔ ∃ a, x = .ok a ∧ f a = b := by
  cases x <;> simp [Functor.map, Except.map]

@[simp] theorem pure_eq_ok {a b : α} : (pure a : Except ε α) = .ok b ↔ a = b := by
  simp [pure, Except.pure]

/-- What comes after a failure does not count. -/
@[simp] theorem throw_bind {e : ε} {f : α → Except ε β} : (throw e >>= f) = throw e := rfl

/-- A check lets the rest go on where it does not throw. -/
@[simp] theorem guard_eq_ok {p : Prop} [Decidable p] {e : ε} {k : Except ε α} {b : α} :
    (if p then throw e else k) = .ok b ↔ ¬p ∧ k = .ok b := by
  by_cases hp : p <;> simp [hp]

/-- A check that succeeds says nothing more. -/
@[simp] theorem exists_unit_eq_ok {x : Except ε Unit} : (∃ u, x = .ok u) ↔ x = .ok () :=
  ⟨fun ⟨(), h⟩ => h, fun h => ⟨(), h⟩⟩

theorem toOption_eq_some_iff {x : Except ε α} {a : α} : x.toOption = some a ↔ x = .ok a := by
  cases x <;> simp [Except.toOption]

theorem toOption_eq_none_iff {x : Except ε α} : x.toOption = none ↔ ∃ e, x = .error e := by
  cases x <;> simp [Except.toOption]

/-! ## The same checks with other failures -/

section

variable {g : ε → ε'}

@[simp] theorem mapError_eq_ok {x : Except ε α} {a : α} : x.mapError g = .ok a ↔ x = .ok a := by
  cases x with
  | error e => constructor <;> (intro h; cases h)
  | ok b => constructor <;> (intro h; cases h; rfl)

@[simp] theorem mapError_bind {x : Except ε α} {f : α → Except ε β} :
    (x >>= f).mapError g = x.mapError g >>= fun a => (f a).mapError g := by
  cases x <;> rfl

@[simp] theorem mapError_map {x : Except ε α} {f : α → β} :
    (f <$> x).mapError g = f <$> x.mapError g := by
  cases x <;> rfl

@[simp] theorem mapError_pure {a : α} : (pure a : Except ε α).mapError g = pure a := rfl

@[simp] theorem mapError_throw {e : ε} : (throw e : Except ε α).mapError g = throw (g e) := rfl

@[simp] theorem mapError_ite {p : Prop} [Decidable p] {x y : Except ε α} :
    (if p then x else y).mapError g = if p then x.mapError g else y.mapError g := by
  split <;> rfl

end

end

end ScanDigest
