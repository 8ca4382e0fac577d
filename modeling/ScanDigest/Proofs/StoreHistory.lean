import Mathlib.Data.List.Induction
import ScanDigest.Event.Step
import ScanDigest.Proofs.KeyByKey

/-!
# Histories of a store

What a store holds is told from the steps that were taken, without running them. An event is
current under a key (`Store.Current`) if the last step that put or removed something there has put
it, and the changes since then are made. A step either decides what is under a key, whatever was
there, or changes the event that is there (`Store.get?_step`), and the same holds of what is current
(`Store.current_concat`), so the store holds what is current (`Store.get?_after_eq_some_iff`).
-/

set_option autoImplicit false

namespace ScanDigest

namespace Store

/-! ## Steps, seen from a key -/

namespace Step

/-- The key that a step is about. -/
def key : Step → EventKey
  | .put e => e.key
  | .has k | .get k | .retag k _ | .append k _ | .remove k => k

/-- The step puts an event under the key or removes what is there. -/
def Settles (k : EventKey) : Step → Prop
  | .put e => e.key = k
  | .remove l => l = k
  | .has _ | .get _ | .retag _ _ | .append _ _ => False

instance (k : EventKey) : (x : Step) → Decidable (x.Settles k)
  | .put e => inferInstanceAs (Decidable (e.key = k))
  | .remove l => inferInstanceAs (Decidable (l = k))
  | .has _ | .get _ | .retag _ _ | .append _ _ => inferInstanceAs (Decidable False)

/-- What is under a key after a step that settles it. -/
def leaves : Step → Option Event
  | .put e => some e
  | .has _ | .get _ | .retag _ _ | .append _ _ | .remove _ => none

/-- The event under a key after a step that does not settle it. -/
def edit (k : EventKey) (e : Event) : Step → Event
  | .retag l c => if l = k then { e with category := c } else e
  | .append l x => if l = k then { e with dataset := e.dataset ++ [x] } else e
  | .put _ | .has _ | .get _ | .remove _ => e

/-- What a step answers if this is under its key. -/
def answer (current : Option Event) : Step → Answer
  | .put _ | .get _ | .remove _ => .event current
  | .has _ | .retag _ _ => .found current.isSome
  | .append k x => .items (current.map fun e => (edit k e (.append k x)).itemCount)

end Step

variable (s : Store)

/-- After a step a key has what the step left, or its event edited. -/
theorem get?_step (x : Step) (k : EventKey) : (s.step x).2.get? k =
    if x.Settles k then x.leaves else (s.get? k).map fun e => x.edit k e := by
  cases x with
  | put e => simp [step, get?_put, Step.Settles, Step.leaves, Step.edit]
  | remove l => simp [step, get?_remove, Step.Settles, Step.leaves, Step.edit]
  | has l => simp [step, Step.Settles, Step.edit]
  | get l => simp [step, Step.Settles, Step.edit]
  | retag l c => by_cases h : l = k <;> simp [step, retag, get?_modify, Step.Settles, Step.edit, h]
  | append l e => by_cases h : l = k <;> simp [step, append, get?_modify, Step.Settles, Step.edit, h]

theorem answer_step (x : Step) : (s.step x).1 = x.answer (s.get? x.key) := by
  cases x with
  | put e => rfl
  | get k => rfl
  | remove k => rfl
  | has k => exact congrArg Answer.found (s.has_eq k)
  | retag k c => exact congrArg Answer.found (s.has_eq k)
  | append k x =>
    have happended : (s.append k x).get? k = (s.get? k).map fun e => Step.edit k e (.append k x) :=
      get?_step s (.append k x) k
    simp only [step, Step.answer, Step.key, happended, Option.map_map]
    rfl

/-! ## What is current -/

/-- The event is current under the key: it was put there, no later step has put or removed anything
there, and it shows what was retagged and appended there since. -/
def Current (steps : List Step) (k : EventKey) (e : Event) : Prop :=
  ∃ before first since, steps = before ++ .put first :: since ∧ first.key = k ∧
    (∀ x ∈ since, ¬x.Settles k) ∧ e = since.foldl (Step.edit k) first

theorem not_current_nil (k : EventKey) (e : Event) : ¬Current [] k e := by
  rintro ⟨before, first, since, h, -⟩
  simp at h

/-- A step at the end leaves what is current, or edits it. -/
theorem current_concat {steps : List Step} {x : Step} {k : EventKey} {e : Event} :
    Current (steps ++ [x]) k e ↔
      if x.Settles k then x.leaves = some e else ∃ f, Current steps k f ∧ x.edit k f = e := by
  constructor
  · rintro ⟨before, first, since, h, hkey, hsince, rfl⟩
    rcases List.eq_nil_or_concat' since with rfl | ⟨since, y, rfl⟩
    · -- the step is the put itself
      obtain ⟨rfl, rfl⟩ : steps = before ∧ x = .put first := by simpa using h
      have hsettles : (Step.put first).Settles k := hkey
      rw [if_pos hsettles]
      rfl
    · rw [← List.cons_append, ← List.append_assoc] at h
      obtain ⟨rfl, hxy⟩ := List.append_inj' h rfl
      obtain rfl := List.singleton_inj.1 hxy
      rw [if_neg (hsince x (by simp))]
      exact ⟨_, ⟨before, first, since, rfl, hkey, fun z hz => hsince z (by simp [hz]), rfl⟩,
        by simp⟩
  · split
    · rename_i hsettles
      intro hleaves
      cases x with
      | put f =>
        obtain rfl : f = e := Option.some_inj.1 hleaves
        exact ⟨steps, f, [], rfl, hsettles, by simp, rfl⟩
      | _ => cases hleaves
    · rename_i hsettles
      rintro ⟨f, ⟨before, first, since, rfl, hkey, hsince, rfl⟩, rfl⟩
      refine ⟨before, first, since ++ [x], by simp, hkey, fun y hy => ?_, by simp⟩
      rcases List.mem_append.1 hy with hy | hy
      · exact hsince y hy
      · rwa [List.mem_singleton.1 hy]

/-- A store holds what is current. -/
theorem get?_after_eq_some_iff {steps : List Step} {k : EventKey} {e : Event} :
    ((∅ : Store).after steps).get? k = some e ↔ Current steps k e := by
  -- by the last step: what came before it is all that it can edit
  induction steps using List.reverseRecOn generalizing e with
  | nil =>
    refine iff_of_false (fun h => ?_) (not_current_nil k e)
    cases (get?_empty k).symm.trans h
  | append_singleton steps x ih =>
    rw [current_concat, after_append, after_cons, after_nil, get?_step]
    split
    · rfl
    · simp only [Option.map_eq_some_iff, ih]

/-! ## Which keys are there -/

/-- Only a removal takes a key away. -/
theorem has_step {s : Store} {x : Step} {k : EventKey} (h : s.has k) (hx : x ≠ .remove k) :
    (s.step x).2.has k := by
  rw [has_eq, get?_step]
  split
  · rename_i hsettles
    cases x with
    | put e => rfl
    | remove l => exact absurd (congrArg Step.remove hsettles) hx
    | _ => cases hsettles
  · rwa [Option.isSome_map, ← has_eq]

theorem has_after {s : Store} {steps : List Step} {k : EventKey} (h : s.has k)
    (hsteps : .remove k ∉ steps) : (s.after steps).has k := by
  induction steps generalizing s with
  | nil => exact h
  | cons x steps ih =>
    rw [List.mem_cons, not_or] at hsteps
    exact ih (has_step h (Ne.symm hsteps.1)) hsteps.2

/-- A key is there if something was put under it and not removed since. -/
theorem has_after_iff {steps : List Step} {k : EventKey} : ((∅ : Store).after steps).has k ↔
    ∃ before e since, steps = before ++ .put e :: since ∧ e.key = k ∧ .remove k ∉ since := by
  constructor
  · intro h
    rw [has_eq] at h
    obtain ⟨e, he⟩ := Option.isSome_iff_exists.1 h
    obtain ⟨before, first, since, hsteps, hkey, hsince, -⟩ := get?_after_eq_some_iff.1 he
    exact ⟨before, first, since, hsteps, hkey, fun hremove => hsince _ hremove rfl⟩
  · rintro ⟨before, e, since, rfl, rfl, hremove⟩
    rw [after_append, after_cons]
    refine has_after ?_ hremove
    simp [step, has_eq, get?_put]

/-- The events of a store are those that stand under some key. -/
theorem mem_events_iff_exists {e : Event} : e ∈ s.events ↔ ∃ k, s.get? k = some e := by
  rw [mem_events_iff]
  refine ⟨fun he => ⟨e.key, he⟩, fun ⟨k, he⟩ => ?_⟩
  obtain rfl := s.keyed he
  exact he

/-! ## Answers -/

/-- What a store answers to some steps, one after the other. -/
def answers (s : Store) : List Step → List Answer
  | [] => []
  | x :: steps => (s.step x).1 :: (s.step x).2.answers steps

/-- Each step is answered by what the steps before it left under its key. -/
theorem answers_eq (steps : List Step) : s.answers steps =
    steps.mapIdx fun i x => x.answer ((s.after (steps.take i)).get? x.key) := by
  induction steps generalizing s with
  | nil => rfl
  | cons x steps ih =>
    simp only [answers, answer_step, ih, List.mapIdx_cons, List.take_zero, List.take_succ_cons,
      after_nil, after_cons]

end Store

/-- **A store is its history.** A key is there if an event was put under it and the key was not
removed since. Its event is the last one put there, with what was retagged and appended there since,
and still has that key. Every step is answered by what was current before it; so putting and
removing give back the event that was there. The size is the number of keys that are there, and the
events are those that are current, in ascending order of their keys. -/
theorem store_history (steps : List Store.Step) :
    let s := (∅ : Store).after steps
    (∀ k, s.has k ↔
      ∃ before e since, steps = before ++ .put e :: since ∧ e.key = k ∧ .remove k ∉ since) ∧
    (∀ k e, s.get? k = some e ↔ Store.Current steps k e) ∧
    (∀ k, ∀ e ∈ s.get? k, e.key = k) ∧
    (∅ : Store).answers steps =
      (steps.mapIdx fun i x => x.answer (((∅ : Store).after (steps.take i)).get? x.key)) ∧
    {k | s.has k}.encard = s.size ∧
    (∀ e, e ∈ s.events ↔ ∃ k, s.get? k = some e) ∧
    s.events.Pairwise fun a b => compare a.key b.key = .lt := by
  intro s
  have hsize : {k | s.has k}.encard = s.size := by
    simp only [s.has_eq, s.encard_keys]
  exact ⟨fun k => Store.has_after_iff, fun k e => Store.get?_after_eq_some_iff,
    fun k e he => s.keyed he, Store.answers_eq ∅ steps, hsize,
    fun e => s.mem_events_iff_exists, s.ordered_events⟩

/-- What was appended before a removal is lost with the event; what is done to the event that is put
after it stays. -/
theorem store_history_readded :
    let project : ProjectVersion := ⟨"p", "1", "/pv/1"⟩
    let k : EventKey := ⟨"k"⟩
    let first : Event := ⟨k, .violation, project, []⟩
    let second : Event := ⟨k, .override, project, [⟨"RULE", "A"⟩]⟩
    let other : Event := ⟨⟨"l"⟩, .vulnerability, project, []⟩
    let s := (∅ : Store).after [.put first, .append k ⟨"", "2"⟩, .remove k, .put second, .put other,
      .retag k .cleared, .append k ⟨"", "3"⟩, .remove other.key]
    s.has k ∧ ∃ e, s.get? k = some e ∧ e.key = k ∧ e.category = .cleared ∧
      e.dataset = [⟨"RULE", "A"⟩, ⟨"", "3"⟩] := by
  intro project k first second other s
  obtain ⟨hhas, hget, hkey, -⟩ := store_history [.put first, .append k ⟨"", "2"⟩, .remove k,
    .put second, .put other, .retag k .cleared, .append k ⟨"", "3"⟩, .remove other.key]
  let before : List Store.Step := [.put first, .append k ⟨"", "2"⟩, .remove k]
  let since : List Store.Step :=
    [.put other, .retag k .cleared, .append k ⟨"", "3"⟩, .remove other.key]
  have hcurrent := (hget k _).2 ⟨before, second, since, rfl, rfl, by decide, rfl⟩
  exact ⟨(hhas k).2 ⟨before, second, since, rfl, rfl, by decide⟩, _, hcurrent, hkey k _ hcurrent,
    rfl, rfl⟩

end ScanDigest
