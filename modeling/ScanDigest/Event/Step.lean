import ScanDigest.Event.Store

/-!
# Steps of a store

A store is asked one thing at a time: `Store.step` gives the answer and the store after it,
`Store.after` the store after many steps. Putting and removing answer with the event that was there.
-/

set_option autoImplicit false

namespace ScanDigest.Store

inductive Step where
  | put (event : Event)
  | has (key : EventKey)
  | get (key : EventKey)
  | retag (key : EventKey) (category : Category)
  | append (key : EventKey) (entry : Entry)
  | remove (key : EventKey)
  deriving DecidableEq, Repr

inductive Answer where
  | event (event : Option Event)
  | found (found : Bool)
  /-- The items of an event, if it is there. -/
  | items (count : Option Nat)
  deriving DecidableEq, Repr

/-- What a step answers, and the store after it. -/
def step (s : Store) : Step → Answer × Store
  | .put e => (.event (s.get? e.key), s.put e)
  | .has k => (.found (s.has k), s)
  | .get k => (.event (s.get? k), s)
  | .retag k c => (.found (s.has k), s.retag k c)
  | .append k x =>
    let t := s.append k x
    (.items ((t.get? k).map Event.itemCount), t)
  | .remove k => (.event (s.get? k), s.remove k)

/-- The store after some steps. -/
def after (s : Store) (steps : List Step) : Store := steps.foldl (fun t x => (t.step x).2) s

@[simp] theorem after_nil (s : Store) : s.after [] = s := rfl

@[simp] theorem after_cons (s : Store) (x : Step) (steps : List Step) :
    s.after (x :: steps) = (s.step x).2.after steps := rfl

theorem after_append (s : Store) (xs ys : List Step) :
    s.after (xs ++ ys) = (s.after xs).after ys := by
  simp [after]

end ScanDigest.Store
