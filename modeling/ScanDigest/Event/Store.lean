import ScanDigest.Event.Basic

/-!
# Event stores

At most one event under each key. Every event is stored under its own key (`Store.keyed`).
-/

set_option autoImplicit false

namespace ScanDigest

open Std

structure Store where
  table : ExtTreeMap EventKey Event
  keyed : ∀ {k : EventKey} {e : Event}, table[k]? = some e → e.key = k

namespace Store

def empty : Store := ⟨∅, fun h => by simp at h⟩

instance : EmptyCollection Store := ⟨empty⟩

/-- The event under a key. -/
def get? (s : Store) (k : EventKey) : Option Event := s.table[k]?

def has (s : Store) (k : EventKey) : Bool := s.table.contains k

/-- Stores an event under its key, in place of the one before. -/
def put (s : Store) (e : Event) : Store where
  table := s.table.insert e.key e
  keyed {k e'} h := by
    rw [ExtTreeMap.getElem?_insert] at h
    split at h
    · cases h
      exact LawfulEqOrd.eq_of_compare ‹_›
    · exact s.keyed h

/-- Takes away the event under a key. -/
def remove (s : Store) (k : EventKey) : Store where
  table := s.table.erase k
  keyed {k' e'} h := by
    rw [ExtTreeMap.getElem?_erase] at h
    split at h
    · cases h
    · exact s.keyed h

/-- Changes the event under a key, but not its key. -/
def modify (s : Store) (k : EventKey) (f : Event → Event) (hf : ∀ e, (f e).key = e.key) :
    Store where
  table := s.table.modify k f
  keyed {k' e'} h := by
    rw [ExtTreeMap.getElem?_modify] at h
    split at h
    · obtain ⟨e, he, rfl⟩ := Option.map_eq_some_iff.1 h
      rw [hf, s.keyed he]
      exact LawfulEqOrd.eq_of_compare ‹_›
    · exact s.keyed h

/-- Gives the event under a key another category. -/
def retag (s : Store) (k : EventKey) (c : Category) : Store :=
  s.modify k (fun e => { e with category := c }) fun _ => rfl

/-- Adds an entry to the event under a key, after its others. -/
def append (s : Store) (k : EventKey) (x : Entry) : Store :=
  s.modify k (fun e => { e with dataset := e.dataset ++ [x] }) fun _ => rfl

/-- The number of events. -/
def size (s : Store) : Nat := s.table.size

def isEmpty (s : Store) : Bool := s.table.isEmpty

/-- The events in the order of their keys. -/
def events (s : Store) : List Event := s.table.values

/-! ## The event under each key -/

variable (s : Store)

@[simp] theorem get?_empty (k : EventKey) : empty.get? k = none := by simp [get?, empty]

theorem get?_put (e : Event) (k : EventKey) :
    (s.put e).get? k = if e.key = k then some e else s.get? k := by
  simp [get?, put, ExtTreeMap.getElem?_insert, LawfulEqCmp.compare_eq_iff_eq]

theorem get?_remove (k l : EventKey) :
    (s.remove k).get? l = if k = l then none else s.get? l := by
  simp [get?, remove, ExtTreeMap.getElem?_erase, LawfulEqCmp.compare_eq_iff_eq]

theorem get?_modify (k l : EventKey) (f : Event → Event) (hf : ∀ e, (f e).key = e.key) :
    (s.modify k f hf).get? l = if k = l then (s.get? k).map f else s.get? l := by
  simp [get?, modify, ExtTreeMap.getElem?_modify, LawfulEqCmp.compare_eq_iff_eq]

theorem has_eq (k : EventKey) : s.has k = (s.get? k).isSome := by
  simp [has, get?, ExtTreeMap.isSome_getElem?_eq_contains]

@[ext] theorem ext {s t : Store} (h : ∀ k, s.get? k = t.get? k) : s = t := by
  obtain ⟨a, ha⟩ := s
  obtain ⟨b, hb⟩ := t
  have : a = b := ExtTreeMap.ext_getElem? h
  subst this
  rfl

end Store

end ScanDigest
