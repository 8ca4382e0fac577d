import ScanDigest.Component
import ScanDigest.Event.Key

/-!
# Events

An entry of a digest: what is the case for a component version, with the texts that a report shows.
-/

set_option autoImplicit false

namespace ScanDigest

inductive Category where
  | violation
  | override
  | cleared
  | vulnerability
  deriving DecidableEq, Repr

namespace Category

/-- All categories, in order. -/
def all : List Category := [violation, override, cleared, vulnerability]

def name : Category → String
  | violation => "POLICY_VIOLATION"
  | override => "POLICY_VIOLATION_OVERRIDE"
  | cleared => "POLICY_VIOLATION_CLEARED"
  | vulnerability => "VULNERABILITY"

/-- The place among the categories. -/
def rank : Category → Nat
  | violation => 0
  | override => 1
  | cleared => 2
  | vulnerability => 3

instance : Ord Category := ⟨compareOn rank⟩

theorem compare_eq (c d : Category) : compare c d = compare c.rank d.rank := rfl

instance : Std.TransOrd Category := inferInstanceAs (Std.TransCmp (compareOn rank))

instance : Std.LawfulEqOrd Category where
  eq_of_compare {c d} h := by cases c <;> cases d <;> first | rfl | cases h

end Category

/-- A text of an event, with the label that says what it is. -/
structure Entry where
  label : String
  value : String
  deriving DecidableEq, Repr

namespace Label

def rule : String := "RULE"
def component : String := "COMPONENT"
/-- The version of the component has no label. -/
def version : String := ""
def added : String := "ADDED"
def updated : String := "UPDATED"
def deleted : String := "DELETED"

/-- The labels of vulnerabilities. -/
def changes : List String := [added, updated, deleted]

end Label

structure Event where
  key : EventKey
  category : Category
  project : ProjectVersion
  dataset : List Entry
  deriving DecidableEq, Repr

namespace Event

/-- The values under a label, in order. -/
def values (e : Event) (label : String) : List String :=
  (e.dataset.filter fun x => x.label == label).map Entry.value

/-- The items that an event stands for: one, or its changed vulnerabilities. -/
def itemCount (e : Event) : Nat :=
  if e.category = .vulnerability then e.dataset.countP fun x => Label.changes.contains x.label
  else 1

/-- Events in the order of their keys, events of one key in their order. -/
def byKey (es : List Event) : List Event := es.mergeSort fun a b => (compare a.key b.key).isLE

end Event

end ScanDigest
