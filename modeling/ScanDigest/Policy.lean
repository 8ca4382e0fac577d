import ScanDigest.Event.Store
import ScanDigest.Record.Basic

/-!
# Policy events

A rule on a component version runs through the states of `PolicyState` within a batch. A violation
is an event; an override or a clearance of it takes the event away again, and one without a
violation before it is an event itself. Once that is settled, only a new violation counts.
-/

set_option autoImplicit false

namespace ScanDigest

open Std

/-- Where a rule on a component version stands, once a record has named it. -/
inductive PolicyState where
  | violated
  | overridden
  | cleared
  | cancelled
  deriving DecidableEq, Repr

/-- The category of the event that an action makes. -/
def PolicyAction.category : PolicyAction → Category
  | violate => .violation
  | override => .override
  | clear => .cleared

/-- The state that an action leads to where it makes an event. -/
def PolicyAction.state : PolicyAction → PolicyState
  | violate => .violated
  | override => .overridden
  | clear => .cleared

namespace PolicyNotice

/-- The key of a rule on the component version of a notice. -/
def key (n : PolicyNotice) (rule : PolicyRule) : EventKey :=
  .ofRule n.component.projectVersionUrl n.component.versionUrl rule.url

/-- The event that an action on a rule makes. -/
def event (n : PolicyNotice) (action : PolicyAction) (rule : PolicyRule) : Event where
  key := n.key rule
  category := action.category
  project := n.component.project
  dataset := [⟨Label.rule, rule.name⟩, ⟨Label.component, n.component.name⟩,
    ⟨Label.version, n.component.versionName⟩]

end PolicyNotice

/-- The states of all rules that a batch has named, and the events that are stored. -/
structure PolicyBoard where
  states : ExtTreeMap EventKey PolicyState
  store : Store

namespace PolicyBoard

/-- No rule was named yet. -/
def ofStore (store : Store) : PolicyBoard := ⟨∅, store⟩

def state? (b : PolicyBoard) (k : EventKey) : Option PolicyState := b.states[k]?

/-- What an action does to a rule. -/
inductive Effect where
  | publish
  | withdraw
  | ignore
  deriving DecidableEq, Repr

/-- The effect of an action, by the state before it. -/
def effect : PolicyAction → Option PolicyState → Effect
  | .violate, _ => .publish
  | _, none => .publish
  | _, some .violated => .withdraw
  | _, some _ => .ignore

/-- Applies an action to one rule of a notice. -/
def applyRule (action : PolicyAction) (n : PolicyNotice) (b : PolicyBoard) (rule : PolicyRule) :
    PolicyBoard :=
  let k := n.key rule
  match effect action (b.state? k) with
  | .publish => ⟨b.states.insert k action.state, b.store.put (n.event action rule)⟩
  | .withdraw => ⟨b.states.insert k .cancelled, b.store.remove k⟩
  | .ignore => b

/-- Applies a record to its rules, in order. Records of other types have none. -/
def apply (b : PolicyBoard) : Record → PolicyBoard
  | .policy action n => n.rules.foldl (applyRule action n) b
  | .delta _ => b
  | .other => b

end PolicyBoard

end ScanDigest
