import ScanDigest.Event.Store
import ScanDigest.Vulnerability.Aggregate
import ScanDigest.Vulnerability.Lookup

/-!
# Vulnerability events

A tracker aggregates the deltas of each component version. When the batch is over, every net change
that is not empty becomes an event that shows the vulnerabilities by their names; where the names
cannot be looked up, it becomes a failure.
-/

set_option autoImplicit false

namespace ScanDigest

open Std

/-- What a batch did to a component version, with its last names. -/
structure Tracked where
  component : Component
  aggregate : Aggregate

/-- The component version of a key whose vulnerabilities could not be looked up. -/
structure LookupFailure where
  key : EventKey
  url : String
  message : String
  deriving DecidableEq, Repr

/-- The key of the component version of a delta. -/
def VulnerabilityDelta.key (d : VulnerabilityDelta) : EventKey :=
  .ofVulnerabilities d.component.projectVersionUrl d.component.versionUrl

namespace Tracked

/-- Takes in a delta; its names are the last ones. -/
def apply (t : Option Tracked) (d : VulnerabilityDelta) : Tracked :=
  let before := (t.map Tracked.aggregate).getD ∅
  ⟨d.component, before.apply d.added d.updated d.deleted⟩

/-- The net change. -/
def net (t : Tracked) : NetChange := t.aggregate.net

/-- The event of a net change, with what was looked up. -/
def event (t : Tracked) (key : EventKey) (info : ComponentVulnerabilities) : Event where
  key := key
  category := .vulnerability
  project := t.component.project
  dataset :=
    ⟨Label.component, t.component.name⟩ :: ⟨Label.version, t.component.versionName⟩ ::
      (t.net.added.map fun v => ⟨Label.added, info.display v⟩) ++
      (t.net.updated.map fun v => ⟨Label.updated, info.display v⟩) ++
      (t.net.deleted.map fun v => ⟨Label.deleted, info.display v⟩)

/-- The failure of a net change for which nothing could be looked up. -/
def failure (t : Tracked) (key : EventKey) (e : Failure) : LookupFailure :=
  ⟨key, t.component.versionUrl, e.message⟩

end Tracked

/-- All component versions that a batch has named in deltas. -/
structure Tracker where
  tracked : ExtTreeMap EventKey Tracked

namespace Tracker

def empty : Tracker := ⟨∅⟩

instance : EmptyCollection Tracker := ⟨empty⟩

/-- Takes in a delta. -/
def applyDelta (t : Tracker) (d : VulnerabilityDelta) : Tracker :=
  ⟨t.tracked.insert d.key (Tracked.apply t.tracked[d.key]? d)⟩

/-- Takes in a record, if it is a delta. -/
def apply (t : Tracker) : Record → Tracker
  | .delta d => t.applyDelta d
  | .policy _ _ => t
  | .other => t

/-- The net change of a key, if it is tracked. -/
def net? (t : Tracker) (k : EventKey) : Option NetChange := t.tracked[k]?.map Tracked.net

/-- The keys whose net change is not empty, in order, with what is tracked of them. -/
def changed (t : Tracker) : List (EventKey × Tracked) :=
  t.tracked.toList.filter fun p => !p.2.net.isEmpty

/-- The number of events to come. -/
def publishable (t : Tracker) : Nat := t.changed.length

/-- What publishing has come to so far. -/
structure Progress where
  store : Store
  memo : Memo
  /-- The last failure first. -/
  failures : List LookupFailure

/-- Makes an event or a failure of the answer for a key. -/
def Progress.settle (p : Progress) (key : EventKey) (t : Tracked) :
    Except Failure ComponentVulnerabilities → Progress
  | .ok info => { p with store := p.store.put (t.event key info) }
  | .error e => { p with failures := t.failure key e :: p.failures }

/-- Publishes the net change of a key. -/
def publishKey (lookup : Lookup) (p : Progress) (kt : EventKey × Tracked) : Progress :=
  let (key, t) := kt
  let (answer, memo) := p.memo.resolve lookup t.component.versionUrl
  { p with memo }.settle key t answer

/-- Publishes all net changes after what was published before. -/
def publishOnto (lookup : Lookup) (p : Progress) (t : Tracker) : Progress :=
  t.changed.foldl (publishKey lookup) p

/-- Publishes all net changes into a store. -/
def publish (lookup : Lookup) (t : Tracker) (store : Store) : Progress :=
  publishOnto lookup ⟨store, ∅, []⟩ t

end Tracker

end ScanDigest
