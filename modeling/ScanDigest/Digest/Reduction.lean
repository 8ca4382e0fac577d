import ScanDigest.Digest.Outcome
import ScanDigest.Policy

/-!
# Reducing a batch

Each record is judged on its own: only those of a known type, well formed and within the window
apply. The policy board and the tracker take in the records that apply, in order. Then, if they are
shown, vulnerability events are published, and the events of the other categories are left out.
-/

set_option autoImplicit false

namespace ScanDigest

/-- What becomes of a record. -/
inductive Verdict where
  | ignored
  | malformed (defect : Defect)
  | outside
  | applied
  deriving DecidableEq, Repr

namespace Verdict

def isMalformed : Verdict → Bool
  | malformed _ => true
  | _ => false

end Verdict

/-- The verdict on a record. -/
def Record.verdict (w : Window) : Record → Verdict
  | .other => .ignored
  | r =>
    match r.effective with
    | .error d => .malformed d
    | .ok t => if w.contains t then .applied else .outside

/-- The records that apply. -/
def appliedRecords (w : Window) (rs : List Record) : List Record :=
  rs.filter fun r => r.verdict w == .applied

/-- The error of a record that is malformed. -/
def recordError? (w : Window) (r : Record × Nat) : Option RecordError :=
  match r.1.verdict w with
  | .malformed d => some ⟨r.2, r.1.kind, d.message⟩
  | _ => none

/-- The policy events of records that apply. -/
def policyBoard (rs : List Record) : PolicyBoard := rs.foldl PolicyBoard.apply (.ofStore ∅)

/-- The vulnerability changes of records that apply. -/
def tracker (rs : List Record) : Tracker := rs.foldl Tracker.apply ∅

/-- An outcome, and the URLs that were looked up for it, in order. -/
structure Reduction where
  outcome : Outcome
  asked : List String
  deriving DecidableEq, Repr

/-- What the records that apply come to before any event is left out: their policy events and, if
they are shown, their vulnerability events. A category that is not enabled is never looked up. -/
def publication (w : Window) (lookup : Lookup) (c : Config) (rs : List Record) :
    Tracker.Progress :=
  let applied := appliedRecords w rs
  if c.isEnabled .vulnerability then (tracker applied).publish lookup (policyBoard applied).store
  else ⟨(policyBoard applied).store, ∅, []⟩

/-- Reduces a batch within a window. -/
def reduceWithin (w : Window) (lookup : Lookup) (c : Config) (rs : List Record) : Reduction :=
  let applied := appliedRecords w rs
  let p := publication w lookup c rs
  let (kept, filtered) := p.store.events.partition fun e => c.isEnabled e.category
  { asked := p.memo.asked
    outcome :=
      { events := kept
        recordErrors := rs.zipIdx.filterMap (recordError? w)
        lookupFailures := p.failures.reverse
        stats :=
          { seen := rs.length
            applied := applied.length
            ignored := rs.countP fun r => r.verdict w == .ignored
            malformed := rs.countP fun r => (r.verdict w).isMalformed
            outsideWindow := rs.countP fun r => r.verdict w == .outside
            lookupCalls := p.memo.calls
            eventsFiltered := filtered.length +
              if c.isEnabled .vulnerability then 0 else (tracker applied).publishable } } }

/-- Reduces a batch, in the order it stands in. Only a configuration that is not valid fails. -/
def reduce (lookup : Lookup) (c : Config) (rs : List Record) : Except Failure Reduction := do
  let w ← c.checked
  return reduceWithin w lookup c rs

end ScanDigest
