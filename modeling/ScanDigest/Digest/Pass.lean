import ScanDigest.Digest.Log
import ScanDigest.Digest.Reduction

/-!
# A batch in one pass

A reduction as it runs, with what it logs: the records are taken in one after the other, then the
pass is closed, where the keys of vulnerabilities are published in their order.
-/

set_option autoImplicit false

namespace ScanDigest

/-- What is logged of an action on a rule, by the state before it. -/
def LogEntry.ofRule? (action : PolicyAction) (key : EventKey) (rule : PolicyRule)
    (state? : Option PolicyState) : Option LogEntry :=
  match action, state? with
  | .violate, _ => some (.violated key rule.name)
  | _, none => none
  | _, some .violated => some (.cancelled key action)
  | _, some state => some (.settled key state action)

/-- What is logged of the answer for a key. -/
def LogEntry.ofAnswer? (key : EventKey) (t : Tracked) :
    Except Failure ComponentVulnerabilities → Option LogEntry
  | .ok _ => none
  | .error e => some (.notLookedUp (t.failure key e))

/-- What a pass has come to so far. -/
structure Pass where
  board : PolicyBoard
  tracker : Tracker
  stats : Stats
  recordErrors : Array RecordError
  log : Array LogEntry

namespace Pass

def start : Pass := ⟨.ofStore ∅, ∅, ⟨0, 0, 0, 0, 0, 0, 0⟩, #[], #[]⟩

/-- Applies an action to one rule of a notice. -/
def applyRule (action : PolicyAction) (n : PolicyNotice) (p : Pass) (rule : PolicyRule) : Pass :=
  let key := n.key rule
  { p with
    board := p.board.applyRule action n rule
    log := p.log ++ (LogEntry.ofRule? action key rule (p.board.state? key)).toList }

/-- Applies a record. -/
def apply (p : Pass) : Record → Pass
  | .policy action n => n.rules.foldl (applyRule action n) p
  | .delta d => { p with tracker := p.tracker.applyDelta d }
  | .other => p

/-- Counts a record as seen. -/
def see (p : Pass) : Pass := { p with stats.seen := p.stats.seen + 1 }

/-- Takes in a record with its place. -/
def step (w : Window) (p : Pass) (r : Record × Nat) : Pass :=
  let p := p.see
  match r.1.verdict w with
  | .ignored =>
    { p with
      stats.ignored := p.stats.ignored + 1
      log := p.log.push (.unknownType r.2) }
  | .malformed d =>
    let e : RecordError := ⟨r.2, r.1.kind, d.message⟩
    { p with
      stats.malformed := p.stats.malformed + 1
      recordErrors := p.recordErrors.push e
      log := p.log.push (.malformed e) }
  | .outside => { p with stats.outsideWindow := p.stats.outsideWindow + 1 }
  | .applied =>
    let p := p.apply r.1
    { p with stats.applied := p.stats.applied + 1 }

/-- Takes in a batch. -/
def run (w : Window) (rs : List Record) : Pass := rs.zipIdx.foldl (step w) start

/-- What publishing has come to so far, with the log. -/
structure Closing extends Tracker.Progress where
  log : Array LogEntry

/-- Publishes the net change of a key, unless it is empty. -/
def closeKey (lookup : Lookup) (c : Closing) (kt : EventKey × Tracked) : Closing :=
  let (key, t) := kt
  if t.net.isEmpty then { c with log := c.log.push (.unchanged key) }
  else
    let (answer, memo) := c.memo.resolve lookup t.component.versionUrl
    { toProgress := { c.toProgress with memo }.settle key t answer
      log := c.log ++ (LogEntry.ofAnswer? key t answer).toList }

/-- Publishes all keys, if vulnerabilities are shown. -/
def closing (lookup : Lookup) (c : Config) (p : Pass) : Closing :=
  let opened : Closing := ⟨⟨p.board.store, ∅, []⟩, p.log⟩
  if c.isEnabled .vulnerability then p.tracker.tracked.toList.foldl (closeKey lookup) opened
  else opened

/-- Publishes what is to be published and leaves out the categories that are not enabled. -/
def close (lookup : Lookup) (c : Config) (p : Pass) : Reduction × List LogEntry :=
  let last := p.closing lookup c
  let (kept, filtered) := last.store.events.partition fun e => c.isEnabled e.category
  let outcome : Outcome :=
    { events := kept
      recordErrors := p.recordErrors.toList
      lookupFailures := last.failures.reverse
      stats :=
        { p.stats with
          lookupCalls := last.memo.calls
          eventsFiltered := filtered.length +
            if c.isEnabled .vulnerability then 0 else p.tracker.publishable } }
  let reduced : LogEntry := .batchReduced outcome.stats.seen outcome.events.length
    outcome.stats.malformed outcome.lookupFailures.length
  (⟨outcome, last.memo.asked⟩, (last.log.push reduced).toList)

/-- Reduces a batch in one pass, with what is logged. -/
def reduce (lookup : Lookup) (c : Config) (rs : List Record) :
    Except Failure (Reduction × List LogEntry) := do
  let w ← c.checked
  return (run w rs).close lookup c

end Pass

end ScanDigest
