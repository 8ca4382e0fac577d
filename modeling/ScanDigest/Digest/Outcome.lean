import ScanDigest.Digest.Config
import ScanDigest.Record.Batch
import ScanDigest.Vulnerability.Tracker

/-!
# Outcomes

What a reduction comes to: the events that are left, what was passed over and why, and how many
records and events went which way.
-/

set_option autoImplicit false

namespace ScanDigest

/-- A record that was passed over, by its place in the batch, counted from 0. -/
structure RecordError where
  index : Nat
  kind : String
  reason : String
  deriving DecidableEq, Repr

structure Stats where
  seen : Nat
  applied : Nat
  ignored : Nat
  malformed : Nat
  outsideWindow : Nat
  lookupCalls : Nat
  eventsFiltered : Nat
  deriving DecidableEq, Repr

structure Outcome where
  events : List Event
  recordErrors : List RecordError
  lookupFailures : List LookupFailure
  stats : Stats
  deriving DecidableEq, Repr

/-! ## JSON -/

def NetChange.codec : Codec NetChange :=
  let ids : Codec (List VulnerabilityId) := .list VulnerabilityId.codec
  .struct "NetChange"
    (.cons (.required "added" ids) <|
      .cons (.required "updated" ids) <|
      .cons (.required "deleted" ids) .nil)
    (fun (added, updated, deleted, _) => ⟨added, updated, deleted⟩)
    (fun n => (n.added, n.updated, n.deleted, ()))

def LineError.codec : Codec LineError :=
  .struct "LineError"
    (.cons (.required "line" .count) <| .cons (.required "reason" .text) .nil)
    (fun (line, reason, _) => ⟨line, reason⟩)
    (fun e => (e.line, e.reason, ()))

def LookupFailure.codec : Codec LookupFailure :=
  .struct "LookupFailure"
    (.cons (.required "key" EventKey.codec) <|
      .cons (.required "component_version_url" .text) <|
      .cons (.required "message" .text) .nil)
    (fun (key, url, message, _) => ⟨key, url, message⟩)
    (fun f => (f.key, f.url, f.message, ()))

def RecordError.codec : Codec RecordError :=
  .struct "RecordError"
    (.cons (.required "index" .count) <|
      .cons (.required "kind" .text) <|
      .cons (.required "reason" .text) .nil)
    (fun (index, kind, reason, _) => ⟨index, kind, reason⟩)
    (fun e => (e.index, e.kind, e.reason, ()))

def Stats.codec : Codec Stats :=
  .struct "ReductionStats"
    (.cons (.required "records_seen" .count) <|
      .cons (.required "records_applied" .count) <|
      .cons (.required "records_ignored" .count) <|
      .cons (.required "records_malformed" .count) <|
      .cons (.required "records_outside_window" .count) <|
      .cons (.required "lookup_calls" .count) <|
      .cons (.required "events_filtered" .count) .nil)
    (fun (seen, applied, ignored, malformed, outside, calls, filtered, _) =>
      ⟨seen, applied, ignored, malformed, outside, calls, filtered⟩)
    (fun s => (s.seen, s.applied, s.ignored, s.malformed, s.outsideWindow, s.lookupCalls,
      s.eventsFiltered, ()))

def Outcome.codec : Codec Outcome :=
  .struct "DigestOutcome"
    (.cons (.required "events" (.list Event.codec)) <|
      .cons (.required "record_errors" (.list RecordError.codec)) <|
      .cons (.required "lookup_failures" (.list LookupFailure.codec)) <|
      .cons (.required "stats" Stats.codec) .nil)
    (fun (events, errors, failures, stats, _) => ⟨events, errors, failures, stats⟩)
    (fun o => (o.events, o.recordErrors, o.lookupFailures, o.stats, ()))

end ScanDigest
