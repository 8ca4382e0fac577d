import ScanDigest.Digest.Csv
import ScanDigest.Digest.Fingerprint
import ScanDigest.Digest.Project
import ScanDigest.Digest.Reduction

/-!
# Reports

How a reduced batch is shown: as JSON with the events or with the digests of the project versions,
or as CSV; and what is said about the records and lookups that failed.
-/

set_option autoImplicit false

namespace ScanDigest

inductive Format where
  | json
  | projects
  | csv
  deriving DecidableEq, Repr

structure Report where
  lineErrors : List LineError
  outcome : Outcome
  deriving DecidableEq, Repr

namespace Report

/-- The digest itself. -/
def body (r : Report) : Format → Json
  | .projects => (Codec.list ProjectDigest.codec).encode (ProjectDigest.group r.outcome.events)
  | _ => Event.listJson r.outcome.events

/-- The digest with its fingerprint and with all that failed. -/
def json (r : Report) (format : Format) : Json :=
  .obj [
    ("fingerprint", .str (Event.fingerprint r.outcome.events)),
    ("digest", r.body format),
    ("line_errors", (Codec.list LineError.codec).encode r.lineErrors),
    ("record_errors", (Codec.list RecordError.codec).encode r.outcome.recordErrors),
    ("lookup_failures", (Codec.list LookupFailure.codec).encode r.outcome.lookupFailures),
    ("stats", Stats.codec.encode r.outcome.stats)]

/-- The report in a format. -/
def render (r : Report) : Format → String
  | .csv => Csv.render r.outcome.events
  | format => (r.json format).sorted.pretty ++ "\n"

/-- A line for each record error and each lookup failure. -/
def complaints (r : Report) : String :=
  String.join (r.outcome.recordErrors.map fun e =>
    "RECORD_ERROR #" ++ toString e.index ++ " " ++ e.kind ++ " " ++ e.reason ++ "\n") ++
  String.join (r.outcome.lookupFailures.map fun f =>
    "LOOKUP_FAILED " ++ f.url ++ " " ++ f.message ++ "\n")

/-- Whether nothing failed. -/
def isClean (r : Report) : Bool :=
  r.lineErrors.isEmpty && r.outcome.recordErrors.isEmpty && r.outcome.lookupFailures.isEmpty

end Report

end ScanDigest
