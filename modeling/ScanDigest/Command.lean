import ScanDigest.Codec.File
import ScanDigest.Digest.Pass
import ScanDigest.Digest.Report

/-!
# The command

From the files and options of a call to what it prints and to its exit status: 0 if nothing failed,
1 if something was passed over, 2 if there is no report. The error output is the log, as the
subscriber of the call shows it, and then what the report complains of, or why there is none.
-/

set_option autoImplicit false

namespace ScanDigest

/-- The configuration in a file, if it is valid. -/
def Config.load (f : File) : Except Failure Config := do
  let c ← Config.codec.fromFile f
  let _ ← c.checked
  return c

/-- The catalog in a file. -/
def Catalog.load (f : File) : Except Failure Catalog := Catalog.codec.fromFile f

/-- A call of the command. -/
structure Command where
  records : File
  config : Option File
  catalog : Option File
  format : Format
  /-- Whether records apply in the order of their timestamps, not in that of the file. -/
  sorts : Bool
  /-- What shows the log. It has the filter that was asked for and the clock. -/
  subscriber : Subscriber := .off

namespace Command

/-- Why there is no report. -/
inductive Trouble where
  | loadingConfig (path : String) (failure : Failure)
  | loadingCatalog (path : String) (failure : Failure)
  | readingRecords (path : String) (reason : String)
  | failed (failure : Failure)
  deriving DecidableEq, Repr

/-- A failure followed by the one that it passes on. -/
def chain (f : Failure) : String :=
  match f.source? with
  | some s => f.message ++ ": " ++ s
  | none => f.message

def Trouble.message : Trouble → String
  | loadingConfig path failure => "loading config " ++ path ++ ": " ++ chain failure
  | loadingCatalog path failure => "loading catalog " ++ path ++ ": " ++ chain failure
  | readingRecords path reason => "reading records " ++ path ++ ": " ++ reason
  | failed failure => chain failure

/-- The text of the records file. -/
def recordsText (f : File) : Except Trouble String :=
  match f.content with
  | .error reason => .error (.readingRecords f.path reason)
  | .ok bytes =>
    match (Text.ofBytes bytes).toString? with
    | some s => .ok s
    | none => .error (.readingRecords f.path "stream did not contain valid UTF-8")

/-- The configuration of a call. -/
def loadConfig (c : Command) : Except Trouble Config :=
  match c.config with
  | some f => (Config.load f).mapError (.loadingConfig f.path)
  | none => .ok .default

/-- The catalog of a call. -/
def loadCatalog (c : Command) : Except Trouble Catalog :=
  match c.catalog with
  | some f => (Catalog.load f).mapError (.loadingCatalog f.path)
  | none => .ok .empty

/-- The batch of a call. -/
def loadBatch (c : Command) : Except Trouble Batch := do
  let text ← recordsText c.records
  (Batch.ofString text).mapError .failed

/-- The records of a batch in the order in which they apply. -/
def ordered (c : Command) (rs : List Record) : List Record :=
  if c.sorts then Record.chronological rs else rs

/-- What a call does, until there is trouble, with the entries that it logs by then. -/
abbrev Execution := ExceptT Trouble (StateM (List LogEntry))

/-- Logs some entries. -/
def note (entries : List LogEntry) : Execution Unit := modify (· ++ entries)

/-- Makes the report on a batch. -/
def reportOn (c : Command) (config : Config) (catalog : Catalog) (batch : Batch) :
    Execution Report := do
  note (batch.lineErrors.map .undecodable)
  let reduced : Except Failure (Reduction × List LogEntry) :=
    Pass.reduce catalog.lookup config (c.ordered batch.records)
  let (reduction, entries) ← reduced.mapError Trouble.failed
  note entries
  note [.fileReduced c.records.path reduction.outcome.events.length batch.lineErrors.length]
  return ⟨batch.lineErrors, reduction.outcome⟩

/-- Makes the report of a call. Nothing is logged before all files are loaded. -/
def execute (c : Command) : Execution Report := do
  let config ← c.loadConfig
  let catalog ← c.loadCatalog
  let batch ← c.loadBatch
  c.reportOn config catalog batch

/-- The report of a call. -/
def report (c : Command) : Except Trouble Report := (c.execute.run.run []).1

/-- What a call logs, up to its report or to the trouble. -/
def log (c : Command) : List LogEntry := (c.execute.run.run []).2

/-- What a call leaves behind. -/
structure Completion where
  exit : Nat
  stdout : String
  stderr : String
  deriving DecidableEq, Repr

/-- Runs a call. -/
def run (c : Command) : Completion :=
  let done := c.execute.run.run []
  let logged := c.subscriber.write done.2
  match done.1 with
  | .ok r => ⟨if r.isClean then 0 else 1, r.render c.format, logged ++ r.complaints⟩
  | .error t => ⟨2, "", logged ++ "digest_runner error: " ++ t.message ++ "\n"⟩

end Command

end ScanDigest
