import ScanDigest.Component
import ScanDigest.Text.Blank
import ScanDigest.Time.Rfc3339
import ScanDigest.Vulnerability.Id

/-!
# Notification records

A scan service reports that a policy is violated, overridden or cleared for a component version, or
which vulnerabilities were added, updated and deleted there. Identity goes by the relative URLs of
project version, component version and rule; names are for display. Records of any other type are
kept as `Record.other`.
-/

set_option autoImplicit false

namespace ScanDigest

structure PolicyRule where
  name : String
  url : String
  deriving DecidableEq, Repr

/-- What happened to the rules of a policy notice. -/
inductive PolicyAction where
  | violate
  | override
  | clear
  deriving DecidableEq, Repr

structure PolicyNotice where
  timestamp : String
  component : Component
  rules : List PolicyRule
  deriving DecidableEq, Repr

structure VulnerabilityDelta where
  timestamp : String
  component : Component
  added : List VulnerabilityId
  updated : List VulnerabilityId
  deleted : List VulnerabilityId
  deriving DecidableEq, Repr

inductive Record where
  | policy (action : PolicyAction) (notice : PolicyNotice)
  | delta (delta : VulnerabilityDelta)
  | other
  deriving DecidableEq, Repr

def PolicyAction.kind : PolicyAction → String
  | violate => "POLICY_VIOLATION"
  | override => "POLICY_OVERRIDE"
  | clear => "POLICY_CLEAR"

/-- Why a record of a known type cannot be applied. -/
inductive Defect where
  | noProjectVersion
  | noComponentVersion
  | noRules (action : PolicyAction)
  | ruleWithoutUrl (name : String)
  | noChange
  | badTimestamp (text : String) (fault : Time.Fault)
  deriving DecidableEq, Repr

/-- What is wrong with the text of a timestamp. -/
def badTimestampMessage (text : String) (fault : Time.Fault) : String :=
  "invalid RFC3339 timestamp '" ++ text ++ "': " ++ fault.message

def Defect.message : Defect → String
  | noProjectVersion => "project_version_url is empty"
  | noComponentVersion => "component_version_url is empty"
  | noRules action => action.kind ++ " carries no policy rules"
  | ruleWithoutUrl name => "policy rule '" ++ name ++ "' has an empty url"
  | noChange => "vulnerability delta has no added, updated or deleted ids"
  | badTimestamp text fault => "invalid input: " ++ badTimestampMessage text fault

namespace Record

/-- The type as records name it. -/
def kind : Record → String
  | policy action _ => action.kind
  | delta _ => "VULNERABILITY_DELTA"
  | other => "UNKNOWN"

def timestamp? : Record → Option String
  | policy _ notice => some notice.timestamp
  | delta d => some d.timestamp
  | other => none

def component? : Record → Option Component
  | policy _ notice => some notice.component
  | delta d => some d.component
  | other => none

/-- The instant of a record, if it has one that can be read. -/
def instant? (r : Record) : Option Timestamp :=
  r.timestamp?.bind fun s => (Time.parse s).toOption

/-- A URL that identifies something. -/
def hasUrl (url : String) : Bool := !Text.isBlankString url

/-- A component has to be identified. -/
def checkComponent (c : Component) : Except Defect Unit := do
  if !hasUrl c.projectVersionUrl then throw .noProjectVersion
  if !hasUrl c.versionUrl then throw .noComponentVersion

/-- A record has to have the shape that its type promises. -/
def check : Record → Except Defect Unit
  | policy action notice => do
    checkComponent notice.component
    if notice.rules.isEmpty then throw (.noRules action)
    match notice.rules.find? fun rule => !hasUrl rule.url with
    | some rule => throw (.ruleWithoutUrl rule.name)
    | none => pure ()
  | delta d => do
    checkComponent d.component
    if d.added.isEmpty && d.updated.isEmpty && d.deleted.isEmpty then throw .noChange
  | other => pure ()

/-- The instant at which a record of a known type applies, or why it does not. -/
def effective (r : Record) : Except Defect Timestamp := do
  r.check
  let text := r.timestamp?.getD ""
  match Time.parse text with
  | .ok t => return t
  | .error fault => throw (.badTimestamp text fault)

/-- The order of the optional instants: records without one first. -/
def instantLE : Option Timestamp → Option Timestamp → Bool
  | none, _ => true
  | some _, none => false
  | some s, some t => s ≤ t

/-- The records by their instants, those without one first, and in their order otherwise. -/
def chronological (rs : List Record) : List Record :=
  ((rs.map fun r => (r.instant?, r)).mergeSort fun a b => instantLE a.1 b.1).map Prod.snd

end Record

end ScanDigest
