import ScanDigest.Codec.Struct
import ScanDigest.Record.Basic

/-!
# Records as JSON

A record is an object that names its type under `type`, anywhere among the members of the record,
or an array that starts with the type. All other members are read before the type decides what they
mean, so faults of theirs have no place.
-/

set_option autoImplicit false

namespace ScanDigest

open Json

def Component.codec : Codec Component :=
  .struct "ComponentIdentity"
    (.cons (.required "project_name" .text) <|
      .cons (.required "project_version_name" .text) <|
      .cons (.required "component_name" .text) <|
      .cons (.required "component_version_name" .text) <|
      .cons (.required "project_version_url" .text) <|
      .cons (.required "component_version_url" .text) .nil)
    (fun (p, pv, c, cv, pu, cu, _) => ⟨p, pv, c, cv, pu, cu⟩)
    (fun c => (c.projectName, c.projectVersionName, c.name, c.versionName, c.projectVersionUrl,
      c.versionUrl, ()))

def PolicyRule.codec : Codec PolicyRule :=
  .struct "PolicyRuleRef"
    (.cons (.required "name" .text) <| .cons (.required "url" .text) .nil)
    (fun (name, url, _) => ⟨name, url⟩)
    (fun r => (r.name, r.url, ()))

def VulnerabilityId.codec : Codec VulnerabilityId :=
  .struct "VulnerabilityId"
    (.cons (.required "source" .text) <| .cons (.required "id" .text) .nil)
    (fun (source, id, _) => ⟨source, id⟩)
    (fun v => (v.source, v.id, ()))

def PolicyNotice.codec : Codec PolicyNotice :=
  .struct "PolicyNotification"
    (.cons (.required "timestamp" .text) <|
      .cons (.required "component" Component.codec) <|
      .cons (.required "rules" (.list PolicyRule.codec)) .nil)
    (fun (t, c, rules, _) => ⟨t, c, rules⟩)
    (fun n => (n.timestamp, n.component, n.rules, ()))

def VulnerabilityDelta.codec : Codec VulnerabilityDelta :=
  let ids : Codec (List VulnerabilityId) := .list VulnerabilityId.codec
  .struct "VulnerabilityNotification"
    (.cons (.required "timestamp" .text) <|
      .cons (.required "component" Component.codec) <|
      .cons (.defaulted "added" ids []) <|
      .cons (.defaulted "updated" ids []) <|
      .cons (.defaulted "deleted" ids []) .nil)
    (fun (t, c, added, updated, deleted, _) => ⟨t, c, added, updated, deleted⟩)
    (fun d => (d.timestamp, d.component, d.added, d.updated, d.deleted, ()))

namespace Record

/-- The types of records. -/
inductive Kind where
  | policy (action : PolicyAction)
  | delta
  | other
  deriving DecidableEq, Repr

/-- The type with a name. -/
def Kind.ofTag : String → Kind
  | "POLICY_VIOLATION" => .policy .violate
  | "POLICY_OVERRIDE" => .policy .override
  | "POLICY_CLEAR" => .policy .clear
  | "VULNERABILITY_DELTA" => .delta
  | _ => .other

/-- The key of the type. -/
def tagKey : String := "type"

/-- A record of a type from its other members. A record of an unknown type may have any members, but
as an array no items. -/
def decodeBody (kind : Kind) (body : Json) : Except Cause Record :=
  match kind with
  | .policy action => .policy action <$> PolicyNotice.codec.decode .record body
  | .delta => .delta <$> VulnerabilityDelta.codec.decode .record body
  | .other =>
    match body with
    | .arr (j :: items) => .error (.invalidLength (j :: items).length (.items 0))
    | _ => .ok .other

def decode : Json → Except Cause Record
  | .obj members =>
    match members.lookup tagKey with
    | some (.str tag) => decodeBody (.ofTag tag) (.obj (members.filter fun m => m.1 != tagKey))
    | some j => .error (.invalidType j.found .tag)
    | none => .error (.missingField tagKey)
  | .arr (.str tag :: items) => decodeBody (.ofTag tag) (.arr items)
  | .arr (j :: _) => .error (.invalidType j.found .tag)
  | .arr [] => .error (.missingField tagKey)
  | j => .error (.invalidType j.found (.tagged "NotificationRecord"))

/-- Any value inside a record's own bracket. -/
def inner : Reader Json := value (maxDepth - 1)

/-- Reads a member; of those read so far, the type stands apart. -/
def readMember (acc : Option String × List (String × Json)) :
    Reader (Option String × List (String × Json)) := do
  let k ← key
  if k = tagKey then
    if acc.1.isSome then
      Reader.fail ((Cause.duplicateField k).before (Fields.afterBrace (← Reader.left)))
    else
      colon
      return (some (← string .tag), acc.2)
  else
    colon
    return (acc.1, (k, ← inner) :: acc.2)

/-- The record of a type and its other members, whose faults have no place. -/
def ofBody (tag : String) (body : Json) : Reader Record := do
  match decodeBody (.ofTag tag) body with
  | .ok r => pure r
  | .error c => Reader.fail ⟨c, none⟩

def read : Reader Record := do
  space
  match ← Reader.left with
  | .char '{' :: _ =>
    Reader.skip
    let (tag, members) ← separated .object readMember (none, [])
    match tag with
    | some tag => ofBody tag (.obj members.reverse)
    | none => Reader.fail ((Cause.missingField tagKey).before (← Reader.left))
  | .char '[' :: _ =>
    Reader.skip
    if ← another .list true then
      let tag ← string .tag
      let items ← furtherItems .list (fun acc => return (← inner) :: acc) []
      ofBody tag (.arr items.reverse)
    else Reader.fail ((Cause.missingField tagKey).before (← Reader.left).tail)
  | _ => expected (.tagged "NotificationRecord")

/-- The members of an object. -/
def members : Json → List (String × Json)
  | .obj ms => ms
  | _ => []

def encode (r : Record) : Json :=
  let body : Json := match r with
    | .policy _ notice => PolicyNotice.codec.encode notice
    | .delta d => VulnerabilityDelta.codec.encode d
    | .other => .obj []
  .obj ((tagKey, .str r.kind) :: members body)

def codec : Codec Record := ⟨read, fun _ => decode, encode⟩

end Record

end ScanDigest
