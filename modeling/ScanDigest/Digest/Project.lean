import ScanDigest.Event.Codec

/-!
# Digests by project version

The events of each project version, split by category. A project version is known by its URL; its
names are those of the first event with that URL.
-/

set_option autoImplicit false

namespace ScanDigest

open Std

structure ProjectDigest where
  project : ProjectVersion
  violations : List Event
  overrides : List Event
  clears : List Event
  vulnerabilities : List Event
  /-- The items of each category that has an event. -/
  counts : ExtTreeMap Category Nat

namespace ProjectDigest

/-- The events of a category. -/
def bucket (d : ProjectDigest) : Category → List Event
  | .violation => d.violations
  | .override => d.overrides
  | .cleared => d.clears
  | .vulnerability => d.vulnerabilities

/-- The items of events. -/
def items (es : List Event) : Nat := es.foldr (fun e n => e.itemCount + n) 0

/-- The events of a category. -/
def select (es : List Event) (c : Category) : List Event := es.filter fun e => e.category = c

/-- The items of each category that has an event among these. -/
def countAll (es : List Event) : ExtTreeMap Category Nat :=
  Category.all.foldl (fun t c =>
    if (select es c).isEmpty then t else t.insert c (items (select es c))) ∅

/-- The digest of a project version from its events. -/
def ofEvents (p : ProjectVersion) (es : List Event) : ProjectDigest where
  project := p
  violations := select es .violation
  overrides := select es .override
  clears := select es .cleared
  vulnerabilities := select es .vulnerability
  counts := countAll es

/-- All items. -/
def total (d : ProjectDigest) : Nat := d.counts.values.foldr (· + ·) 0

/-- The project versions of events, each as its first event names it, in order. -/
def projects (es : List Event) : List ProjectVersion :=
  es.foldl (fun ps e =>
    if ps.any fun p => p.versionUrl == e.project.versionUrl then ps else ps ++ [e.project]) []

/-- The order of project versions: by name, version name and URL. -/
def projectLE (p q : ProjectVersion) : Bool :=
  ((compare p.name q.name).then
    ((compare p.versionName q.versionName).then (compare p.versionUrl q.versionUrl))).isLE

/-- The digests of all project versions that events are about. -/
def group (es : List Event) : List ProjectDigest :=
  ((projects es).mergeSort projectLE).map fun p =>
    ofEvents p (es.filter fun e => e.project.versionUrl = p.versionUrl)

def codec : Codec ProjectDigest :=
  let events : Codec (List Event) := .list Event.codec
  .struct "ProjectDigest"
    (.cons (.required "project" ProjectVersion.codec) <|
      .cons (.required "policy_violations" events) <|
      .cons (.required "policy_overrides" events) <|
      .cons (.required "policy_clears" events) <|
      .cons (.required "vulnerabilities" events) <|
      .cons (.required "category_counts" (.table Category.keys .count)) .nil)
    (fun (p, vs, os, cs, us, counts, _) => ⟨p, vs, os, cs, us, counts⟩)
    (fun d => (d.project, d.violations, d.overrides, d.clears, d.vulnerabilities, d.counts, ()))

end ProjectDigest

end ScanDigest
