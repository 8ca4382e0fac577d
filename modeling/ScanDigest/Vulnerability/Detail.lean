import ScanDigest.Codec.Struct
import ScanDigest.Record.Codec

/-!
# Vulnerability details

What is known of the vulnerabilities of a component version, and a catalog of that by the URLs of
component versions.
-/

set_option autoImplicit false

namespace ScanDigest

open Std

structure Detail where
  source : String
  id : String
  displayName : String
  severity : Option String
  deriving DecidableEq, Repr

/-- The details of one component version. -/
structure ComponentVulnerabilities where
  vulnerabilities : List Detail
  deriving DecidableEq, Repr

namespace ComponentVulnerabilities

/-- The first detail of an id. -/
def detail? (c : ComponentVulnerabilities) (v : VulnerabilityId) : Option Detail :=
  c.vulnerabilities.find? fun d => d.source == v.source && d.id == v.id

/-- The name to show for an id, its qualified id if nothing is known of it. -/
def display (c : ComponentVulnerabilities) (v : VulnerabilityId) : String :=
  match c.detail? v with
  | some d => d.displayName
  | none => v.qualified

end ComponentVulnerabilities

structure Catalog where
  components : ExtTreeMap String (List Detail)

namespace Catalog

def empty : Catalog := ⟨∅⟩

/-- The details under a URL, none if it is not in the catalog. -/
def resolve (c : Catalog) (url : String) : ComponentVulnerabilities :=
  ⟨c.components[url]?.getD []⟩

end Catalog

/-! ## JSON -/

def Detail.codec : Codec Detail :=
  .struct "VulnerabilityDetail"
    (.cons (.required "source" .text) <|
      .cons (.required "id" .text) <|
      .cons (.required "display_name" .text) <|
      .cons (.optional "severity" .text) .nil)
    (fun (source, id, displayName, severity, _) => ⟨source, id, displayName, severity⟩)
    (fun d => (d.source, d.id, d.displayName, d.severity, ()))

def ComponentVulnerabilities.codec : Codec ComponentVulnerabilities :=
  .struct "ComponentVulnerabilities"
    (.cons (.required "vulnerabilities" (.list Detail.codec)) .nil)
    (fun (ds, _) => ⟨ds⟩)
    (fun c => (c.vulnerabilities, ()))

def Catalog.codec : Codec Catalog :=
  .struct "VulnerabilityCatalog"
    (.cons (.required "components" (.table .text (.list Detail.codec))) .nil)
    (fun (t, _) => ⟨t⟩)
    (fun c => (c.components, ()))

end ScanDigest
