import ScanDigest.Codec.Struct
import ScanDigest.Event.Basic

/-!
# Events as JSON
-/

set_option autoImplicit false

namespace ScanDigest

def EventKey.codec : Codec EventKey := Codec.text.imap EventKey.mk EventKey.text

def Category.codec : Codec Category := .enumeration Category.all Category.name

/-- Categories as the keys of a table. -/
def Category.keys : Codec.Keys Category := ⟨Codec.named Category.all Category.name, Category.name⟩

def Entry.codec : Codec Entry :=
  .struct "ItemEntry"
    (.cons (.required "label" .text) <| .cons (.required "value" .text) .nil)
    (fun (label, value, _) => ⟨label, value⟩)
    (fun x => (x.label, x.value, ()))

def ProjectVersion.codec : Codec ProjectVersion :=
  .struct "ProjectRef"
    (.cons (.required "project_name" .text) <|
      .cons (.required "project_version_name" .text) <|
      .cons (.required "project_version_url" .text) .nil)
    (fun (name, versionName, versionUrl, _) => ⟨name, versionName, versionUrl⟩)
    (fun p => (p.name, p.versionName, p.versionUrl, ()))

def Event.codec : Codec Event :=
  .struct "Event"
    (.cons (.required "key" EventKey.codec) <|
      .cons (.required "category" Category.codec) <|
      .cons (.required "project" ProjectVersion.codec) <|
      .cons (.required "dataset" (.list Entry.codec)) .nil)
    (fun (key, category, project, dataset, _) => ⟨key, category, project, dataset⟩)
    (fun e => (e.key, e.category, e.project, e.dataset, ()))

end ScanDigest
