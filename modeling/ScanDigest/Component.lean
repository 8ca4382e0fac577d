/-!
# Component versions

What a record or an event is about: a version of a component in a version of a project. Identity
goes by the relative URLs; names are for display.
-/

set_option autoImplicit false

namespace ScanDigest

/-- A component version in a project version. -/
structure Component where
  projectName : String
  projectVersionName : String
  name : String
  versionName : String
  projectVersionUrl : String
  versionUrl : String
  deriving DecidableEq, Repr

/-- The project version that an event belongs to. -/
structure ProjectVersion where
  name : String
  versionName : String
  versionUrl : String
  deriving DecidableEq, Repr

/-- The project version of a component. -/
def Component.project (c : Component) : ProjectVersion :=
  ⟨c.projectName, c.projectVersionName, c.projectVersionUrl⟩

end ScanDigest
