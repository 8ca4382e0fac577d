import ScanDigest.Event.Codec
import ScanDigest.Json.Printer
import ScanDigest.Sha256

/-!
# Fingerprints

The hash of a digest's canonical JSON: compact, the members of every object in ascending order of
their keys, and the events in the order of theirs. Two runs over one input have one fingerprint.
-/

set_option autoImplicit false

namespace ScanDigest

/-- The canonical text of a document. -/
def Json.canonical (j : Json) : String := j.sorted.compact

/-- Events as one value. -/
def Event.listJson (es : List Event) : Json := (Codec.list Event.codec).encode es

/-- The canonical text of events, in the order of their keys. -/
def Event.canonical (es : List Event) : String := (Event.listJson (Event.byKey es)).canonical

def Event.fingerprint (es : List Event) : String := Sha256.ofString (Event.canonical es)

end ScanDigest
