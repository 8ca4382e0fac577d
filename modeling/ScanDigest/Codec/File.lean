import ScanDigest.Codec.Basic
import ScanDigest.Failure

/-!
# Values in files
-/

set_option autoImplicit false

namespace ScanDigest

/-- A file by its path: its bytes, or why it cannot be read. -/
structure File where
  path : String
  content : Except String (List UInt8)

namespace File

/-- The content as glyphs. -/
def text (f : File) : Except Failure Text :=
  match f.content with
  | .ok bytes => .ok (Text.ofBytes bytes)
  | .error reason => .error (.io reason)

end File

/-- The value of a text, or the failure of an operation that needs it. -/
def Codec.fromText {α : Type} (c : Codec α) (t : Text) : Except Failure α :=
  (c.ofText t).mapError fun f => .json (f.message t)

/-- The value in a file. -/
def Codec.fromFile {α : Type} (c : Codec α) (f : File) : Except Failure α := do
  c.fromText (← f.text)

end ScanDigest
