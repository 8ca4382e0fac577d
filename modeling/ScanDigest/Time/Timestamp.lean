/-!
# Timestamps

An instant to the nanosecond, with the offset from UTC that it was written in. Only the instant
counts when timestamps are compared.
-/

set_option autoImplicit false

namespace ScanDigest

structure Timestamp where
  /-- Nanoseconds since the start of 1970, UTC. -/
  nanos : Int
  /-- Seconds that the writer's clock was ahead of UTC. -/
  offset : Int
  deriving DecidableEq, Repr

namespace Timestamp

instance : LE Timestamp := ⟨fun s t => s.nanos ≤ t.nanos⟩

instance (s t : Timestamp) : Decidable (s ≤ t) := inferInstanceAs (Decidable (s.nanos ≤ t.nanos))

theorem le_def {s t : Timestamp} : s ≤ t ↔ s.nanos ≤ t.nanos := Iff.rfl

end Timestamp

end ScanDigest
