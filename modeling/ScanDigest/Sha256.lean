/-!
# SHA-256

The hash of FIPS 180-4 over a list of bytes, as 64 hexadecimal digits (`length_hexDigest`).
-/

set_option autoImplicit false

namespace ScanDigest.Sha256

/-- The eight words of a hash. -/
structure State where
  a : UInt32
  b : UInt32
  c : UInt32
  d : UInt32
  e : UInt32
  f : UInt32
  g : UInt32
  h : UInt32
  deriving Repr, DecidableEq

/-- The first 32 bits of the fractions of the square roots of the first eight primes. -/
def initial : State :=
  ⟨0x6a09e667, 0xbb67ae85, 0x3c6ef372, 0xa54ff53a, 0x510e527f, 0x9b05688c, 0x1f83d9ab, 0x5be0cd19⟩

/-- The first 32 bits of the fractions of the cube roots of the first 64 primes. -/
def constants : List UInt32 := [
  0x428a2f98, 0x71374491, 0xb5c0fbcf, 0xe9b5dba5, 0x3956c25b, 0x59f111f1, 0x923f82a4, 0xab1c5ed5,
  0xd807aa98, 0x12835b01, 0x243185be, 0x550c7dc3, 0x72be5d74, 0x80deb1fe, 0x9bdc06a7, 0xc19bf174,
  0xe49b69c1, 0xefbe4786, 0x0fc19dc6, 0x240ca1cc, 0x2de92c6f, 0x4a7484aa, 0x5cb0a9dc, 0x76f988da,
  0x983e5152, 0xa831c66d, 0xb00327c8, 0xbf597fc7, 0xc6e00bf3, 0xd5a79147, 0x06ca6351, 0x14292967,
  0x27b70a85, 0x2e1b2138, 0x4d2c6dfc, 0x53380d13, 0x650a7354, 0x766a0abb, 0x81c2c92e, 0x92722c85,
  0xa2bfe8a1, 0xa81a664b, 0xc24b8b70, 0xc76c51a3, 0xd192e819, 0xd6990624, 0xf40e3585, 0x106aa070,
  0x19a4c116, 0x1e376c08, 0x2748774c, 0x34b0bcb5, 0x391c0cb3, 0x4ed8aa4a, 0x5b9cca4f, 0x682e6ff3,
  0x748f82ee, 0x78a5636f, 0x84c87814, 0x8cc70208, 0x90befffa, 0xa4506ceb, 0xbef9a3f7, 0xc67178f2]

/-- A word turned right by `n` of its 32 bits. -/
def rotate (n x : UInt32) : UInt32 := (x >>> n) ||| (x <<< (32 - n))

/-- The next word of the schedule, from the words before it, the last one first. -/
def scheduled (ws : List UInt32) : UInt32 :=
  let x := ws.getD 14 0
  let y := ws.getD 1 0
  ws.getD 15 0 + (rotate 7 x ^^^ rotate 18 x ^^^ (x >>> 3)) + ws.getD 6 0 +
    (rotate 17 y ^^^ rotate 19 y ^^^ (y >>> 10))

/-- `n` further words of the schedule, the last one first. -/
def schedule : (n : Nat) → List UInt32 → List UInt32
  | 0, ws => ws
  | n + 1, ws => schedule n (scheduled ws :: ws)

/-- One round with a constant and a word of the schedule. -/
def State.round (s : State) (kw : UInt32 × UInt32) : State :=
  let t₁ := s.h + (rotate 6 s.e ^^^ rotate 11 s.e ^^^ rotate 25 s.e) +
    ((s.e &&& s.f) ^^^ (~~~s.e &&& s.g)) + kw.1 + kw.2
  let t₂ := (rotate 2 s.a ^^^ rotate 13 s.a ^^^ rotate 22 s.a) +
    ((s.a &&& s.b) ^^^ (s.a &&& s.c) ^^^ (s.b &&& s.c))
  ⟨t₁ + t₂, s.a, s.b, s.c, s.d + t₁, s.e, s.f, s.g⟩

/-- Word by word. -/
def State.add (s t : State) : State :=
  ⟨s.a + t.a, s.b + t.b, s.c + t.c, s.d + t.d, s.e + t.e, s.f + t.f, s.g + t.g, s.h + t.h⟩

/-- A block of sixteen words, the last one first, taken into the hash. -/
def State.block (s : State) (block : List UInt32) : State :=
  s.add ((constants.zip (schedule 48 block).reverse).foldl State.round s)

/-- Four bytes as a word, the first one highest. -/
def word (bytes : List UInt8) : UInt32 := bytes.foldl (fun w b => (w <<< 8) ||| b.toUInt32) 0

/-- The eight bytes of a number, the highest first. -/
def lengthBytes (n : Nat) : List UInt8 :=
  (List.range 8).map fun i => (n >>> (8 * (7 - i))).toUInt8

/-- The bytes with a one bit, zeros and their number of bits, to full blocks of 64 bytes. -/
def padded (bytes : List UInt8) : List UInt8 :=
  bytes ++ 0x80 :: List.replicate ((119 - bytes.length % 64) % 64) 0 ++
    lengthBytes (8 * bytes.length)

/-- Takes blocks of 64 bytes into the hash. -/
def State.absorb (s : State) (bytes : List UInt8) : State :=
  if bytes.isEmpty then s
  else
    let block := (List.range 16).foldl (fun ws i => word ((bytes.drop (4 * i)).take 4) :: ws) []
    (s.block block).absorb (bytes.drop 64)
termination_by bytes.length
decreasing_by
  rename_i h
  cases bytes with
  | nil => simp at h
  | cons b bytes => simp only [List.length_drop, List.length_cons]; omega

/-- The hash of a list of bytes. -/
def hash (bytes : List UInt8) : State := initial.absorb (padded bytes)

/-- The hexadecimal digits of a word, lower case. -/
def wordDigits (w : UInt32) : List Char :=
  (List.range 8).map fun i => Nat.digitChar (w.toNat >>> (4 * (7 - i)) % 16)

def State.words (s : State) : List UInt32 := [s.a, s.b, s.c, s.d, s.e, s.f, s.g, s.h]

/-- The hexadecimal digits of the hash of a list of bytes. -/
def hexDigits (bytes : List UInt8) : List Char := (hash bytes).words.flatMap wordDigits

@[simp] theorem length_hexDigits (bytes : List UInt8) : (hexDigits bytes).length = 64 := by
  simp [hexDigits, State.words, wordDigits]

/-- The hash of a string's bytes, as text. -/
def hexDigest (bytes : List UInt8) : String := String.ofList (hexDigits bytes)

@[simp] theorem length_hexDigest (bytes : List UInt8) : (hexDigest bytes).length = 64 := by
  simp [hexDigest]

/-- The hash of the UTF-8 bytes of a string, as text. -/
def ofString (s : String) : String := hexDigest s.toUTF8.data.toList

end ScanDigest.Sha256
