import ScanDigest.Event.Codec
import ScanDigest.Failure
import ScanDigest.Record.Basic

/-!
# Digest configuration

Which categories a digest shows, and the period its records have to be from, both ends included.
-/

set_option autoImplicit false

namespace ScanDigest

/-- A period of time; an end that is missing does not bound it. -/
structure Window where
  start : Option Timestamp
  stop : Option Timestamp
  deriving DecidableEq, Repr

namespace Window

/-- All time. -/
def all : Window := ⟨none, none⟩

def contains (w : Window) (t : Timestamp) : Bool :=
  (w.start.all fun s => s ≤ t) && (w.stop.all fun e => t ≤ e)

end Window

structure Config where
  enabled : List Category
  windowStart : Option String
  windowEnd : Option String
  deriving DecidableEq, Repr

namespace Config

/-- All categories, all time. -/
def default : Config := ⟨Category.all, none, none⟩

instance : Inhabited Config := ⟨default⟩

/-- Why a configuration is not valid. -/
inductive Fault where
  | noCategory
  | badStart (text : String) (fault : Time.Fault)
  | badEnd (text : String) (fault : Time.Fault)
  | inverted (start stop : String)
  deriving DecidableEq, Repr

def Fault.message : Fault → String
  | noCategory => "enabled_categories must name at least one category"
  | badStart text fault =>
    "window_start: " ++ (Failure.invalidInput (badTimestampMessage text fault)).message
  | badEnd text fault =>
    "window_end: " ++ (Failure.invalidInput (badTimestampMessage text fault)).message
  | inverted start stop => "window_start " ++ start ++ " is after window_end " ++ stop

/-- The timestamp of a bound, if there is one. -/
def bound (bad : String → Time.Fault → Fault) : Option String → Except Fault (Option Timestamp)
  | none => .ok none
  | some s =>
    match Time.parse s with
    | .ok t => .ok (some t)
    | .error f => .error (bad s f)

/-- The period of a valid configuration. -/
def window (c : Config) : Except Fault Window := do
  if c.enabled.isEmpty then throw .noCategory
  let start ← bound .badStart c.windowStart
  let stop ← bound .badEnd c.windowEnd
  match start, stop with
  | some s, some e =>
    if s ≤ e then return ⟨start, stop⟩
    else throw (.inverted (c.windowStart.getD "") (c.windowEnd.getD ""))
  | _, _ => return ⟨start, stop⟩

/-- The period of a valid configuration, or the failure of an operation that needs it. -/
def checked (c : Config) : Except Failure Window :=
  c.window.mapError fun f => .config f.message

def isEnabled (c : Config) (category : Category) : Bool := c.enabled.contains category

def codec : Codec Config :=
  .struct "DigestConfig"
    (.cons (.defaulted "enabled_categories" (.list Category.codec) Category.all) <|
      .cons (.omittable "window_start" .text) <|
      .cons (.omittable "window_end" .text) .nil)
    (fun (enabled, start, stop, _) => ⟨enabled, start, stop⟩)
    (fun c => (c.enabled, c.windowStart, c.windowEnd, ()))

end Config

end ScanDigest
