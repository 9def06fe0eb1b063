import WindowTransitions.Json.Reader
import WindowTransitions.Json.Shape
import WindowTransitions.Text.Blank

/-! Configuration of the shell, its JSON form, and overrides of single settings by texts. Main rule: an override
is read only if it is there, the switch before the duration, and the frame interval is checked last. -/

set_option autoImplicit false

namespace WindowTransitions

structure Config where
  /-- Does the shell register with the authority at all? -/
  enabled : Bool := false
  /-- How long a default fade takes, in milliseconds. -/
  fadeDuration : UInt64 := 500
  /-- The time between two frames of a timed fade, in milliseconds. -/
  frameInterval : UInt64 := 16
  deriving DecidableEq

namespace Config

inductive Fault where
  | unreadable
  | noFrameInterval
  | notBoolean (raw : String)
  | notMilliseconds (raw : String)
  deriving DecidableEq

/-! ## Settings by name -/

def enabledKey : String := "SHELL_TRANSITIONS_ENABLED"

def fadeKey : String := "SHELL_TRANSITIONS_FADE_MS"

def Fault.reason : Fault → String
  | .unreadable => "<json>"
  | .noFrameInterval => "frame_interval_ms must be positive"
  | .notBoolean raw => enabledKey ++ ": expected boolean, got '" ++ raw ++ "'"
  | .notMilliseconds raw => fadeKey ++ ": expected milliseconds, got '" ++ raw ++ "'"

def nanoseconds (milliseconds : UInt64) : Nat := milliseconds.toNat * 1000000

def validate (c : Config) : Except Fault Config :=
  if c.frameInterval = 0 then .error .noFrameInterval else .ok c

/-! ## JSON -/

def fieldNames : List String := ["enabled", "default_fade_duration_ms", "frame_interval_ms"]

def toJson (c : Config) : Json :=
  .record [
    ("enabled", .bool c.enabled),
    ("default_fade_duration_ms", .ofUInt64 c.fadeDuration),
    ("frame_interval_ms", .ofUInt64 c.frameInterval)]

def ofJson? (j : Json) : Option Config := do
  let f ← j.fields? fieldNames true
  let standard : Config := {}
  return {
    enabled := ← f.defaulted 0 Json.bool? standard.enabled
    fadeDuration := ← f.defaulted 1 Json.uint64? standard.fadeDuration
    frameInterval := ← f.defaulted 2 Json.uint64? standard.frameInterval }

def ofText (text : String) : Except Fault Config :=
  match (Json.ofText? text).bind ofJson? with
  | none => .error .unreadable
  | some c => c.validate

/-! ## Overrides -/

/-- A switch is `1`, `true`, `0` or `false` in any case between blanks. -/
def switch? (raw : String) : Option Bool :=
  let word := (Text.trim raw.toList).map Char.toLower
  if word = ['1'] ∨ word = ['t', 'r', 'u', 'e'] then some true
  else if word = ['0'] ∨ word = ['f', 'a', 'l', 's', 'e'] then some false
  else none

/-- The characters behind a plus sign, if there is one. -/
def unsigned : List Char → List Char
  | '+' :: rest => rest
  | cs => cs

/-- A duration is a number of 64 bits between blanks, perhaps with a plus sign and with leading zeros. -/
def milliseconds? (raw : String) : Option UInt64 :=
  let digits := unsigned (Text.trim raw.toList)
  let n := Nat.ofDigitChars 10 digits 0
  if digits ≠ [] ∧ digits.all Char.isDigit ∧ n < UInt64.size then some (UInt64.ofNat n) else none

/-- A setting's new value: what its override says, or what it was before. -/
def overridden {α : Type} (raw : Option String) (read : String → Option α) (fault : String → Fault) (before : α) :
    Except Fault α :=
  match raw with
  | none => .ok before
  | some raw =>
    match read raw with
    | some a => .ok a
    | none => .error (fault raw)

def withOverrides (c : Config) (lookup : String → Option String) : Except Fault Config := do
  let enabled ← overridden (lookup enabledKey) switch? .notBoolean c.enabled
  let fadeDuration ← overridden (lookup fadeKey) milliseconds? .notMilliseconds c.fadeDuration
  validate { c with enabled, fadeDuration }

end Config

end WindowTransitions
