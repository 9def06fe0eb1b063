import WindowTransitions.Surface.Transaction

/-! Alpha fades. Durations count nanoseconds; the arithmetic of a fade is single precision throughout. -/

set_option autoImplicit false

namespace WindowTransitions

structure Fade where
  surface : Surface
  source : Float32
  target : Float32
  duration : Nat
  deriving DecidableEq

/-- A number held between zero and one; what is not a number stays. -/
def clamped (x : Float32) : Float32 := if x < 0.0 then 0.0 else if 1.0 < x then 1.0 else x

/-- Nanoseconds in seconds. Whole seconds and the rest are rounded on their own. -/
def seconds (nanoseconds : Nat) : Float32 :=
  (UInt64.ofNat (nanoseconds / 1000000000)).toFloat32 +
    (UInt32.ofNat (nanoseconds % 1000000000)).toFloat32 / 1000000000.0

namespace Fade

/-- A fade from nothing to all, or the reverse. -/
def standard (surface : Surface) (shown : Bool) (duration : Nat) : Fade :=
  let target : Float32 := if shown then 1.0 else 0.0
  { surface, source := 1.0 - target, target, duration }

def alphaAt (f : Fade) (fraction : Float32) : Float32 :=
  let t := clamped fraction
  f.source * (1.0 - t) + f.target * t

/-- The part of the fade that is over after some time. A fade without length is over at once. -/
def fractionAt (f : Fade) (elapsed : Nat) : Float32 :=
  if f.duration = 0 then 1.0 else clamped (seconds elapsed / seconds f.duration)

def frame (f : Fade) (fraction : Float32) : Transaction := [⟨f.surface, .alpha (f.alphaAt fraction)⟩]

/-- The transaction that leaves the surface at the end value. -/
def lastFrame (f : Fade) : Transaction := [⟨f.surface, .alpha f.target⟩]

theorem standard_shown (surface : Surface) (duration : Nat) :
    standard surface true duration = ⟨surface, 0.0, 1.0, duration⟩ := by
  have h : (1.0 : Float32) - 1.0 = 0.0 := by decide +kernel
  simp [standard, h]

theorem standard_hidden (surface : Surface) (duration : Nat) :
    standard surface false duration = ⟨surface, 1.0, 0.0, duration⟩ := by
  have h : (1.0 : Float32) - 0.0 = 1.0 := by decide +kernel
  simp [standard, h]

end Fade

end WindowTransitions
