import WindowTransitions.Decimal.Layout
import WindowTransitions.Json.Basic

/-! Numbers of JSON: machine integers, doubles and singles. Integers are written without fraction or exponent and
have to be in range. A double is the significand, cut off where it would leave 64 bits, times or over a power of
ten; a single is rounded from an integer at once and from anything else by way of a double. -/

set_option autoImplicit false

namespace WindowTransitions

open Decimal (Numeral Layout)

/-! ## Doubles -/

namespace Decimal

open Float.Model (Format)
open Float.Model.UnpackedFloat (unpack pack round)

/-- The single nearest to a double, of two the even one. -/
def nearestSingle (f : Float) : Float32 :=
  match unpack Format.binary64 f.toBits.toBitVec with
  | .finite sign mantissa exponent _ => .ofBits ⟨pack Format.binary32 (round Format.binary32 sign mantissa exponent)⟩
  | x => .ofBits ⟨pack Format.binary32 x⟩

namespace Numeral

/-- Digits joined to a significand as long as it stays below `2 ^ 64`, and the digits left over. -/
def gather : Nat → List (Fin 10) → Nat × List (Fin 10)
  | s, [] => (s, [])
  | s, d :: ds => if s * 10 + d.val < UInt64.size then gather (s * 10 + d.val) ds else (s, d :: ds)

/-- Significand and power of ten. Left-over digits before the point raise the power, those behind it are dropped. -/
def parts (n : Numeral) : Nat × Int :=
  let (s, dropped) := gather 0 ((Nat.toDigits 10 n.whole).map digitOf)
  let (s, rest) := gather s n.fraction
  (s, (dropped.length : Int) - (n.fraction.length - rest.length : Nat) + n.exponent.getD 0)

def powerOfTen (e : Nat) : Float := Float.ofScientific 1 false e

/-- `f * 10 ^ e` by one multiplication or division; a power below `10 ^ -308` takes a division more for each 308. -/
def scaled (f : Float) (e : Int) : Nat → Option Float
  | rounds =>
    if e.natAbs ≤ 308 then
      if 0 ≤ e then
        let g := f * powerOfTen e.natAbs
        if g.isInf then none else some g
      else some (f / powerOfTen e.natAbs)
    else if f == 0.0 then some f
    else if 0 ≤ e then none
    else
      match rounds with
      | 0 => some 0.0
      | rounds + 1 => scaled (f / powerOfTen 308) (e + 308) rounds

/-- The double that is written; nothing if it would be infinite. Two divisions by `10 ^ 308` make any significand
zero. -/
def double? (n : Numeral) : Option Float :=
  let (s, e) := n.parts
  (scaled (UInt64.ofNat s).toFloat e 2).map fun f => if n.negative then -f else f

/-- Is the numeral an integer that a word of 64 bits holds, unsigned unless it is negative? -/
def isWord (n : Numeral) : Bool :=
  n.fraction.isEmpty && n.exponent.isNone && n.whole < (if n.negative then UInt64.size / 2 + 1 else UInt64.size)

/-- The single that is written. -/
def single? (n : Numeral) : Option Float32 :=
  if n.isWord then
    let x := (UInt64.ofNat n.whole).toFloat32
    some (if n.negative then -x else x)
  else n.double?.map nearestSingle

end Numeral

end Decimal

namespace Json

/-! ## Integers -/

def integer? : Json → Option Int
  | .number n => n.integer?
  | _ => none

/-- A natural number below `bound`. -/
def below? (bound : Nat) (j : Json) : Option Nat := do
  let i ← j.integer?
  if 0 ≤ i ∧ i < bound then some i.toNat else none

def uint64? (j : Json) : Option UInt64 := (j.below? UInt64.size).map UInt64.ofNat

def uint32? (j : Json) : Option UInt32 := (j.below? UInt32.size).map UInt32.ofNat

def int32? (j : Json) : Option Int32 := do
  let i ← j.integer?
  if Int32.minValue.toInt ≤ i ∧ i ≤ Int32.maxValue.toInt then some (Int32.ofInt i) else none

def ofUInt64 (n : UInt64) : Json := .ofNat n.toNat

def ofUInt32 (n : UInt32) : Json := .ofNat n.toNat

def ofInt32 (i : Int32) : Json := .ofInt i.toInt

/-! ## Singles -/

/-- Numbers from `0.000001` up to, not including, `10 ^ 13` have a point, all others a signed exponent. -/
def layout : Layout := ⟨.even, some (-6, 12), true, true⟩

/-- A number that is not finite has no numeral and is null. -/
def ofSingle (x : Float32) : Json :=
  match layout.numeral? x with
  | some n => .number n
  | none => .null

def single? : Json → Option Float32
  | .number n => n.single?
  | _ => none

end Json

end WindowTransitions
