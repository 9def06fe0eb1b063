import WindowTransitions.Decimal.Numeral
import WindowTransitions.Decimal.Shortest

/-! Layouts of single-precision numbers. A layout says where the decimal point goes; the digits are the
shortest ones that read back as the same number. -/

set_option autoImplicit false

namespace WindowTransitions.Decimal

structure Layout where
  tie : Tie
  /-- The powers of ten of the leading digit, first and last, that are written without an exponent. All are
  if there is no bound. -/
  positional : Option (Int × Int)
  /-- A whole number keeps a zero after the point. -/
  point : Bool
  /-- An exponent that is not negative takes a plus sign. -/
  plus : Bool

/-! ## The number inside a float -/

/-- The significand and the power of two of a finite magnitude that is not zero. -/
structure Magnitude where
  significand : Nat
  exponent : Int
  /-- The significand is the least of its binade and the next lower float is half as far away. -/
  least : Bool

inductive Single where
  | notANumber
  | infinite (negative : Bool)
  | zero (negative : Bool)
  | finite (negative : Bool) (magnitude : Magnitude)

/-- What the bits of a single-precision float say. -/
def Single.ofFloat (x : Float32) : Single :=
  let bits : Nat := x.toBits.toNat
  let negative := bits >>> 31 % 2 == 1
  let binade : Nat := bits >>> 23 % 256
  let low : Nat := bits % (1 <<< 23)
  if binade == 255 then
    if low == 0 then .infinite negative else .notANumber
  else if binade == 0 then
    if low == 0 then .zero negative else .finite negative ⟨low, -149, false⟩
  else .finite negative ⟨low + 1 <<< 23, (binade : Int) - 150, binade != 1 && low == 0⟩

/-! ## Placing the digits -/

namespace Layout

/-- Is a number whose leading digit stands for `10 ^ e` written without an exponent? -/
def isPositional (l : Layout) (e : Int) : Bool :=
  match l.positional with
  | none => true
  | some (first, last) => first ≤ e && e ≤ last

def place (l : Layout) (negative : Bool) (d : Digits) : Numeral :=
  let more := (Nat.toDigits 10 d.coefficient).length - 1
  let lead := d.exponent + more
  if l.isPositional lead then
    if 0 ≤ d.exponent then
      { negative
        whole := d.coefficient * Nat.pow 10 d.exponent.toNat
        fraction := if l.point then [digitOf '0'] else [] }
    else
      let places := (-d.exponent).toNat
      { negative, whole := d.coefficient / Nat.pow 10 places, fraction := padded places d.coefficient }
  else
    { negative
      whole := d.coefficient / Nat.pow 10 more
      fraction := padded more d.coefficient
      exponent := some lead }

def numeral? (l : Layout) (x : Float32) : Option Numeral :=
  match Single.ofFloat x with
  | .finite negative m => some (l.place negative ((Cell.around m.significand m.exponent m.least).shortest l.tie))
  | .zero negative => some (l.place negative ⟨0, 0⟩)
  | .infinite _ => none
  | .notANumber => none

def text (l : Layout) (x : Float32) : String :=
  match l.numeral? x with
  | some n => String.ofList (n.chars l.plus)
  | none =>
    match Single.ofFloat x with
    | .infinite true => "-inf"
    | .infinite false => "inf"
    | _ => "NaN"

end Layout

/-- Never an exponent, and no point in a whole number. -/
def plain : Layout := ⟨.up, none, false, false⟩

/-- Always a point or an exponent; an exponent below `0.0001` and from `10 ^ 16` on. -/
def pointed : Layout := ⟨.up, some (-4, 15), true, false⟩

end WindowTransitions.Decimal
