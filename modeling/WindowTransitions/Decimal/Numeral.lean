/-! Decimal numerals: a sign, the digits before the point, the digits after it, and a power of ten.
Every value of the type has one written form, and a numeral with neither fraction nor exponent is an
integer unless it is a negative zero. -/

set_option autoImplicit false

namespace WindowTransitions.Decimal

/-- A numeral as it is written. An empty fraction has no point before it. -/
structure Numeral where
  negative : Bool
  whole : Nat
  fraction : List (Fin 10) := []
  exponent : Option Int := none
  deriving DecidableEq

/-- The last `count` decimal digits of `n`, highest first. -/
def padded : Nat → Nat → List (Fin 10)
  | 0, _ => []
  | count + 1, n => Fin.ofNat 10 (n / Nat.pow 10 count) :: padded count n

def digitChar (d : Fin 10) : Char := Nat.digitChar d.val

def digitOf (c : Char) : Fin 10 := Fin.ofNat 10 (c.toNat - '0'.toNat)

namespace Numeral

def ofNat (n : Nat) : Numeral where
  negative := false
  whole := n

def ofInt (i : Int) : Numeral where
  negative := i < 0
  whole := i.natAbs

/-- The exponent of a numeral; a power of ten that is not negative takes a plus sign if `plus`. -/
def exponentChars (plus : Bool) : Option Int → List Char
  | none => []
  | some e =>
    'e' :: (if e < 0 then ['-'] else if plus then ['+'] else []) ++ Nat.toDigits 10 e.natAbs

def fractionChars : List (Fin 10) → List Char
  | [] => []
  | d :: ds => '.' :: digitChar d :: ds.map digitChar

def chars (n : Numeral) (plus : Bool) : List Char :=
  (if n.negative then ['-'] else []) ++ Nat.toDigits 10 n.whole ++ fractionChars n.fraction ++
    exponentChars plus n.exponent

/-- The integer that is written, if it is written as one. A negative zero is no integer. -/
def integer? (n : Numeral) : Option Int :=
  match n.fraction, n.exponent with
  | [], none =>
    if n.negative then if n.whole = 0 then none else some (-(n.whole : Int)) else some n.whole
  | _, _ => none

/-! ## Small laws -/

theorem integer?_ofNat (n : Nat) : (ofNat n).integer? = some (n : Int) := by
  simp [ofNat, integer?]

theorem integer?_ofInt (i : Int) : (ofInt i).integer? = some i := by
  by_cases h : i < 0
  · have h0 : i ≠ 0 := by omega
    simp [ofInt, integer?, h, h0, Int.ofNat_natAbs_of_nonpos (Int.le_of_lt h)]
  · simp [ofInt, integer?, h, Int.natAbs_of_nonneg (Int.not_lt.1 h)]

end Numeral

end WindowTransitions.Decimal
