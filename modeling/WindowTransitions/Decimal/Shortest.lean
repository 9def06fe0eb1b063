/-! Shortest decimals. A binary float stands for the cell of reals that round to it; the shortest decimal
of the float is a point of the coarsest decimal grid that meets the cell, and on that grid the one nearest
the float. All arithmetic is exact. -/

set_option autoImplicit false

namespace WindowTransitions.Decimal

/-- Which of two grid points to take when the value is exactly between them. -/
inductive Tie where
  | up
  | even
  deriving DecidableEq

/-- The reals that round to one float, in units of `2 ^ exponent`: from `lower` to `upper` around `middle`.
The two ends belong to the cell if it is `closed`. -/
structure Cell where
  lower : Nat
  middle : Nat
  upper : Nat
  exponent : Int
  closed : Bool

/-- The cell of `m * 2 ^ q`. A significand that is the least of its binade has half the room below. -/
def Cell.around (m : Nat) (q : Int) (least : Bool) : Cell where
  lower := if least then 4 * m - 1 else 4 * m - 2
  middle := 4 * m
  upper := 4 * m + 2
  exponent := q - 2
  closed := m % 2 = 0

/-- A decimal `coefficient * 10 ^ exponent`. -/
structure Digits where
  coefficient : Nat
  exponent : Int
  deriving DecidableEq

namespace Cell

/-- Numerator of the factor that turns units of the cell into steps of the grid of `10 ^ k`. -/
def scale (c : Cell) (k : Int) : Nat := Nat.pow 2 c.exponent.toNat * Nat.pow 10 (-k).toNat

/-- Denominator of that factor. -/
def step (c : Cell) (k : Int) : Nat := Nat.pow 2 (-c.exponent).toNat * Nat.pow 10 k.toNat

/-- Is `n * 10 ^ k` in the cell? -/
def contains (c : Cell) (k : Int) (n : Nat) : Bool :=
  let lower := c.lower * c.scale k
  let upper := c.upper * c.scale k
  let point := n * c.step k
  if c.closed then lower ≤ point && point ≤ upper else lower < point && point < upper

/-- Of the two grid points around the middle, the upper one is nearer, or the tie goes to it. -/
def prefersUpper (c : Cell) (k : Int) (tie : Tie) : Bool :=
  let rest := 2 * (c.middle * c.scale k % c.step k)
  if rest = c.step k then
    match tie with
    | .up => true
    | .even => c.middle * c.scale k / c.step k % 2 = 1
  else c.step k < rest

/-- The point of the grid of `10 ^ k` in the cell, the nearer one if the middle has two neighbours there. -/
def gridPoint? (c : Cell) (k : Int) (tie : Tie) : Option Nat :=
  let below := c.middle * c.scale k / c.step k
  match c.contains k below, c.contains k (below + 1) with
  | true, true => some (if c.prefersUpper k tie then below + 1 else below)
  | true, false => some below
  | false, true => some (below + 1)
  | false, false => none

/-- The first grid from `10 ^ (finest + extra)` down to `10 ^ finest` that meets the cell. -/
def search (c : Cell) (tie : Tie) (finest : Int) : Nat → Digits
  | 0 => ⟨c.middle * c.scale finest / c.step finest, finest⟩
  | extra + 1 =>
    match c.gridPoint? (finest + (extra + 1 : Nat)) tie with
    | some n => ⟨n, finest + (extra + 1 : Nat)⟩
    | none => c.search tie finest extra

/-- The shortest decimal of the cell. The grid of `10 ^ exponent`, or of one if the exponent is not negative,
has the middle on it, and the coarsest grid worth trying is one above the highest digit. -/
def shortest (c : Cell) (tie : Tie) : Digits :=
  let finest := min 0 c.exponent
  let coarsest := (Nat.toDigits 10 (c.upper * Nat.pow 2 c.exponent.toNat)).length
  c.search tie finest (coarsest - finest).toNat

end Cell

end WindowTransitions.Decimal
