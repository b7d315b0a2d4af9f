import PrimalDual.Decimal

/-!
# Shortest decimal digits

The fewest digits of a decimal number that still rounds to a given binary number, and of those the
decimal number nearest to it. Everything is decided on exact fractions: the grid of decimals with a
given number of digits is tried from the coarsest on, and on each grid only the two neighbours of
the value can be the answer.
-/
namespace PrimalDual.Decimal

/-- The decimals that round to a binary number: an interval, with its ends or without them. All
three numbers are counted in quarters of the unit in the last place. -/
structure RoundingInterval where
  low : Nat
  value : Nat
  high : Nat
  closed : Bool

/-- Halfway to the neighbours on both sides; the lower neighbour is nearer below a power of two,
unless that starts the normal numbers. A tie rounds to an even mantissa. -/
def roundingInterval (f : BinaryFormat) (mantissa : Nat) (exponent : Int) : RoundingInterval where
  low :=
    if mantissa = Nat.pow 2 f.mantissaBits ∧ f.minExponent < exponent then 4 * mantissa - 1
    else 4 * mantissa - 2
  value := 4 * mantissa
  high := 4 * mantissa + 2
  closed := mantissa % 2 = 0

/-- Whether `n / g` with `g = (num, den)`, that is `n * den / num`, lies in the interval. -/
def RoundingInterval.contains (i : RoundingInterval) (grid : Nat × Nat) (n : Nat) : Bool :=
  let x := n * grid.2
  if i.closed then i.low * grid.1 ≤ x && x ≤ i.high * grid.1
  else i.low * grid.1 < x && x < i.high * grid.1

/-- The neighbour of the value on a decimal grid that reads back, the nearer one if both do; the
quarter unit is `grid.1 / grid.2` steps of the decimal grid. -/
def neighbour? (i : RoundingInterval) (grid : Nat × Nat) : Option Nat :=
  let below := i.value * grid.1 / grid.2
  match i.contains grid below, i.contains grid (below + 1) with
  | true, true => some (roundQuotient (i.value * grid.1) grid.2)
  | true, false => some below
  | false, true => some (below + 1)
  | false, false => none

/-- The first grid of at most `places + remaining` places after the leading digit that has an
answer. -/
def searchGrids (i : RoundingInterval) (quarter : Nat × Nat) (power : Int) (places : Nat) :
    Nat → Option (Nat × Int)
  | 0 => none
  | remaining + 1 =>
    match neighbour? i (scale quarter (places - power)) with
    | some n => some (n, power - places)
    | none => searchGrids i quarter power (places + 1) remaining

/-- Removes the zeros at the end of a number, counting them into the power of ten. -/
def stripZeros (n : Nat) (power : Int) : Nat × Int :=
  if h : n ≠ 0 ∧ n % 10 = 0 then stripZeros (n / 10) (power + 1) else (n, power)
termination_by n
decreasing_by omega

/-- Seventeen digits tell any two numbers of the formats in use apart. -/
def maxDigits : Nat := 17

/-- Digits and power of ten of the shortest decimal that reads back as a positive number. -/
def shortest (f : BinaryFormat) (mantissa : Nat) (exponent : Int) : Nat × Int :=
  let value := fraction mantissa exponent
  let power := leadingPower value
  let quarter := fraction 1 (exponent - 2)
  match searchGrids (roundingInterval f mantissa exponent) quarter power 0 maxDigits with
  | some (n, e) => stripZeros n e
  | none => (mantissa, 0)

end PrimalDual.Decimal
