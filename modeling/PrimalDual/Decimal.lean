import PrimalDual.Scalar

/-!
# Decimal text of binary numbers

A number is written from its exact value, rounded once to the places asked for; a tie goes to the
even neighbour. Texts are lists of characters until they are joined.
-/
namespace PrimalDual.Decimal

/-- The integer nearest to `num / den`, an even one between two equally near. -/
def roundQuotient (num den : Nat) : Nat :=
  let q := num / den
  let r := num % den
  if 2 * r < den ∨ 2 * r = den ∧ q % 2 = 0 then q else q + 1

/-- The positive fraction `mantissa * 2 ^ exponent` as numerator and denominator. -/
def fraction (mantissa : Nat) (exponent : Int) : Nat × Nat :=
  if 0 ≤ exponent then (mantissa * Nat.pow 2 exponent.toNat, 1)
  else (mantissa, Nat.pow 2 (-exponent).toNat)

/-- The fraction times a power of ten. -/
def scale (f : Nat × Nat) (power : Int) : Nat × Nat :=
  if 0 ≤ power then (f.1 * Nat.pow 10 power.toNat, f.2)
  else (f.1, f.2 * Nat.pow 10 (-power).toNat)

def digits (n : Nat) : List Char := Nat.toDigits 10 n

/-- The power of ten of the leading digit of a positive fraction. -/
def leadingPower (f : Nat × Nat) : Int :=
  if f.2 ≤ f.1 then ((digits (f.1 / f.2)).length : Int) - 1
  else -((digits ((f.2 - 1) / f.1)).length : Int)

/-- A point before the last `places` digits, zeros filling up to one digit before it. -/
def insertPoint (places : Nat) (ds : List Char) : List Char :=
  let ds := List.replicate (places + 1 - ds.length) '0' ++ ds
  let whole := ds.take (ds.length - places)
  if places = 0 then whole else whole ++ '.' :: ds.drop (ds.length - places)

/-- Positional notation with a fixed number of places. -/
def fixedMagnitude (places : Nat) (mantissa : Nat) (exponent : Int) : List Char :=
  let f := scale (fraction mantissa exponent) places
  insertPoint places (digits (roundQuotient f.1 f.2))

/-- The digits of a positive fraction rounded to `places` after the first, and the power of ten of
the first. Rounding up may carry into a further digit. -/
def significant (places : Nat) (f : Nat × Nat) : Nat × Int :=
  let power := leadingPower f
  let g := scale f (places - power)
  let n := roundQuotient g.1 g.2
  if n = Nat.pow 10 (places + 1) then (Nat.pow 10 places, power + 1) else (n, power)

def exponentText (power : Int) : List Char :=
  if 0 ≤ power then digits power.toNat else '-' :: digits (-power).toNat

/-- Scientific notation with a fixed number of places after the first digit. -/
def scientificMagnitude (places : Nat) (mantissa : Nat) (exponent : Int) : List Char :=
  let (n, power) := if mantissa = 0 then (0, 0) else significant places (fraction mantissa exponent)
  insertPoint places (digits n) ++ 'e' :: exponentText power

/-- When a sign is written. -/
inductive SignStyle where
  | onlyMinus
  | always
  deriving DecidableEq

def signText (style : SignStyle) (negative : Bool) : List Char :=
  if negative then ['-'] else if style = .always then ['+'] else []

/-- The text of a number, given that of a finite magnitude. A NaN has no sign. -/
def render (style : SignStyle) (magnitude : Nat → Int → List Char) : Decoded → List Char
  | .nan => "NaN".toList
  | .infinite negative => signText style negative ++ "inf".toList
  | .finite negative mantissa exponent => signText style negative ++ magnitude mantissa exponent

/-- Blanks before a text that is shorter than its column. -/
def padLeft (width : Nat) (cs : List Char) : List Char :=
  List.replicate (width - cs.length) ' ' ++ cs

/-- Blanks after a text that is shorter than its column. -/
def padRight (width : Nat) (cs : List Char) : List Char :=
  cs ++ List.replicate (width - cs.length) ' '

variable {T : Type} [Scalar T]

def fixed (places : Nat) (x : T) : List Char :=
  render .onlyMinus (fixedMagnitude places) (Scalar.decode x)

def scientific (style : SignStyle) (places : Nat) (x : T) : List Char :=
  render style (scientificMagnitude places) (Scalar.decode x)

end PrimalDual.Decimal
