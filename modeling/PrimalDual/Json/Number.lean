import PrimalDual.Json
import PrimalDual.Decimal.Shortest
import PrimalDual.Scalar.Binary

/-!
# Scalars in JSON

A finite scalar is written with the fewest digits that read back, in positional notation within a
range of sizes and in scientific notation outside it; what is not finite is written as null. A
literal stands for the scalar nearest to it.
-/
namespace PrimalDual.Json

/-- The powers of ten of the leading digit between which numbers are written out in full. -/
structure NumberLayout where
  plainFrom : Int
  plainTo : Int

/-- Scalars with a JSON text. -/
class Number (T : Type) extends Scalar T where
  layout : NumberLayout
  /-- The scalar nearest to `digits * 10 ^ power`, which is infinite beyond the range. -/
  nearest : Nat → Int → T

/-- Powers of ten by which a magnitude is certain to leave the range of the formats. -/
def certainRange : Int := 400

/-- A reading of decimals, given one of those that are neither huge nor tiny. -/
def readWithin {T : Type} [Scalar T] (read : Nat → Bool → Nat → T) (digits : Nat) (power : Int) :
    T :=
  let size := ((Decimal.digits digits).length : Int) + power
  if digits = 0 ∨ size < -certainRange then 0
  else if certainRange < size then 1 / 0
  else read digits (power < 0) power.natAbs

instance : Number Float where
  layout := ⟨-5, 15⟩
  nearest := readWithin Float.ofScientific

instance : Number Float32 where
  layout := ⟨-6, 12⟩
  nearest := readWithin Float32.ofScientific

variable {T : Type} [Number T]

/-- The scalar of a literal, unless it lies beyond the range. -/
def Literal.toScalar? (n : Literal) : Option T :=
  let x : T := Number.nearest n.digits n.power
  if Scalar.isFinite x then some (if n.negative then -x else x) else none

/-- Every number has to fit into double precision, whatever it is read for. -/
def Literal.inRange (n : Literal) : Bool := (n.toScalar? (T := Float)).isSome

/-- The words of 64 bits are the numbers below it. -/
def wordBound : Nat := 0x10000000000000000

/-- Whether the literal is held as an integer before it is read. -/
def Literal.isWord (n : Literal) : Bool :=
  n.integral &&
    (if n.negative then 0 < n.digits && 2 * n.digits ≤ wordBound else n.digits < wordBound)

/-- The scalar of a literal that was held for a while: as a word if it is one, otherwise in double
precision. -/
def Literal.heldScalar (n : Literal) : T :=
  if n.isWord then (n.toScalar?).getD 0 else Scalar.ofDouble ((n.toScalar?).getD 0)

/-- The text of the positive number `n * 10 ^ e`. -/
def decimalText (l : NumberLayout) (n : Nat) (e : Int) : List Char :=
  let ds := Decimal.digits n
  let leading := (ds.length : Int) - 1 + e
  if l.plainFrom ≤ leading ∧ leading ≤ l.plainTo then
    if 0 ≤ e then ds ++ List.replicate e.toNat '0' ++ ['.', '0']
    else Decimal.insertPoint (-e).toNat ds
  else
    let point := if ds.length = 1 then [] else '.' :: ds.drop 1
    let sign := if 0 ≤ leading then '+' else '-'
    ds.take 1 ++ point ++ 'e' :: sign :: Decimal.digits leading.natAbs

def numberText (x : T) : List Char :=
  match Scalar.decode x with
  | .nan | .infinite _ => "null".toList
  | .finite negative mantissa exponent =>
    let magnitude :=
      if mantissa = 0 then "0.0".toList
      else
        let (n, e) := Decimal.shortest (Scalar.format T) mantissa exponent
        decimalText (Number.layout T) n e
    Decimal.signText .onlyMinus negative ++ magnitude

end PrimalDual.Json
