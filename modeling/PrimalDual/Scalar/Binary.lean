import PrimalDual.Decimal

/-!
# Binary floating-point scalars

Double and single precision. Constants and samples are given in double precision and rounded once
more for the narrower format.
-/
namespace PrimalDual

namespace BinaryFormat

/-- The bits of infinity, without the sign. -/
def infinityBits (f : BinaryFormat) : Nat :=
  (Nat.pow 2 f.exponentBits - 1) * Nat.pow 2 f.mantissaBits

/-- The bits of the number nearest to `mantissa * 2 ^ exponent`, which are those of infinity beyond
the range; a tie goes to the even neighbour. A carry out of the mantissa raises the exponent. -/
def nearestBits (f : BinaryFormat) (mantissa : Nat) (exponent : Int) : Nat :=
  let unit := max f.minExponent (exponent + (Nat.log2 mantissa : Int) - f.mantissaBits)
  let (num, den) := Decimal.fraction mantissa (exponent - unit)
  min f.infinityBits ((unit - f.minExponent).toNat * Nat.pow 2 f.mantissaBits +
    Decimal.roundQuotient num den)

end BinaryFormat

/-- The single precision number nearest to a double precision one. -/
def singleOfDouble (x : Float) : Float32 :=
  let signed (negative : Bool) (bits : Nat) : Float32 :=
    Float32.ofBits (UInt32.ofNat (if negative then Nat.pow 2 31 + bits else bits))
  match BinaryFormat.binary64.decode x.toBits.toNat with
  | .nan => 0 / 0
  | .infinite negative => signed negative BinaryFormat.binary32.infinityBits
  | .finite negative mantissa exponent =>
    signed negative (BinaryFormat.binary32.nearestBits mantissa exponent)

instance : Scalar Float where
  zero := 0
  one := 1
  add := (· + ·)
  sub := (· - ·)
  mul := (· * ·)
  div := (· / ·)
  neg := (- ·)
  natCast := Float.ofNat
  lt := (· < ·)
  le := (· ≤ ·)
  beq := (· == ·)
  decidableLT := inferInstance
  decidableLE := inferInstance
  abs := Float.abs
  sqrt := Float.sqrt
  isNaN := Float.isNaN
  isFinite := Float.isFinite
  nan := 0 / 0
  negInfinity := -1 / 0
  ofDouble := id
  ofDecimal := fun mantissa places => Float.ofScientific mantissa true places
  inverseE := Float.ofBits 0x3fd78b56362cef38
  format := .binary64
  decode := fun x => BinaryFormat.binary64.decode x.toBits.toNat

instance : Scalar Float32 where
  zero := 0
  one := 1
  add := (· + ·)
  sub := (· - ·)
  mul := (· * ·)
  div := (· / ·)
  neg := (- ·)
  natCast := Float32.ofNat
  lt := (· < ·)
  le := (· ≤ ·)
  beq := (· == ·)
  decidableLT := inferInstance
  decidableLE := inferInstance
  abs := Float32.abs
  sqrt := Float32.sqrt
  isNaN := Float32.isNaN
  isFinite := Float32.isFinite
  nan := 0 / 0
  negInfinity := -1 / 0
  ofDouble := singleOfDouble
  ofDecimal := fun mantissa places => singleOfDouble (Float.ofScientific mantissa true places)
  inverseE := Float32.ofBits 0x3ebc5ab2
  format := .binary32
  decode := fun x => BinaryFormat.binary32.decode x.toBits.toNat

end PrimalDual
