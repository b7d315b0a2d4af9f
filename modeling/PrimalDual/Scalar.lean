/-!
# Scalars

The number system of a run. Every algorithm of the library is written once over `Scalar`: over the
binary floating-point numbers it is the program that runs, over an exact field it is the textbook
method. Operations are applied in the order in which they are written, so that both readings belong
to the same definition.
-/
namespace PrimalDual

/-- A binary interchange format by the widths of its two magnitude fields. -/
structure BinaryFormat where
  mantissaBits : Nat
  exponentBits : Nat
  deriving DecidableEq

/-- What a bit pattern stands for; a finite one for `± mantissa * 2 ^ exponent`. -/
inductive Decoded where
  | nan
  | infinite (negative : Bool)
  | finite (negative : Bool) (mantissa : Nat) (exponent : Int)
  deriving DecidableEq

namespace BinaryFormat

def binary64 : BinaryFormat := ⟨52, 11⟩
def binary32 : BinaryFormat := ⟨23, 8⟩

def width (f : BinaryFormat) : Nat := 1 + f.exponentBits + f.mantissaBits

/-- The exponent of the unit in the last place of the subnormal numbers. -/
def minExponent (f : BinaryFormat) : Int :=
  2 - (Nat.pow 2 (f.exponentBits - 1) : Nat) - f.mantissaBits

def decode (f : BinaryFormat) (bits : Nat) : Decoded :=
  let negative := bits / Nat.pow 2 (f.exponentBits + f.mantissaBits) % 2 == 1
  let exponent := bits / Nat.pow 2 f.mantissaBits % Nat.pow 2 f.exponentBits
  let mantissa := bits % Nat.pow 2 f.mantissaBits
  if exponent + 1 = Nat.pow 2 f.exponentBits then
    if mantissa = 0 then .infinite negative else .nan
  else if exponent = 0 then .finite negative mantissa f.minExponent
  else .finite negative (Nat.pow 2 f.mantissaBits + mantissa) (f.minExponent + (exponent - 1 : Nat))

end BinaryFormat

/-- Numbers with the field operations, a square root, comparisons that may fail on both sides, and
readings of the double precision constants and samples that the algorithms use. -/
class Scalar (T : Type) extends
    Zero T, One T, Add T, Sub T, Mul T, Div T, Neg T, NatCast T, LT T, LE T, BEq T where
  decidableLT : DecidableLT T
  decidableLE : DecidableLE T
  abs : T → T
  sqrt : T → T
  isNaN : T → Bool
  isFinite : T → Bool
  nan : T
  /-- The value below every other one, where the number system has it. -/
  negInfinity : T
  ofDouble : Float → T
  /-- The constant `mantissa / 10 ^ places`, read in double precision first. -/
  ofDecimal : (mantissa places : Nat) → T
  /-- The reciprocal of the base of the natural logarithm. -/
  inverseE : T
  format : BinaryFormat
  decode : T → Decoded

instance Scalar.instDecidableLt {T : Type} [Scalar T] (a b : T) : Decidable (a < b) :=
  Scalar.decidableLT a b

instance Scalar.instDecidableLe {T : Type} [Scalar T] (a b : T) : Decidable (a ≤ b) :=
  Scalar.decidableLE a b

namespace Scalar

variable {T : Type} [Scalar T]

/-- The greater of two scalars; beside a NaN, the other one. -/
def greater (a b : T) : T :=
  if a < b then b else if isNaN a then b else a

def recip (a : T) : T := 1 / a

def square (a : T) : T := a * a

end Scalar

end PrimalDual
