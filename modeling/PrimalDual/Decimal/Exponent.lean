import PrimalDual.Decimal
import PrimalDual.Text.Utf8

/-!
# Exponents of equal width

Progress lines align their numbers: an exponent is written with its sign and at least two digits.
Widening works on any text and only touches what follows the first `e`.
-/
namespace PrimalDual.Decimal

/-- The digits of an exponent, at least two of them where there was one. -/
def twoDigits (ds : List Char) : List Char :=
  if ds.length = 1 then '0' :: ds else ds

def widenExponent (cs : List Char) : List Char :=
  let mantissa := cs.takeWhile (· != 'e')
  match cs.dropWhile (· != 'e') with
  | [] => cs
  | e :: '-' :: ds => mantissa ++ e :: '-' :: twoDigits ds
  | e :: ds => mantissa ++ e :: '+' :: twoDigits ds

/-- Scientific notation in a column, with a widened exponent unless the number is not finite. -/
def aligned {T : Type} [Scalar T] (style : SignStyle) (width places : Nat) (x : T) : List Char :=
  let text := padLeft width (scientific style places x)
  if Scalar.isFinite x then widenExponent text else text

/-- What is missing behind the sign of an exponent, or in its place. -/
def missing (signed short : Bool) : String :=
  match signed, short with
  | false, true => "+0"
  | false, false => "+"
  | true, true => "0"
  | true, false => ""

/-- Widening on the bytes of a text, where only the letter and the sign are looked at: how many
digits there are is told by the length. -/
def widenBytes (bytes : List UInt8) : Except Fault (List UInt8) :=
  match bytes.findIdx? (· == 'e'.toUInt8) with
  | none => .ok bytes
  | some letter => do
    let exponent ← Utf8.cutFrom bytes (letter + 1)
    let signed := exponent.head? == some '-'.toUInt8
    let short := bytes.length == letter + if signed then 3 else 2
    let place := letter + if signed then 2 else 1
    Utf8.insertAt bytes place (Utf8.encode (missing signed short))

end PrimalDual.Decimal
