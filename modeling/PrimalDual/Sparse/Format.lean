import PrimalDual.Sparse

/-!
# The format of a sparse matrix

A matrix is in format when its parts have the lengths that its dimensions call for, the columns
follow one another, and each column lists rows of the matrix in increasing order. The check reports
the first condition that fails.
-/
namespace PrimalDual

inductive FormatError where
  | incompatibleDimension
  | badRow
  | badColumnStart
  deriving DecidableEq

def FormatError.message : FormatError → String
  | .incompatibleDimension => "Matrix dimension fields and/or array lengths are incompatible"
  | .badRow => "Row value exceeds the matrix row dimension"
  | .badColumnStart => "Bad column pointer values"

namespace SparseMatrix

variable {T : Type}

/-- Whether the relation holds between each entry and the next. -/
def chained (r : Nat → Nat → Bool) : List Nat → Bool
  | a :: b :: rest => r a b && chained r (b :: rest)
  | _ => true

/-- Whether the rows between two positions increase. -/
def increases (rows : Array Nat) (ends : Nat × Nat) : Except Fault Bool := do
  return chained (· < ·) (← slice rows ends.1 ends.2)

/-- The conditions in order, up to the first one that fails. The starts are looked up and the rows
cut by them, which is safe for any parts only because of what has been checked by then. -/
def inspect (A : SparseMatrix T) : Except Fault (Except FormatError Unit) := do
  if A.rowIndices.length ≠ A.values.length then return .error .incompatibleDimension
  if A.colStarts.isEmpty then return .error .incompatibleDimension
  if (← Counter.previous A.colStarts.length) ≠ A.cols then return .error .incompatibleDimension
  if (← A.entryCount) ≠ A.rowIndices.length then return .error .incompatibleDimension
  if !chained (· ≤ ·) A.colStarts then return .error .badColumnStart
  if !(← (← A.bounds).allM (increases A.rowIndices.toArray)) then return .error .badRow
  if !A.rowIndices.all (· < A.rows) then return .error .badRow
  return .ok ()

/-- The outcome of the inspection, which never ends in a fault. -/
def check (A : SparseMatrix T) : Except FormatError Unit :=
  match A.inspect with
  | .ok verdict => verdict
  | .error _ => .error .incompatibleDimension

/-- The matrices that the check accepts. -/
def InFormat (A : SparseMatrix T) : Prop := A.check = .ok ()

end SparseMatrix

end PrimalDual
