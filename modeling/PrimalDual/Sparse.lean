import PrimalDual.Fault
import PrimalDual.Scalar

/-!
# Sparse matrices by columns

The entries of column `j` stand at the positions from `colStarts[j]` up to `colStarts[j + 1]` of the
row indices and of the values. The fields can hold anything; `SparseMatrix.check` tells the matrices
in which they belong together.
-/
namespace PrimalDual

structure SparseMatrix (T : Type) where
  rows : Nat
  cols : Nat
  colStarts : List Nat
  rowIndices : List Nat
  values : List T

namespace SparseMatrix

variable {T : Type}

/-- A matrix from its parts, whose lengths have to agree. -/
def ofParts (rows cols : Nat) (colStarts rowIndices : List Nat) (values : List T) :
    Except Fault (SparseMatrix T) :=
  if rowIndices.length = values.length ∧ colStarts.length = cols + 1 ∧
      colStarts[cols]? = some rowIndices.length then
    .ok ⟨rows, cols, colStarts, rowIndices, values⟩
  else .error .lengthMismatch

/-- Room for `count` entries, all of them given to the last column. -/
def reserved [Scalar T] (rows cols count : Nat) : Except Fault (SparseMatrix T) := do
  allocate (cols + 1)
  allocate count
  ofParts rows cols (List.replicate cols 0 ++ [count]) (List.replicate count 0)
    (List.replicate count 0)

def zero [Scalar T] (rows cols : Nat) : Except Fault (SparseMatrix T) :=
  reserved rows cols 0

def identity [Scalar T] (n : Nat) : Except Fault (SparseMatrix T) := do
  allocate (n + 1)
  ofParts n n (List.range (n + 1)) (List.range n) (List.replicate n 1)

/-- Where the last column ends. -/
def entryCount (A : SparseMatrix T) : Except Fault Nat := entryAt A.colStarts A.cols

/-- The positions at which column `j` starts and ends. -/
def columnBounds (A : SparseMatrix T) (j : Nat) : Except Fault (Nat × Nat) := do
  let lo ← entryAt A.colStarts j
  let hi ← entryAt A.colStarts (j + 1)
  return (lo, hi)

/-- The bounds of every column. -/
def bounds (A : SparseMatrix T) : Except Fault (List (Nat × Nat)) :=
  let neighbours := A.colStarts.zip A.colStarts.tail
  if A.cols ≤ neighbours.length then .ok (neighbours.take A.cols) else .error .indexOutOfRange

/-- The rows and values side by side. -/
def entries (A : SparseMatrix T) : List (Nat × T) := A.rowIndices.zip A.values

/-- The entries of every column. Bounds in the wrong order enclose nothing; otherwise each position
between them has to exist. -/
def columns (A : SparseMatrix T) : Except Fault (List (List (Nat × T))) := do
  let entries := A.entries.toArray
  (← A.bounds).mapM fun (lo, hi) => if hi ≤ lo then .ok [] else slice entries lo hi

/-- Equality of the parts, with values compared as scalars. -/
def equals [Scalar T] (A B : SparseMatrix T) : Bool :=
  A.rows == B.rows && A.cols == B.cols && A.colStarts == B.colStarts &&
    A.rowIndices == B.rowIndices && A.values == B.values

/-- Whether a matrix is used as it stands or transposed. -/
inductive Orientation where
  | plain
  | transposed
  deriving DecidableEq

def size (A : SparseMatrix T) : Orientation → Nat × Nat
  | .plain => (A.rows, A.cols)
  | .transposed => (A.cols, A.rows)

def isSquare (A : SparseMatrix T) (o : Orientation) : Bool :=
  (A.size o).1 == (A.size o).2

def sumOfSquares [Scalar T] (A : SparseMatrix T) : T :=
  A.values.foldl (fun sum v => sum + v * v) 0

end SparseMatrix

end PrimalDual
