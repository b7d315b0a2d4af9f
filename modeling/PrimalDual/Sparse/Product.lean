import PrimalDual.Sparse
import PrimalDual.Vector

/-!
# Products of a sparse matrix and a vector

Both products update a vector: `y` becomes `a * A * x + b * y`, with `A` or its transpose. The plain
product spreads each column over the rows that it touches, the transposed one adds up each column.
-/
namespace PrimalDual.SparseMatrix

variable {T : Type} [Scalar T]

/-- The vector times `b`, without arithmetic where `b` is zero, one or minus one. -/
def scaleOutput (b : T) (y : List T) : List T :=
  if b == 0 then y.map fun _ => 0
  else if b == -1 then y.map fun v => -v
  else if b == 1 then y
  else y.map (· * b)

/-- Adds a column, times `s`, to the vector. -/
def addColumn (s : T) (y : Array T) (entries : List (Nat × T)) : Except Fault (Array T) :=
  entries.foldlM (fun y (i, v) =>
    if h : i < y.size then .ok (y.set i (y[i] + v * s)) else .error .indexOutOfRange) y

/-- The product of a column with the vector. -/
def columnDot (x : Array T) (entries : List (Nat × T)) : Except Fault T :=
  entries.foldlM (fun sum (i, v) =>
    if h : i < x.size then .ok (sum + v * x[i]) else .error .indexOutOfRange) 0

/-- The vector `a * A * x + b * y`. -/
def mulAdd (A : SparseMatrix T) (a : T) (x : List T) (b : T) (y : List T) :
    Except Fault (List T) := do
  if x.length ≠ A.cols ∨ y.length ≠ A.rows then throw .lengthMismatch
  let y := scaleOutput b y
  if a == 0 then return y
  let columns ← A.columns
  let y ← (x.zip columns).foldlM (fun y (xj, column) => addColumn (a * xj) y column) y.toArray
  return y.toList

/-- The vector `a * Aᵀ * x + b * y`. -/
def transposeMulAdd (A : SparseMatrix T) (a : T) (x : List T) (b : T) (y : List T) :
    Except Fault (List T) := do
  if x.length ≠ A.rows ∨ y.length ≠ A.cols then throw .lengthMismatch
  let y := scaleOutput b y
  if a == 0 then return y
  let x := x.toArray
  (y.zip (← A.columns)).mapM fun (yj, column) => do return yj + a * (← columnDot x column)

end PrimalDual.SparseMatrix
