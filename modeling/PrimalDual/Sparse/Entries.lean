import PrimalDual.Sparse

/-!
# Entries of a sparse matrix

A matrix as the list of its positioned entries, one entry looked up by position, and a matrix
assembled from entries in any order. Entries that share a position are added in the order given.
-/
namespace PrimalDual

structure Triplet (T : Type) where
  row : Nat
  col : Nat
  value : T

namespace Triplet

variable {T : Type}

def samePosition (s t : Triplet T) : Bool := s.row == t.row && s.col == t.col

/-- Columns come first, rows within a column next. -/
def before (s t : Triplet T) : Bool :=
  s.col < t.col || s.col == t.col && s.row ≤ t.row

/-- Adds an entry to the one collected last, when both have one position. -/
def absorb [Scalar T] (collected : List (Triplet T)) (t : Triplet T) : List (Triplet T) :=
  match collected with
  | [] => [t]
  | last :: rest =>
    if last.samePosition t then { last with value := last.value + t.value } :: rest
    else t :: last :: rest

/-- The entries by position, those of one position added up. The sort is stable, so that the order
of equal positions survives it. -/
def collect [Scalar T] (ts : List (Triplet T)) : List (Triplet T) :=
  ((ts.mergeSort before).foldl absorb []).reverse

end Triplet

namespace SparseMatrix

variable {T : Type}

/-- The matrix of a list of entries. -/
def ofTriplets [Scalar T] (rows cols : Nat) (ts : List (Triplet T)) :
    Except Fault (SparseMatrix T) := do
  if !ts.all (fun t => t.row < rows && t.col < cols) then throw .indexOutOfRange
  allocate (cols + 1)
  let entries := Triplet.collect ts
  ofParts rows cols ((List.range (cols + 1)).map fun j => entries.countP (·.col < j))
    (entries.map (·.row)) (entries.map (·.value))

/-- The matrix of the entries given by parallel lists of rows, columns and values. -/
def ofCoordinates [Scalar T] (rows cols : Nat) (is js : List Nat) (vs : List T) :
    Except Fault (SparseMatrix T) :=
  if is.length = js.length ∧ is.length = vs.length then
    ofTriplets rows cols (List.zipWith (fun ij v => ⟨ij.1, ij.2, v⟩) (is.zip js) vs)
  else .error .lengthMismatch

/-- The stored entries, column by column. -/
def triplets (A : SparseMatrix T) : Except Fault (List (Triplet T)) := do
  let entries := A.entries.toArray
  let columns ← (← A.bounds).zipIdx.mapM fun ((lo, hi), j) => do
    return (← slice entries lo hi).map fun (i, v) => Triplet.mk i j v
  return columns.flatten

/-- Halves the window of `size` rows from `base` on, keeping the half that can hold the target. -/
def bisect (rows : List Nat) (target base size : Nat) : Nat :=
  if size ≤ 1 then base
  else
    let mid := base + size / 2
    bisect rows target (if target < rows.getD mid 0 then base else mid) (size - size / 2)
termination_by size
decreasing_by omega

def position? (rows : List Nat) (target : Nat) : Option Nat :=
  let k := bisect rows target 0 rows.length
  if rows[k]? = some target then some k else none

/-- The entry stored for row `i` and column `j`, which have to lie in the matrix. -/
def entry? (A : SparseMatrix T) (i j : Nat) : Except Fault (Option T) := do
  if ¬ (i < A.rows ∧ j < A.cols) then throw .indexOutOfRange
  let (lo, hi) ← A.columnBounds j
  let rows ← segment A.rowIndices lo hi
  match position? rows i with
  | some k => return some (← entryAt A.values (lo + k))
  | none => return none

end SparseMatrix

end PrimalDual
