import PrimalDual.Sparse.Entries
import PrimalDual.Sparse.Format
import PrimalDual.Vector

/-!
# Linear programs

The problem is to minimise `cost · x` over `x ≥ 0` with `matrix * x = rhs`. Its dual maximises
`rhs · y` over the `y` with `matrixᵀ * y ≤ cost`.
-/
namespace PrimalDual

structure Problem (T : Type) where
  matrix : SparseMatrix T
  rhs : List T
  cost : List T
  name : Option String

inductive ProblemError where
  | costLength (given cols : Nat)
  | rhsLength (given rows : Nat)
  | nonFinite (part : String)
  | badFormat (e : FormatError)
  deriving DecidableEq

def ProblemError.message : ProblemError → String
  | .costLength given cols =>
    "Incompatible dimensions: c has length " ++ toString given ++ " but A has " ++ toString cols ++
      " columns"
  | .rhsLength given rows =>
    "Incompatible dimensions: b has length " ++ toString given ++ " but A has " ++ toString rows ++
      " rows"
  | .nonFinite part => "Problem data contains non-finite values in " ++ part
  | .badFormat _ => "Data formatting error"

namespace Problem

variable {T : Type}

/-- The number of primal variables. -/
def primalDim (p : Problem T) : Nat := p.matrix.cols

/-- The number of constraints, and of dual variables. -/
def dualDim (p : Problem T) : Nat := p.matrix.rows

variable [Scalar T]

/-- The problem of the given parts, provided that they belong together and are finite. -/
def ofParts (matrix : SparseMatrix T) (rhs cost : List T) :
    Except ProblemError (Problem T) := do
  match matrix.check with
  | .error e => throw (.badFormat e)
  | .ok () =>
    if cost.length ≠ matrix.cols then throw (.costLength cost.length matrix.cols)
    if rhs.length ≠ matrix.rows then throw (.rhsLength rhs.length matrix.rows)
    if !Vector.isFinite rhs then throw (.nonFinite "b")
    if !Vector.isFinite cost then throw (.nonFinite "c")
    if !Vector.isFinite matrix.values then throw (.nonFinite "A")
    return { matrix, rhs, cost, name := none }

/-- The problems that are accepted, under whatever name. -/
def Accepted (p : Problem T) : Prop :=
  ofParts p.matrix p.rhs p.cost = .ok { p with name := none }

def withName (p : Problem T) (name : String) : Problem T := { p with name := some name }

def label (p : Problem T) : String := p.name.getD "unnamed"

/-- A small reference instance. Its solutions are `(4, 1, 0, 0, 0)` and, of the dual, `(-1, -3)`. -/
def reference : Problem T where
  matrix :=
    { rows := 2
      cols := 5
      colStarts := [0, 2, 3, 4, 4, 4]
      rowIndices := [0, 1, 1, 0]
      values := [1, 1, 1, 1] }
  rhs := [((4 : Nat) : T), ((5 : Nat) : T)]
  cost := [-((4 : Nat) : T), -((3 : Nat) : T), 0, 0, 0]
  name := some "example_lp"

def primalObjective (p : Problem T) (x : List T) : Except Fault T := Vector.dot p.cost x

def dualObjective (p : Problem T) (y : List T) : Except Fault T := Vector.dot p.rhs y

end Problem

end PrimalDual
