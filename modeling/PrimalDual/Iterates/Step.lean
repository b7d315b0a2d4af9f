import PrimalDual.Iterates
import PrimalDual.Problem
import PrimalDual.Sparse.Product

/-!
# The primal-dual step

A gradient step in the primal variables, projected onto the nonnegative ones, and a gradient step in
the dual variables at a primal point that is extrapolated past the new one.
-/
namespace PrimalDual

variable {T : Type} [Scalar T]

namespace Problem

/-- The primal point `max (x - (η / ω) * (cost - matrixᵀ * y), 0)`. -/
def primalStep (p : Problem T) (stepSize weight : T) (x y : List T) : Except Fault (List T) := do
  let slack ← p.matrix.transposeMulAdd (-1) y 1 p.cost
  let moved ← Vector.waxpby (Vector.zeros p.primalDim) 1 x (-stepSize / weight) slack
  return moved.map (Scalar.greater · 0)

/-- The dual point `y - η * ω * (matrix * (2 * x⁺ - x) - rhs)`. -/
def dualStep (p : Problem T) (stepSize weight : T) (x next y : List T) : Except Fault (List T) := do
  let ahead ← Vector.waxpby (Vector.zeros p.primalDim) ((2 : Nat) : T) next (-1) x
  let residual ← p.matrix.mulAdd 1 ahead (-1) p.rhs
  Vector.axpby 1 y (-stepSize * weight) residual

/-- Both points of a step from `(x, y)` in one list. -/
def stepFrom (p : Problem T) (stepSize weight : T) (x y : List T) : Except Fault (List T) := do
  let next ← p.primalStep stepSize weight x y
  let nextDual ← p.dualStep stepSize weight x next y
  return next ++ nextDual

end Problem

namespace Iterates

/-- One step from the current point, which is proposed for the average. -/
def advance (s : Iterates T) (p : Problem T) (stepSize weight : T) :
    Except Fault (Iterates T) := do
  if s.layout.isSplit then throw .splitLayout
  if s.point.length ≠ p.primalDim + p.dualDim then throw .lengthMismatch
  let x ← s.primal
  let y ← s.dual
  let point ← p.stepFrom stepSize weight x y
  let proposal ← Vector.copyOnto s.proposal point
  { s with point, proposal }.update

end Iterates

end PrimalDual
