import PrimalDual.Gap.Evaluator
import PrimalDual.Iterates
import PrimalDual.Settings
import PrimalDual.Sparse.Product

/-!
# Convergence

The error of a point is the norm of the positive parts of its optimality residuals. A run converges
once the duality gap is small; should the gap have been given up after failures, once the error is.
-/
namespace PrimalDual

variable {T : Type} [Scalar T]

/-- The sum of the squares of the positive entries. -/
def positiveSquares (v : List T) : T :=
  (v.map (Scalar.greater · 0)).foldl (fun sum v => sum + v * v) 0

namespace Problem

/-- The sum of the squares of the positive parts of `-x`, `A x - b`, `b - A x`, `Aᵀ y - c` and
`c · x - b · y`, and its root. -/
def kktError (p : Problem T) (x y : List T) : Except Fault T := do
  let residual ← p.matrix.mulAdd 1 x (-1) p.rhs
  let slack ← p.matrix.transposeMulAdd 1 y (-1) p.cost
  let gap := (← p.primalObjective x) - (← p.dualObjective y)
  return Scalar.sqrt (positiveSquares (x.map (- ·)) + positiveSquares residual +
    positiveSquares (residual.map (- ·)) + positiveSquares slack + positiveSquares [gap])

/-- The same of `-v`, `A u - b`, `b - A u`, `u - v` and `v - u` for two copies of the primal
variables. -/
def kktErrorSplit (p : Problem T) (u v : List T) : Except Fault T := do
  let residual ← p.matrix.mulAdd 1 u (-1) p.rhs
  return Scalar.sqrt (positiveSquares (v.map (- ·)) + positiveSquares residual +
    positiveSquares (residual.map (- ·)) + positiveSquares (List.zipWith (· - ·) u v) +
    positiveSquares (List.zipWith (fun u v => v - u) u v))

end Problem

namespace Iterates

def kktError (s : Iterates T) (p : Problem T) : Except Fault T := do
  if s.layout.isSplit then
    p.kktErrorSplit (← s.firstCopy) (← s.secondCopy)
  else
    p.kktError (← s.primal) (← s.dual)

/-- Keeps the radius positive at the start of an epoch. -/
def radiusShift : T := Scalar.ofDecimal 1 6

variable {ω : Type} [GapOracle ω T]

/-- The gap around the average, over the distance that the epoch has covered. -/
def gapOfEpoch (s : Iterates T) (p : Problem T) (gap : GapEvaluator ω) :
    Except Fault (Option T × GapEvaluator ω) := do
  let radius := (← Vector.dist s.point s.epochStart) + radiusShift
  let (answer, gap) ← gap.evaluate s.average radius p
  return (answer.toOption, gap)

/-- The rule that ends a run. -/
def converged (settings : Settings T) (disabled : Bool) (d : Diagnostics T) : Bool :=
  match d.gap with
  | some g => Scalar.abs g < settings.gapTolerance
  | none => disabled && d.kktError < settings.kktTolerance

def gapIfEnabled (s : Iterates T) (p : Problem T) (settings : Settings T) (gap : GapEvaluator ω) :
    Except Fault (Option T × GapEvaluator ω) :=
  if settings.gapEnabled then s.gapOfEpoch p gap else .ok (none, gap)

/-- Computes the diagnostics of the iterates, keeps them and applies the rule. -/
def evaluate (s : Iterates T) (p : Problem T) (settings : Settings T) (gap : GapEvaluator ω) :
    Except Fault (Iterates T × GapEvaluator ω) := do
  let kktError ← s.kktError p
  let (value, gap) ← s.gapIfEnabled p settings gap
  let diagnostics : Diagnostics T := ⟨kktError, value⟩
  let terminate := s.terminate || converged settings gap.disabled diagnostics
  return ({ s with diagnostics, terminate }, gap)

end Iterates

end PrimalDual
