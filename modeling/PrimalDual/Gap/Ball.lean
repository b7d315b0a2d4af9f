import PrimalDual.Gap.Oracle
import PrimalDual.Sparse.Product
import PrimalDual.TrustRegion

/-!
# The gap by projection

The functional that the gap maximises is linear, so that its maximum over the ball lies on the path
from the centre along the ascent direction, stopped at the bounds `x ≥ 0`: a projection onto a trust
region finds it.
-/
namespace PrimalDual

/-- An oracle with room for points of one shape. It makes new room when the number of coordinates
changes. -/
structure BallOracle where
  primalDim : Nat := 0
  dualDim : Nat := 0
  deriving DecidableEq

namespace BallOracle

variable {T : Type} [Scalar T]

def fit (o : BallOracle) (p : Problem T) : BallOracle :=
  if o.primalDim + o.dualDim = p.primalDim + p.dualDim then o
  else ⟨p.primalDim, p.dualDim⟩

/-- Primal coordinates stay nonnegative, dual ones are free. -/
def bounds (o : BallOracle) : List (LowerBound T) :=
  List.replicate o.primalDim (.atLeast 0) ++ List.replicate o.dualDim .unbounded

/-- The descent direction `(c - Aᵀ y₀, A x₀ - b)` of the functional's negative. -/
def gradient (o : BallOracle) (p : Problem T) (x y : List T) : Except Fault (List T) := do
  let primal ← p.matrix.transposeMulAdd (-1) y 1 p.cost
  let rhs ← Vector.copyOnto (Vector.zeros o.dualDim) p.rhs
  let dual ← p.matrix.mulAdd 1 x (-1) rhs
  return primal ++ dual

/-- Where no coordinate is left to move, each one that could improve stands at its bound. -/
def cornerPoint (g : List T) (l : List (LowerBound T)) (z : List T) : List T :=
  (TrustRegion.coordinates g l z).map fun (g, l, z) => if 0 < g then l.value else z

/-- The point of the ball that maximises the functional. -/
def maximiser (g : List T) (l : List (LowerBound T)) (z : List T) (r : T) :
    Except Fault (Except GapError (List T)) := do
  match ← TrustRegion.project g l z r with
  | .ok solution => return .ok solution.point
  | .error .degenerate => return .ok (cornerPoint g l z)
  | .error e => return .error (.illPosed e.message)

/-- The normalized gap around a point that has the length of the problem's points. -/
def gapAround (o : BallOracle) (z : List T) (r : T) (p : Problem T) :
    Except Fault (Except GapError T) := do
  let x := z.take p.primalDim
  let y := z.drop p.primalDim
  let g ← o.gradient p x y
  let constant := (← p.primalObjective x) - (← p.dualObjective y)
  if Vector.maxNorm g == 0 then
    return .ok (constant / r)
  match ← maximiser g o.bounds z r with
  | .ok best => return .ok ((constant - (← Vector.dot g best)) / r)
  | .error e => return .error e

def ask (o : BallOracle) (z : List T) (r : T) (p : Problem T) :
    Except Fault (Except GapError T × BallOracle) := do
  let size := p.primalDim + p.dualDim
  if z.length ≠ size then
    return (.error (.illPosed ("center has length " ++ toString z.length ++
      " but the problem has " ++ toString size ++ " variables")), o)
  let o := o.fit p
  return (← o.gapAround z r p, o)

instance : GapOracle BallOracle T where
  ask := ask

end BallOracle

end PrimalDual
