import PrimalDual.Gap.Ball

/-!
# The gap by projection, in place

An oracle that writes into buffers and keeps them from one query to the next. New buffers are made
when the number of coordinates changes. They are not cleared otherwise.
-/
namespace PrimalDual

/-- The descent direction, the bounds of the coordinates and the residual of the constraints. -/
structure BallSpace (T : Type) where
  gradient : List T := []
  bounds : List (LowerBound T) := []
  residual : List T := []

namespace BallSpace

variable {T : Type} [Scalar T]

def fit (s : BallSpace T) (p : Problem T) : BallSpace T :=
  if s.gradient.length = p.primalDim + p.dualDim then s
  else
    { gradient := Vector.zeros (p.primalDim + p.dualDim)
      bounds := List.replicate p.primalDim (.atLeast 0) ++ List.replicate p.dualDim .unbounded
      residual := Vector.zeros p.dualDim }

/-- Writes the descent direction, the residual by way of its own buffer. -/
def descend (s : BallSpace T) (p : Problem T) (x y : List T) : Except Fault (BallSpace T) := do
  let primal ← Vector.copyOnto (s.gradient.take p.primalDim) p.cost
  let primal ← p.matrix.transposeMulAdd (-1) y 1 primal
  let residual ← Vector.copyOnto s.residual p.rhs
  let residual ← p.matrix.mulAdd 1 x (-1) residual
  let dual ← Vector.copyOnto (s.gradient.drop p.primalDim) residual
  return { s with gradient := primal ++ dual, residual }

/-- The normalized gap around a point that has the length of the problem's points. -/
def gapAround (s : BallSpace T) (z : List T) (r : T) (p : Problem T) :
    Except Fault (Except GapError T × BallSpace T) := do
  let x := z.take p.primalDim
  let y := z.drop p.primalDim
  let s ← s.descend p x y
  let constant := (← p.primalObjective x) - (← p.dualObjective y)
  if Vector.maxNorm s.gradient == 0 then
    return (.ok (constant / r), s)
  match ← BallOracle.maximiser s.gradient s.bounds z r with
  | .ok best => return (.ok ((constant - (← Vector.dot s.gradient best)) / r), s)
  | .error e => return (.error e, s)

def ask (s : BallSpace T) (z : List T) (r : T) (p : Problem T) :
    Except Fault (Except GapError T × BallSpace T) := do
  let size := p.primalDim + p.dualDim
  if z.length ≠ size then
    return (.error (.illPosed ("center has length " ++ toString z.length ++
      " but the problem has " ++ toString size ++ " variables")), s)
  (s.fit p).gapAround z r p

instance : GapOracle (BallSpace T) T where
  ask := ask

end BallSpace

structure GapQuery (T : Type) where
  centre : List T
  radius : T
  problem : Problem T

variable {T : Type} [Scalar T] {ω : Type} [GapOracle ω T]

/-- The answers of one oracle to queries that may be about different problems. -/
def GapOracle.askAll (o : ω) : List (GapQuery T) → Except Fault (List (Except GapError T) × ω)
  | [] => .ok ([], o)
  | q :: rest => do
    let (answer, o) ← GapOracle.ask o q.centre q.radius q.problem
    let (answers, o) ← GapOracle.askAll o rest
    return (answer :: answers, o)

end PrimalDual
