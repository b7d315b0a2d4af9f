import PrimalDual.PowerIteration
import PrimalDual.Solver
import PrimalDual.Gap.Ball

/-!
# Choosing parameters

Step sizes come from an estimate of the matrix's norm. Primal weights and restart lengths are chosen
by short runs over a list of candidates, of which the one with the smallest final error wins.
-/
namespace PrimalDual

variable {T : Type} [Scalar T]

namespace SparseMatrix

/-- The product `Aᵀ (A x)`. -/
def mulGram (A : SparseMatrix T) (x : List T) : Except Fault (List T) := do
  let product ← A.mulAdd 1 x 0 (Vector.zeros A.rows)
  A.transposeMulAdd 1 product 0 (Vector.zeros A.cols)

/-- An estimate of the spectral norm, from the largest eigenvalue of `Aᵀ A`. -/
def estimateNorm (A : SparseMatrix T) : Except Fault T := do
  let estimate ← PowerIteration.estimate A.cols A.mulGram {}
  return Scalar.sqrt (Scalar.greater estimate.eigenvalue 0)

/-- A step size for unit primal weight, a little below the reciprocal of the norm. -/
def suggestStepSize (A : SparseMatrix T) : Except Fault T := do
  let norm ← A.estimateNorm
  return if 0 < norm then Scalar.ofDecimal 9 1 / norm else 1

end SparseMatrix

/-- The saddle operator `(c - Aᵀ y, A x - b)` at `z = (x, y)`. The data replace what `out` holds
before the products are added to them. -/
def Problem.saddle (p : Problem T) (z out : List T) : Except Fault (List T) := do
  if z.length ≠ p.primalDim + p.dualDim ∨ out.length ≠ p.primalDim + p.dualDim then
    throw .lengthMismatch
  let x := z.take p.primalDim
  let y := z.drop p.primalDim
  let cost ← Vector.copyOnto (out.take p.primalDim) p.cost
  let primal ← p.matrix.transposeMulAdd (-1) y 1 cost
  let rhs ← Vector.copyOnto (out.drop p.primalDim) p.rhs
  let dual ← p.matrix.mulAdd 1 x (-1) rhs
  return primal ++ dual

/-- The winner of a sweep, its error, and all trials in order. -/
structure SweepResult (P T : Type) where
  best : P
  kktError : T
  trials : List (P × T)

namespace Sweep

variable {P : Type}

/-- The final error of a run of its own, without an oracle. -/
def trial (p : Problem T) (settings : Settings T) : Except Fault (Except SolverError T) := do
  match ← (Solver.new p settings : Except Fault (Except SolverError (Solver T BallOracle))) with
  | .error e => return .error e
  | .ok solver => return .ok (← solver.solve).solution.diagnostics.kktError

/-- The trials of the candidates in order, up to the first one that is rejected. -/
def trials (p : Problem T) (configure : P → Settings T) :
    List P → Except Fault (Except SolverError (List (P × T)))
  | [] => return .ok []
  | candidate :: rest => do
    match ← trial p (configure candidate) with
    | .error e => return .error e
    | .ok kktError =>
      match ← trials p configure rest with
      | .error e => return .error e
      | .ok others => return .ok ((candidate, kktError) :: others)

/-- The earlier of two trials unless the later one is better. -/
def better (a b : P × T) : P × T := if b.2 < a.2 then b else a

/-- The earliest trial of least error. One without a numeric error wins only if all are. -/
def winner? (ts : List (P × T)) : Option (P × T) :=
  match ts.filter fun t => !Scalar.isNaN t.2 with
  | [] => ts.head?
  | t :: rest => some (rest.foldl better t)

def run (p : Problem T) (configure : P → Settings T) (candidates : List P) :
    Except Fault (Except SolverError (SweepResult P T)) := do
  match ← trials p configure candidates with
  | .error e => return .error e
  | .ok ts =>
    match winner? ts with
    | none => return .error (.settings (.badField "sweep candidates"))
    | some (best, kktError) => return .ok ⟨best, kktError, ts⟩

/-- A power of four with an exponent of either sign. -/
def powerOfFour (k : Int) : T :=
  let power : T := (Nat.pow 4 k.natAbs : Nat)
  if k < 0 then Scalar.recip power else power

/-- The primal weight among `4⁻⁵, …, 4⁵` of least error, without restarts. -/
def primalWeight (p : Problem T) (settings : Settings T) :
    Except Fault (Except SolverError (SweepResult T T)) :=
  run p (fun w => { settings with primalWeight := w, restartEnabled := false, verbose := false })
    ((List.range 11).map fun k : Nat => powerOfFour ((k : Int) - 5))

/-- The fixed restart length among `4, …, 4⁹` of least error. -/
def restartLength (p : Problem T) (settings : Settings T) :
    Except Fault (Except SolverError (SweepResult Nat T)) :=
  run p (fun length =>
      { settings with
        restartEnabled := true
        restartMethod := "fixed"
        restartLength := length
        verbose := false })
    ((List.range 9).map fun k => Nat.pow 4 (k + 1))

end Sweep

end PrimalDual
