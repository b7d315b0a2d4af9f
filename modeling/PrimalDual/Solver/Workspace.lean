import PrimalDual.Solver

/-!
# Workspaces

A run in place. The steps and the evaluations write into buffers that a solver makes room for once
and keeps from one call to the next, and from one run to the next. No buffer is ever cleared.
-/
namespace PrimalDual

variable {T ω : Type} [Scalar T]

/-- Where a step is assembled. -/
structure StepSpace (T : Type) where
  nextPrimal : List T
  nextDual : List T
  /-- The slack at first, then the extrapolated primal point. -/
  work : List T

namespace StepSpace

def new (p : Problem T) : StepSpace T where
  nextPrimal := Vector.zeros p.primalDim
  nextDual := Vector.zeros p.dualDim
  work := Vector.zeros p.primalDim

/-- Both points of a step from `(x, y)`. -/
def moveFrom (w : StepSpace T) (p : Problem T) (stepSize weight : T) (x y : List T) :
    Except Fault (StepSpace T) := do
  let work ← Vector.copyOnto w.work p.cost
  let work ← p.matrix.transposeMulAdd (-1) y 1 work
  let nextPrimal ← Vector.waxpby w.nextPrimal 1 x (-stepSize / weight) work
  let nextPrimal := nextPrimal.map (Scalar.greater · 0)
  let work ← Vector.waxpby work ((2 : Nat) : T) nextPrimal (-1) x
  let nextDual ← Vector.copyOnto w.nextDual p.rhs
  let nextDual ← p.matrix.mulAdd 1 work (-1) nextDual
  let nextDual ← Vector.axpby 1 y (-stepSize * weight) nextDual
  return ⟨nextPrimal, nextDual, work⟩

end StepSpace

/-- One step, whose point is copied over the current one part by part. -/
def Iterates.advanceIn (w : StepSpace T) (s : Iterates T) (p : Problem T) (stepSize weight : T) :
    Except Fault (Iterates T × StepSpace T) := do
  if s.layout.isSplit then throw .splitLayout
  if s.point.length ≠ p.primalDim + p.dualDim then throw .lengthMismatch
  let w ← w.moveFrom p stepSize weight (← s.primal) (← s.dual)
  let primal ← Vector.copyOnto (s.point.take p.primalDim) w.nextPrimal
  let dual ← Vector.copyOnto (s.point.drop p.primalDim) w.nextDual
  let point := primal ++ dual
  let proposal ← Vector.copyOnto s.proposal point
  return (← { s with point, proposal }.update, w)

/-- Where the residuals of an error are computed. -/
structure ErrorSpace (T : Type) where
  residual : List T
  slack : List T

namespace ErrorSpace

def new (p : Problem T) : ErrorSpace T where
  residual := Vector.zeros p.dualDim
  slack := Vector.zeros p.primalDim

def kktError (w : ErrorSpace T) (p : Problem T) (x y : List T) :
    Except Fault (T × ErrorSpace T) := do
  let residual ← Vector.copyOnto w.residual p.rhs
  let residual ← p.matrix.mulAdd 1 x (-1) residual
  let slack ← Vector.copyOnto w.slack p.cost
  let slack ← p.matrix.transposeMulAdd 1 y (-1) slack
  let gap := (← p.primalObjective x) - (← p.dualObjective y)
  return (Scalar.sqrt (positiveSquares (x.map (- ·)) + positiveSquares residual +
    positiveSquares (residual.map (- ·)) + positiveSquares slack + positiveSquares [gap]),
    ⟨residual, slack⟩)

/-- The split error needs no slack. -/
def kktErrorSplit (w : ErrorSpace T) (p : Problem T) (u v : List T) :
    Except Fault (T × ErrorSpace T) := do
  let residual ← Vector.copyOnto w.residual p.rhs
  let residual ← p.matrix.mulAdd 1 u (-1) residual
  return (Scalar.sqrt (positiveSquares (v.map (- ·)) + positiveSquares residual +
    positiveSquares (residual.map (- ·)) + positiveSquares (List.zipWith (· - ·) u v) +
    positiveSquares (List.zipWith (fun u v => v - u) u v)), { w with residual })

end ErrorSpace

namespace Iterates

def kktErrorIn (w : ErrorSpace T) (s : Iterates T) (p : Problem T) :
    Except Fault (T × ErrorSpace T) := do
  if s.layout.isSplit then
    w.kktErrorSplit p (← s.firstCopy) (← s.secondCopy)
  else
    w.kktError p (← s.primal) (← s.dual)

def evaluateIn [GapOracle ω T] (w : ErrorSpace T) (s : Iterates T) (p : Problem T)
    (settings : Settings T) (gap : GapEvaluator ω) :
    Except Fault ((Iterates T × GapEvaluator ω) × ErrorSpace T) := do
  let (kktError, w) ← s.kktErrorIn w p
  let (value, gap) ← s.gapIfEnabled p settings gap
  let diagnostics : Diagnostics T := ⟨kktError, value⟩
  let terminate := s.terminate || converged settings gap.disabled diagnostics
  return (({ s with diagnostics, terminate }, gap), w)

end Iterates

/-- A solver with its buffers. -/
structure EquippedSolver (T ω : Type) where
  solver : Solver T ω
  stepSpace : StepSpace T
  errorSpace : ErrorSpace T

namespace EquippedSolver

def new (p : Problem T) (settings : Settings T) :
    Except Fault (Except SolverError (EquippedSolver T ω)) := do
  match ← Solver.new p settings with
  | .error e => return .error e
  | .ok solver => return .ok ⟨solver, .new p, .new p⟩

def setOracle (e : EquippedSolver T ω) (o : ω) : EquippedSolver T ω :=
  { e with solver := e.solver.setOracle o }

/-- An oracle is optional. -/
def attach (e : EquippedSolver T ω) (o : Option ω) : EquippedSolver T ω := o.elim e e.setOracle

/-- An operation that needs no buffer. -/
def via (e : EquippedSolver T ω) (f : Solver T ω → Except Fault (Solver T ω)) :
    Except Fault (EquippedSolver T ω) := do
  return { e with solver := ← f e.solver }

def takeStep (e : EquippedSolver T ω) : Except Fault (EquippedSolver T ω) := do
  let s := e.solver.startTimer "step"
  let (iterates, stepSpace) ←
    s.iterates.advanceIn e.stepSpace s.problem s.settings.stepSize s.settings.primalWeight
  return { e with solver := { s with iterates }.stopTimer, stepSpace }

variable [GapOracle ω T]

def evaluate (e : EquippedSolver T ω) : Except Fault (EquippedSolver T ω) := do
  let s := e.solver
  let ((iterates, gap), errorSpace) ←
    s.iterates.evaluateIn e.errorSpace s.problem s.settings s.gap
  return { e with solver := { s with iterates, gap }, errorSpace }

def observeAs (e : EquippedSolver T ω) (onRecord onPrint : Bool) :
    Except Fault (EquippedSolver T ω) := do
  let e ← { e with solver := e.solver.startTimer "evaluate" }.evaluate
  let e ← e.via fun s => s.stopTimer.recordWhen onRecord
  e.via fun s => s.printWhen onPrint

def observe (e : EquippedSolver T ω) : Except Fault (EquippedSolver T ω) := do
  let k ← e.solver.iterates.step
  let onRecord ← Counter.onCadence k e.solver.settings.recordEvery
  let onPrint ← Counter.onCadence k e.solver.settings.printEvery
  if onRecord || onPrint then e.observeAs onRecord onPrint else return e

def announceRestart (e : EquippedSolver T ω) : Except Fault (EquippedSolver T ω) := do
  let s := e.solver
  let solver := { s with trajectory := s.trajectory.pushRestart (← s.iterates.step) }
  let e ← { e with solver }.evaluate
  e.via fun s => do
    let report ← s.report.printRestart s.settings s.iterates
    let report ← report.printStatus s.settings s.iterates s.problem s.timers.now
    return { s with report }

def restartWhen (e : EquippedSolver T ω) (fire : Bool) : Except Fault (EquippedSolver T ω) :=
  if fire then e.announceRestart >>= (·.via Solver.performRestart) else .ok e

def considerRestart (e : EquippedSolver T ω) : Except Fault (EquippedSolver T ω) := do
  let (fire, solver) ← e.solver.decideRestart
  let e ← { e with solver }.restartWhen fire
  return { e with solver := e.solver.stopTimer }

def pass (e : EquippedSolver T ω) : Except Fault (EquippedSolver T ω) := do
  let e ← e.takeStep
  let e ← e.observe
  let e ← e.considerRestart
  return { e with solver := e.solver.passNotice }

def passes : Nat → EquippedSolver T ω → Except Fault (EquippedSolver T ω)
  | 0, e => .ok e
  | allowance + 1, e =>
    match e.pass with
    | .error f => .error f
    | .ok e =>
      match e.solver.outcome? with
      | some status =>
        .ok { e with solver := { e.solver with report := { e.solver.report with status } } }
      | none => passes allowance e

/-- A run from the origin until it ends, with the buffers as they are. -/
def solve (e : EquippedSolver T ω) : Except Fault (EquippedSolver T ω) := do
  let e ← e.via Solver.prepare
  let e ← e.passes (max e.solver.settings.maxIterations 1)
  e.via Solver.finish

end EquippedSolver

end PrimalDual
