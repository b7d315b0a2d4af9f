import PrimalDual.Iterates.Step
import PrimalDual.Report
import PrimalDual.Trajectory

/-!
# The solver

A restarted primal-dual method for linear programs. A run starts at the origin and makes passes: a
step, an evaluation where a cadence asks for one, a restart where the policy fires, and the two
tests that end the run.
-/
namespace PrimalDual

inductive SolverError where
  | settings (e : SettingsError)
  | data (e : ProblemError)
  | zeroCapacity (maxIterations recordEvery : Nat)
  deriving DecidableEq

def SolverError.message : SolverError → String
  | .settings e => "Invalid settings: " ++ e.message
  | .data e => "Invalid problem data: " ++ e.message
  | .zeroCapacity maxIterations recordEvery =>
    "Trajectory would have zero capacity (max_iter = " ++ toString maxIterations ++
      ", record_every = " ++ toString recordEvery ++ ")"

/-- The outcome of a run. -/
structure Solution (T : Type) where
  primal : List T
  dual : List T
  status : SolverStatus
  objective : T
  dualObjective : T
  solveTime : Nat
  iterations : Nat
  restarts : Nat
  diagnostics : Diagnostics T

structure Solver (T ω : Type) where
  problem : Problem T
  settings : Settings T
  policy : RestartPolicy
  iterates : Iterates T
  gap : GapEvaluator ω
  trajectory : Trajectory T
  report : Report T
  solution : Solution T
  timers : Timers

variable {T ω : Type} [Scalar T]

namespace Solution

def unsolved (primalDim dualDim : Nat) : Solution T where
  primal := Vector.zeros primalDim
  dual := Vector.zeros dualDim
  status := .unsolved
  objective := Scalar.nan
  dualObjective := Scalar.nan
  solveTime := 0
  iterations := 0
  restarts := 0
  diagnostics := .zero

/-- The solution that the iterates and the report describe, in the place of an earlier one. -/
def finalize (old : Solution T) (p : Problem T) (s : Iterates T) (r : Report T) :
    Except Fault (Solution T) := do
  let primal ← Vector.copyOnto old.primal (← s.primal)
  let dual ← Vector.copyOnto old.dual (← s.dual)
  return {
    primal
    dual
    status := r.status
    objective := ← p.primalObjective primal
    dualObjective := ← p.dualObjective dual
    solveTime := r.solveTime
    iterations := r.iterations
    restarts := r.restarts
    diagnostics := r.last }

end Solution

namespace Solver

/-- A solver for a problem, given settings that are valid and leave room for a record. -/
def new (p : Problem T) (settings : Settings T) :
    Except Fault (Except SolverError (Solver T ω)) := do
  if let .error e := settings.validate then
    return .error (.settings e)
  let capacity ← settings.recordCapacity
  if capacity = 0 then
    return .error (.zeroCapacity settings.maxIterations settings.recordEvery)
  match RestartPolicy.ofName settings.restartMethod with
  | .error e => return .error (.settings e)
  | .ok policy =>
    return .ok {
      problem := p
      settings
      policy
      iterates := .origin p.primalDim p.dualDim
      gap := .withLimit settings.gapFailureLimit
      trajectory := .withCapacity capacity
      report := .new
      solution := .unsolved p.primalDim p.dualDim
      timers := ({} : Timers).start "setup" |>.stop }

/-- A solver for the problem of the given parts. -/
def ofParts (matrix : SparseMatrix T) (rhs cost : List T) (settings : Settings T) :
    Except Fault (Except SolverError (Solver T ω)) :=
  match Problem.ofParts matrix rhs cost with
  | .error e => .ok (.error (.data e))
  | .ok p => new p settings

def setOracle (s : Solver T ω) (o : ω) : Solver T ω := { s with gap := s.gap.setOracle o }

def startTimer (s : Solver T ω) (key : String) : Solver T ω :=
  { s with timers := s.timers.start key }

def stopTimer (s : Solver T ω) : Solver T ω := { s with timers := s.timers.stop }

/-- Printing does not count as solving time. -/
def untimed (s : Solver T ω) (print : Solver T ω → Except Fault (Report T)) :
    Except Fault (Solver T ω) := do
  let s := { s with timers := s.timers.suspend }
  let report ← print s
  return { s with report, timers := s.timers.resume }

def takeStep (s : Solver T ω) : Except Fault (Solver T ω) := do
  let s := s.startTimer "step"
  let iterates ← s.iterates.advance s.problem s.settings.stepSize s.settings.primalWeight
  return { s with iterates }.stopTimer

/-- Records the iterates; what does not fit leaves a warning. -/
def record (s : Solver T ω) : Except Fault (Solver T ω) := do
  match ← s.trajectory.append s.iterates with
  | .ok trajectory => return { s with trajectory }
  | .error e => return { s with report := s.report.printWarning s.settings e.message }

variable [GapOracle ω T]

def evaluate (s : Solver T ω) : Except Fault (Solver T ω) := do
  let (iterates, gap) ← s.iterates.evaluate s.problem s.settings s.gap
  return { s with iterates, gap }

def recordWhen (s : Solver T ω) (onRecord : Bool) : Except Fault (Solver T ω) :=
  if onRecord then s.record else .ok s

def printWhen (s : Solver T ω) (onPrint : Bool) : Except Fault (Solver T ω) :=
  if onPrint then
    s.untimed fun s => s.report.printStatus s.settings s.iterates s.problem s.timers.now
  else .ok s

/-- Evaluates the iterates, and records and prints them as asked. -/
def observeAs (s : Solver T ω) (onRecord onPrint : Bool) : Except Fault (Solver T ω) := do
  let s ← (s.startTimer "evaluate").evaluate
  let s ← s.stopTimer.recordWhen onRecord
  s.printWhen onPrint

/-- Observes the iterates if they are to be recorded or printed. -/
def observe (s : Solver T ω) : Except Fault (Solver T ω) := do
  let k ← s.iterates.step
  let onRecord ← Counter.onCadence k s.settings.recordEvery
  let onPrint ← Counter.onCadence k s.settings.printEvery
  if onRecord || onPrint then s.observeAs onRecord onPrint else return s

/-- Asks the policy whether to restart here. -/
def decideRestart (s : Solver T ω) : Except Fault (Bool × Solver T ω) := do
  let s := s.startTimer "restart"
  let (fire, gap) ← s.policy.check s.iterates s.problem s.settings s.gap
  return (fire, { s with gap })

/-- A restart is noted, evaluated and printed before it takes place. -/
def announceRestart (s : Solver T ω) : Except Fault (Solver T ω) := do
  let s := { s with trajectory := s.trajectory.pushRestart (← s.iterates.step) }
  let s ← s.evaluate
  let report ← s.report.printRestart s.settings s.iterates
  let report ← report.printStatus s.settings s.iterates s.problem s.timers.now
  return { s with report }

/-- The state after a restart is recorded at the record cadence, if the policy asks for that. -/
def recordRestart (s : Solver T ω) : Except Fault (Solver T ω) := do
  if s.policy.recordsAfterRestart then
    let onRecord ← Counter.onCadence (← s.iterates.step) s.settings.recordEvery
    s.recordWhen onRecord
  else return s

/-- Carries a restart out. -/
def performRestart (s : Solver T ω) : Except Fault (Solver T ω) := do
  let iterates ← s.iterates.restart
  { s with iterates }.recordRestart

/-- Announces and carries out a restart that was decided on. -/
def restartWhen (s : Solver T ω) (fire : Bool) : Except Fault (Solver T ω) :=
  if fire then s.announceRestart >>= performRestart else .ok s

def considerRestart (s : Solver T ω) : Except Fault (Solver T ω) := do
  let (fire, s) ← s.decideRestart
  let s ← s.restartWhen fire
  return s.stopTimer

def disabledMessage (settings : Settings T) : String :=
  "duality gap disabled after " ++ toString settings.gapFailureLimit ++
    " consecutive failures, using the KKT criterion"

/-- Warns once of a gap that was given up. -/
def passNotice (s : Solver T ω) : Solver T ω :=
  let (notice, gap) := s.gap.takeNotice
  let s := { s with gap }
  if notice then
    { s with report := s.report.printWarning s.settings (disabledMessage s.settings) }
  else s

/-- The status with which a run ends here, if it does. -/
def outcome? (s : Solver T ω) : Option SolverStatus :=
  if s.iterates.terminate then some .solved
  else if s.settings.maxIterations < s.iterates.count then some .maxIterations
  else none

/-- One pass of the main loop. -/
def pass (s : Solver T ω) : Except Fault (Solver T ω) := do
  let s ← s.takeStep
  let s ← s.observe
  let s ← s.considerRestart
  return s.passNotice

/-- Makes passes until one of them ends the run. The count of the iterates grows with each pass, so
that the allowance given by `run` is never used up. -/
def passes : Nat → Solver T ω → Except Fault (Solver T ω)
  | 0, s => .ok s
  | allowance + 1, s =>
    match s.pass with
    | .error f => .error f
    | .ok s =>
      match s.outcome? with
      | some status => .ok { s with report := { s.report with status } }
      | none => passes allowance s

def run (s : Solver T ω) : Except Fault (Solver T ω) :=
  s.passes (max s.settings.maxIterations 1)

/-- Back to the origin, with nothing left of an earlier run. -/
def reset (s : Solver T ω) : Except Fault (Solver T ω) := do
  return { s with
    iterates := .origin s.problem.primalDim s.problem.dualDim
    trajectory := .withCapacity (← s.settings.recordCapacity)
    gap := s.gap.reset
    solution := .unsolved s.problem.primalDim s.problem.dualDim }

/-- The texts that open a run. -/
def printOpening (s : Solver T ω) : Except Fault (Solver T ω) :=
  s.untimed fun s => do
    let report := s.report.printBanner s.settings
    let report ← report.printConfiguration s.settings s.problem s.policy
    return report.printHeader s.settings

/-- Everything up to the first pass. -/
def prepare (s : Solver T ω) : Except Fault (Solver T ω) := do
  let s ← s.reset
  let s ← s.printOpening
  let s := { s with
    report := s.report.reset s.timers.now
    timers := s.timers.resetTimer "solve" }
  return s.startTimer "solve"

/-- Everything after the last pass. -/
def finish (s : Solver T ω) : Except Fault (Solver T ω) := do
  let s := s.stopTimer
  let report ← s.report.finalize s.iterates (s.timers.elapsed "solve")
  let solution ← s.solution.finalize s.problem s.iterates report
  return { s with solution, report := report.printFooter s.settings }

/-- A run from the origin until it ends. -/
def solve (s : Solver T ω) : Except Fault (Solver T ω) := do
  let s ← s.prepare
  let s ← s.run
  s.finish

end Solver

end PrimalDual
