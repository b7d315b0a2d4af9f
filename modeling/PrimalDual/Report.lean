import PrimalDual.Decimal.Exponent
import PrimalDual.Output
import PrimalDual.Restart
import PrimalDual.Timers

/-!
# Reports

The summary of a run and the texts printed on the way. A text is made before it is printed, and
printing only touches the print target; nothing is printed unless the settings ask for it.
-/
namespace PrimalDual

inductive SolverStatus where
  | unsolved
  | solved
  | maxIterations
  deriving DecidableEq

namespace SolverStatus

def default : SolverStatus := .unsolved

def text : SolverStatus → String
  | .unsolved => "Unsolved"
  | .solved => "Solved"
  | .maxIterations => "MaxIterations"

def code : SolverStatus → Nat
  | .unsolved => 0
  | .solved => 1
  | .maxIterations => 2

/-- Whether a run came to its end. -/
def isFinished : SolverStatus → Bool
  | .unsolved => false
  | _ => true

end SolverStatus

structure Report (T : Type) where
  iterations : Nat
  restarts : Nat
  last : Diagnostics T
  solveTime : Nat
  status : SolverStatus
  /-- When the latest progress line was printed. -/
  lastReport : Option Nat
  target : PrintTarget

namespace Report

variable {T : Type} [Scalar T]

def new : Report T where
  iterations := 0
  restarts := 0
  last := .zero
  solveTime := 0
  status := .default
  lastReport := none
  target := .default

/-- A summary as it is before a run; the print target stays. -/
def reset (r : Report T) (now : Nat) : Report T :=
  { (new : Report T) with lastReport := some now, target := r.target }

def finalize (r : Report T) (s : Iterates T) (solveTime : Nat) : Except Fault (Report T) := do
  return { r with
    iterations := ← s.step
    restarts := s.restarts
    last := s.diagnostics
    solveTime }

def onOff (b : Bool) : String := if b then "on" else "off"

def scientificText (places : Nat) (x : T) : String :=
  String.ofList (Decimal.scientific .onlyMinus places x)

def alignedText (width places : Nat) (x : T) : String :=
  String.ofList (Decimal.aligned .onlyMinus width places x)

def rule : String := "-------------------------------------------------------\n"

def bannerText : String :=
  rule ++ "         rpdhg v0.1.0  -  restarted PDHG for LPs        \n" ++ rule

def methodText (settings : Settings T) : RestartPolicy → String
  | .never => "\n"
  | .adaptive =>
    ", every = " ++ toString settings.evaluateEvery ++
      ", τ₀ = " ++ toString settings.firstEpochLength ++
      ", β = " ++ String.ofList (Decimal.fixed 3 settings.decay) ++ "\n"
  | .fixed => ", length = " ++ toString settings.restartLength ++ "\n"

def configurationText (settings : Settings T) (p : Problem T) (policy : RestartPolicy) :
    Except Fault String := do
  let count ← p.matrix.entryCount
  return "\nproblem: " ++ p.label ++
    "\n  variables     = " ++ toString p.primalDim ++
    "\n  constraints   = " ++ toString p.dualDim ++
    "\n  nnz(A)        = " ++ toString count ++
    "\n\nsettings:" ++
    "\n  step size = " ++ scientificText 3 settings.stepSize ++
    ", primal weight = " ++ scientificText 3 settings.primalWeight ++
    ", precision: " ++ toString (Scalar.format T).width ++ " bit" ++
    "\n  max iter = " ++ toString settings.maxIterations ++
    ", tol = " ++ scientificText 1 settings.gapTolerance ++
    ", tol_kkt = " ++ scientificText 1 settings.kktTolerance ++
    "\n  restarts: " ++ onOff settings.restartEnabled ++
    ", method = " ++ policy.name ++ methodText settings policy ++
    "  duality gap: " ++ onOff settings.gapEnabled ++
    ", failure limit = " ++ toString settings.gapFailureLimit ++ "\n\n"

def headerText : String := "iter      kkt       gap       obj          time      \n" ++ rule

/-- The Lagrangian `c · x + b · y - y · A x`. -/
def lagrangian (p : Problem T) (x y : List T) : Except Fault T := do
  let product ← p.matrix.mulAdd 1 x 0 (Vector.zeros p.dualDim)
  return (← p.primalObjective x) + (← p.dualObjective y) - (← Vector.dot y product)

/-- The Lagrangian `c · v - y · (A u - b)` of two primal copies. -/
def splitObjective (p : Problem T) (u v y : List T) : Except Fault T := do
  let residual ← p.matrix.mulAdd 1 u (-1) p.rhs
  return (← p.primalObjective v) - (← Vector.dot y residual)

/-- Seconds to two places. -/
def secondsText (span : Nat) : String :=
  String.ofList (Decimal.insertPoint 2 (Decimal.digits (span / 10000000))) ++ "s"

/-- The last part of a progress line: the objective, the time since the line before, and in split
mode the norms of the parts of the point. -/
def statusTail (s : Iterates T) (p : Problem T) (lap : Nat) : Except Fault String := do
  let signed (x : T) := String.ofList (Decimal.aligned .always 8 4 x) ++ "  "
  if s.layout.isSplit then
    let u ← s.firstCopy
    let v ← s.secondCopy
    let y ← s.dual
    return signed (← splitObjective p u v y) ++ secondsText lap ++
      "  |U| = " ++ alignedText 0 2 (Vector.norm u) ++
      ", |V| = " ++ alignedText 0 2 (Vector.norm v) ++
      ", |U-V| = " ++ alignedText 0 2 (← Vector.dist u v) ++
      ", |y| = " ++ alignedText 0 2 (Vector.norm y) ++ "\n"
  else
    return signed (← lagrangian p (← s.primal) (← s.dual)) ++ secondsText lap ++ "\n"

def statusText (s : Iterates T) (p : Problem T) (lap : Nat) : Except Fault String := do
  let step ← s.step
  let gap :=
    match s.diagnostics.gap with
    | some gap => alignedText 6 2 gap ++ "  "
    | none => " ------   "
  return String.ofList (Decimal.padLeft 8 (Decimal.digits step)) ++ "  " ++
    alignedText 6 2 s.diagnostics.kktError ++ "  " ++ gap ++ (← statusTail s p lap)

def restartText (s : Iterates T) : Except Fault String := do
  return "restart " ++ toString (← Counter.next s.restarts) ++
    " at iteration " ++ toString (← s.step) ++
    " (epoch length " ++ toString s.epochLength ++ ")\n"

def warningText (message : String) : String := "warning: " ++ message ++ "\n"

def footerText (r : Report T) : String :=
  rule ++ "Terminated with status = " ++ r.status.text ++
    "\niterations = " ++ toString r.iterations ++
    ", restarts = " ++ toString r.restarts ++
    ", kkt = " ++ alignedText 0 2 r.last.kktError ++
    "\nsolve time = " ++ Timers.spanText r.solveTime ++ "\n"

def print (r : Report T) (text : String) : Report T := { r with target := r.target.print text }

def printBanner (r : Report T) (settings : Settings T) : Report T :=
  if settings.verbose then r.print bannerText else r

def printConfiguration (r : Report T) (settings : Settings T) (p : Problem T)
    (policy : RestartPolicy) : Except Fault (Report T) := do
  if settings.verbose then return r.print (← configurationText settings p policy) else return r

def printHeader (r : Report T) (settings : Settings T) : Report T :=
  if settings.verbose then r.print headerText else r

/-- Prints a progress line, from which the time to the next one counts. -/
def printStatus (r : Report T) (settings : Settings T) (s : Iterates T) (p : Problem T)
    (now : Nat) : Except Fault (Report T) := do
  if settings.verbose then
    let lap := (r.lastReport.map (now - ·)).getD 0
    return { r with lastReport := some now }.print (← statusText s p lap)
  else return r

def printRestart (r : Report T) (settings : Settings T) (s : Iterates T) :
    Except Fault (Report T) := do
  if settings.verbose then return r.print (← restartText s) else return r

def printWarning (r : Report T) (settings : Settings T) (message : String) : Report T :=
  if settings.verbose then r.print (warningText message) else r

def printFooter (r : Report T) (settings : Settings T) : Report T :=
  if settings.verbose then r.print r.footerText else r

end Report

end PrimalDual
