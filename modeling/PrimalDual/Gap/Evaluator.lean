import PrimalDual.Gap.Oracle
import PrimalDual.Decimal

/-!
# Evaluating the gap

The evaluator holds the oracle, if there is one, and counts how often in a row it failed. At the
limit it stops asking, for as long as it is not reset, and leaves one notice of having done so.
-/
namespace PrimalDual

structure GapEvaluator (ω : Type) where
  oracle : Option ω
  consecutiveFailures : Nat
  failureLimit : Nat
  disabled : Bool
  justDisabled : Bool

namespace GapEvaluator

variable {ω T : Type}

def withLimit (failureLimit : Nat) : GapEvaluator ω where
  oracle := none
  consecutiveFailures := 0
  failureLimit
  disabled := false
  justDisabled := false

/-- Forgets all failures. -/
def reset (e : GapEvaluator ω) : GapEvaluator ω :=
  { e with consecutiveFailures := 0, disabled := false, justDisabled := false }

def setOracle (e : GapEvaluator ω) (o : ω) : GapEvaluator ω :=
  { e with oracle := some o }.reset

def isAvailable (e : GapEvaluator ω) : Bool := e.oracle.isSome && !e.disabled

/-- The notice, which is given out once. -/
def takeNotice (e : GapEvaluator ω) : Bool × GapEvaluator ω :=
  (e.justDisabled, { e with justDisabled := false })

/-- Counts a failure. The one that reaches the limit disables the oracle. -/
def recordFailure (e : GapEvaluator ω) : Except Fault (GapEvaluator ω) := do
  let failures ← Counter.next e.consecutiveFailures
  if e.failureLimit ≤ failures then
    return { e with consecutiveFailures := failures, disabled := true, justDisabled := true }
  else return { e with consecutiveFailures := failures }

/-- Takes an answer into account. A value that is not finite is a failure. -/
def settle [Scalar T] (e : GapEvaluator ω) :
    Except GapError T → Except Fault (Except GapError T × GapEvaluator ω)
  | .ok gap =>
    if Scalar.isFinite gap then .ok (.ok gap, { e with consecutiveFailures := 0 })
    else do
      let text := Decimal.render .onlyMinus (fun _ _ => []) (Scalar.decode gap)
      let e ← e.recordFailure
      return (.error (.subproblemFailed ("non-finite gap " ++ String.ofList text)), e)
  | .error err => do return (.error err, ← e.recordFailure)

/-- Asks the oracle for the gap around `z` over radius `r`. -/
def evaluate [Scalar T] [GapOracle ω T] (e : GapEvaluator ω) (z : List T) (r : T) (p : Problem T) :
    Except Fault (Except GapError T × GapEvaluator ω) :=
  if e.disabled then .ok (.error .unavailable, e)
  else
    match e.oracle with
    | none => .ok (.error .unavailable, e)
    | some o => do
      let (answer, o) ← GapOracle.ask o z r p
      { e with oracle := some o }.settle answer

/-- The state of the evaluator in one line. -/
def summary (e : GapEvaluator ω) : String :=
  "GapEvaluator \x7b has_oracle: " ++ toString e.oracle.isSome ++
    ", consecutive_failures: " ++ toString e.consecutiveFailures ++
    ", failure_limit: " ++ toString e.failureLimit ++
    ", disabled: " ++ toString e.disabled ++ " \x7d"

end GapEvaluator

end PrimalDual
