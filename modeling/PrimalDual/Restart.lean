import PrimalDual.Convergence

/-!
# Restart policies

A policy decides whether the average should replace the current point. The adaptive one asks for
the gap of the average to have decayed against that of the epoch's start; the fixed one restarts at
the multiples of a period.
-/
namespace PrimalDual

inductive RestartPolicy where
  | never
  | adaptive
  | fixed
  deriving DecidableEq

namespace RestartPolicy

def name : RestartPolicy → String
  | .never => "none"
  | .adaptive => "adaptive"
  | .fixed => "fixed"

def ofName (method : String) : Except SettingsError RestartPolicy :=
  if method = "none" then .ok .never
  else if method = "adaptive" then .ok .adaptive
  else if method = "fixed" then .ok .fixed
  else .error (.unknownRestartMethod method)

/-- Whether the state after a restart is recorded, if it falls on the record cadence. -/
def recordsAfterRestart : RestartPolicy → Bool
  | .fixed => true
  | _ => false

variable {T ω : Type} [Scalar T] [GapOracle ω T]

/-- Whether the gap has decayed. Where a gap cannot be had, the decision is put off. -/
def decayed (s : Iterates T) (previous : List T) (p : Problem T) (settings : Settings T)
    (gap : GapEvaluator ω) : Except Fault (Bool × GapEvaluator ω) := do
  let epochRadius ← Vector.dist s.average s.epochStart
  let previousRadius ← Vector.dist s.epochStart previous
  match ← gap.evaluate s.average epochRadius p with
  | (.error _, gap) => return (false, gap)
  | (.ok now, gap) =>
    match ← gap.evaluate s.epochStart previousRadius p with
    | (.error _, gap) => return (false, gap)
    | (.ok before, gap) => return (now ≤ settings.decay * before, gap)

/-- The adaptive decision, made at the evaluation cadence. The first epoch ends by length alone. -/
def checkAdaptive (s : Iterates T) (p : Problem T) (settings : Settings T) (gap : GapEvaluator ω) :
    Except Fault (Bool × GapEvaluator ω) := do
  let onCadence ← Counter.onCadence (← s.step) settings.evaluateEvery
  if !onCadence then return (false, gap)
  else if s.restarts = 0 then return (settings.firstEpochLength ≤ s.epochLength, gap)
  else
    match s.previousStart with
    | none => return (false, gap)
    | some previous => decayed s previous p settings gap

/-- The fixed decision. -/
def checkFixed (s : Iterates T) (settings : Settings T) (gap : GapEvaluator ω) :
    Except Fault (Bool × GapEvaluator ω) := do
  let onCadence ← Counter.onCadence (← s.step) settings.restartLength
  return (onCadence, gap)

def check (policy : RestartPolicy) (s : Iterates T) (p : Problem T) (settings : Settings T)
    (gap : GapEvaluator ω) : Except Fault (Bool × GapEvaluator ω) :=
  match policy with
  | .never => .ok (false, gap)
  | .adaptive =>
    if settings.restartEnabled then checkAdaptive s p settings gap else .ok (false, gap)
  | .fixed => if settings.restartEnabled then checkFixed s settings gap else .ok (false, gap)

end RestartPolicy

end PrimalDual
