import PrimalDual.Fault
import PrimalDual.Scalar

/-!
# Settings

What a run is told: step sizes, tolerances, the restart scheme and the cadences at which it
observes itself. Validation reports the first field that is out of order.
-/
namespace PrimalDual

structure Settings (T : Type) where
  stepSize : T
  primalWeight : T
  gapTolerance : T
  kktTolerance : T
  maxIterations : Nat
  restartEnabled : Bool
  restartMethod : String
  restartLength : Nat
  evaluateEvery : Nat
  recordEvery : Nat
  printEvery : Nat
  /-- The least length of the first epoch under the adaptive scheme. -/
  firstEpochLength : Nat
  /-- The decay of the duality gap that the adaptive scheme asks for. -/
  decay : T
  verbose : Bool
  gapEnabled : Bool
  gapFailureLimit : Nat
  datasetIndex : Nat

inductive SettingsError where
  | badField (name : String)
  | unknownRestartMethod (method : String)
  deriving DecidableEq

def SettingsError.message : SettingsError → String
  | .badField name => "Bad value for field \"" ++ name ++ "\""
  | .unknownRestartMethod method =>
    "Unknown restart method \"" ++ method ++
      "\" (expected \"none\", \"adaptive\" or \"fixed\")"

namespace Settings

variable {T : Type} [Scalar T]

def default : Settings T where
  stepSize := Scalar.ofDecimal 1 1
  primalWeight := 1
  gapTolerance := Scalar.ofDecimal 1 7
  kktTolerance := Scalar.ofDecimal 1 7
  maxIterations := 500000
  restartEnabled := true
  restartMethod := "none"
  restartLength := 1024
  evaluateEvery := 30
  recordEvery := 30
  printEvery := 100
  firstEpochLength := 1
  decay := Scalar.inverseE
  verbose := false
  gapEnabled := false
  gapFailureLimit := 3
  datasetIndex := 0

def restartMethods : List String := ["none", "adaptive", "fixed"]

def checkPositive (value : T) (name : String) : Except SettingsError Unit :=
  if Scalar.isFinite value && 0 < value then .ok () else .error (.badField name)

def checkDecay (value : T) : Except SettingsError Unit :=
  if 0 < value && value < 1 then .ok () else .error (.badField "beta")

def checkCadence (value : Nat) (name : String) : Except SettingsError Unit :=
  if value = 0 then .error (.badField name) else .ok ()

def checkRestartMethod (method : String) : Except SettingsError Unit :=
  if restartMethods.contains method then .ok () else .error (.unknownRestartMethod method)

def validate (s : Settings T) : Except SettingsError Unit := do
  checkPositive s.stepSize "eta"
  checkPositive s.primalWeight "w"
  checkPositive s.gapTolerance "tol"
  checkPositive s.kktTolerance "tol_kkt"
  checkDecay s.decay
  checkRestartMethod s.restartMethod
  checkCadence s.restartLength "restart_length"
  checkCadence s.evaluateEvery "evaluate_every"
  checkCadence s.recordEvery "record_every"
  checkCadence s.printEvery "print_every"

/-- The number of records that cover all iterations. -/
def recordCapacity (s : Settings T) : Except Fault Nat :=
  if s.recordEvery = 0 then .error .divisionByZero
  else .ok ((s.maxIterations + s.recordEvery - 1) / s.recordEvery)

end Settings

end PrimalDual
