import PrimalDual.Settings

/-!
# Building settings

A builder holds the fields that have been given. Only those are validated; the others take their
default values.
-/
namespace PrimalDual.Settings

structure Builder (T : Type) where
  stepSize : Option T := none
  primalWeight : Option T := none
  gapTolerance : Option T := none
  kktTolerance : Option T := none
  maxIterations : Option Nat := none
  restartEnabled : Option Bool := none
  restartMethod : Option String := none
  restartLength : Option Nat := none
  evaluateEvery : Option Nat := none
  recordEvery : Option Nat := none
  printEvery : Option Nat := none
  firstEpochLength : Option Nat := none
  decay : Option T := none
  verbose : Option Bool := none
  gapEnabled : Option Bool := none
  gapFailureLimit : Option Nat := none
  datasetIndex : Option Nat := none

namespace Builder

variable {T : Type}

/-- The given fields in place of those of other settings. -/
def onto (b : Builder T) (s : Settings T) : Settings T where
  stepSize := b.stepSize.getD s.stepSize
  primalWeight := b.primalWeight.getD s.primalWeight
  gapTolerance := b.gapTolerance.getD s.gapTolerance
  kktTolerance := b.kktTolerance.getD s.kktTolerance
  maxIterations := b.maxIterations.getD s.maxIterations
  restartEnabled := b.restartEnabled.getD s.restartEnabled
  restartMethod := b.restartMethod.getD s.restartMethod
  restartLength := b.restartLength.getD s.restartLength
  evaluateEvery := b.evaluateEvery.getD s.evaluateEvery
  recordEvery := b.recordEvery.getD s.recordEvery
  printEvery := b.printEvery.getD s.printEvery
  firstEpochLength := b.firstEpochLength.getD s.firstEpochLength
  decay := b.decay.getD s.decay
  verbose := b.verbose.getD s.verbose
  gapEnabled := b.gapEnabled.getD s.gapEnabled
  gapFailureLimit := b.gapFailureLimit.getD s.gapFailureLimit
  datasetIndex := b.datasetIndex.getD s.datasetIndex

variable [Scalar T]

/-- A check of a field, if it was given. -/
def whenGiven {α : Type} (check : α → Except SettingsError Unit) :
    Option α → Except SettingsError Unit
  | none => .ok ()
  | some a => check a

def validate (b : Builder T) : Except SettingsError Unit := do
  whenGiven (checkPositive · "eta") b.stepSize
  whenGiven (checkPositive · "w") b.primalWeight
  whenGiven (checkPositive · "tol") b.gapTolerance
  whenGiven (checkPositive · "tol_kkt") b.kktTolerance
  whenGiven checkDecay b.decay
  whenGiven checkRestartMethod b.restartMethod
  whenGiven (checkCadence · "restart_length") b.restartLength
  whenGiven (checkCadence · "evaluate_every") b.evaluateEvery
  whenGiven (checkCadence · "record_every") b.recordEvery
  whenGiven (checkCadence · "print_every") b.printEvery

/-- What a builder answers when a field is out of order: the text of the error. -/
structure ValidationError where
  message : String
  deriving DecidableEq

def ValidationError.ofCause (e : SettingsError) : ValidationError := ⟨e.message⟩

/-- The settings with the given fields, once those are in order. -/
def build (b : Builder T) : Except ValidationError (Settings T) := do
  b.validate.mapError .ofCause
  return b.onto default

end Builder

end PrimalDual.Settings
