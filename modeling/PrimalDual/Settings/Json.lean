import PrimalDual.Settings.Builder
import PrimalDual.Json.Decoder
import PrimalDual.Json.Writer

/-!
# Settings as JSON

A text may give any of the fields; the others take their default values. Nothing is validated.
-/
namespace PrimalDual.Settings

variable {T : Type} [Json.Number T]

def jsonText (s : Settings T) : List Char :=
  Json.recordText [
    ("eta", Json.numberText s.stepSize),
    ("w", Json.numberText s.primalWeight),
    ("tol", Json.numberText s.gapTolerance),
    ("tol_kkt", Json.numberText s.kktTolerance),
    ("max_iter", Json.natText s.maxIterations),
    ("restart_enable", Json.boolText s.restartEnabled),
    ("restart_method", Json.stringText s.restartMethod),
    ("restart_length", Json.natText s.restartLength),
    ("evaluate_every", Json.natText s.evaluateEvery),
    ("record_every", Json.natText s.recordEvery),
    ("print_every", Json.natText s.printEvery),
    ("tau0", Json.natText s.firstEpochLength),
    ("beta", Json.numberText s.decay),
    ("verbose", Json.boolText s.verbose),
    ("gap_enable", Json.boolText s.gapEnabled),
    ("gap_failure_limit", Json.natText s.gapFailureLimit),
    ("dataset_idx", Json.natText s.datasetIndex)]

def fieldNames : List String :=
  ["eta", "w", "tol", "tol_kkt", "max_iter", "restart_enable", "restart_method", "restart_length",
    "evaluate_every", "record_every", "print_every", "tau0", "beta", "verbose", "gap_enable",
    "gap_failure_limit", "dataset_idx"]

def readCount : Json → Except Json.Error Nat := Json.readNat Counter.bound

def readField (name : String) (item : Json) (b : Builder T) : Except Json.Error (Builder T) :=
  match name with
  | "eta" => do return { b with stepSize := some (← Json.readScalar item) }
  | "w" => do return { b with primalWeight := some (← Json.readScalar item) }
  | "tol" => do return { b with gapTolerance := some (← Json.readScalar item) }
  | "tol_kkt" => do return { b with kktTolerance := some (← Json.readScalar item) }
  | "max_iter" => do return { b with maxIterations := some (← readCount item) }
  | "restart_enable" => do return { b with restartEnabled := some (← Json.readBool item) }
  | "restart_method" => do return { b with restartMethod := some (← Json.readText item) }
  | "restart_length" => do return { b with restartLength := some (← readCount item) }
  | "evaluate_every" => do return { b with evaluateEvery := some (← readCount item) }
  | "record_every" => do return { b with recordEvery := some (← readCount item) }
  | "print_every" => do return { b with printEvery := some (← readCount item) }
  | "tau0" => do return { b with firstEpochLength := some (← readCount item) }
  | "beta" => do return { b with decay := some (← Json.readScalar item) }
  | "verbose" => do return { b with verbose := some (← Json.readBool item) }
  | "gap_enable" => do return { b with gapEnabled := some (← Json.readBool item) }
  | "gap_failure_limit" => do return { b with gapFailureLimit := some (← readCount item) }
  | "dataset_idx" => do return { b with datasetIndex := some (← readCount item) }
  | _ => .ok b

def readJson (doc : Json) : Except Json.Error (Settings T) := do
  let b ← Json.readRecord fieldNames readField ({} : Builder T) doc
  return b.onto default

end PrimalDual.Settings
