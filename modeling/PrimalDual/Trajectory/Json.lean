import PrimalDual.Json.Decoder
import PrimalDual.Json.Writer
import PrimalDual.Text.Utf8
import PrimalDual.Trajectory

/-!
# Trajectories as JSON

The convergence history without the iterates: a record for each entry, with the diagnostics' fields
beside the step, and the restart indices.
-/
namespace PrimalDual

structure HistoryRecord (T : Type) where
  step : Nat
  diagnostics : Diagnostics T

structure History (T : Type) where
  records : List (HistoryRecord T)
  restartSteps : List Nat

def Trajectory.history {T : Type} (t : Trajectory T) : History T where
  records := t.entries.toList.map fun e => ⟨e.step, e.diagnostics⟩
  restartSteps := t.restartSteps.toList

namespace History

variable {T : Type} [Json.Number T]

def recordText (r : HistoryRecord T) : List Char :=
  Json.recordText [
    ("step", Json.natText r.step),
    ("kkt_error", Json.numberText r.diagnostics.kktError),
    ("normalized_duality_gap", Json.optionText Json.numberText r.diagnostics.gap)]

def jsonText (h : History T) : List Char :=
  Json.recordText [
    ("records", Json.listText recordText h.records),
    ("restart_idx", Json.listText Json.natText h.restartSteps)]

def readStep : Json → Except Json.Error Nat := Json.readNat Counter.bound

/-- How deeply the fields held of a record may be nested, three levels below the top. -/
def heldDepth : Nat := 125

/-- The fields of a record read so far: the step, and the others as they stand. -/
structure Held where
  step : Option Nat := none
  others : List (String × Json) := []

def holdField (h : Held) (name : String) (item : Json) : Except Json.Error Held :=
  if name = "step" then
    if h.step.isSome then .error .mismatched
    else do return { h with step := some (← readStep item) }
  else do
    Json.hold heldDepth item
    return { h with others := h.others ++ [(name, item)] }

/-- The value held under a name, which may occur once. -/
def Held.find? (h : Held) (name : String) : Except Json.Error (Option Json) :=
  match h.others.filter (·.1 == name) with
  | [] => .ok none
  | [(_, item)] => .ok (some item)
  | _ => .error .mismatched

def heldScalar : Json → Except Json.Error T
  | .number n => .ok n.heldScalar
  | _ => .error .mismatched

/-- Null and a missing field are no value. -/
def heldOptional : Option Json → Except Json.Error (Option T)
  | none | some .null => .ok none
  | some item => some <$> heldScalar item

def readRecord : Json → Except Json.Error (HistoryRecord T)
  | .object fields ending => do
    let held ← fields.foldlM (fun h (key, item) =>
      match key with
      | none => .error .malformed
      | some name => holdField h (String.ofList name) item) ({} : Held)
    Json.closed ending
    let step ← Json.required held.step
    let kktError ← heldScalar (← Json.required (← held.find? "kkt_error"))
    let gap ← heldOptional (← held.find? "normalized_duality_gap")
    return ⟨step, ⟨kktError, gap⟩⟩
  | d => .error (Json.unexpected d)

structure Draft (T : Type) where
  records : Option (List (HistoryRecord T)) := none
  restartSteps : Option (List Nat) := none

def readField (name : String) (item : Json) (d : Draft T) : Except Json.Error (Draft T) :=
  match name with
  | "records" => do return { d with records := some (← Json.readList readRecord item) }
  | "restart_idx" => do return { d with restartSteps := some (← Json.readList readStep item) }
  | _ => .ok d

def readJson (doc : Json) : Except Json.Error (History T) := do
  let d ← Json.readRecord ["records", "restart_idx"] readField ({} : Draft T) doc
  return ⟨← Json.required d.records, ← Json.required d.restartSteps⟩

/-- Why a file is refused. -/
inductive FileError where
  | invalidData
  | endsEarly
  deriving DecidableEq

/-- Reads a file, which has to be text before it can be JSON. -/
def ofBytes (bytes : List UInt8) : Except FileError (History T) :=
  match Utf8.decode? bytes with
  | none => .error .invalidData
  | some text =>
    match Json.decodeText readJson text with
    | .ok h => .ok h
    | .error .truncated => .error .endsEarly
    | .error _ => .error .invalidData

end History

end PrimalDual
