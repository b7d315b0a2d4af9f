import PrimalDual.Iterates

/-!
# Trajectories

The record of a run: copies of the iterates at the record cadence, up to a capacity fixed
beforehand, and the step indices at which restarts took place.
-/
namespace PrimalDual

inductive RecordError where
  | capacityExceeded (capacity : Nat)
  | indexOutOfRange (index length : Nat)
  deriving DecidableEq

def RecordError.message : RecordError → String
  | .capacityExceeded capacity => "Trajectory is full (capacity " ++ toString capacity ++ ")"
  | .indexOutOfRange index length =>
    "Record index " ++ toString index ++ " out of range for trajectory of length " ++
      toString length

structure TrajectoryEntry (T : Type) where
  step : Nat
  iterates : Iterates T
  diagnostics : Diagnostics T

structure Trajectory (T : Type) where
  entries : Array (TrajectoryEntry T)
  capacity : Nat
  restartSteps : Array Nat

namespace Trajectory

variable {T : Type} [Scalar T]

def withCapacity (capacity : Nat) : Trajectory T := ⟨#[], capacity, #[]⟩

/-- No trajectory has room for this many entries. -/
def entryBound : Nat := 0x80000000000000

/-- An empty trajectory, if there can be room for its entries. -/
def reserve (capacity : Nat) : Except Fault (Trajectory T) :=
  if capacity < entryBound then .ok (withCapacity capacity) else .error .capacityOverflow

/-- Keeps a copy of the iterates, unless the trajectory is full. -/
def append (t : Trajectory T) (s : Iterates T) :
    Except Fault (Except RecordError (Trajectory T)) := do
  if t.capacity ≤ t.entries.size then
    return .error (.capacityExceeded t.capacity)
  let step ← s.step
  return .ok { t with entries := t.entries.push ⟨step, s, s.diagnostics⟩ }

def get (t : Trajectory T) (index : Nat) : Except RecordError (TrajectoryEntry T) :=
  match t.entries[index]? with
  | some entry => .ok entry
  | none => .error (.indexOutOfRange index t.entries.size)

def pushRestart (t : Trajectory T) (step : Nat) : Trajectory T :=
  { t with restartSteps := t.restartSteps.push step }

end Trajectory

end PrimalDual
