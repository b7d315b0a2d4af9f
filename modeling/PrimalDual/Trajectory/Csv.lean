import PrimalDual.Decimal
import PrimalDual.Folders
import PrimalDual.Trajectory

/-!
# Trajectories as tables

Two files per trajectory: the convergence history, one row for each record, and the restart indices,
one to a line. They lie in a folder named for the method and the data set, which is created.
-/
namespace PrimalDual

/-- A file to be written: its path below the output folder and its text. -/
structure SavedFile where
  path : String
  text : String

namespace Trajectory

variable {T : Type} [Scalar T]

def scalarText (x : T) : String := String.ofList (Decimal.scientific .onlyMinus 10 x)

def gapText : Option T → String
  | some gap => scalarText gap
  | none => "nan"

def row (e : TrajectoryEntry T) : String :=
  toString e.step ++ "," ++ gapText e.diagnostics.gap ++ "," ++
    scalarText e.diagnostics.kktError ++ "\n"

def convergenceTable (t : Trajectory T) : String :=
  "step,normalized_duality_gap,kkt_error\n" ++ String.join (t.entries.toList.map row)

def restartTable (t : Trajectory T) : String :=
  String.join (t.restartSteps.toList.map fun step => toString step ++ "\n")

/-- The path of a file below the output folder, in the folder of a method and a data set, which is
made. A file name may itself lead through folders, but only through those that exist. -/
def placeFile (folder method dataset file : String) : Except SaveError String := do
  let place := joinPath (joinPath folder method) dataset
  let folders ← (Folders.leadingTo folder).make place
  let path := joinPath place file
  folders.checkFile path
  return pathBelow folder path

def convergenceFile (t : Trajectory T) (folder method dataset name : String) :
    Except SaveError SavedFile := do
  return ⟨← placeFile folder method dataset (name ++ ".csv"), t.convergenceTable⟩

def restartFile (t : Trajectory T) (folder method dataset name : String) :
    Except SaveError SavedFile := do
  return ⟨← placeFile folder method dataset (name ++ "_restart_idx.csv"), t.restartTable⟩

end Trajectory

end PrimalDual
