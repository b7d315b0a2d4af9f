import PrimalDual.Solver
import PrimalDual.Trajectory.Csv

/-!
# Saving a trajectory

The tables of a run go into a folder named for the restart method and the problem. A failure leaves
a warning on the print target and nothing else.
-/
namespace PrimalDual.Solver

variable {T ω : Type} [Scalar T]

/-- The problem's name, or a number in its place. -/
def dataset (s : Solver T ω) : String :=
  s.problem.name.getD ("dataset_" ++ toString s.settings.datasetIndex)

/-- The two tables under a name, for an output folder that can or cannot hold them. -/
def savedFiles (s : Solver T ω) (folder : String) (writable : Bool) (name : String) :
    Except SaveError (SavedFile × SavedFile) := do
  if !writable then throw .blocked
  let convergence ← s.trajectory.convergenceFile folder s.policy.name s.dataset name
  let restarts ← s.trajectory.restartFile folder s.policy.name s.dataset name
  return (convergence, restarts)

def saveTrajectory (s : Solver T ω) (folder : String) (writable : Bool) (name : String) :
    Option (SavedFile × SavedFile) × Solver T ω :=
  match s.savedFiles folder writable name with
  | .ok files => (some files, s)
  | .error e =>
    let message := "could not save trajectory to " ++ folder ++ ": " ++ e.message
    (none, { s with report := s.report.printWarning s.settings message })

end PrimalDual.Solver
