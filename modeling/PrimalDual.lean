import PrimalDual.Convergence
import PrimalDual.Decimal
import PrimalDual.Decimal.Exponent
import PrimalDual.Decimal.Shortest
import PrimalDual.Fault
import PrimalDual.Folders
import PrimalDual.Gap.Ball
import PrimalDual.Gap.Evaluator
import PrimalDual.Gap.Oracle
import PrimalDual.Gap.Workspace
import PrimalDual.Iterates
import PrimalDual.Iterates.Step
import PrimalDual.Json
import PrimalDual.Json.Decoder
import PrimalDual.Json.Number
import PrimalDual.Json.Reader
import PrimalDual.Json.Writer
import PrimalDual.Output
import PrimalDual.PowerIteration
import PrimalDual.Problem
import PrimalDual.Proofs.Decimal
import PrimalDual.Proofs.Decimal.Exponent
import PrimalDual.Proofs.Exact
import PrimalDual.Proofs.Floating
import PrimalDual.Proofs.Floating.Order
import PrimalDual.Proofs.Gap.Ball
import PrimalDual.Proofs.Gap.Evaluator
import PrimalDual.Proofs.Gap.Growth
import PrimalDual.Proofs.Gap.History
import PrimalDual.Proofs.Gap.Lockstep
import PrimalDual.Proofs.Gap.Maximum
import PrimalDual.Proofs.Gap.Memory
import PrimalDual.Proofs.Gap.Refusal
import PrimalDual.Proofs.Iterates
import PrimalDual.Proofs.Iterates.Approach
import PrimalDual.Proofs.Iterates.Ergodic
import PrimalDual.Proofs.Iterates.Past
import PrimalDual.Proofs.Iterates.Rest
import PrimalDual.Proofs.Iterates.Step
import PrimalDual.Proofs.Json.Numerals
import PrimalDual.Proofs.Json.Scalars
import PrimalDual.Proofs.Json.Scan
import PrimalDual.Proofs.Metric
import PrimalDual.Proofs.Optimality
import PrimalDual.Proofs.Output
import PrimalDual.Proofs.PowerIteration.Halting
import PrimalDual.Proofs.PowerIteration.Rayleigh
import PrimalDual.Proofs.Problem
import PrimalDual.Proofs.Report
import PrimalDual.Proofs.Report.Notices
import PrimalDual.Proofs.Residuals
import PrimalDual.Proofs.Saddle
import PrimalDual.Proofs.Settings.Builder
import PrimalDual.Proofs.Settings.Json
import PrimalDual.Proofs.Solver.Completion
import PrimalDual.Proofs.Solver.Distance
import PrimalDual.Proofs.Solver.Entries
import PrimalDual.Proofs.Solver.Evaluations
import PrimalDual.Proofs.Solver.Feasibility
import PrimalDual.Proofs.Solver.Frame
import PrimalDual.Proofs.Solver.Lockstep
import PrimalDual.Proofs.Solver.Logging
import PrimalDual.Proofs.Solver.Moment
import PrimalDual.Proofs.Solver.Notices
import PrimalDual.Proofs.Solver.Observation
import PrimalDual.Proofs.Solver.Operations
import PrimalDual.Proofs.Solver.Outcome
import PrimalDual.Proofs.Solver.Overflow
import PrimalDual.Proofs.Solver.Pinned
import PrimalDual.Proofs.Solver.Printing
import PrimalDual.Proofs.Solver.Queries
import PrimalDual.Proofs.Solver.Recording
import PrimalDual.Proofs.Solver.Repetition
import PrimalDual.Proofs.Solver.Schedule
import PrimalDual.Proofs.Solver.Snapshots
import PrimalDual.Proofs.Solver.Termination
import PrimalDual.Proofs.Solver.Timing
import PrimalDual.Proofs.Solver.Totality
import PrimalDual.Proofs.Solver.Verbosity
import PrimalDual.Proofs.Solver.Workspace
import PrimalDual.Proofs.Sparse.Access
import PrimalDual.Proofs.Sparse.Adjoint
import PrimalDual.Proofs.Sparse.Assembly
import PrimalDual.Proofs.Sparse.Columns
import PrimalDual.Proofs.Sparse.Lookup
import PrimalDual.Proofs.Sparse.Product
import PrimalDual.Proofs.Sparse.Triplets
import PrimalDual.Proofs.Text.Utf8
import PrimalDual.Proofs.Timers
import PrimalDual.Proofs.Trajectory.Filling
import PrimalDual.Proofs.Trajectory.Json
import PrimalDual.Proofs.TrustRegion.Minimum
import PrimalDual.Proofs.TrustRegion.Motion
import PrimalDual.Proofs.TrustRegion.Path
import PrimalDual.Proofs.TrustRegion.Places
import PrimalDual.Proofs.TrustRegion.Projection
import PrimalDual.Proofs.TrustRegion.Radius
import PrimalDual.Proofs.TrustRegion.Safety
import PrimalDual.Proofs.TrustRegion.Search
import PrimalDual.Proofs.Tuning.Norm
import PrimalDual.Proofs.Tuning.StepSize
import PrimalDual.Proofs.Tuning.Sweep
import PrimalDual.Proofs.Vector.Pairwise
import PrimalDual.Random
import PrimalDual.Report
import PrimalDual.Restart
import PrimalDual.Scalar
import PrimalDual.Scalar.Binary
import PrimalDual.Settings
import PrimalDual.Settings.Builder
import PrimalDual.Settings.Json
import PrimalDual.Solver
import PrimalDual.Solver.Saving
import PrimalDual.Solver.Workspace
import PrimalDual.Sparse
import PrimalDual.Sparse.Entries
import PrimalDual.Sparse.Format
import PrimalDual.Sparse.Json
import PrimalDual.Sparse.Product
import PrimalDual.Text.Utf8
import PrimalDual.Timers
import PrimalDual.Trajectory
import PrimalDual.Trajectory.Csv
import PrimalDual.Trajectory.Json
import PrimalDual.TrustRegion
import PrimalDual.TrustRegion.Places
import PrimalDual.Tuning
import PrimalDual.Vector
import PrimalDual.Vector.Pairwise
