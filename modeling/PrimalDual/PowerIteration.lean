import PrimalDual.Random
import PrimalDual.Vector

/-!
# Power iteration

An estimate of the eigenvalue of largest magnitude of a symmetric operator. A random vector of unit
length is mapped and normalized over and over; its Rayleigh quotient is the estimate.
-/
namespace PrimalDual.PowerIteration

structure Settings where
  tolerance : Float := 1e-12
  maxIterations : Nat := 1000
  seed : UInt64 := 0

/-- The estimate, and how often the operator was applied. -/
structure Estimate (T : Type) where
  eigenvalue : T
  calls : Nat

variable {T : Type} [Scalar T]

/-- Whether the estimate has changed by less than its share. -/
def settled (tolerance before now : T) : Bool :=
  Scalar.abs (now - before) < tolerance * Scalar.abs now

/-- Continues from a unit vector and the estimate made `k` applications after the first one, which
has nothing to be compared with. -/
def iterate (apply : List T → Except Fault (List T)) (tolerance : T) (k : Nat) (x : List T)
    (before : T) : Nat → Except Fault (Estimate T)
  | 0 => .ok ⟨before, k⟩
  | remaining + 1 => do
    let y ← apply x
    let now ← Vector.dot x y
    let norm := Vector.norm y
    if norm == 0 || !Scalar.isFinite norm then return ⟨now, k + 1⟩
    if 0 < k && settled tolerance before now then return ⟨now, k + 1⟩
    iterate apply tolerance (k + 1) (y.map (· * Scalar.recip norm)) now remaining

/-- The estimate from a start vector, which is brought to unit length first; zero from the zero
vector. -/
def estimateFrom (start : List T) (apply : List T → Except Fault (List T)) (tolerance : T)
    (maxIterations : Nat) : Except Fault (Estimate T) :=
  let norm := Vector.norm start
  if norm == 0 then .ok ⟨0, 0⟩
  else iterate apply tolerance 0 (start.map (· * Scalar.recip norm)) 0 maxIterations

/-- The estimate for an operator on vectors of length `n`, from a random start. -/
def estimate (n : Nat) (apply : List T → Except Fault (List T)) (settings : Settings) :
    Except Fault (Estimate T) :=
  if n = 0 then .ok ⟨0, 0⟩
  else
    estimateFrom (randomVector n settings.seed) apply (Scalar.ofDouble settings.tolerance)
      settings.maxIterations

end PrimalDual.PowerIteration
