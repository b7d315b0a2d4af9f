import Mathlib.LinearAlgebra.Matrix.Notation
import Mathlib.Tactic.FinCases
import PrimalDual.Problem
import PrimalDual.Proofs.Sparse.Product

/-!
# Problems in exact arithmetic

What the acceptance of a problem secures, and its data as a matrix and two vectors over the real
numbers. A list of all variables stands for a point, which has a primal and a dual part.
-/
namespace PrimalDual.Problem

section Generic

variable {T : Type} [Scalar T] {p : Problem T}

/-- An accepted problem has a matrix in format and vectors that fit it. -/
theorem Accepted.parts (h : p.Accepted) :
    p.matrix.InFormat ∧ p.cost.length = p.primalDim ∧ p.rhs.length = p.dualDim := by
  unfold Accepted ofParts at h
  split at h
  · simp at h
  · next hcheck =>
    refine ⟨hcheck, ?_⟩
    by_cases hcost : p.cost.length = p.matrix.cols
    · by_cases hrhs : p.rhs.length = p.matrix.rows
      · exact ⟨hcost, hrhs⟩
      · simp [hcost, hrhs] at h
    · simp [hcost] at h

theorem Accepted.inFormat (h : p.Accepted) : p.matrix.InFormat := h.parts.1

theorem Accepted.length_cost (h : p.Accepted) : p.cost.length = p.primalDim := h.parts.2.1

theorem Accepted.length_rhs (h : p.Accepted) : p.rhs.length = p.dualDim := h.parts.2.2

theorem Accepted.primalObjective_eq_ok (h : p.Accepted) {x : List T}
    (hx : x.length = p.primalDim) : p.primalObjective x = .ok (Vector.inner p.cost x) :=
  Vector.dot_eq_ok (by rw [h.length_cost, hx])

theorem Accepted.dualObjective_eq_ok (h : p.Accepted) {y : List T} (hy : y.length = p.dualDim) :
    p.dualObjective y = .ok (Vector.inner p.rhs y) :=
  Vector.dot_eq_ok (by rw [h.length_rhs, hy])

end Generic

noncomputable section
open Matrix

/-- The points of a problem: its primal and its dual variables. -/
abbrev Point (p : Problem ℝ) : Type := (Fin p.primalDim → ℝ) × (Fin p.dualDim → ℝ)

variable (p : Problem ℝ)

/-- The point that a list of all variables stands for. -/
def pointOf (z : List ℝ) : p.Point :=
  (coords p.primalDim (z.take p.primalDim), coords p.dualDim (z.drop p.primalDim))

/-- The list of all variables of a point. -/
def listOf (z : p.Point) : List ℝ := List.ofFn z.1 ++ List.ofFn z.2

/-- The matrix of the constraints. -/
def A : Matrix (Fin p.dualDim) (Fin p.primalDim) ℝ := p.matrix.dense

/-- The right-hand side of the constraints. -/
def b : Fin p.dualDim → ℝ := coords p.dualDim p.rhs

/-- The cost of the primal variables. -/
def c : Fin p.primalDim → ℝ := coords p.primalDim p.cost

variable {p}

@[simp] theorem length_listOf (z : p.Point) : (p.listOf z).length = p.primalDim + p.dualDim := by
  simp [listOf]

@[simp] theorem take_listOf (z : p.Point) : (p.listOf z).take p.primalDim = List.ofFn z.1 :=
  List.take_left' (by simp)

@[simp] theorem drop_listOf (z : p.Point) : (p.listOf z).drop p.primalDim = List.ofFn z.2 :=
  List.drop_left' (by simp)

@[simp] theorem pointOf_listOf (z : p.Point) : p.pointOf (p.listOf z) = z := by
  simp [pointOf]

theorem listOf_pointOf {z : List ℝ} (h : z.length = p.primalDim + p.dualDim) :
    p.listOf (p.pointOf z) = z := by
  have htake : (z.take p.primalDim).length = p.primalDim := by simp [h]
  have hdrop : (z.drop p.primalDim).length = p.dualDim := by simp [h]
  rw [listOf, pointOf, ofFn_coords htake, ofFn_coords hdrop, List.take_append_drop]

theorem listOf_eq_iff {u : p.Point} {z : List ℝ} (h : z.length = p.primalDim + p.dualDim) :
    p.listOf u = z ↔ u = p.pointOf z := by
  constructor
  · rintro rfl
    exact (pointOf_listOf u).symm
  · rintro rfl
    exact listOf_pointOf h

theorem Accepted.ofFn_b (h : p.Accepted) : List.ofFn p.b = p.rhs := ofFn_coords h.length_rhs

theorem Accepted.ofFn_c (h : p.Accepted) : List.ofFn p.c = p.cost := ofFn_coords h.length_cost

theorem Accepted.primalObjective_real (h : p.Accepted) (x : Fin p.primalDim → ℝ) :
    p.primalObjective (List.ofFn x) = .ok (p.c ⬝ᵥ x) := by
  rw [h.primalObjective_eq_ok (by simp), ← h.ofFn_c, Vector.inner_ofFn]

theorem Accepted.dualObjective_real (h : p.Accepted) (y : Fin p.dualDim → ℝ) :
    p.dualObjective (List.ofFn y) = .ok (p.b ⬝ᵥ y) := by
  rw [h.dualObjective_eq_ok (by simp), ← h.ofFn_b, Vector.inner_ofFn]

/-- The multiple of the residual of the constraints. -/
theorem Accepted.residual_real (h : p.Accepted) (a d : ℝ) (x : Fin p.primalDim → ℝ) :
    p.matrix.mulAdd a (List.ofFn x) d p.rhs = .ok (List.ofFn (a • (p.A *ᵥ x) + d • p.b)) := by
  rw [← h.ofFn_b]
  exact h.inFormat.mulAdd_real a d x p.b

/-- The multiple of the slack of the dual constraints. -/
theorem Accepted.slack_real (h : p.Accepted) (a d : ℝ) (y : Fin p.dualDim → ℝ) :
    p.matrix.transposeMulAdd a (List.ofFn y) d p.cost =
      .ok (List.ofFn (a • (y ᵥ* p.A) + d • p.c)) := by
  rw [← h.ofFn_c]
  exact h.inFormat.transposeMulAdd_real a d y p.c

theorem reference_accepted : (reference : Problem ℝ).Accepted := rfl

theorem reference_A : (reference : Problem ℝ).A = !![1, 0, 1, 0, 0; 1, 1, 0, 0, 0] := by
  ext (i : Fin 2) (j : Fin 5)
  change SparseMatrix.entrySum ((reference : Problem ℝ).matrix.column j) i = _
  fin_cases i <;> fin_cases j <;>
    simp [SparseMatrix.column, SparseMatrix.entrySum, SparseMatrix.start, SparseMatrix.entries,
      span, reference]

/-- The problem whose single variable has to equal `b`, at no cost. -/
def pinned (b : ℝ) : Problem ℝ where
  matrix := ⟨1, 1, [0, 1], [0], [1]⟩
  rhs := [b]
  cost := [0]
  name := none

theorem pinned_accepted (b : ℝ) : (pinned b).Accepted := rfl

theorem pinned_columns (b : ℝ) : (pinned b).matrix.columns = .ok [[(0, 1)]] := by
  simp [pinned, SparseMatrix.columns, SparseMatrix.entries, SparseMatrix.bounds, slice]

theorem pinned_residual (b x : ℝ) :
    (pinned b).matrix.mulAdd 1 [x] (-1) (pinned b).rhs = .ok [x - b] := by
  rw [SparseMatrix.mulAdd, pinned_columns]
  simp [pinned, SparseMatrix.scaleOutput, SparseMatrix.addColumn, sub_eq_neg_add]

theorem pinned_slack (b y : ℝ) {a d : ℝ} (ha : a ≠ 0) :
    (pinned b).matrix.transposeMulAdd a [y] d (pinned b).cost = .ok [a * y] := by
  have hcost : SparseMatrix.scaleOutput d (pinned b).cost = [0] := by
    unfold SparseMatrix.scaleOutput pinned
    split_ifs <;> simp
  rw [SparseMatrix.transposeMulAdd, pinned_columns, hcost]
  simp [pinned, SparseMatrix.columnDot, ha]

theorem pinned_A (b : ℝ) (i : Fin (pinned b).dualDim) (j : Fin (pinned b).primalDim) :
    (pinned b).A i j = 1 := by
  obtain rfl : i = (0 : Fin 1) := Fin.eq_zero _
  obtain rfl : j = (0 : Fin 1) := Fin.eq_zero _
  change SparseMatrix.entrySum ((pinned b).matrix.column 0) 0 = 1
  simp [SparseMatrix.column, SparseMatrix.entrySum, SparseMatrix.start, SparseMatrix.entries,
    span, pinned]

variable (p)

/-- The functional whose maximum over a ball is the duality gap around `z`. -/
def gapAt (z u : p.Point) : ℝ :=
  (p.b - p.A *ᵥ z.1) ⬝ᵥ u.2 + (z.2 ᵥ* p.A - p.c) ⬝ᵥ u.1 + p.c ⬝ᵥ z.1 - p.b ⬝ᵥ z.2

/-- The Euclidean length of a point. -/
def norm (d : p.Point) : ℝ := √(d.1 ⬝ᵥ d.1 + d.2 ⬝ᵥ d.2)

/-- The points around `z` whose primal part is nonnegative. -/
def ball (z : p.Point) (r : ℝ) : Set p.Point := {u | 0 ≤ u.1 ∧ p.norm (u - z) ≤ r}

variable {p}

theorem gapAt_self (z : p.Point) : p.gapAt z z = 0 := by
  simp only [gapAt, sub_dotProduct, ← dotProduct_mulVec]
  rw [dotProduct_comm (p.A *ᵥ z.1) z.2]
  ring

theorem mem_ball_self {z : p.Point} (hz : 0 ≤ z.1) {r : ℝ} (hr : 0 ≤ r) : z ∈ p.ball z r :=
  ⟨hz, by simpa [norm] using hr⟩

theorem ball_mono {z : p.Point} {r s : ℝ} (h : r ≤ s) : p.ball z r ⊆ p.ball z s :=
  fun _ hu => ⟨hu.1, hu.2.trans h⟩

end

end PrimalDual.Problem
