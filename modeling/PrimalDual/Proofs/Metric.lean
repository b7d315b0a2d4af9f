import Mathlib.Tactic.Abel
import Mathlib.Tactic.FieldSimp
import Mathlib.Tactic.Linarith
import PrimalDual.Proofs.Problem

/-!
# The metric of the method

A step is a proximal step in a quadratic form that couples primal and dual displacements by the
matrix. The form is nonnegative when the step size is at most the reciprocal of the matrix's norm.
-/
noncomputable section
namespace PrimalDual.Problem
open Matrix

variable (p : Problem ℝ) (η ω : ℝ)

/-- The bilinear form of the metric. -/
def pairing (d e : p.Point) : ℝ :=
  ω / η * (d.1 ⬝ᵥ e.1) + d.2 ⬝ᵥ p.A *ᵥ e.1 + e.2 ⬝ᵥ p.A *ᵥ d.1 + 1 / (η * ω) * (d.2 ⬝ᵥ e.2)

/-- The squared length of a displacement. -/
def metric (d : p.Point) : ℝ :=
  ω / η * (d.1 ⬝ᵥ d.1) + 2 • (d.2 ⬝ᵥ p.A *ᵥ d.1) + 1 / (η * ω) * (d.2 ⬝ᵥ d.2)

/-- The step size does not exceed the reciprocal of the spectral norm of the matrix. -/
def StepBound : Prop := ∀ v : Fin p.primalDim → ℝ, η ^ 2 * (p.A *ᵥ v ⬝ᵥ p.A *ᵥ v) ≤ v ⬝ᵥ v

/-- The step size stays below it. -/
def StrictStepBound : Prop :=
  ∀ v : Fin p.primalDim → ℝ, v ≠ 0 → η ^ 2 * (p.A *ᵥ v ⬝ᵥ p.A *ᵥ v) < v ⬝ᵥ v

variable {p η ω}

theorem StrictStepBound.stepBound (h : p.StrictStepBound η) : p.StepBound η := by
  intro v
  by_cases hv : v = 0
  · simp [hv]
  · exact (h v hv).le

theorem metric_add (d e : p.Point) :
    p.metric η ω (d + e) = p.metric η ω d + 2 * p.pairing η ω d e + p.metric η ω e := by
  simp only [metric, pairing, Prod.fst_add, Prod.snd_add, add_dotProduct, dotProduct_add,
    mulVec_add, two_nsmul]
  rw [dotProduct_comm e.1 d.1, dotProduct_comm e.2 d.2]
  ring

theorem metric_zero : p.metric η ω 0 = 0 := by
  simp [metric]

theorem metric_neg (d : p.Point) : p.metric η ω (-d) = p.metric η ω d := by
  simp [metric, mulVec_neg]

theorem metric_sub_comm (z u : p.Point) : p.metric η ω (z - u) = p.metric η ω (u - z) := by
  rw [← neg_sub, metric_neg]

/-- The three sides of a triangle of points. -/
theorem pairing_eq (z w u : p.Point) : 2 * p.pairing η ω (w - z) (u - w) =
    p.metric η ω (u - z) - p.metric η ω (u - w) - p.metric η ω (w - z) := by
  have hsum : u - z = w - z + (u - w) := by abel
  rw [hsum, metric_add]
  ring

/-- The metric of a mean of two displacements. -/
theorem metric_mean {a b : ℝ} (hab : a + b = 1) (d e : p.Point) :
    p.metric η ω (a • d + b • e) =
      a * p.metric η ω d + b * p.metric η ω e - a * b * p.metric η ω (d - e) := by
  obtain rfl : b = 1 - a := by linarith
  simp only [metric, Prod.fst_add, Prod.snd_add, Prod.fst_sub, Prod.snd_sub, Prod.smul_fst,
    Prod.smul_snd, add_dotProduct, dotProduct_add, sub_dotProduct, dotProduct_sub, smul_dotProduct,
    dotProduct_smul, mulVec_add, mulVec_sub, mulVec_smul, smul_eq_mul, two_nsmul]
  rw [dotProduct_comm e.1 d.1, dotProduct_comm e.2 d.2]
  ring

/-- The metric as a sum of two squares, of which the second needs a bound on the step size. -/
theorem metric_eq (hη : 0 < η) (hω : 0 < ω) (d : p.Point) : p.metric η ω d =
    1 / (η * ω) * ((d.2 + (η * ω) • (p.A *ᵥ d.1)) ⬝ᵥ (d.2 + (η * ω) • (p.A *ᵥ d.1))) +
      ω / η * (d.1 ⬝ᵥ d.1 - η ^ 2 * (p.A *ᵥ d.1 ⬝ᵥ p.A *ᵥ d.1)) := by
  set w := p.A *ᵥ d.1 with hw
  simp only [metric, add_dotProduct, dotProduct_add, smul_dotProduct, dotProduct_smul, smul_eq_mul,
    two_nsmul, ← hw]
  rw [dotProduct_comm w d.2]
  field_simp
  ring

/-- A step size within the bound makes the metric nonnegative. -/
theorem metric_nonneg (hη : 0 < η) (hω : 0 < ω) (hbound : p.StepBound η) (d : p.Point) :
    0 ≤ p.metric η ω d := by
  have hsquare := dotProduct_self_nonneg (d.2 + (η * ω) • (p.A *ᵥ d.1))
  have hgap := sub_nonneg.mpr (hbound d.1)
  rw [metric_eq hη hω]
  positivity

/-- Strictly within it, the metric vanishes at zero alone. -/
theorem eq_zero_of_metric_nonpos (hη : 0 < η) (hω : 0 < ω) (hbound : p.StrictStepBound η)
    {d : p.Point} (hd : p.metric η ω d ≤ 0) : d = 0 := by
  have hsquare := dotProduct_self_nonneg (d.2 + (η * ω) • (p.A *ᵥ d.1))
  rw [metric_eq hη hω] at hd
  have hprimal : d.1 = 0 := by
    by_contra hne
    have hgap := sub_pos.mpr (hbound d.1 hne)
    exact absurd hd (not_le.mpr (by positivity))
  rw [hprimal] at hd
  have hdual : d.2 ⬝ᵥ d.2 ≤ 0 := by
    have hscale : 0 < 1 / (η * ω) := by positivity
    simp only [mulVec_zero, smul_zero, add_zero, dotProduct_zero, mul_zero, sub_zero] at hd
    exact nonpos_of_mul_nonpos_right hd hscale
  refine Prod.ext hprimal (dotProduct_self_eq_zero.mp ?_)
  exact le_antisymm hdual (dotProduct_self_nonneg d.2)

theorem reference_stepBound : (reference : Problem ℝ).StepBound (1 / 2) := by
  intro (v : Fin 5 → ℝ)
  have hrows : (!![1, 0, 1, 0, 0; 1, 1, 0, 0, 0] : Matrix (Fin 2) (Fin 5) ℝ) *ᵥ v =
      ![v 0 + v 2, v 0 + v 1] := by
    ext i
    fin_cases i <;> simp [mulVec, dotProduct, Fin.sum_univ_five]
  have hproduct : (reference : Problem ℝ).A *ᵥ v = ![v 0 + v 2, v 0 + v 1] :=
    (congrArg (· *ᵥ v) reference_A).trans hrows
  have hleft : ![v 0 + v 2, v 0 + v 1] ⬝ᵥ ![v 0 + v 2, v 0 + v 1] =
      (v 0 + v 2) ^ 2 + (v 0 + v 1) ^ 2 := by
    simp [sq, dotProduct]
  have hright : v ⬝ᵥ v = v 0 ^ 2 + v 1 ^ 2 + v 2 ^ 2 + v 3 ^ 2 + v 4 ^ 2 := by
    simp [dotProduct, Fin.sum_univ_five, sq]
  rw [hproduct]
  refine (congrArg _ hleft).trans_le (le_trans ?_ hright.ge)
  nlinarith [sq_nonneg (v 0 - v 2), sq_nonneg (v 0 - v 1)]

/-- No mean is further away than both of its ends. -/
theorem metric_mean_le (hη : 0 < η) (hω : 0 < ω) (hbound : p.StepBound η) {a b : ℝ} (ha : 0 ≤ a)
    (hb : 0 ≤ b) (hab : a + b = 1) {d e : p.Point} {radius : ℝ} (hd : p.metric η ω d ≤ radius)
    (he : p.metric η ω e ≤ radius) : p.metric η ω (a • d + b • e) ≤ radius := by
  have hnonneg := mul_nonneg (mul_nonneg ha hb) (metric_nonneg hη hω hbound (d - e))
  calc p.metric η ω (a • d + b • e)
      = a * p.metric η ω d + b * p.metric η ω e - a * b * p.metric η ω (d - e) :=
        metric_mean hab d e
    _ ≤ a * p.metric η ω d + b * p.metric η ω e := by linarith
    _ ≤ a * radius + b * radius :=
        add_le_add (mul_le_mul_of_nonneg_left hd ha) (mul_le_mul_of_nonneg_left he hb)
    _ = radius := by rw [← add_mul, hab, one_mul]

end PrimalDual.Problem

end
