import Mathlib.Algebra.Order.Star.Real
import Mathlib.LinearAlgebra.Matrix.PosDef
import Mathlib.LinearAlgebra.SesquilinearForm.Basic
import Mathlib.Topology.Instances.Matrix
import Mathlib.Topology.MetricSpace.ProperSpace.Lemmas
import PrimalDual.Proofs.Exact

/-!
# Rayleigh quotients

The quotient of a positive semidefinite matrix at a vector lies between zero and the greatest value
of the form on the unit sphere. It does not decrease when the matrix is applied to the vector, so it
increases along the powers of the matrix for as long as these do not vanish.
-/
noncomputable section
namespace PrimalDual
open Matrix

variable {n : ℕ} {M : Matrix (Fin n) (Fin n) ℝ} {x v : Fin n → ℝ}

/-- The value of the form of `M` at the direction of `x`. -/
def rayleigh (M : Matrix (Fin n) (Fin n) ℝ) (x : Fin n → ℝ) : ℝ :=
  x ⬝ᵥ M *ᵥ x / (x ⬝ᵥ x)

theorem dotProduct_self_pos (h : x ≠ 0) : 0 < x ⬝ᵥ x :=
  (dotProduct_self_nonneg x).lt_of_ne' (dotProduct_self_eq_zero.not.mpr h)

theorem rayleigh_of_unit (h : x ⬝ᵥ x = 1) : rayleigh M x = x ⬝ᵥ M *ᵥ x := by
  rw [rayleigh, h, div_one]

/-- Only the direction matters. -/
theorem rayleigh_smul {c : ℝ} (hc : c ≠ 0) (x : Fin n → ℝ) :
    rayleigh M (c • x) = rayleigh M x := by
  simp only [rayleigh, mulVec_smul, dotProduct_smul, smul_dotProduct, smul_eq_mul]
  rw [mul_div_mul_left _ _ hc, mul_div_mul_left _ _ hc]

/-- The vector of unit length in the direction of `x`. -/
def direction (x : Fin n → ℝ) : Fin n → ℝ := (√(x ⬝ᵥ x))⁻¹ • x

theorem direction_unit (h : x ≠ 0) : direction x ⬝ᵥ direction x = 1 := by
  have hpos := dotProduct_self_pos h
  rw [direction, smul_dotProduct, dotProduct_smul, smul_smul, ← mul_inv,
    Real.mul_self_sqrt hpos.le, smul_eq_mul, inv_mul_cancel₀ hpos.ne']

theorem exists_direction_eq (h : x ≠ 0) : ∃ c : ℝ, 0 < c ∧ direction x = c • x :=
  ⟨_, inv_pos.mpr (Real.sqrt_pos.mpr (dotProduct_self_pos h)), rfl⟩

theorem direction_smul {c : ℝ} (hc : 0 < c) (x : Fin n → ℝ) : direction (c • x) = direction x := by
  have hlength : √(c • x ⬝ᵥ c • x) = c * √(x ⬝ᵥ x) := by
    rw [smul_dotProduct, dotProduct_smul, smul_eq_mul, smul_eq_mul, ← mul_assoc,
      Real.sqrt_mul (mul_self_nonneg c), Real.sqrt_mul_self hc.le]
  rw [direction, direction, hlength, smul_smul, mul_comm c, mul_inv, mul_assoc,
    inv_mul_cancel₀ hc.ne', mul_one]

theorem rayleigh_direction (h : x ≠ 0) : rayleigh M (direction x) = rayleigh M x := by
  obtain ⟨c, hc, heq⟩ := exists_direction_eq h
  rw [heq, rayleigh_smul hc.ne']

theorem mulVec_direction_eq_zero (h : x ≠ 0) : M *ᵥ direction x = 0 ↔ M *ᵥ x = 0 := by
  obtain ⟨c, hc, heq⟩ := exists_direction_eq h
  rw [heq, mulVec_smul, smul_eq_zero_iff_right hc.ne']

theorem direction_mulVec_direction (h : x ≠ 0) :
    direction (M *ᵥ direction x) = direction (M *ᵥ x) := by
  obtain ⟨c, hc, heq⟩ := exists_direction_eq h
  rw [heq, mulVec_smul, direction_smul hc]

theorem isCompact_unitSphere (n : ℕ) : IsCompact {x : Fin n → ℝ | x ⬝ᵥ x = 1} := by
  refine Metric.isCompact_of_isClosed_isBounded ?_ ?_
  · refine isClosed_eq ?_ continuous_const
    exact Continuous.dotProduct continuous_id continuous_id
  · refine Metric.isBounded_closedBall.subset (t := Metric.closedBall 0 1) fun x hx => ?_
    rw [Metric.mem_closedBall, dist_pi_le_iff zero_le_one]
    intro i
    have hterm : x i * x i ≤ x ⬝ᵥ x :=
      Finset.single_le_sum (fun j _ => mul_self_nonneg (x j)) (Finset.mem_univ i)
    rw [hx] at hterm
    rw [Pi.zero_apply, Real.dist_0_eq_abs]
    exact abs_le_one_iff_mul_self_le_one.mpr hterm

/-- The form takes a greatest value on the unit vectors. -/
theorem exists_greatest_form (hn : 0 < n) (M : Matrix (Fin n) (Fin n) ℝ) :
    ∃ μ, IsGreatest {q | ∃ x : Fin n → ℝ, x ⬝ᵥ x = 1 ∧ x ⬝ᵥ M *ᵥ x = q} μ := by
  have hunit : (Pi.single ⟨0, hn⟩ 1 : Fin n → ℝ) ⬝ᵥ Pi.single ⟨0, hn⟩ 1 = 1 := by simp
  have hcontinuous : Continuous fun x : Fin n → ℝ => x ⬝ᵥ M *ᵥ x :=
    Continuous.dotProduct continuous_id (Continuous.matrix_mulVec continuous_const continuous_id)
  exact ((isCompact_unitSphere n).image hcontinuous).exists_isGreatest ⟨_, _, hunit, rfl⟩

theorem rayleigh_le_greatest {μ : ℝ}
    (hμ : IsGreatest {q | ∃ x : Fin n → ℝ, x ⬝ᵥ x = 1 ∧ x ⬝ᵥ M *ᵥ x = q} μ) (h : x ≠ 0) :
    rayleigh M x ≤ μ := by
  rw [← rayleigh_direction h, rayleigh_of_unit (direction_unit h)]
  exact hμ.2 ⟨_, direction_unit h, rfl⟩

section PosSemidef

variable (h : M.PosSemidef)
include h

theorem form_nonneg (x : Fin n → ℝ) : 0 ≤ x ⬝ᵥ M *ᵥ x := by
  simpa using h.dotProduct_mulVec_nonneg x

theorem form_symm (x y : Fin n → ℝ) : x ⬝ᵥ M *ᵥ y = M *ᵥ x ⬝ᵥ y := by
  have hsymm : Mᵀ = M := h.isHermitian.eq
  rw [dotProduct_mulVec, ← mulVec_transpose, hsymm]

/-- The inequality of Cauchy and Schwarz for the form. -/
theorem form_mul_self_le (x y : Fin n → ℝ) :
    (x ⬝ᵥ M *ᵥ y) ^ 2 ≤ (x ⬝ᵥ M *ᵥ x) * (y ⬝ᵥ M *ᵥ y) := by
  have hbilin := (Matrix.toBilin' M).apply_sq_le_of_symm (fun x => ?_) ⟨fun x y => ?_⟩ x y
  · simpa only [Matrix.toBilin'_apply'] using hbilin
  · simpa only [Matrix.toBilin'_apply'] using form_nonneg h x
  · simp only [Matrix.toBilin'_apply', RingHom.id_apply]
    rw [form_symm h, dotProduct_comm]

theorem rayleigh_nonneg (x : Fin n → ℝ) : 0 ≤ rayleigh M x :=
  div_nonneg (form_nonneg h x) (dotProduct_self_nonneg x)

/-- The image of a vector has at least the quotient of the vector. -/
theorem rayleigh_le_mulVec (hx : M *ᵥ x ≠ 0) : rayleigh M x ≤ rayleigh M (M *ᵥ x) := by
  have hx₀ : x ≠ 0 := by
    rintro rfl
    exact hx (mulVec_zero M)
  set y := M *ᵥ x with hy
  have ha := dotProduct_self_pos hx₀
  have hc := dotProduct_self_pos hx
  have hd := form_nonneg h y
  have hlength : (x ⬝ᵥ y) ^ 2 ≤ (x ⬝ᵥ x) * (y ⬝ᵥ y) := by
    simpa using form_mul_self_le PosSemidef.one x y
  have hform : (y ⬝ᵥ y) ^ 2 ≤ (x ⬝ᵥ y) * (y ⬝ᵥ M *ᵥ y) := by
    have hcauchy := form_mul_self_le h x y
    rwa [form_symm h x y, ← hy] at hcauchy
  have hb : 0 < x ⬝ᵥ y := by
    refine (form_nonneg h x).lt_of_ne' fun hzero => ?_
    rw [← hy] at hzero
    rw [hzero, zero_mul] at hform
    exact (pow_pos hc 2).not_ge hform
  rw [rayleigh, rayleigh, ← hy, div_le_div_iff₀ ha hc, mul_comm (y ⬝ᵥ M *ᵥ y)]
  -- The product of the two inequalities, less what both of its sides have in common.
  refine le_of_mul_le_mul_left ?_ (mul_pos hb hc)
  calc (x ⬝ᵥ y) * (y ⬝ᵥ y) * ((x ⬝ᵥ y) * (y ⬝ᵥ y))
      = (x ⬝ᵥ y) ^ 2 * (y ⬝ᵥ y) ^ 2 := by ring
    _ ≤ (x ⬝ᵥ x) * (y ⬝ᵥ y) * ((x ⬝ᵥ y) * (y ⬝ᵥ M *ᵥ y)) := by gcongr
    _ = (x ⬝ᵥ y) * (y ⬝ᵥ y) * ((x ⬝ᵥ x) * (y ⬝ᵥ M *ᵥ y)) := by ring

end PosSemidef

theorem pow_succ_mulVec (M : Matrix (Fin n) (Fin n) ℝ) (k : ℕ) (v : Fin n → ℝ) :
    M ^ (k + 1) *ᵥ v = M *ᵥ (M ^ k *ᵥ v) := by
  rw [pow_succ', mulVec_mulVec]

theorem pow_mulVec_ne_zero {j k : ℕ} (hjk : j ≤ k) (hk : M ^ k *ᵥ v ≠ 0) : M ^ j *ᵥ v ≠ 0 := by
  obtain ⟨d, rfl⟩ := Nat.exists_eq_add_of_le' hjk
  intro hj
  rw [pow_add, ← mulVec_mulVec, hj, mulVec_zero] at hk
  exact hk rfl

theorem rayleigh_pow_mono (h : M.PosSemidef) {j k : ℕ} (hjk : j ≤ k) (hk : M ^ k *ᵥ v ≠ 0) :
    rayleigh M (M ^ j *ᵥ v) ≤ rayleigh M (M ^ k *ᵥ v) := by
  induction k, hjk using Nat.le_induction with
  | base => exact le_rfl
  | succ k _ ih =>
    have hstep := hk
    rw [pow_succ_mulVec] at hstep ⊢
    exact (ih (pow_mulVec_ne_zero k.le_succ hk)).trans (rayleigh_le_mulVec h hstep)

end PrimalDual

end
