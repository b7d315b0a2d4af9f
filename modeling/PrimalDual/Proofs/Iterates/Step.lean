import Mathlib.Tactic.Module
import PrimalDual.Proofs.Iterates
import PrimalDual.Proofs.Metric

/-!
# One step in exact arithmetic

The step as a map of points, and the inequality that it satisfies: for every point with nonnegative
primal part, the gap functional around the new point is bounded by how much closer the step came to
that point in the metric.
-/
noncomputable section
namespace PrimalDual.Problem
open Matrix

variable {p : Problem ℝ} {η ω : ℝ}

/-- The primal point of a step: descent along the slack, raised to zero. -/
def nextPrimal (η ω : ℝ) (z : p.Point) : Fin p.primalDim → ℝ :=
  fun j => max (z.1 j - η / ω * (p.c - z.2 ᵥ* p.A) j) 0

/-- The dual point of a step: ascent along the residual at the extrapolated primal point. -/
def nextDual (η ω : ℝ) (z : p.Point) : Fin p.dualDim → ℝ :=
  z.2 + (η * ω) • (p.b - p.A *ᵥ (2 • nextPrimal η ω z - z.1))

/-- The point of a step. -/
def stepPoint (η ω : ℝ) (z : p.Point) : p.Point := (nextPrimal η ω z, nextDual η ω z)

theorem primalStep_real (hp : p.Accepted) (z : p.Point) :
    p.primalStep η ω (List.ofFn z.1) (List.ofFn z.2) = .ok (List.ofFn (nextPrimal η ω z)) := by
  have hmoved := Vector.waxpby_eq_ok (w := Vector.zeros p.primalDim) 1 (-η / ω)
    (x := List.ofFn z.1) (y := List.ofFn ((-1 : ℝ) • (z.2 ᵥ* p.A) + (1 : ℝ) • p.c))
    (by simp [Vector.zeros]) (by simp [Vector.zeros])
  rw [primalStep, hp.slack_real, ok_bind, hmoved, ok_bind, Vector.combine_ofFn, List.map_ofFn]
  congr 2
  funext j
  simp [nextPrimal]
  ring_nf

theorem dualStep_real (hp : p.Accepted) (z : p.Point) :
    p.dualStep η ω (List.ofFn z.1) (List.ofFn (nextPrimal η ω z)) (List.ofFn z.2) =
      .ok (List.ofFn (nextDual η ω z)) := by
  have hahead := Vector.waxpby_eq_ok (w := Vector.zeros p.primalDim) ((2 : ℕ) : ℝ) (-1)
    (x := List.ofFn (nextPrimal η ω z)) (y := List.ofFn z.1) (by simp [Vector.zeros])
    (by simp [Vector.zeros])
  have hextrapolated : ((2 : ℕ) : ℝ) • nextPrimal η ω z + (-1 : ℝ) • z.1 =
      2 • nextPrimal η ω z - z.1 := by
    rw [Nat.cast_ofNat]
    module
  rw [dualStep, hahead, ok_bind, Vector.combine_ofFn, hp.residual_real, ok_bind,
    Vector.axpby_eq_ok _ _ (by simp), Vector.combine_ofFn, hextrapolated, nextDual]
  congr 2
  module

theorem stepFrom_real (hp : p.Accepted) (z : p.Point) :
    p.stepFrom η ω (List.ofFn z.1) (List.ofFn z.2) = .ok (p.listOf (stepPoint η ω z)) := by
  rw [stepFrom, primalStep_real hp, ok_bind, dualStep_real hp]
  rfl

theorem stepFrom_pinned (η ω b x y : ℝ) : (pinned b).stepFrom η ω [x] [y] =
    .ok [max (x + η / ω * y) 0, y + η * ω * (b - (2 * max (x + η / ω * y) 0 - x))] := by
  have hdim : (pinned b).primalDim = 1 := rfl
  have hslack := pinned_slack b y (a := -1) (d := 1) (by norm_num)
  simp only [stepFrom, primalStep, dualStep, hslack, hdim, ok_bind]
  simp [pinned_residual, Vector.zeros, Vector.waxpby, Vector.axpby, Vector.sameLength,
    Vector.combine, neg_div]
  ring

theorem advance_pinned {b x y : ℝ} {s s' : Iterates ℝ} (hfits : s.Fits (pinned b))
    (hpoint : s.point = [x, y]) (h : s.advance (pinned b) 1 1 = .ok s') :
    s' = s.movedTo [max (x + y) 0, y + b - (2 * max (x + y) 0 - x)] := by
  obtain ⟨point, hstep, -, -, -, rfl⟩ := hfits.advance_eq_ok_iff.mp h
  have hfrom : (pinned b).stepFrom 1 1 [x] [y] = .ok point := by
    rw [hpoint] at hstep
    exact hstep
  have hunit : (pinned b).stepFrom 1 1 [x] [y] =
      .ok [max (x + y) 0, y + b - (2 * max (x + y) 0 - x)] := by
    rw [stepFrom_pinned, div_one, one_mul, one_mul, one_mul, add_sub_assoc]
  rw [Except.ok.inj (hfrom.symm.trans hunit)]

/-- For each nonnegative primal point the angle at the new one is obtuse. -/
theorem nextPrimal_obtuse (z : p.Point) {x : Fin p.primalDim → ℝ} (hx : 0 ≤ x) :
    0 ≤ (nextPrimal η ω z - (z.1 - (η / ω) • (p.c - z.2 ᵥ* p.A))) ⬝ᵥ (x - nextPrimal η ω z) := by
  apply Finset.sum_nonneg
  intro j _
  have hxj : 0 ≤ x j := hx j
  set v := z.1 j - η / ω * (p.c - z.2 ᵥ* p.A) j with hv
  have hnext : nextPrimal η ω z j = max v 0 := rfl
  change 0 ≤ (nextPrimal η ω z j - v) * (x j - nextPrimal η ω z j)
  rw [hnext]
  rcases le_total v 0 with h | h
  · rw [max_eq_right h]
    nlinarith
  · simp [max_eq_left h]

theorem nextPrimal_nonneg (z : p.Point) : 0 ≤ nextPrimal η ω z := fun _ => le_max_right _ _

/-- The primal part of the inequality. -/
theorem cost_step_le (hη : 0 < η) (hω : 0 < ω) (z : p.Point) {x : Fin p.primalDim → ℝ}
    (hx : 0 ≤ x) : p.c ⬝ᵥ nextPrimal η ω z - p.c ⬝ᵥ x ≤
      ω / η * ((nextPrimal η ω z - z.1) ⬝ᵥ (x - nextPrimal η ω z)) -
        z.2 ⬝ᵥ p.A *ᵥ (x - nextPrimal η ω z) := by
  set x' := nextPrimal η ω z with hx'
  have hobtuse : 0 ≤ (x' - (z.1 - (η / ω) • (p.c - z.2 ᵥ* p.A))) ⬝ᵥ (x - x') :=
    nextPrimal_obtuse z hx
  have hexpand : (x' - (z.1 - (η / ω) • (p.c - z.2 ᵥ* p.A))) ⬝ᵥ (x - x') =
      (x' - z.1) ⬝ᵥ (x - x') + η / ω * (p.c ⬝ᵥ x - p.c ⬝ᵥ x' - z.2 ⬝ᵥ p.A *ᵥ (x - x')) := by
    rw [dotProduct_mulVec]
    simp only [sub_dotProduct, smul_dotProduct, dotProduct_sub, smul_eq_mul]
    ring
  have hscale : 0 < ω / η := div_pos hω hη
  have hprod := mul_nonneg hscale.le (hobtuse.trans_eq hexpand)
  have hcancel : ω / η * (η / ω) = 1 := by field_simp
  rw [mul_add, ← mul_assoc, hcancel, one_mul] at hprod
  linarith

/-- The dual part, which holds with equality. -/
theorem residual_step_eq (hη : 0 < η) (hω : 0 < ω) (z : p.Point) (y : Fin p.dualDim → ℝ) :
    (p.b - p.A *ᵥ nextPrimal η ω z) ⬝ᵥ (y - nextDual η ω z) =
      1 / (η * ω) * ((nextDual η ω z - z.2) ⬝ᵥ (y - nextDual η ω z)) +
        (y - nextDual η ω z) ⬝ᵥ p.A *ᵥ (nextPrimal η ω z - z.1) := by
  set x' := nextPrimal η ω z with hx'
  set y' := nextDual η ω z with hy'
  have hstep : y' - z.2 = (η * ω) • (p.b - p.A *ᵥ (2 • x' - z.1)) := by
    rw [hy', nextDual]
    abel
  have hcancel : 1 / (η * ω) * (η * ω) = 1 := by field_simp
  rw [hstep, smul_dotProduct, smul_eq_mul, ← mul_assoc, hcancel, one_mul,
    dotProduct_comm (y - y') (p.A *ᵥ (x' - z.1)), ← add_dotProduct]
  congr 1
  rw [mulVec_sub, mulVec_sub, mulVec_smul]
  module

/-- The inequality of a step. -/
theorem gapAt_stepPoint_le (hη : 0 < η) (hω : 0 < ω) (z : p.Point) {u : p.Point} (hu : 0 ≤ u.1) :
    p.gapAt (stepPoint η ω z) u ≤
      (p.metric η ω (u - z) - p.metric η ω (u - stepPoint η ω z) -
        p.metric η ω (stepPoint η ω z - z)) / 2 := by
  rw [← pairing_eq]
  have hcost := cost_step_le hη hω z hu
  have hresidual := residual_step_eq hη hω z u.2
  set x' := nextPrimal η ω z with hx'
  set y' := nextDual η ω z with hy'
  have hgap : p.gapAt (stepPoint η ω z) u = (p.c ⬝ᵥ x' - p.c ⬝ᵥ u.1) +
      (p.b - p.A *ᵥ x') ⬝ᵥ (u.2 - y') + y' ⬝ᵥ p.A *ᵥ (u.1 - x') := by
    change p.gapAt (x', y') u = _
    simp only [gapAt, sub_dotProduct, dotProduct_sub, mulVec_sub, ← dotProduct_mulVec]
    rw [dotProduct_comm (p.A *ᵥ x') y']
    ring
  have hpairing : p.pairing η ω (stepPoint η ω z - z) (u - stepPoint η ω z) =
      ω / η * ((x' - z.1) ⬝ᵥ (u.1 - x')) + (y' - z.2) ⬝ᵥ p.A *ᵥ (u.1 - x') +
        (u.2 - y') ⬝ᵥ p.A *ᵥ (x' - z.1) + 1 / (η * ω) * ((y' - z.2) ⬝ᵥ (u.2 - y')) := rfl
  rw [hgap, hpairing, hresidual, sub_dotProduct y' z.2 (p.A *ᵥ (u.1 - x'))]
  linarith

end PrimalDual.Problem

end
