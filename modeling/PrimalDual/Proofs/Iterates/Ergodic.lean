import PrimalDual.Proofs.Iterates.Step

/-!
# The average of an epoch

Along any run of steps and restarts, the inequalities of the steps since the last restart add up:
the sum of the gaps around the points is at most half of how much closer the epoch came to the point
compared with. The gap functional is affine in its centre, which makes this a bound at the average.
-/
noncomputable section
namespace PrimalDual
open Matrix

variable {p : Problem ℝ} {η ω : ℝ}

namespace Problem

theorem combine_listOf (a d : ℝ) (z w : p.Point) :
    Vector.combine a (p.listOf z) d (p.listOf w) = p.listOf (a • z + d • w) := by
  have hprimal : (List.ofFn z.1).length = (List.ofFn w.1).length := by simp
  rw [Vector.combine, listOf, listOf, List.zipWith_append hprimal, zipWith_ofFn, zipWith_ofFn]
  rfl

theorem pointOf_combine (a d : ℝ) {x y : List ℝ} (hx : x.length = p.primalDim + p.dualDim)
    (hy : y.length = p.primalDim + p.dualDim) :
    p.pointOf (Vector.combine a x d y) = a • p.pointOf x + d • p.pointOf y := by
  have hcombine := combine_listOf a d (p.pointOf x) (p.pointOf y)
  rw [listOf_pointOf hx, listOf_pointOf hy] at hcombine
  rw [hcombine, pointOf_listOf]

/-- The gap functional is affine in its centre. -/
theorem gapAt_mean {a d : ℝ} (had : a + d = 1) (z w u : p.Point) :
    p.gapAt (a • z + d • w) u = a * p.gapAt z u + d * p.gapAt w u := by
  obtain rfl : d = 1 - a := by linarith
  simp only [gapAt, Prod.fst_add, Prod.snd_add, Prod.smul_fst, Prod.smul_snd, sub_dotProduct,
    add_dotProduct, smul_dotProduct, dotProduct_add, dotProduct_smul, mulVec_add, mulVec_smul,
    add_vecMul, smul_vecMul, smul_eq_mul]
  ring

end Problem

namespace Iterates

variable {s s' : Iterates ℝ}

theorem weights_add_one (t : ℕ) :
    Scalar.recip ((t : ℝ) + 1) + (t : ℝ) * Scalar.recip ((t : ℝ) + 1) = 1 := by
  rw [Scalar.recip_real]
  field_simp
  ring

theorem weight_nonneg (t : ℕ) : 0 ≤ Scalar.recip ((t : ℝ) + 1) := by
  rw [Scalar.recip_real]
  positivity

theorem Fits.pointOf_averageWith (h : s.Fits p) {point : List ℝ}
    (hpoint : point.length = p.primalDim + p.dualDim) : p.pointOf (s.averageWith point) =
      Scalar.recip ((s.epochLength : ℝ) + 1) • p.pointOf point +
        ((s.epochLength : ℝ) * Scalar.recip ((s.epochLength : ℝ) + 1)) • p.pointOf s.average :=
  Problem.pointOf_combine _ _ hpoint h.average

/-- The gap around the new average, as a sum over the epoch. -/
theorem Fits.gapAt_averageWith (h : s.Fits p) {point : List ℝ}
    (hpoint : point.length = p.primalDim + p.dualDim) (u : p.Point) :
    ((s.epochLength : ℝ) + 1) * p.gapAt (p.pointOf (s.averageWith point)) u =
      p.gapAt (p.pointOf point) u + s.epochLength * p.gapAt (p.pointOf s.average) u := by
  rw [h.pointOf_averageWith hpoint, Problem.gapAt_mean (weights_add_one _), Scalar.recip_real]
  field_simp

/-- In exact arithmetic a step leads to the point of the step. -/
theorem Fits.leadsTo_stepPoint (hp : p.Accepted) (h : s.Fits p) :
    s.LeadsTo p η ω (p.listOf (Problem.stepPoint η ω (p.pointOf s.point))) := by
  have hprimal : s.point.take p.primalDim = List.ofFn (p.pointOf s.point).1 :=
    (ofFn_coords h.length_primal).symm
  have hdual : s.point.drop p.primalDim = List.ofFn (p.pointOf s.point).2 :=
    (ofFn_coords h.length_dual).symm
  refine h.leadsTo_of_stepFrom ?_ (Problem.length_listOf _)
  rw [hprimal, hdual, Problem.stepFrom_real hp]

theorem Fits.advance_real (hp : p.Accepted) (h : s.Fits p) (hs : s.advance p η ω = .ok s') :
    ∃ point, p.pointOf point = Problem.stepPoint η ω (p.pointOf s.point) ∧
      point.length = p.primalDim + p.dualDim ∧ s' = s.movedTo point := by
  obtain ⟨-, -, rfl⟩ := ((h.leadsTo_stepPoint hp).advance s').mp hs
  exact ⟨_, Problem.pointOf_listOf _, Problem.length_listOf _, rfl⟩

end Iterates

namespace Iterates

/-- The iterates that steps and restarts lead to, in any order, with the point at which the current
epoch began. -/
inductive Run (p : Problem ℝ) (η ω : ℝ) (s₀ : Iterates ℝ) : List ℝ → Iterates ℝ → Prop
  | start : Run p η ω s₀ s₀.point s₀
  | step {start : List ℝ} {s s' : Iterates ℝ} :
    Run p η ω s₀ start s → s.advance p η ω = .ok s' → Run p η ω s₀ start s'
  | restart {start : List ℝ} {s s' : Iterates ℝ} :
    Run p η ω s₀ start s → s.restart = .ok s' → Run p η ω s₀ s'.point s'

variable {s₀ s s' : Iterates ℝ} {start : List ℝ}

/-- Around the average, the gap times twice the length of the epoch is at most how much closer the
epoch came to the point compared with. -/
def Descends (p : Problem ℝ) (η ω : ℝ) (u start : p.Point) (s : Iterates ℝ) : Prop :=
  ((2 * s.epochLength : ℕ) : ℝ) * p.gapAt (p.pointOf s.average) u ≤
    p.metric η ω (u - start) - p.metric η ω (u - p.pointOf s.point)

theorem descends_start (u : p.Point) (h : s.epochLength = 0) :
    Descends p η ω u (p.pointOf s.point) s := by
  simp [Descends, h]

theorem Descends.step (hp : p.Accepted) (hη : 0 < η) (hω : 0 < ω) (hbound : p.StepBound η)
    {u w : p.Point} (hu : 0 ≤ u.1) (hfits : s.Fits p) (h : Descends p η ω u w s)
    (hs : s.advance p η ω = .ok s') : Descends p η ω u w s' := by
  obtain ⟨point, hpoint, hlength, rfl⟩ := hfits.advance_real hp hs
  have hgap := Problem.gapAt_stepPoint_le hη hω (p.pointOf s.point) hu
  have hnonneg := Problem.metric_nonneg hη hω hbound
    (Problem.stepPoint η ω (p.pointOf s.point) - p.pointOf s.point)
  have haverage := hfits.gapAt_averageWith hlength u
  unfold Descends at h ⊢
  simp only [movedTo, Nat.cast_mul, Nat.cast_add, Nat.cast_one, Nat.cast_ofNat, mul_assoc] at h ⊢
  rw [haverage, hpoint]
  linarith

theorem Run.fits (h : Run p η ω s₀ start s) (h₀ : s₀.Fits p) : s.Fits p := by
  induction h with
  | start => exact h₀
  | step _ hs ih => exact ih.of_advance hs
  | restart _ hs ih => exact ih.of_restart hs

theorem Run.descends (hp : p.Accepted) (hη : 0 < η) (hω : 0 < ω) (hbound : p.StepBound η)
    {u : p.Point} (hu : 0 ≤ u.1) (h : Run p η ω s₀ start s) (h₀ : s₀.Fits p)
    (hbegin : s₀.epochLength = 0) : Descends p η ω u (p.pointOf start) s := by
  induction h with
  | start => exact descends_start u hbegin
  | step hrun hs ih => exact ih.step hp hη hω hbound hu (hrun.fits h₀) hs
  | restart hrun hs _ =>
    obtain ⟨-, -, rfl⟩ := (hrun.fits h₀).restart_eq_ok_iff.mp hs
    exact descends_start u rfl

/-- The bound at the average, in a run from any iterates at the start of an epoch. -/
theorem Run.gapAt_average_le (hp : p.Accepted) (hη : 0 < η) (hω : 0 < ω) (hbound : p.StepBound η)
    (h₀ : s₀.Fits p) (hbegin : s₀.epochLength = 0) (h : Run p η ω s₀ start s)
    (ht : 1 ≤ s.epochLength) {u : p.Point} (hu : 0 ≤ u.1) :
    p.gapAt (p.pointOf s.average) u ≤
      p.metric η ω (u - p.pointOf start) / (2 * s.epochLength) := by
  have hdescends := h.descends hp hη hω hbound hu h₀ hbegin
  have hnonneg := Problem.metric_nonneg hη hω hbound (u - p.pointOf s.point)
  have hpos : (0 : ℝ) < s.epochLength := by exact_mod_cast ht
  rw [Descends, Nat.cast_mul, Nat.cast_ofNat] at hdescends
  rw [le_div_iff₀ (by positivity)]
  linarith

theorem Run.gapAt_average_le_reference :
    ∃ s : Iterates ℝ, Run .reference (1 / 2) 1 (origin 5 2) (origin 5 2).point s ∧
      1 ≤ s.epochLength ∧
      Problem.reference.gapAt (Problem.reference.pointOf s.average) 0 ≤
        Problem.reference.metric (1 / 2) 1
          (0 - Problem.reference.pointOf (origin 5 2 : Iterates ℝ).point) /
            (2 * s.epochLength) := by
  have hfits : (origin 5 2 : Iterates ℝ).Fits .reference := fits_origin .reference
  obtain ⟨point, hs⟩ :=
    hfits.exists_advance Problem.reference_accepted (1 / 2) 1 (by decide) (by decide)
  have hrun := Run.start.step hs
  have hlength : 1 ≤ ((origin 5 2 : Iterates ℝ).movedTo point).epochLength := le_rfl
  exact ⟨_, hrun, hlength, Run.gapAt_average_le Problem.reference_accepted (by norm_num)
    (by norm_num) Problem.reference_stepBound hfits rfl hrun hlength le_rfl⟩

end Iterates

end PrimalDual

end
