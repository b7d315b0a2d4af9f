import PrimalDual.Proofs.Iterates.Ergodic
import PrimalDual.Proofs.Optimality

/-!
# How a step approaches solutions

The inequality of a step bounds the gap around the new point by how much closer the step came to any
point with nonnegative primal part. Around a solution the gap is not negative, so the step comes
closer to it by at least its own length in the metric. Beyond the bound on the step size that length
may be negative, and the step may move away.
-/
noncomputable section
namespace PrimalDual
open Matrix

variable {p : Problem ℝ} {η ω : ℝ}

namespace Problem

variable {u : p.Point}

/-- A step comes closer to a solution by its own length. -/
theorem Optimal.metric_stepPoint_le_sub (hu : Optimal u) (hη : 0 < η) (hω : 0 < ω) (z : p.Point) :
    p.metric η ω (stepPoint η ω z - u) ≤
      p.metric η ω (z - u) - p.metric η ω (stepPoint η ω z - z) := by
  have hgap := gapAt_stepPoint_le hη hω z hu.nonneg
  have hnonneg : 0 ≤ p.gapAt (stepPoint η ω z) u := hu.gapAt_nonneg (nextPrimal_nonneg z)
  rw [metric_sub_comm (stepPoint η ω z) u, metric_sub_comm z u]
  linarith

/-- Within the bound on the step size it does not move away. -/
theorem Optimal.metric_stepPoint_le (hu : Optimal u) (hη : 0 < η) (hω : 0 < ω)
    (hbound : p.StepBound η) (z : p.Point) :
    p.metric η ω (stepPoint η ω z - u) ≤ p.metric η ω (z - u) :=
  (hu.metric_stepPoint_le_sub hη hω z).trans
    (sub_le_self _ (metric_nonneg hη hω hbound (stepPoint η ω z - z)))

theorem metric_pinned (b η ω x y x' y' : ℝ) :
    (pinned b).metric η ω ((pinned b).pointOf [x, y] - (pinned b).pointOf [x', y']) =
      ω / η * (x - x') ^ 2 + 2 * ((x - x') * (y - y')) + 1 / (η * ω) * (y - y') ^ 2 := by
  -- The dimensions are one only after unfolding, which a rewrite does not do.
  have hprimal (f : Fin (pinned b).primalDim → ℝ) : ∑ j, f j = f (0 : Fin 1) :=
    Fin.sum_univ_one f
  have hdual (f : Fin (pinned b).dualDim → ℝ) : ∑ i, f i = f (0 : Fin 1) := Fin.sum_univ_one f
  simp only [metric, dotProduct, mulVec, pinned_A, one_mul, hprimal, hdual]
  change ω / η * ((x - x') * (x - x')) + 2 • ((y - y') * (x - x')) +
    1 / (η * ω) * ((y - y') * (y - y')) = _
  ring

end Problem

namespace Iterates

variable {s : Iterates ℝ}

/-- A step of iterates satisfies the inequality for every point with nonnegative primal part, and
comes closer to every point without error by its own length. Within the bound on the step size it
therefore does not move away from such a point. -/
theorem Fits.leadsTo_closer (hp : p.Accepted) (h : s.Fits p) (hη : 0 < η) (hω : 0 < ω) :
    ∃ next, s.LeadsTo p η ω next ∧
      (∀ u : p.Point, 0 ≤ u.1 → p.gapAt (p.pointOf next) u ≤
        (p.metric η ω (u - p.pointOf s.point) - p.metric η ω (u - p.pointOf next) -
          p.metric η ω (p.pointOf next - p.pointOf s.point)) / 2) ∧
      ∀ u : p.Point, p.kktError (List.ofFn u.1) (List.ofFn u.2) = .ok 0 →
        p.metric η ω (p.pointOf next - u) ≤ p.metric η ω (p.pointOf s.point - u) -
          p.metric η ω (p.pointOf next - p.pointOf s.point) ∧
        (p.StepBound η →
          p.metric η ω (p.pointOf next - u) ≤ p.metric η ω (p.pointOf s.point - u)) := by
  refine ⟨_, h.leadsTo_stepPoint hp, ?_⟩
  rw [Problem.pointOf_listOf]
  refine ⟨fun u hu => Problem.gapAt_stepPoint_le hη hω _ hu, fun u hu => ?_⟩
  have hoptimal := (Problem.kktError_eq_zero_iff hp).mp hu
  exact ⟨hoptimal.metric_stepPoint_le_sub hη hω _,
    fun hbound => hoptimal.metric_stepPoint_le hη hω hbound _⟩

theorem Fits.leadsTo_closer_reference : ∃ next : List ℝ,
    (origin 5 2).LeadsTo .reference (1 / 2) 1 next ∧
      Problem.reference.gapAt (Problem.reference.pointOf next) Problem.referenceSolution ≤
        (Problem.reference.metric (1 / 2) 1 (Problem.referenceSolution -
            Problem.reference.pointOf (origin 5 2 : Iterates ℝ).point) -
          Problem.reference.metric (1 / 2) 1
            (Problem.referenceSolution - Problem.reference.pointOf next) -
          Problem.reference.metric (1 / 2) 1 (Problem.reference.pointOf next -
            Problem.reference.pointOf (origin 5 2 : Iterates ℝ).point)) / 2 ∧
      Problem.reference.metric (1 / 2) 1
          (Problem.reference.pointOf next - Problem.referenceSolution) ≤
        Problem.reference.metric (1 / 2) 1
          (Problem.reference.pointOf (origin 5 2 : Iterates ℝ).point -
            Problem.referenceSolution) := by
  obtain ⟨next, hnext, hgap, hcloser⟩ := (fits_origin .reference).leadsTo_closer
    Problem.reference_accepted (η := 1 / 2) (ω := 1) (by norm_num) one_pos
  have herror := (Problem.kktError_eq_zero_iff Problem.reference_accepted).mpr
    Problem.reference_optimal
  exact ⟨next, hnext, hgap _ Problem.reference_optimal.nonneg,
    (hcloser _ herror).2 Problem.reference_stepBound⟩

/-- With a step size of two the step from `(2, -1)` to `(0, 3)` moves away from the solution
`(0, -1)`. -/
theorem exists_advance_away : ∃ (p : Problem ℝ) (s s' : Iterates ℝ) (u : p.Point),
    p.Accepted ∧ s.Fits p ∧ s.advance p 2 1 = .ok s' ∧
      p.kktError (List.ofFn u.1) (List.ofFn u.2) = .ok 0 ∧
      p.metric 2 1 (p.pointOf s.point - u) < p.metric 2 1 (p.pointOf s'.point - u) := by
  have hfits : (startingAt [2, -1] (.primalDual 1 1)).Fits (Problem.pinned 0) :=
    fits_startingAt (Problem.pinned 0) rfl
  have hstep : (Problem.pinned 0).stepFrom 2 1 [2] [-1] = .ok [0, 3] := by
    rw [Problem.stepFrom_pinned]
    norm_num
  have hadvance := (hfits.leadsTo_of_stepFrom hstep rfl).advance _ |>.mpr
    ⟨by decide, by decide, rfl⟩
  have herror : (Problem.pinned 0).kktError [0] [-1] = .ok 0 := by
    rw [Problem.kktError_pinned]
    norm_num
  refine ⟨.pinned 0, _, _, (Problem.pinned 0).pointOf [0, -1], Problem.pinned_accepted 0, hfits,
    hadvance, herror, ?_⟩
  have hbefore := Problem.metric_pinned 0 2 1 2 (-1) 0 (-1)
  have hafter := Problem.metric_pinned 0 2 1 0 3 0 (-1)
  change (Problem.pinned 0).metric 2 1 ((Problem.pinned 0).pointOf [2, -1] - _) <
    (Problem.pinned 0).metric 2 1 ((Problem.pinned 0).pointOf [0, 3] - _)
  rw [hbefore, hafter]
  norm_num

end Iterates

end PrimalDual

end
