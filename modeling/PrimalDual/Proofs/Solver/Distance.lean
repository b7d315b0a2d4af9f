import PrimalDual.Proofs.Iterates.Approach
import PrimalDual.Proofs.Solver.Completion

/-!
# Runs do not diverge

In exact arithmetic a step within the bound on its size does not move away from a solution in the
metric, and an average of points is no further away than the furthest of them. So a restart, which
continues from the average, does no harm: throughout a run, the point and the average stay as close
to each solution as the origin is.
-/
noncomputable section
namespace PrimalDual
open Matrix

variable {p : Problem ℝ} {η ω : ℝ} {u : p.Point}

namespace Iterates

/-- The point and the average lie within a distance of another point. -/
structure Within (η ω : ℝ) (u : p.Point) (radius : ℝ) (s : Iterates ℝ) : Prop where
  point : p.metric η ω (p.pointOf s.point - u) ≤ radius
  average : p.metric η ω (p.pointOf s.average - u) ≤ radius

variable {s s' : Iterates ℝ} {radius : ℝ}

theorem within_origin :
    (origin p.primalDim p.dualDim).Within η ω u (p.metric η ω (0 - u)) := by
  have hzero : p.pointOf (origin p.primalDim p.dualDim : Iterates ℝ).point = 0 := by
    ext i
    · simp [origin, startingAt, Problem.pointOf, coords, Vector.zeros]
    · simp [origin, startingAt, Problem.pointOf, coords, Vector.zeros]
  constructor
  · rw [hzero]
  · exact (congrArg (fun z => p.metric η ω (z - u)) hzero).le

theorem Within.advance (hp : p.Accepted) (hη : 0 < η) (hω : 0 < ω) (hbound : p.StepBound η)
    (hu : Problem.Optimal u) (hfits : s.Fits p) (h : s.Within η ω u radius)
    (hs : s.advance p η ω = .ok s') : s'.Within η ω u radius := by
  obtain ⟨point, hpoint, hlength, rfl⟩ := hfits.advance_real hp hs
  have hstep : p.metric η ω (p.pointOf point - u) ≤ radius := by
    rw [hpoint]
    exact (hu.metric_stepPoint_le hη hω hbound _).trans h.point
  refine ⟨hstep, ?_⟩
  have hweights := weights_add_one s.epochLength
  have hmean : p.pointOf (s.averageWith point) - u =
      Scalar.recip ((s.epochLength : ℝ) + 1) • (p.pointOf point - u) +
        ((s.epochLength : ℝ) * Scalar.recip ((s.epochLength : ℝ) + 1)) •
          (p.pointOf s.average - u) := by
    rw [hfits.pointOf_averageWith hlength, smul_sub, smul_sub, sub_add_sub_comm, ← add_smul,
      hweights, one_smul]
  have hrecip := weight_nonneg s.epochLength
  change p.metric η ω (p.pointOf (s.averageWith point) - u) ≤ radius
  rw [hmean]
  exact Problem.metric_mean_le hη hω hbound hrecip (by positivity) hweights hstep h.average

theorem Within.restart (hfits : s.Fits p) (h : s.Within η ω u radius) (hs : s.restart = .ok s') :
    s'.Within η ω u radius := by
  obtain ⟨-, -, rfl⟩ := hfits.restart_eq_ok_iff.mp hs
  exact ⟨h.average, h.average⟩

theorem Within.of_sameCourse (h : s.Within η ω u radius) (hs : s.SameCourse s') :
    s'.Within η ω u radius := by
  rw [hs]
  exact ⟨h.point, h.average⟩

end Iterates

namespace Solver

variable {Ω : Type} [GapOracle Ω ℝ] {s₀ s : Solver ℝ Ω} {stage : Stage} {S n : ℕ}

/-- At every moment of a run, the point and the average are as close to each solution as the
origin. -/
theorem Moment.metric_le (h : Moment s₀ stage S n s) (hp : s₀.problem.Accepted)
    (hη : 0 < s₀.settings.stepSize) (hω : 0 < s₀.settings.primalWeight)
    (hbound : s₀.problem.StepBound s₀.settings.stepSize) {u : s₀.problem.Point}
    (hu : s₀.problem.kktError (List.ofFn u.1) (List.ofFn u.2) = .ok 0) :
    s₀.problem.metric s₀.settings.stepSize s₀.settings.primalWeight
        (s₀.problem.pointOf s.iterates.point - u) ≤
      s₀.problem.metric s₀.settings.stepSize s₀.settings.primalWeight (0 - u) ∧
    s₀.problem.metric s₀.settings.stepSize s₀.settings.primalWeight
        (s₀.problem.pointOf s.iterates.average - u) ≤
      s₀.problem.metric s₀.settings.stepSize s₀.settings.primalWeight (0 - u) := by
  have hoptimal := (Problem.kktError_eq_zero_iff hp).mp hu
  obtain ⟨hpoint, haverage⟩ := h.iterates_induction Iterates.within_origin
    (fun _ _ hfits hi hs => hi.advance hp hη hω hbound hoptimal hfits hs)
    (fun _ _ hfits hi hs => hi.restart hfits hs) (fun _ _ hs hi => hi.of_sameCourse hs)
  exact ⟨hpoint, haverage⟩

theorem Moment.metric_le_reference : ∃ s₀ s : Solver ℝ BallOracle, s₀.problem = .reference ∧
    s₀.settings = .brief (1 / 2) (1 / 2) ∧ Moment s₀ .stepped 1 0 s ∧
    Problem.reference.metric (1 / 2) 1
        (Problem.reference.pointOf s.iterates.point - Problem.referenceSolution) ≤
      Problem.reference.metric (1 / 2) 1 (0 - Problem.referenceSolution) ∧
    Problem.reference.metric (1 / 2) 1
        (Problem.reference.pointOf s.iterates.average - Problem.referenceSolution) ≤
      Problem.reference.metric (1 / 2) 1 (0 - Problem.referenceSolution) := by
  obtain ⟨s₀, hbuilt, hproblem, hsettings, hsuits⟩ := exists_brief
  obtain ⟨prepared, hprepare, hready⟩ :=
    hbuilt.exists_prepare (BallOracle.answers_suits hbuilt.accepted) hsuits
  have hbegin := Moment.begin hprepare
  have hcourse := hbegin.course
  obtain ⟨s, hstep, -⟩ := hready.exists_takeStep
    (by rw [Nat.le_zero.mp hcourse.epochLength]; decide) (by rw [hcourse.count]; decide)
  have hmoment := hbegin.step hstep
  refine ⟨s₀, s, hproblem, hsettings, hmoment, ?_⟩
  have hbound := hmoment.metric_le hbuilt.accepted
  rw [hproblem, hsettings] at hbound
  exact hbound (by norm_num [Settings.brief]) (by norm_num [Settings.brief])
    Problem.reference_stepBound
    ((Problem.kktError_eq_zero_iff Problem.reference_accepted).mpr Problem.reference_optimal)

end Solver

end PrimalDual

end
