import PrimalDual.Proofs.Iterates.Step
import PrimalDual.Proofs.Solver.Completion
import PrimalDual.Proofs.Solver.Evaluations

/-!
# Runs in one variable

A single variable that has to equal a number, at no cost, makes for runs that can be followed from
pass to pass, whatever the policy and the cadences. The oracle of these runs stays silent.
-/
noncomputable section
namespace PrimalDual

/-- Settings with unit steps and tolerances. -/
structure Settings.Normalized (settings : Settings ℝ) : Prop where
  stepSize : settings.stepSize = 1
  primalWeight : settings.primalWeight = 1
  gapTolerance : settings.gapTolerance = 1
  kktTolerance : settings.kktTolerance = 1
  decay : settings.decay = Scalar.inverseE
  paced : settings.Paced

theorem Settings.Normalized.validate_eq_ok {settings : Settings ℝ} (h : settings.Normalized)
    (hmethod : settings.restartMethod ∈ restartMethods) : settings.validate = .ok () := by
  refine Settings.validate_eq_ok ?_ ?_ ?_ ?_ ?_ hmethod h.paced
  · rw [h.stepSize]
    exact one_pos
  · rw [h.primalWeight]
    exact one_pos
  · rw [h.gapTolerance]
    exact one_pos
  · rw [h.kktTolerance]
    exact one_pos
  · rw [h.decay]
    exact Scalar.inverseE_real_mem

namespace Solver

variable {b x y : ℝ} {settings : Settings ℝ} {policy : RestartPolicy} {capacity S n : ℕ}
  {s₀ s s' : Solver ℝ SilentOracle}

/-- A solver that looks for the variable that equals `b`. -/
structure Pinned (b : ℝ) (settings : Settings ℝ) (policy : RestartPolicy)
    (s₀ : Solver ℝ SilentOracle) : Prop where
  normalized : settings.Normalized
  built : s₀.Built
  problem : s₀.problem = .pinned b
  gap : s₀.gap = (GapEvaluator.withLimit settings.gapFailureLimit).setOracle .silent
  policy : s₀.policy = policy
  settings : s₀.settings = settings

theorem exists_pinned (b : ℝ) (hnorm : settings.Normalized)
    (hmethod : settings.restartMethod ∈ Settings.restartMethods)
    (hpolicy : RestartPolicy.ofName settings.restartMethod = .ok policy)
    (hcapacity : settings.recordCapacity = .ok capacity) (hroom : capacity ≠ 0)
    (hlimit : settings.gapFailureLimit < Counter.bound) : ∃ s₀, Pinned b settings policy s₀ := by
  obtain ⟨s₀, hbuilt, hproblem, hsettings, hchosen, hgap⟩ :=
    exists_solver policy capacity (Problem.pinned_accepted b) (hnorm.validate_eq_ok hmethod)
      hcapacity hroom hpolicy hlimit SilentOracle.silent
  exact ⟨s₀, hnorm, hbuilt, hproblem, hgap, hchosen, hsettings⟩

theorem Pinned.exists_solve (hrun : Pinned b settings policy s₀)
    (hmax : settings.maxIterations + 2 < Counter.bound) : ∃ s, s₀.solve = .ok s :=
  hrun.built.exists_solve (by rw [hrun.settings]; exact hmax) (SilentOracle.answers s₀.problem)
    fun _ _ => trivial

/-- The first pass of the run goes through. -/
theorem Pinned.exists_pass (hrun : Pinned b settings policy s₀)
    (hmax : settings.maxIterations + 2 < Counter.bound) :
    ∃ n closed, Moment s₀ .closed 1 n closed ∧ closed.Ready fun _ => True := by
  have hlimit := hrun.settings
  obtain ⟨prepared, hprepare, hready⟩ :=
    hrun.built.exists_prepare (SilentOracle.answers s₀.problem) fun _ _ => trivial
  have hbegin := Moment.begin hprepare
  obtain ⟨closed, hpass, hready⟩ :=
    hbegin.exists_pass (by rw [hlimit]; exact hmax) hready hrun.built.one_le_maxIterations
  obtain ⟨n, -, hclosed⟩ := hbegin.pass hpass
  exact ⟨n, closed, hclosed, hready⟩

theorem Pinned.step (hrun : Pinned b settings policy s₀) (h : Moment s₀ .head S n s)
    (hs : s.takeStep = .ok s') (hpoint : s.iterates.point = [x, y]) :
    s'.iterates = s.iterates.movedTo [max (x + y) 0, y + b - (2 * max (x + y) 0 - x)] ∧
      s'.gap = s.gap := by
  obtain ⟨iterates, timers, hadvance, rfl⟩ := takeStep_eq_ok hs
  have hsettings : s.settings = settings := h.course.frame.settings.trans hrun.settings
  rw [h.course.frame.problem.trans hrun.problem, hsettings, hrun.normalized.stepSize,
    hrun.normalized.primalWeight] at hadvance
  exact ⟨Problem.advance_pinned (hrun.problem ▸ h.course.fits) hpoint hadvance, rfl⟩

/-- The first step leads from the origin to the multiplier `b`. -/
theorem Pinned.stepped_one (hrun : Pinned b settings policy s₀) (h : Moment s₀ .stepped 1 n s) :
    n = 0 ∧ s.iterates = (Iterates.origin 1 1).movedTo [0, b] ∧
      s.gap = (GapEvaluator.withLimit settings.gapFailureLimit).setOracle .silent := by
  cases h with
  | step h hs =>
    obtain ⟨rfl, hprepare⟩ := h.head_zero
    obtain ⟨capacity, report, timers, -, rfl⟩ := prepare_eq_ok hprepare
    have horigin : Iterates.origin s₀.problem.primalDim s₀.problem.dualDim =
        (Iterates.origin 1 1 : Iterates ℝ) := by
      rw [hrun.problem]
      rfl
    obtain ⟨hiterates, hgap⟩ := hrun.step h hs (x := 0) (y := 0) (by rw [horigin]; rfl)
    refine ⟨rfl, ?_, ?_⟩
    · rw [hiterates, horigin]
      norm_num
    · rw [hgap, hrun.gap]
      rfl

end Solver

end PrimalDual

end
