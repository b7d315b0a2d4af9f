import Mathlib.Tactic.NormNum
import PrimalDual.Proofs.Gap.Ball
import PrimalDual.Proofs.Solver.Moment
import PrimalDual.Proofs.Solver.Totality

/-!
# Every run completes

A solver for an accepted problem, with valid settings, runs to its end whatever its policy and its
oracle do. The iterations that it reports are its steps and its restarts taken together, which the
test at the end of a pass keeps within one of the limit.
-/
namespace PrimalDual

namespace Settings

variable {T : Type} {settings : Settings T}

/-- Settings with room for a record allow an iteration. -/
theorem one_le_maxIterations {capacity : ℕ} (hpaced : settings.Paced)
    (h : settings.recordCapacity = .ok capacity) (hcapacity : capacity ≠ 0) :
    1 ≤ settings.maxIterations := by
  have hrecord := hpaced.recordEvery
  rw [recordCapacity, if_neg hrecord] at h
  by_contra hzero
  have hnone : settings.maxIterations = 0 := by omega
  apply hcapacity
  rw [← Except.ok.inj h, hnone]
  apply Nat.div_eq_of_lt
  omega

variable [Scalar T]

theorem checkCadence_eq_ok {value : ℕ} {name : String} (h : checkCadence value name = .ok ()) :
    value ≠ 0 := by
  intro hzero
  rw [checkCadence, if_pos hzero] at h
  cases h

/-- Valid settings have cadences with multiples. -/
theorem paced_of_validate (h : settings.validate = .ok ()) : settings.Paced := by
  unfold validate at h
  simp only [bind_eq_ok] at h
  obtain ⟨-, -, -, -, -, -, -, -, -, -, -, -, _, hrestart, _, hevaluate, _, hrecord, hprint⟩ := h
  exact ⟨checkCadence_eq_ok hrestart, checkCadence_eq_ok hevaluate, checkCadence_eq_ok hrecord,
    checkCadence_eq_ok hprint⟩

/-- In exact arithmetic, what settings have to meet to be valid. -/
theorem validate_eq_ok {settings : Settings ℝ} (hstep : 0 < settings.stepSize)
    (hweight : 0 < settings.primalWeight) (hgap : 0 < settings.gapTolerance)
    (hkkt : 0 < settings.kktTolerance) (hdecay : 0 < settings.decay ∧ settings.decay < 1)
    (hmethod : settings.restartMethod ∈ restartMethods) (hpaced : settings.Paced) :
    settings.validate = .ok () := by
  simp [validate, checkPositive, checkDecay, checkRestartMethod, checkCadence, hstep, hweight, hgap,
    hkkt, hdecay, hmethod, hpaced.restartLength, hpaced.evaluateEvery, hpaced.recordEvery,
    hpaced.printEvery]

theorem validate_default : (default : Settings ℝ).validate = .ok () :=
  validate_eq_ok (by norm_num [default]) (by norm_num [default]) (by norm_num [default])
    (by norm_num [default]) Scalar.inverseE_real_mem (by decide)
    ⟨by decide, by decide, by decide, by decide⟩

/-- A short run that observes itself in every pass. -/
noncomputable def brief (stepSize decay : ℝ) : Settings ℝ where
  stepSize
  primalWeight := 1
  gapTolerance := 1
  kktTolerance := 1
  maxIterations := 10
  restartEnabled := true
  restartMethod := "adaptive"
  restartLength := 4
  evaluateEvery := 1
  recordEvery := 1
  printEvery := 1
  firstEpochLength := 1
  decay
  verbose := true
  gapEnabled := true
  gapFailureLimit := 3
  datasetIndex := 0

theorem validate_brief : (brief (1 / 2) (1 / 2)).validate = .ok () :=
  validate_eq_ok (by norm_num [brief]) one_pos one_pos one_pos (by norm_num [brief]) (by decide)
    ⟨by decide, by decide, by decide, by decide⟩

end Settings

namespace Solver

variable {T ω : Type} [Scalar T] {p : Problem T} {settings : Settings T} {s s' s₀ : Solver T ω}
  {S n : ℕ}

/-- What construction secures, and no run takes away. The limit of failures is a word, as the
counters are. -/
structure Built (s : Solver T ω) : Prop where
  accepted : s.problem.Accepted
  paced : s.settings.Paced
  capacity : ∃ capacity, s.settings.recordCapacity = .ok capacity ∧ capacity ≠ 0
  failureLimit : s.gap.failureLimit < Counter.bound

theorem exists_new {policy : RestartPolicy} {capacity : ℕ} (hvalidate : settings.validate = .ok ())
    (hcapacity : settings.recordCapacity = .ok capacity) (hroom : capacity ≠ 0)
    (hpolicy : RestartPolicy.ofName settings.restartMethod = .ok policy) :
    ∃ s : Solver T ω, new p settings = .ok (.ok s) ∧ s.problem = p ∧ s.settings = settings ∧
      s.policy = policy ∧ s.gap = .withLimit settings.gapFailureLimit := by
  unfold new
  rw [hvalidate]
  simp only [hcapacity, hpolicy, if_neg hroom, ok_bind, pure_eq_ok]
  exact ⟨_, rfl, rfl, rfl, rfl, rfl⟩

theorem built_of_new (hp : p.Accepted) (hlimit : settings.gapFailureLimit < Counter.bound)
    (h : new p settings = .ok (.ok s)) : s.Built := by
  unfold new at h
  split at h
  · cases h
  · next hvalidate =>
    have hvalid : settings.validate = .ok () := by
      cases hresult : settings.validate with
      | error e => exact (hvalidate e hresult).elim
      | ok _ => rfl
    obtain ⟨capacity, hcapacity, h⟩ := bind_eq_ok.mp h
    split at h
    · cases h
    · next hroom =>
      split at h
      · cases h
      · rw [← Except.ok.inj (Except.ok.inj h)]
        exact ⟨hp, Settings.paced_of_validate hvalid, ⟨capacity, hcapacity, hroom⟩, hlimit⟩

theorem Built.setOracle (h : s.Built) (o : ω) : (s.setOracle o).Built :=
  ⟨h.accepted, h.paced, h.capacity, h.failureLimit⟩

/-- There is a solver for every accepted problem, with every valid settings and every oracle. -/
theorem exists_solver (policy : RestartPolicy) (capacity : ℕ) (hp : p.Accepted)
    (hvalidate : settings.validate = .ok ()) (hcapacity : settings.recordCapacity = .ok capacity)
    (hroom : capacity ≠ 0) (hpolicy : RestartPolicy.ofName settings.restartMethod = .ok policy)
    (hlimit : settings.gapFailureLimit < Counter.bound) (o : ω) :
    ∃ s : Solver T ω, s.Built ∧ s.problem = p ∧ s.settings = settings ∧ s.policy = policy ∧
      s.gap = (GapEvaluator.withLimit settings.gapFailureLimit).setOracle o := by
  obtain ⟨s, hnew, hproblem, hsettings, hchosen, hgap⟩ :=
    @exists_new T ω _ p settings policy capacity hvalidate hcapacity hroom hpolicy
  have hbuilt : s.Built := built_of_new hp hlimit hnew
  refine ⟨s.setOracle o, hbuilt.setOracle o, hproblem, hsettings, hchosen, ?_⟩
  rw [setOracle, hgap]

theorem exists_brief_new (ω : Type) (verbose : Bool) : ∃ s : Solver ℝ ω,
    new .reference { Settings.brief (1 / 2) (1 / 2) with verbose } = .ok (.ok s) := by
  have hcapacity : { Settings.brief (1 / 2) (1 / 2) with verbose }.recordCapacity = .ok 10 := by
    simp [Settings.recordCapacity, Settings.brief]
  obtain ⟨s, hnew, -⟩ := @exists_new ℝ ω _ .reference
    { Settings.brief (1 / 2) (1 / 2) with verbose } .adaptive 10 Settings.validate_brief hcapacity
    (by decide) rfl
  exact ⟨s, hnew⟩

/-- A solver of the reference instance that asks for the gap by projection. -/
theorem exists_brief : ∃ s : Solver ℝ BallOracle, s.Built ∧ s.problem = .reference ∧
    s.settings = .brief (1 / 2) (1 / 2) ∧ ∀ o, s.gap.oracle = some o → o.Suits s.problem := by
  obtain ⟨s, hbuilt, hproblem, hsettings, -, hgap⟩ :=
    exists_solver .adaptive 10 Problem.reference_accepted Settings.validate_brief rfl (by decide)
      rfl (by decide) ({} : BallOracle)
  refine ⟨s, hbuilt, hproblem, hsettings, ?_⟩
  intro o ho
  rw [hgap] at ho
  obtain rfl := Option.some.inj ho
  rw [hproblem]
  exact BallOracle.suits_new (by decide)

theorem Built.of_frame (h : s.Built) (hproblem : s'.problem = s.problem)
    (hsettings : s'.settings = s.settings)
    (hlimit : s'.gap.failureLimit = s.gap.failureLimit) : s'.Built where
  accepted := by rw [hproblem]; exact h.accepted
  paced := by rw [hsettings]; exact h.paced
  capacity := by rw [hsettings]; exact h.capacity
  failureLimit := by rw [hlimit]; exact h.failureLimit

theorem Built.one_le_maxIterations (h : s.Built) : 1 ≤ s.settings.maxIterations := by
  obtain ⟨capacity, hcapacity, hroom⟩ := h.capacity
  exact Settings.one_le_maxIterations h.paced hcapacity hroom

/-- The solution of a run, made from what it counted. -/
theorem Course.exists_finish (hp : s₀.problem.Accepted) (h : Course s₀ .ended S n s) :
    ∃ s', s.finish = .ok s' ∧ s'.solution.iterations = S + n ∧ s'.solution.restarts = n ∧
      s'.solution.status = s.report.status ∧ s'.trajectory = s.trajectory := by
  have hcount : s.iterates.count ≠ 0 := by rw [h.count]; exact Nat.succ_ne_zero _
  have hproblem : s.problem = s₀.problem := h.frame.problem
  have hsolution : s.solution =
      .unsolved s₀.problem.primalDim s₀.problem.dualDim := h.frame.solution
  have hprimal : Vector.copyOnto (Vector.zeros s₀.problem.primalDim : List T)
      (s.iterates.point.take s₀.problem.primalDim) =
        .ok (s.iterates.point.take s₀.problem.primalDim) :=
    Vector.copyOnto_eq_ok (by rw [h.fits.length_primal]; simp [Vector.zeros])
  have hdual : Vector.copyOnto (Vector.zeros s₀.problem.dualDim : List T)
      (s.iterates.point.drop s₀.problem.primalDim) =
        .ok (s.iterates.point.drop s₀.problem.primalDim) :=
    Vector.copyOnto_eq_ok (by rw [h.fits.length_dual]; simp [Vector.zeros])
  unfold finish stopTimer Solution.finalize
  simp only [Report.finalize_eq_ok _ hcount, hproblem, hsolution, Solution.unsolved,
    h.fits.primal_eq_ok, h.fits.dual_eq_ok, hprimal, hdual, ok_bind, pure_eq_ok,
    hp.primalObjective_eq_ok h.fits.length_primal, hp.dualObjective_eq_ok h.fits.length_dual]
  refine ⟨_, rfl, ?_, h.restarts, rfl, rfl⟩
  change s.iterates.count - 1 = S + n
  rw [h.count, Nat.add_sub_cancel]

variable [GapOracle ω T] {good : ω → Prop}

theorem Built.exists_prepare (h : s.Built) (hanswers : GapOracle.Answers s.problem good)
    (horacle : ∀ o, s.gap.oracle = some o → good o) :
    ∃ prepared, s.prepare = .ok prepared ∧ prepared.Ready good := by
  obtain ⟨capacity, hcapacity, -⟩ := h.capacity
  obtain ⟨report, hreport⟩ := Report.exists_printConfiguration (s.report.printBanner s.settings)
    s.settings h.accepted s.policy
  unfold prepare reset printOpening untimed
  simp only [hcapacity, hreport, ok_bind, pure_eq_ok]
  exact ⟨_, rfl, h.accepted, h.paced, hanswers, Iterates.fits_origin _, Nat.one_ne_zero,
    GapEvaluator.ready_reset h.failureLimit horacle⟩

/-- What a run leaves as it was. -/
theorem solve_keeps (h : s.solve = .ok s') : s'.problem = s.problem ∧ s'.settings = s.settings ∧
    s'.policy = s.policy ∧ s'.gap.failureLimit = s.gap.failureLimit := by
  obtain ⟨S, n, ended, hended, hfinish⟩ := exists_moment h
  obtain ⟨hproblem, hsettings, hpolicy, -, hgap, -⟩ := finish_keeps hfinish
  have hframe := hended.course.frame
  exact ⟨hproblem.trans hframe.problem, hsettings.trans hframe.settings,
    hpolicy.trans hframe.policy, hgap ▸ hframe.failureLimit⟩

theorem Built.of_solve (h : s.Built) (hs : s.solve = .ok s') : s'.Built := by
  obtain ⟨hproblem, hsettings, -, hlimit⟩ := solve_keeps hs
  exact h.of_frame hproblem hsettings hlimit

/-- A pass stays within the iterations allowed, up to its restart. -/
theorem Built.index_le {stage : Stage} (hbuilt : s₀.Built) (h : Moment s₀ stage S n s)
    (hlead : stage.lead = 1) : S + n ≤ s₀.settings.maxIterations := by
  induction h with
  | @step S n s s' h hs _ =>
    have hfirst := hbuilt.one_le_maxIterations
    have hrestarts := h.course.lead
    rcases Nat.eq_zero_or_pos S with rfl | hS
    · change n ≤ 0 at hrestarts
      omega
    · have hnext := h.count_le hS
      omega
  | observe _ _ ih | decide _ _ ih | announce _ _ ih => exact ih rfl
  | begin _ | restart _ _ _ | keep _ _ | close _ _ | again _ _ _ | stop _ _ _ => cases hlead

/-- No run counts beyond its word. -/
theorem Moment.count_lt {stage : Stage} (h : Moment s₀ stage S n s) :
    S + n + 1 < Counter.bound := by
  induction h with
  | begin _ => decide
  | step h hs _ =>
    have hcourse := h.course
    obtain ⟨-, hadvance, -⟩ := takeStep_frame hs
    rw [hcourse.frame.problem] at hadvance
    obtain ⟨point, -, -, -, hcount, -⟩ := hcourse.fits.advance_eq_ok_iff.mp hadvance
    rw [hcourse.count] at hcount
    omega
  | restart h hs _ =>
    have hcourse := h.course
    obtain ⟨iterates, hrestart, -⟩ := performRestart_observes hs
    obtain ⟨-, hcount, -⟩ := hcourse.fits.restart_eq_ok_iff.mp hrestart
    rw [hcourse.count] at hcount
    omega
  | observe _ _ ih | decide _ _ ih | announce _ _ ih | keep _ ih | close _ ih | again _ _ ih
  | stop _ _ ih => exact ih

/-- At every moment of a run the solver is ready to go on. -/
theorem Moment.ready {stage : Stage} (hbuilt : s₀.Built)
    (hanswers : GapOracle.Answers s₀.problem good) (horacle : ∀ o, s₀.gap.oracle = some o → good o)
    (h : Moment s₀ stage S n s) : s.Ready good := by
  induction h with
  | begin hs =>
    obtain ⟨prepared, hprepare, hready⟩ := hbuilt.exists_prepare hanswers horacle
    obtain rfl := ok_unique hprepare hs
    exact hready
  | step h hs ih =>
    have hcourse := h.course
    have hnext := (h.step hs).count_lt
    have hcount := hcourse.count
    have hepoch := hcourse.epochLength
    obtain ⟨stepped, hstep, hready⟩ := ih.exists_takeStep (by omega) (by omega)
    obtain rfl := ok_unique hstep hs
    exact hready
  | observe _ hs ih =>
    obtain ⟨observed, hobserve, hready⟩ := ih.exists_observe
    obtain rfl := ok_unique hobserve hs
    exact hready
  | decide _ hs ih =>
    obtain ⟨fire, decided, hdecide, hready⟩ := ih.exists_decideRestart
    obtain ⟨rfl, rfl⟩ := Prod.mk.inj (ok_unique hdecide hs)
    exact hready
  | announce h hs ih =>
    have hlead := h.course.lead
    have hrestarts := h.course.restarts
    have hcount := h.count_lt
    obtain ⟨announced, hannounce, hready⟩ := ih.exists_announceRestart (by omega)
    obtain rfl := ok_unique hannounce hs
    exact hready
  | restart h hs ih =>
    have hrestarts := h.course.restarts
    have hcount := h.course.count
    have hnext := (h.restart hs).count_lt
    obtain ⟨settled, hperform, hready⟩ := ih.exists_performRestart (by omega) (by omega)
    obtain rfl := ok_unique hperform hs
    exact hready
  | close _ ih => exact ih.close
  | stop _ _ ih => exact ih.ready_with
  | keep _ ih | again _ _ ih => exact ih

/-- Within the limit there is always another pass. -/
theorem Moment.exists_pass (hmax : s₀.settings.maxIterations + 2 < Counter.bound)
    (h : Moment s₀ .head S n s) (hready : s.Ready good)
    (hcount : S + n + 1 ≤ s₀.settings.maxIterations) :
    ∃ s', s.pass = .ok s' ∧ s'.Ready good := by
  have hcourse := h.course
  obtain ⟨stepped, hstep, hready⟩ := hready.exists_takeStep
    (by have := hcourse.epochLength; omega) (by have := hcourse.count; omega)
  obtain ⟨observed, hobserve, hready⟩ := hready.exists_observe
  obtain ⟨fire, decided, hdecide, hready⟩ := hready.exists_decideRestart
  have hdecided := ((h.step hstep).observe hobserve).decide hdecide
  have hsettle : ∃ settled, decided.restartWhen fire = .ok settled ∧ settled.Ready good := by
    cases fire with
    | false => exact ⟨decided, rfl, hready⟩
    | true =>
      have hrestarts := hdecided.course.restarts
      obtain ⟨announced, hannounce, hready⟩ := hready.exists_announceRestart (by omega)
      have hannounced := (hdecided.announce hannounce).course
      obtain ⟨settled, hperform, hready⟩ := hready.exists_performRestart
        (by have := hannounced.restarts; omega) (by have := hannounced.count; omega)
      refine ⟨settled, ?_, hready⟩
      rw [restartWhen, if_pos rfl, hannounce, ok_bind, hperform]
  obtain ⟨settled, hsettle, hready⟩ := hsettle
  refine ⟨settled.stopTimer.passNotice, ?_, ?_⟩
  · unfold Solver.pass considerRestart
    simp only [hstep, hobserve, hdecide, hsettle, ok_bind, pure_eq_ok]
  · exact hready.close

/-- Passes come to an end, at the latest where the limit ends them. -/
theorem Moment.exists_passes (hmax : s₀.settings.maxIterations + 2 < Counter.bound)
    {allowance : ℕ} (h : Moment s₀ .head S n s) (hready : s.Ready good)
    (hcount : S + n + 1 ≤ s₀.settings.maxIterations)
    (hallowance : s₀.settings.maxIterations ≤ S + allowance) :
    ∃ S' n' s', s.passes allowance = .ok s' ∧ Moment s₀ .ended S' n' s' ∧
      S' ≤ s₀.settings.maxIterations ∧ S' + n' ≤ s₀.settings.maxIterations + 1 ∧
      (s'.report.status = .solved ∨
        s'.report.status = .maxIterations ∧ s₀.settings.maxIterations ≤ S' + n') := by
  induction allowance generalizing S n s with
  | zero => omega
  | succ allowance ih =>
    obtain ⟨closed, hpass, hready⟩ := h.exists_pass hmax hready hcount
    obtain ⟨n', hn', hclosed⟩ := h.pass hpass
    have hcourse := hclosed.course
    have hsettings : closed.settings = s₀.settings := hcourse.frame.settings
    cases houtcome : closed.outcome? with
    | some status =>
      refine ⟨S + 1, n', _, by simp only [Solver.passes, hpass, houtcome],
        hclosed.stop houtcome, by omega, by omega, ?_⟩
      rcases outcome?_eq_some houtcome with ⟨hsolved, -⟩ | ⟨hlimit, hover⟩
      · exact .inl hsolved
      · rw [hsettings, hcourse.count] at hover
        exact .inr ⟨hlimit, by omega⟩
    | none =>
      have hwithin := (outcome?_eq_none houtcome).2
      rw [hsettings, hcourse.count] at hwithin
      have hnext : s.passes (allowance + 1) = closed.passes allowance := by
        simp only [Solver.passes, hpass, houtcome]
      rw [hnext]
      exact ih (hclosed.again houtcome) hready hwithin (by omega)

/-- A solver returns. -/
theorem Built.exists_solve (h : s.Built) (hmax : s.settings.maxIterations + 2 < Counter.bound)
    (hanswers : GapOracle.Answers s.problem good) (horacle : ∀ o, s.gap.oracle = some o → good o) :
    ∃ s', s.solve = .ok s' := by
  obtain ⟨prepared, hprepare, hready⟩ := h.exists_prepare hanswers horacle
  have hbegin := Moment.begin hprepare
  have hsettings : prepared.settings = s.settings := hbegin.course.frame.settings
  have hone := h.one_le_maxIterations
  obtain ⟨S, n, ended, hrun, hended, -⟩ :=
    @Moment.exists_passes T ω _ prepared s 0 0 _ good hmax
      (max prepared.settings.maxIterations 1) hbegin hready (by omega) (by rw [hsettings]; omega)
  obtain ⟨s', hfinish, -⟩ := hended.course.exists_finish h.accepted
  exact ⟨s', by rw [solve, hprepare, ok_bind, Solver.run, hrun, ok_bind, hfinish]⟩

/-- After a run the oracle still answers. -/
theorem Built.oracle_of_solve (h : s.Built) (hanswers : GapOracle.Answers s.problem good)
    (horacle : ∀ o, s.gap.oracle = some o → good o) (hs : s.solve = .ok s') :
    ∀ o, s'.gap.oracle = some o → good o := by
  obtain ⟨S, n, ended, hended, hfinish⟩ := exists_moment hs
  obtain ⟨-, -, -, -, hgap, -⟩ := finish_keeps hfinish
  rw [hgap]
  exact (hended.ready h hanswers horacle).gap.oracle

/-- A run completes without a fault, and accounts for its steps and restarts. -/
theorem Built.solve_completes (h : s.Built)
    (hmax : s.settings.maxIterations + 2 < Counter.bound)
    (hanswers : GapOracle.Answers s.problem good) (horacle : ∀ o, s.gap.oracle = some o → good o) :
    ∃ S n ended s', Moment s .ended S n ended ∧ ended.finish = .ok s' ∧ s.solve = .ok s' ∧
      1 ≤ S ∧ S ≤ s.settings.maxIterations ∧ n ≤ S ∧
      s'.solution.iterations = S + n ∧ s'.solution.restarts = n ∧
      s'.trajectory.restartSteps.size = n ∧ S + n ≤ s.settings.maxIterations + 1 ∧
      (s'.solution.status = .solved ∨ s'.solution.status = .maxIterations ∧
        (S + n = s.settings.maxIterations ∨ S + n = s.settings.maxIterations + 1)) := by
  obtain ⟨prepared, hprepare, hready⟩ := h.exists_prepare hanswers horacle
  have hbegin := Moment.begin hprepare
  have hsettings : prepared.settings = s.settings := hbegin.course.frame.settings
  have hone := h.one_le_maxIterations
  obtain ⟨S, n, ended, hrun, hended, hsteps, hbound, hstatus⟩ :=
    @Moment.exists_passes T ω _ prepared s 0 0 _ good hmax
      (max prepared.settings.maxIterations 1) hbegin hready (by omega) (by rw [hsettings]; omega)
  have hcourse := hended.course
  obtain ⟨s', hfinish, hiterations, hrestarts, hfinal, htrajectory⟩ :=
    hcourse.exists_finish h.accepted
  have hbegun : 1 ≤ S := by simpa using hcourse.begun
  refine ⟨S, n, ended, s', hended, hfinish, ?_, hbegun, hsteps, hcourse.lead, hiterations,
    hrestarts, ?_, hbound, ?_⟩
  · rw [solve, hprepare, ok_bind, Solver.run, hrun, ok_bind, hfinish]
  · rw [htrajectory]
    exact hcourse.restartSteps
  · rw [hfinal]
    rcases hstatus with hsolved | ⟨hlimit, hover⟩
    · exact .inl hsolved
    · exact .inr ⟨hlimit, by omega⟩

theorem Built.solve_completes_brief : ∃ s₀ : Solver ℝ BallOracle, s₀.problem = .reference ∧
    ∃ S n ended s, Moment s₀ .ended S n ended ∧ ended.finish = .ok s ∧ s₀.solve = .ok s ∧
      1 ≤ S ∧ S ≤ 10 ∧ n ≤ S ∧ s.solution.iterations = S + n ∧ s.solution.restarts = n ∧
      s.trajectory.restartSteps.size = n ∧ S + n ≤ 10 + 1 ∧
      (s.solution.status = .solved ∨ s.solution.status = .maxIterations ∧
        (S + n = 10 ∨ S + n = 10 + 1)) := by
  obtain ⟨s₀, hbuilt, hproblem, hsettings, hsuits⟩ := exists_brief
  have hlimit : s₀.settings.maxIterations = 10 := by rw [hsettings]; rfl
  have hcompletes := Built.solve_completes hbuilt (by rw [hlimit]; decide)
    (BallOracle.answers_suits hbuilt.accepted) hsuits
  rw [hlimit] at hcompletes
  exact ⟨s₀, hproblem, hcompletes⟩

end Solver

end PrimalDual
