import PrimalDual.Proofs.Solver.Lockstep
import PrimalDual.Proofs.Solver.Termination

/-!
# Observation has no influence on a run

Without an oracle there is no gap: an evaluation finds out an error, and nothing follows from it. So
two runs by one method make the same steps and the same restarts, however often each of them
observes itself, and whatever it would take for the findings to end it.
-/
namespace PrimalDual

variable {T ω : Type}

/-- Settings of one method. The tolerances, the decay, the cadences of records and texts and what is
asked about the gap may differ. -/
structure Settings.SameMethod (settings settings' : Settings T) : Prop where
  stepSize : settings'.stepSize = settings.stepSize
  primalWeight : settings'.primalWeight = settings.primalWeight
  maxIterations : settings'.maxIterations = settings.maxIterations
  restartEnabled : settings'.restartEnabled = settings.restartEnabled
  restartMethod : settings'.restartMethod = settings.restartMethod
  restartLength : settings'.restartLength = settings.restartLength
  evaluateEvery : settings'.evaluateEvery = settings.evaluateEvery
  firstEpochLength : settings'.firstEpochLength = settings.firstEpochLength

namespace Iterates

variable {s s' t t' : Iterates T}

theorem SameCourse.symm (h : s.SameCourse t) : t.SameCourse s := by
  unfold SameCourse at h ⊢
  rw [h]

theorem SameCourse.restarted (h : s.SameCourse t) : s.restarted.SameCourse t.restarted := by
  rw [h]
  rfl

theorem SameCourse.movedTo [Scalar T] (h : s.SameCourse t) (point : List T) :
    (s.movedTo point).SameCourse (t.movedTo point) := by
  rw [h]
  rfl

end Iterates

namespace RestartPolicy

/-- The decision of a policy that cannot have a gap, from the counters. -/
def scheduled (policy : RestartPolicy) (settings : Settings T)
    (step restarts epochLength : ℕ) : Bool :=
  match policy with
  | .never => false
  | .adaptive => settings.restartEnabled && step % settings.evaluateEvery == 0 && restarts == 0 &&
      settings.firstEpochLength ≤ epochLength
  | .fixed => settings.restartEnabled && step % settings.restartLength == 0

theorem scheduled_eq {settings settings' : Settings T}
    (h : settings.SameMethod settings') (policy : RestartPolicy) (step restarts epochLength : ℕ) :
    policy.scheduled settings' step restarts epochLength =
      policy.scheduled settings step restarts epochLength := by
  simp only [scheduled, h.restartEnabled, h.evaluateEvery, h.firstEpochLength, h.restartLength]

section Idle

variable [Scalar T] [GapOracle ω T] {p : Problem T} {settings : Settings T} {s : Iterates T}
  {gap gap' : GapEvaluator ω} {fire : Bool}

theorem decayed_idle {previous : List T} (hidle : gap.Idle)
    (h : decayed s previous p settings gap = .ok (fire, gap')) : fire = false := by
  unfold decayed at h
  obtain ⟨epochRadius, -, h⟩ := bind_eq_ok.mp h
  obtain ⟨previousRadius, -, h⟩ := bind_eq_ok.mp h
  rw [GapEvaluator.evaluate_idle hidle] at h
  exact (Prod.mk.inj (Except.ok.inj h)).1.symm

/-- Only the first epoch ends without a gap. -/
theorem checkAdaptive_idle {k : ℕ} (hidle : gap.Idle) (hk : s.step = .ok k)
    (h : checkAdaptive s p settings gap = .ok (fire, gap')) :
    fire = (k % settings.evaluateEvery == 0 && s.restarts == 0 &&
      settings.firstEpochLength ≤ s.epochLength) := by
  unfold checkAdaptive at h
  rw [hk, ok_bind] at h
  obtain ⟨onCadence, hcadence, h⟩ := bind_eq_ok.mp h
  obtain ⟨-, rfl⟩ := Counter.onCadence_eq_ok_iff.mp hcadence
  split at h
  · next hoff =>
    simp only [Bool.not_eq_true'] at hoff
    rw [hoff]
    exact (Prod.mk.inj (Except.ok.inj h)).1.symm
  · next hon =>
    simp only [Bool.not_eq_true', Bool.not_eq_false] at hon
    split at h
    · next hfirst =>
      rw [hon, hfirst]
      exact (Prod.mk.inj (Except.ok.inj h)).1.symm
    · next hlater =>
      have hnever : fire = false := by
        split at h
        · exact (Prod.mk.inj (Except.ok.inj h)).1.symm
        · exact decayed_idle hidle h
      simp [hlater, hnever]

/-- Without an oracle the counters decide on a restart. -/
theorem check_idle {policy : RestartPolicy} {k : ℕ} (hidle : gap.Idle) (hk : s.step = .ok k)
    (h : policy.check s p settings gap = .ok (fire, gap')) :
    fire = policy.scheduled settings k s.restarts s.epochLength := by
  unfold check at h
  cases policy with
  | never => exact (Prod.mk.inj (Except.ok.inj h)).1.symm
  | fixed =>
    dsimp only at h
    split at h
    · next henabled => simpa [scheduled, henabled] using checkFixed_eq_ok hk h
    · next hdisabled =>
      simpa [scheduled, hdisabled] using (Prod.mk.inj (Except.ok.inj h)).1.symm
  | adaptive =>
    dsimp only at h
    split at h
    · next henabled => simpa [scheduled, henabled] using checkAdaptive_idle hidle hk h
    · next hdisabled =>
      simpa [scheduled, hdisabled] using (Prod.mk.inj (Except.ok.inj h)).1.symm

end Idle

end RestartPolicy

namespace Solver

variable [Scalar T] {s₀ t₀ s s' t t' : Solver T ω} {S n : ℕ}

/-- The objectives of a solution are those of its two parts. -/
theorem finish_objectives (h : s.finish = .ok s') :
    s.problem.primalObjective s'.solution.primal = .ok s'.solution.objective ∧
      s.problem.dualObjective s'.solution.dual = .ok s'.solution.dualObjective := by
  unfold finish at h
  obtain ⟨report, -, h⟩ := bind_eq_ok.mp h
  obtain ⟨solution, hsolution, h⟩ := bind_eq_ok.mp h
  obtain rfl := Except.ok.inj h
  simp only [Solution.finalize, bind_eq_ok] at hsolution
  obtain ⟨_, -, primal, -, _, -, dual, -, objective, hprimal, dualObjective, hdual, hsolution⟩ :=
    hsolution
  obtain rfl := Except.ok.inj hsolution
  exact ⟨hprimal, hdual⟩

variable [GapOracle ω T] {stage stage' : Stage}

/-- A run without an oracle ends at the limit. -/
theorem Moment.ended_status (h : Moment s₀ .ended S n s) (hnone : s₀.gap.oracle = none) :
    s.report.status = .maxIterations := by
  cases h with
  | stop h houtcome =>
    rcases outcome?_eq_some houtcome with ⟨-, hterminate⟩ | ⟨hstatus, -⟩
    · rw [h.terminate_idle hnone] at hterminate
      cases hterminate
    · exact hstatus

/-- A decision of the run is made by its counters. -/
theorem Moment.decided_idle {fire : Bool} (h : Moment s₀ .observed S n s)
    (hnone : s₀.gap.oracle = none) (hs : s.decideRestart = .ok (fire, s')) :
    fire = s₀.policy.scheduled s₀.settings (S + n) n s.iterates.epochLength := by
  obtain ⟨gap, timers, hcheck, rfl⟩ := decideRestart_eq_ok hs
  have hcourse := h.course
  have hfire := RestartPolicy.check_idle (h.idle hnone) h.step_eq hcheck
  rwa [hcourse.frame.policy, hcourse.frame.settings, hcourse.restarts] at hfire

/-- Solvers of one problem by one method, without oracles. -/
structure SameMethod (s t : Solver T ω) : Prop where
  problem : t.problem = s.problem
  settings : s.settings.SameMethod t.settings
  policy : t.policy = s.policy
  missing : s.gap.oracle = none
  missing' : t.gap.oracle = none

omit [GapOracle ω T] in
theorem sameMethod_of_new {p : Problem T} {settings settings' : Settings T}
    (h : settings.SameMethod settings') (hs : new p settings = .ok (.ok s))
    (ht : new p settings' = .ok (.ok t)) : SameMethod s t := by
  obtain ⟨hproblem, hsettings, hgap, hpolicy⟩ := new_eq_ok hs
  obtain ⟨hproblem', hsettings', hgap', hpolicy'⟩ := new_eq_ok ht
  rw [h.restartMethod] at hpolicy'
  exact
    { problem := by rw [hproblem, hproblem']
      settings := by rw [hsettings, hsettings']; exact h
      policy := ok_unique hpolicy' hpolicy
      missing := by rw [hgap]; rfl
      missing' := by rw [hgap']; rfl }

/-- Moments of two runs that the same steps and restarts lead to. -/
structure Alongside (s₀ t₀ : Solver T ω) (stage : Stage) (S n : ℕ) (s t : Solver T ω) : Prop where
  left : Moment s₀ stage S n s
  right : Moment t₀ stage S n t
  course : s.iterates.SameCourse t.iterates
  restartSteps : t.trajectory.restartSteps = s.trajectory.restartSteps

/-- What either run observes makes no difference. -/
theorem Alongside.observes (h : Alongside s₀ t₀ stage S n s t) (hs : Moment s₀ stage' S n s')
    (ht : Moment t₀ stage' S n t') (hso : Observes s s') (hto : Observes t t') :
    Alongside s₀ t₀ stage' S n s' t' where
  left := hs
  right := ht
  course := (hso.course.symm.trans h.course).trans hto.course
  restartSteps := by rw [hto.restartSteps, h.restartSteps, hso.restartSteps]

theorem SameMethod.begin (h : SameMethod s₀ t₀) (hs : s₀.prepare = .ok s)
    (ht : t₀.prepare = .ok t) : Alongside s₀ t₀ .head 0 0 s t := by
  have hleft := Moment.begin hs
  have hright := Moment.begin ht
  obtain ⟨capacity, report, timers, -, rfl⟩ := prepare_eq_ok hs
  obtain ⟨capacity', report', timers', -, rfl⟩ := prepare_eq_ok ht
  refine ⟨hleft, hright, ?_, rfl⟩
  change (Iterates.origin _ _).SameCourse (Iterates.origin _ _)
  rw [h.problem]
  exact .refl _

theorem Alongside.step (h : Alongside s₀ t₀ .head S n s t) (hsame : SameMethod s₀ t₀)
    (hs : s.takeStep = .ok s') (ht : t.takeStep = .ok t') :
    Alongside s₀ t₀ .stepped (S + 1) n s' t' := by
  have hleft := h.left.step hs
  have hright := h.right.step ht
  obtain ⟨iterates, timers, hadvance, rfl⟩ := takeStep_eq_ok hs
  obtain ⟨iterates', timers', hadvance', rfl⟩ := takeStep_eq_ok ht
  have hcourse := h.left.course
  have hcourse' := h.right.course
  have hfits' := hcourse'.fits
  rw [hcourse.frame.problem, hcourse.frame.settings] at hadvance
  rw [hcourse'.frame.problem, hcourse'.frame.settings, hsame.problem, hsame.settings.stepSize,
    hsame.settings.primalWeight] at hadvance'
  rw [hsame.problem] at hfits'
  obtain ⟨point, hstep, -, -, -, rfl⟩ := hcourse.fits.advance_eq_ok_iff.mp hadvance
  obtain ⟨point', hstep', -, -, -, rfl⟩ := hfits'.advance_eq_ok_iff.mp hadvance'
  rw [h.course] at hstep'
  obtain rfl := ok_unique hstep hstep'
  exact ⟨hleft, hright, h.course.movedTo point, h.restartSteps⟩

theorem Alongside.announce (h : Alongside s₀ t₀ (.decided true) S n s t)
    (hs : s.announceRestart = .ok s') (ht : t.announceRestart = .ok t') :
    Alongside s₀ t₀ .announced S n s' t' := by
  have hleft := h.left.announce hs
  have hright := h.right.announce ht
  obtain ⟨k, evaluated, report, hk, hevaluate, rfl⟩ := announceRestart_eq_ok hs
  obtain ⟨k', evaluated', report', hk', hevaluate', rfl⟩ := announceRestart_eq_ok ht
  obtain rfl := ok_unique h.left.step_eq hk
  obtain rfl := ok_unique h.right.step_eq hk'
  have hobserves := evaluate_observes hevaluate
  have hobserves' := evaluate_observes hevaluate'
  refine ⟨hleft, hright, (hobserves.course.symm.trans h.course).trans hobserves'.course, ?_⟩
  change evaluated'.trajectory.restartSteps = evaluated.trajectory.restartSteps
  rw [hobserves.restartSteps, hobserves'.restartSteps]
  exact congrArg (·.push (S + n)) h.restartSteps

theorem Alongside.restart (h : Alongside s₀ t₀ .announced S n s t)
    (hs : s.performRestart = .ok s') (ht : t.performRestart = .ok t') :
    Alongside s₀ t₀ .settled S (n + 1) s' t' := by
  obtain ⟨_, -, hobserves⟩ := performRestart_observes hs
  obtain ⟨_, -, hobserves'⟩ := performRestart_observes ht
  refine ⟨h.left.restart hs, h.right.restart ht, ?_, ?_⟩
  · rw [h.left.restart_iterates hs, h.right.restart_iterates ht]
    exact h.course.restarted
  · rw [hobserves.restartSteps, hobserves'.restartSteps]
    exact h.restartSteps

/-- Both runs restart in a pass, or neither of them does. -/
theorem Alongside.decide {fire fire' : Bool} (h : Alongside s₀ t₀ .observed S n s t)
    (hsame : SameMethod s₀ t₀) (hs : s.decideRestart = .ok (fire, s'))
    (ht : t.decideRestart = .ok (fire', t')) :
    fire' = fire ∧ Alongside s₀ t₀ (.decided fire) S n s' t' := by
  have hfire : fire' = fire := by
    rw [h.left.decided_idle hsame.missing hs, h.right.decided_idle hsame.missing' ht,
      hsame.policy, RestartPolicy.scheduled_eq hsame.settings, h.course]
  subst hfire
  exact ⟨rfl, h.observes (h.left.decide hs) (h.right.decide ht) (decideRestart_observes hs)
    (decideRestart_observes ht)⟩

theorem Alongside.pass (h : Alongside s₀ t₀ .head S n s t) (hsame : SameMethod s₀ t₀)
    (hs : s.pass = .ok s') (ht : t.pass = .ok t') :
    ∃ n', Alongside s₀ t₀ .closed (S + 1) n' s' t' := by
  obtain ⟨s₁, s₂, fire, s₃, s₄, hstep, hobserve, hdecide, hsettle, rfl⟩ := pass_eq_ok hs
  obtain ⟨t₁, t₂, fire', t₃, t₄, hstep', hobserve', hdecide', hsettle', rfl⟩ := pass_eq_ok ht
  have hstepped := h.step hsame hstep hstep'
  have hobserved := hstepped.observes (hstepped.left.observe hobserve)
    (hstepped.right.observe hobserve') (observe_observes hobserve) (observe_observes hobserve')
  obtain ⟨rfl, hdecided⟩ := hobserved.decide hsame hdecide hdecide'
  have hsettled : ∃ n', Alongside s₀ t₀ .settled (S + 1) n' s₄ t₄ := by
    cases fire' with
    | false =>
      obtain rfl := Except.ok.inj hsettle
      obtain rfl := Except.ok.inj hsettle'
      exact ⟨n, hdecided.observes hdecided.left.keep hdecided.right.keep (.refl _) (.refl _)⟩
    | true =>
      obtain ⟨announced, hannounce, hperform⟩ := bind_eq_ok.mp hsettle
      obtain ⟨announced', hannounce', hperform'⟩ := bind_eq_ok.mp hsettle'
      exact ⟨n + 1, (hdecided.announce hannounce hannounce').restart hperform hperform'⟩
  obtain ⟨n', hsettled⟩ := hsettled
  exact ⟨n', hsettled.observes hsettled.left.close hsettled.right.close
    ((stopTimer_observes _).trans (passNotice_observes _))
    ((stopTimer_observes _).trans (passNotice_observes _))⟩

/-- Both runs go on after a pass, or both end with it. -/
theorem Alongside.outcome?_eq (h : Alongside s₀ t₀ .closed S n s t) (hsame : SameMethod s₀ t₀) :
    t.outcome? = s.outcome? := by
  rw [outcome?, outcome?, h.left.terminate_idle hsame.missing,
    h.right.terminate_idle hsame.missing', h.left.course.frame.settings,
    h.right.course.frame.settings, hsame.settings.maxIterations, h.left.course.count,
    h.right.course.count]

theorem Alongside.passes {allowance : ℕ} (h : Alongside s₀ t₀ .head S n s t)
    (hsame : SameMethod s₀ t₀) (hS : 1 ≤ S + allowance)
    (hallowance : s₀.settings.maxIterations ≤ S + allowance)
    (hs : s.passes allowance = .ok s') (ht : t.passes allowance = .ok t') :
    ∃ S' n', Alongside s₀ t₀ .ended S' n' s' t' := by
  induction allowance generalizing S n s t with
  | zero =>
    have hcount := h.left.count_le hS
    omega
  | succ allowance ih =>
    unfold Solver.passes at hs ht
    cases hspass : s.pass with
    | error f =>
      rw [hspass] at hs
      cases hs
    | ok s₁ =>
      cases htpass : t.pass with
      | error f =>
        rw [htpass] at ht
        cases ht
      | ok t₁ =>
        obtain ⟨n', hclosed⟩ := h.pass hsame hspass htpass
        have houtcomes := hclosed.outcome?_eq hsame
        simp only [hspass] at hs
        simp only [htpass, houtcomes] at ht
        cases houtcome : s₁.outcome? with
        | some status =>
          simp only [houtcome, Except.ok.injEq] at hs ht
          subst hs ht
          exact ⟨S + 1, n', hclosed.observes (hclosed.left.stop houtcome)
            (hclosed.right.stop (houtcomes.trans houtcome)) (observes_with rfl rfl)
            (observes_with rfl rfl)⟩
        | none =>
          simp only [houtcome] at hs ht
          exact ih (hclosed.observes (hclosed.left.again houtcome)
            (hclosed.right.again (houtcomes.trans houtcome)) (.refl _) (.refl _))
            (by omega) (by omega) hs ht

/-- Runs that ended alike: they differ in what they found out on the way, and in the time. -/
structure SameEnd (s t : Solver T ω) : Prop where
  iterates : t.iterates = { s.iterates with diagnostics := t.iterates.diagnostics }
  restartSteps : t.trajectory.restartSteps = s.trajectory.restartSteps
  solution : t.solution =
    { s.solution with
      solveTime := t.solution.solveTime
      diagnostics := t.solution.diagnostics }

/-- The two solutions are read off the same points. -/
theorem Alongside.finish (h : Alongside s₀ t₀ .ended S n s t) (hsame : SameMethod s₀ t₀)
    (hs : s.finish = .ok s') (ht : t.finish = .ok t') : SameEnd s' t' := by
  obtain ⟨-, -, -, hiterates, -, htrajectory⟩ := finish_keeps hs
  obtain ⟨-, -, -, hiterates', -, htrajectory'⟩ := finish_keeps ht
  obtain ⟨hprimal, hdual, hstep, hrestarts, -, hstatus⟩ := finish_eq_ok hs
  obtain ⟨hprimal', hdual', hstep', hrestarts', -, hstatus'⟩ := finish_eq_ok ht
  obtain ⟨hobjective, hdualObjective⟩ := finish_objectives hs
  obtain ⟨hobjective', hdualObjective'⟩ := finish_objectives ht
  have hproblem : t.problem = s.problem := by
    rw [h.right.course.frame.problem, h.left.course.frame.problem]
    exact hsame.problem
  rw [h.course] at hprimal' hdual'
  have hx := ok_unique hprimal' hprimal
  have hy := ok_unique hdual' hdual
  rw [hproblem, hx] at hobjective'
  rw [hproblem, hy] at hdualObjective'
  have hiterations : t'.solution.iterations = s'.solution.iterations := by
    rw [← ok_unique h.left.step_eq hstep, ← ok_unique h.right.step_eq hstep']
  refine ⟨?_, by rw [htrajectory, htrajectory', h.restartSteps], ?_⟩
  · rw [hiterates, hiterates']
    have hcourse := h.course
    unfold Iterates.SameCourse at hcourse
    rwa [h.right.terminate_idle hsame.missing', ← h.left.terminate_idle hsame.missing] at hcourse
  · rw [h.left.ended_status hsame.missing] at hstatus
    rw [h.right.ended_status hsame.missing'] at hstatus'
    rw [h.left.course.restarts] at hrestarts
    rw [h.right.course.restarts] at hrestarts'
    dsimp only
    rw [← hx, ← hy, hstatus, ← hstatus', ← ok_unique hobjective' hobjective,
      ← ok_unique hdualObjective' hdualObjective, ← hiterations, hrestarts, ← hrestarts']

/-- Whatever is observed, solvers of one problem by one method come to the same end. -/
theorem SameMethod.solve_sameEnd (h : SameMethod s t) (hs : s.Built) (ht : t.Built)
    (hmax : s.settings.maxIterations + 2 < Counter.bound) :
    ∃ s' t', s.solve = .ok s' ∧ t.solve = .ok t' ∧ SameEnd s' t' := by
  have hanswers (p : Problem T) : GapOracle.Answers p fun _ : ω => False :=
    fun _ _ _ hgood => hgood.elim
  obtain ⟨s', hsolve⟩ := hs.exists_solve hmax (hanswers s.problem) (by simp [h.missing])
  obtain ⟨t', hsolve'⟩ := ht.exists_solve (by rwa [h.settings.maxIterations])
    (hanswers t.problem) (by simp [h.missing'])
  refine ⟨s', t', hsolve, hsolve', ?_⟩
  obtain ⟨prepared, hprepare, hrun⟩ := bind_eq_ok.mp hsolve
  obtain ⟨prepared', hprepare', hrun'⟩ := bind_eq_ok.mp hsolve'
  obtain ⟨ended, hrun, hfinish⟩ := bind_eq_ok.mp hrun
  obtain ⟨ended', hrun', hfinish'⟩ := bind_eq_ok.mp hrun'
  have hbegin := h.begin hprepare hprepare'
  have hlimit : prepared.settings = s.settings := hbegin.left.course.frame.settings
  have hlimit' : prepared'.settings = t.settings := hbegin.right.course.frame.settings
  unfold Solver.run at hrun hrun'
  rw [hlimit] at hrun
  rw [hlimit', h.settings.maxIterations] at hrun'
  obtain ⟨S, n, hended⟩ := hbegin.passes h (by omega) (by omega) hrun hrun'
  exact hended.finish h hfinish hfinish'

end Solver

/-- A short run that seldom observes itself and asks for no gap. -/
noncomputable def Settings.unobserved (tolerance decay : ℝ) : Settings ℝ :=
  { Settings.brief 1 decay with
    gapTolerance := tolerance
    kktTolerance := tolerance
    recordEvery := 3
    printEvery := 7
    verbose := false
    gapEnabled := false
    gapFailureLimit := 1
    datasetIndex := 5 }

theorem Settings.validate_unobserved {tolerance decay : ℝ} (htolerance : 0 < tolerance)
    (hdecay : 0 < decay ∧ decay < 1) : (unobserved tolerance decay).validate = .ok () :=
  validate_eq_ok one_pos one_pos htolerance htolerance hdecay
    (by simp [unobserved, brief, restartMethods]) (by constructor <;> simp [unobserved, brief])

theorem Solver.SameMethod.solve_sameEnd_unobserved : ∃ s t : Solver ℝ SilentOracle,
    s.settings = .brief 1 Scalar.inverseE ∧ t.settings = .unobserved 2 2⁻¹ ∧
      SameMethod s t ∧ ∃ s' t', s.solve = .ok s' ∧ t.solve = .ok t' ∧ SameEnd s' t' := by
  have hmethod : (Settings.brief 1 Scalar.inverseE).SameMethod (.unobserved 2 2⁻¹) :=
    ⟨rfl, rfl, rfl, rfl, rfl, rfl, rfl, rfl⟩
  have hbrief : (Settings.brief 1 Scalar.inverseE).Normalized :=
    ⟨rfl, rfl, rfl, rfl, rfl, by decide, by decide, by decide, by decide⟩
  have hunobserved : (Settings.unobserved 2 2⁻¹).validate = .ok () :=
    Settings.validate_unobserved two_pos ⟨inv_pos.mpr two_pos, inv_lt_one_of_one_lt₀ one_lt_two⟩
  obtain ⟨s, hnew, -, hsettings, -⟩ := @exists_new ℝ SilentOracle _ .reference _ .adaptive 10
    (hbrief.validate_eq_ok (by decide)) rfl (by decide) rfl
  obtain ⟨t, hnew', -, hsettings', -⟩ := @exists_new ℝ SilentOracle _ .reference _ .adaptive 4
    hunobserved rfl (by decide) rfl
  have hsame := sameMethod_of_new hmethod hnew hnew'
  have hbuilt : s.Built := built_of_new Problem.reference_accepted (by decide) hnew
  have hbuilt' : t.Built := built_of_new Problem.reference_accepted (by decide) hnew'
  have hmax : s.settings.maxIterations + 2 < Counter.bound := by
    rw [hsettings]
    decide
  exact ⟨s, t, hsettings, hsettings', hsame, hsame.solve_sameEnd hbuilt hbuilt' hmax⟩

end PrimalDual
