import PrimalDual.Proofs.Optimality
import PrimalDual.Proofs.Solver.Pinned

/-!
# What a run reports

The error in a solution belongs to the point that the run proposed last, if the last pass evaluated
it. That is the point returned, unless a restart came after the evaluation: it moves the run to the
average and leaves the error behind, and with it the verdict that the run is solved.
-/
namespace PrimalDual.Solver

section Reports

variable {T ω : Type} [Scalar T] [GapOracle ω T] {s₀ s : Solver T ω} {S n : ℕ}

/-- What a solver returns, in terms of the last moment of its run. -/
theorem exists_ended (h : s₀.solve = .ok s) : ∃ S n ended, Moment s₀ .ended S n ended ∧
    s.problem = s₀.problem ∧ s.settings = s₀.settings ∧ s.iterates = ended.iterates ∧
    s.solution.primal = ended.iterates.point.take s₀.problem.primalDim ∧
    s.solution.dual = ended.iterates.point.drop s₀.problem.primalDim ∧
    s.solution.iterations = S + n ∧ s.solution.diagnostics = ended.iterates.diagnostics ∧
    s.solution.status = ended.report.status := by
  obtain ⟨S, n, ended, hended, hfinish⟩ := exists_moment h
  have hcourse := hended.course
  obtain ⟨hproblem, hsettings, -, hiterates, -, -⟩ := finish_keeps hfinish
  obtain ⟨hprimal, hdual, hstep, -, hdiagnostics, hstatus⟩ := finish_eq_ok hfinish
  rw [hcourse.fits.primal_eq_ok] at hprimal
  rw [hcourse.fits.dual_eq_ok] at hdual
  rw [hended.step_eq] at hstep
  exact ⟨S, n, ended, hended, hproblem.trans hcourse.frame.problem,
    hsettings.trans hcourse.frame.settings, hiterates, (Except.ok.inj hprimal).symm,
    (Except.ok.inj hdual).symm, (Except.ok.inj hstep).symm, hdiagnostics, hstatus⟩

/-- A run that ends as solved was told to. -/
theorem Moment.terminate_of_solved (h : Moment s₀ .ended S n s)
    (hsolved : s.report.status = .solved) : s.iterates.terminate = true := by
  cases h with
  | stop _ houtcome =>
    rcases outcome?_eq_some houtcome with ⟨-, hterminate⟩ | ⟨hlimit, -⟩
    · exact hterminate
    · rw [hlimit] at hsolved
      cases hsolved

end Reports

section Single

/-- A run of one step, in which nothing is due. -/
noncomputable def singleSettings : Settings ℝ :=
  { Settings.brief 1 Scalar.inverseE with
    maxIterations := 1
    restartMethod := "none"
    recordEvery := 30
    printEvery := 100 }

/-- A solver that makes this run. -/
abbrev Single (b : ℝ) (s₀ : Solver ℝ SilentOracle) : Prop :=
  Pinned b singleSettings .never s₀

theorem exists_single : ∃ s₀, Single 2 s₀ :=
  exists_pinned 2 ⟨rfl, rfl, rfl, rfl, rfl, by decide, by decide, by decide, by decide⟩
    (by decide) rfl rfl (by decide) (by decide)

variable {s₀ s e : Solver ℝ SilentOracle} {S n : ℕ}

theorem Single.index_eq_one (hrun : Single 2 s₀) (h : Moment s₀ .stepped S n s) :
    S = 1 ∧ n = 0 := by
  have hindex := hrun.built.index_le h rfl
  have hlead : n + 1 ≤ S := h.course.lead
  rw [hrun.settings] at hindex
  change S + n ≤ 1 at hindex
  omega

theorem Single.not_evaluates (hrun : Single 2 s₀) : ¬ Evaluates s₀ e := by
  intro h
  cases h with
  | observed h hdue =>
    obtain ⟨rfl, rfl⟩ := hrun.index_eq_one h
    rw [hrun.settings] at hdue
    exact absurd hdue (by simp [Settings.OnCadence, singleSettings])
  | announced h => cases h.decided_never hrun.policy

theorem Single.point_eq (hrun : Single 2 s₀) (h : Moment s₀ .observed S n s) :
    s.iterates.point = [0, 2] := by
  cases h with
  | observe h hs =>
    rcases h.observe_eq_ok hs with ⟨-, rfl⟩ | ⟨-, e, -, heval, -⟩
    · obtain ⟨rfl, rfl⟩ := hrun.index_eq_one h
      obtain ⟨-, hiterates, -⟩ := hrun.stepped_one h
      rw [hiterates]
      rfl
    · exact (hrun.not_evaluates heval).elim

theorem Single.ended (hrun : Single 2 s₀) (h : Moment s₀ .ended S n s) :
    s.iterates.point = [0, 2] := by
  cases h with
  | @stop _ _ closed _ h _ =>
    change closed.iterates.point = _
    obtain ⟨settled, hclosed, -, hkept | ⟨n', announced, -, h, -⟩⟩ := h.closed_cases
    · rw [hclosed]
      cases hkept with
      | @decide _ _ observed _ _ h hs =>
        obtain ⟨gap, timers, -, rfl⟩ := decideRestart_eq_ok hs
        change observed.iterates.point = _
        exact hrun.point_eq h
    · cases h with
      | announce h _ => cases h.decided_never hrun.policy

theorem Single.exists_solution (hrun : Single 2 s₀) : ∃ s, s₀.solve = .ok s ∧
    s.solution.primal = [0] ∧ s.solution.dual = [2] ∧ s.solution.diagnostics.kktError = 0 := by
  obtain ⟨s, hsolve⟩ := hrun.exists_solve (by decide)
  obtain ⟨S, n, ended, hended, -, -, -, hprimal, hdual, -, hdiagnostics, -⟩ :=
    exists_ended hsolve
  rw [hrun.ended hended, hrun.problem] at hprimal hdual
  refine ⟨s, hsolve, hprimal, hdual, ?_⟩
  rw [hdiagnostics]
  rcases hended.diagnostics_eq with hzero | ⟨e, -, heval, -⟩
  · rw [hzero]
    rfl
  · exact (hrun.not_evaluates heval).elim

end Single

section Paired

/-- Settings under which nothing is due in the first pass, and the second makes a restart. -/
structure Deferred (settings : Settings ℝ) : Prop where
  restartEnabled : settings.restartEnabled = true
  restartLength : settings.restartLength = 2
  off : ¬ settings.OnCadence 1

/-- A run of two steps that ends with an evaluation and a restart. -/
noncomputable def pairedSettings : Settings ℝ :=
  { Settings.brief 1 Scalar.inverseE with
    restartMethod := "fixed"
    restartLength := 2
    recordEvery := 2
    printEvery := 2
    gapFailureLimit := 1 }

theorem pairedSettings_deferred : Deferred pairedSettings :=
  ⟨rfl, rfl, by simp [Settings.OnCadence, pairedSettings]⟩

/-- A solver that makes this run, without ever hearing of a gap. -/
abbrev Paired (b : ℝ) (s₀ : Solver ℝ SilentOracle) : Prop :=
  Pinned b pairedSettings .fixed s₀

theorem exists_paired : ∃ s₀, Paired 2 s₀ :=
  exists_pinned 2 ⟨rfl, rfl, rfl, rfl, rfl, by decide, by decide, by decide, by decide⟩
    (by decide) rfl rfl (by decide) (by decide)

variable {s₀ s s' : Solver ℝ SilentOracle} {settings : Settings ℝ} {S n : ℕ}

/-- The iterates after the first and after the second step of the run. -/
noncomputable def pairedFirst (b : ℝ) : Iterates ℝ := (Iterates.origin 1 1).movedTo [0, b]

noncomputable def pairedSecond (b : ℝ) : Iterates ℝ := (pairedFirst b).movedTo [b, 0]

theorem pairedSecond_average : (pairedSecond 2).average = [1, 1] := by
  norm_num [pairedSecond, pairedFirst, Iterates.movedTo, Iterates.averageWith, Iterates.origin,
    Iterates.startingAt, Vector.combine, Vector.zeros, List.replicate, Scalar.recip]

theorem Pinned.decided_one {fire : Bool} (hrun : Pinned 2 settings .fixed s₀)
    (hdeferred : Deferred settings) (h : Moment s₀ (.decided fire) 1 n s) :
    fire = false ∧ n = 0 ∧ s.iterates = pairedFirst 2 ∧ s.gap.oracle = some .silent := by
  have hfire := h.decided_fixed hrun.policy (by rw [hrun.settings]; exact hdeferred.restartEnabled)
  cases h with
  | decide h hs =>
    obtain ⟨gap, timers, hcheck, rfl⟩ := decideRestart_eq_ok hs
    have hfixed := h.course.frame.policy.trans hrun.policy
    have hgap := RestartPolicy.check_gap (by rw [hfixed]; decide) hcheck
    cases h with
    | observe h hs =>
      obtain ⟨rfl, hiterates, hfresh⟩ := hrun.stepped_one h
      rcases h.observe_eq_ok hs with ⟨-, rfl⟩ | ⟨hon, -⟩
      · refine ⟨?_, rfl, hiterates, ?_⟩
        · rw [hfire, hrun.settings, hdeferred.restartLength]
          rfl
        · rw [hgap, hfresh]
          rfl
      · rw [hrun.settings] at hon
        exact (hdeferred.off hon).elim

theorem Pinned.closed_one (hrun : Pinned 2 settings .fixed s₀)
    (hdeferred : Deferred settings) (h : Moment s₀ .closed 1 n s) :
    n = 0 ∧ s.iterates = pairedFirst 2 ∧ s.gap.oracle = some .silent := by
  obtain ⟨settled, hiterates, hgap, hkept | ⟨n', announced, -, h, -⟩⟩ := h.closed_cases
  · rw [hiterates, hgap]
    exact (hrun.decided_one hdeferred hkept).2
  · cases h with
    | announce h _ => cases (hrun.decided_one hdeferred h).1

theorem Pinned.stepped_two (hrun : Pinned 2 settings .fixed s₀)
    (hdeferred : Deferred settings) (h : Moment s₀ .stepped 2 n s) :
    n = 0 ∧ s.iterates = pairedSecond 2 ∧ s.gap.oracle = some .silent := by
  cases h with
  | step h hs =>
    cases h with
    | again hclosed houtcome =>
      obtain ⟨rfl, hfirst, horacle⟩ := hrun.closed_one hdeferred hclosed
      obtain ⟨hiterates, hgap⟩ := hrun.step (hclosed.again houtcome) hs (x := 0) (y := 2)
        (by rw [hfirst]; rfl)
      refine ⟨rfl, ?_, by rw [hgap, horacle]⟩
      rw [hiterates, hfirst]
      norm_num [pairedSecond]

/-- A run has more than one pass if it may take more than one. -/
theorem Pinned.two_le (hrun : Pinned 2 settings .fixed s₀) (hdeferred : Deferred settings)
    (hmax : 2 ≤ settings.maxIterations) (h : Moment s₀ .ended S n s) : 2 ≤ S := by
  have hbegun : 1 ≤ S := by simpa using h.course.begun
  by_contra hlt
  obtain rfl : S = 1 := by omega
  cases h with
  | @stop _ _ closed status h houtcome =>
    obtain ⟨rfl, hfirst, -⟩ := hrun.closed_one hdeferred h
    rcases outcome?_eq_some houtcome with ⟨-, hterminate⟩ | ⟨-, hover⟩
    · rw [hfirst] at hterminate
      cases hterminate
    · rw [h.course.frame.settings.trans hrun.settings, h.course.count] at hover
      omega

/-- What the second pass makes of the second step: the verdict that the run is solved. -/
structure Judged (i : Iterates ℝ) : Prop where
  iterates : i = { pairedSecond 2 with diagnostics := i.diagnostics, terminate := true }
  error : i.diagnostics.kktError = 0

theorem kktError_pairedSecond : (Problem.pinned 2).kktError [2] [0] = .ok 0 := by
  rw [Problem.kktError_pinned]
  norm_num

theorem Paired.observed_two (hrun : Paired 2 s₀) (h : Moment s₀ .observed 2 n s) :
    n = 0 ∧ Judged s.iterates := by
  cases h with
  | @observe _ _ stepped _ h hs =>
    obtain ⟨rfl, hsecond, horacle⟩ := hrun.stepped_two pairedSettings_deferred h
    have hproblem : stepped.problem = .pinned 2 := h.course.frame.problem.trans hrun.problem
    have hsettings : stepped.settings = pairedSettings :=
      h.course.frame.settings.trans hrun.settings
    have hlimit : stepped.gap.failureLimit = 1 :=
      h.course.frame.failureLimit.trans (by rw [hrun.gap]; rfl)
    have hfits : stepped.iterates.Fits (.pinned 2) := hrun.problem ▸ h.course.fits
    obtain ⟨k, hk, -, -, ⟨hoff, -⟩ | ⟨-, evaluated, recorded, hevaluate, hrecord, hprint⟩⟩ :=
      Solver.observe_eq_ok hs
    · obtain rfl := ok_unique h.step_eq hk
      rw [hsettings] at hoff
      exact (hoff (.inl rfl)).elim
    · obtain ⟨trajectory, report, rfl⟩ := recordWhen_eq_ok hrecord
      obtain ⟨report, timers, rfl⟩ := printWhen_eq_ok hprint
      obtain ⟨iterates, gap, hfound, rfl⟩ := evaluate_eq_ok hevaluate
      change stepped.iterates.evaluate stepped.problem stepped.settings stepped.gap = _ at hfound
      rw [hproblem, hsettings] at hfound
      obtain ⟨d, herror, hiterates⟩ := (hfits.evaluate_silent hfound).2 rfl (by rw [horacle]; rfl)
        hlimit.le
      rw [hsecond] at herror hiterates
      have hzero : d.kktError = 0 := ok_unique herror kktError_pairedSecond
      have hsmall : d.kktError < pairedSettings.kktTolerance := by
        rw [hzero]
        exact one_pos
      rw [decide_eq_true hsmall, Bool.or_true] at hiterates
      have hjudged : Judged iterates := by
        rw [hiterates]
        exact ⟨rfl, hzero⟩
      exact ⟨rfl, hjudged⟩

theorem Paired.announced_two (hrun : Paired 2 s₀) (h : Moment s₀ .announced 2 n s) :
    n = 0 ∧ Judged s.iterates := by
  cases h with
  | announce h hs =>
    obtain ⟨e, e', heval, he, hbefore, hafter⟩ := h.announce_eq_ok hs
    cases h with
    | decide h hs =>
      obtain ⟨rfl, hjudged⟩ := hrun.observed_two h
      obtain ⟨gap, timers, -, rfl⟩ := decideRestart_eq_ok hs
      obtain ⟨d, disabled, herror, hiterates⟩ := heval.eq_ok he
      change e.iterates = _ at hbefore
      rw [hbefore, hjudged.iterates, hrun.problem] at herror
      rw [hafter, hiterates, hbefore]
      refine ⟨rfl, ?_, ok_unique herror kktError_pairedSecond⟩
      rw [hjudged.iterates]
      rfl

/-- The restart of the second pass leaves the solution for the average. -/
theorem Paired.closed_two (hrun : Paired 2 s₀) (h : Moment s₀ .closed 2 n s) :
    s.iterates.terminate = true ∧ s.iterates.point = [1, 1] ∧
      s.iterates.diagnostics.kktError = 0 := by
  obtain ⟨settled, hiterates, -, hkept | ⟨n', announced, -, h, hs⟩⟩ := h.closed_cases
  · have hfire := hkept.decided_fixed hrun.policy (by rw [hrun.settings]; rfl)
    cases hkept with
    | decide h _ =>
      obtain ⟨rfl, -⟩ := hrun.observed_two h
      rw [hrun.settings] at hfire
      cases hfire
  · obtain ⟨rfl, hjudged⟩ := hrun.announced_two h
    rw [hiterates, h.restart_iterates hs]
    refine ⟨?_, ?_, hjudged.error⟩
    · rw [hjudged.iterates]
      rfl
    · rw [hjudged.iterates]
      exact pairedSecond_average

/-- The second pass is the last. -/
theorem Paired.ended (hrun : Paired 2 s₀) (h : Moment s₀ .ended S n s) :
    s.report.status = .solved ∧ s.iterates.point = [1, 1] ∧
      s.iterates.diagnostics.kktError = 0 := by
  have hleast := hrun.two_le pairedSettings_deferred (by decide) h
  have hwithin : ¬ 2 < S := by
    intro hlt
    obtain ⟨n', closed, hclosed, houtcome⟩ := h.exists_closed one_le_two hlt
    obtain ⟨hterminate, -⟩ := hrun.closed_two hclosed
    rw [(outcome?_eq_none houtcome).1] at hterminate
    cases hterminate
  obtain rfl : S = 2 := by omega
  cases h with
  | stop h houtcome =>
    obtain ⟨hterminate, hpoint, herror⟩ := hrun.closed_two h
    refine ⟨?_, hpoint, herror⟩
    rw [outcome?, if_pos hterminate] at houtcome
    exact (Option.some.inj houtcome).symm

/-- The run returns the average under the verdict on the solution. -/
theorem Paired.exists_solution (hrun : Paired 2 s₀) : ∃ s, s₀.solve = .ok s ∧
    s.solution.status = .solved ∧ s.solution.primal = [1] ∧ s.solution.dual = [1] ∧
    s.solution.diagnostics.kktError = 0 := by
  obtain ⟨s, hsolve⟩ := hrun.exists_solve (by decide)
  obtain ⟨S, n, ended, hended, -, -, -, hprimal, hdual, -, hdiagnostics, hstatus⟩ :=
    exists_ended hsolve
  obtain ⟨hsolved, hpoint, herror⟩ := hrun.ended hended
  rw [hpoint, hrun.problem] at hprimal hdual
  exact ⟨s, hsolve, hstatus.trans hsolved, hprimal, hdual, by rw [hdiagnostics, herror]⟩

end Paired

variable {T ω : Type} [Scalar T] [GapOracle ω T] {s₀ s : Solver T ω}

/-- What the error in a solution is the error of. -/
theorem solve_kktError (h : s₀.solve = .ok s) :
    (s.iterates.epochLength ≠ 0 → s₀.settings.OnCadence s.solution.iterations →
      s₀.problem.kktError s.solution.primal s.solution.dual =
        .ok s.solution.diagnostics.kktError) ∧
    (s.iterates.epochLength = 0 →
      s₀.problem.kktError (s.iterates.proposal.take s₀.problem.primalDim)
          (s.iterates.proposal.drop s₀.problem.primalDim) =
        .ok s.solution.diagnostics.kktError) ∧
    (s.solution.diagnostics = .zero ∨ ∃ e e', Evaluates s₀ e ∧ e.evaluate = .ok e' ∧
      s.solution.diagnostics = e'.iterates.diagnostics) := by
  obtain ⟨S, n, ended, hended, -, -, hiterates, hprimal, hdual, hiterations, hdiagnostics, -⟩ :=
    exists_ended h
  have hstanding := hended.standing
  rw [hiterates, hprimal, hdual, hiterations, hdiagnostics]
  refine ⟨fun hlength hdue => ?_, fun hlength => hstanding.assessed (.inl hlength),
    hended.diagnostics_eq⟩
  rw [hstanding.point (by simp) hlength]
  exact hstanding.assessed (.inr hdue)

theorem solve_kktError_paired : ∃ (s₀ s : Solver ℝ SilentOracle), s₀.solve = .ok s ∧
    (s.iterates.epochLength ≠ 0 → pairedSettings.OnCadence s.solution.iterations →
      (Problem.pinned 2).kktError s.solution.primal s.solution.dual =
        .ok s.solution.diagnostics.kktError) ∧
    (s.iterates.epochLength = 0 →
      (Problem.pinned 2).kktError (s.iterates.proposal.take 1) (s.iterates.proposal.drop 1) =
        .ok s.solution.diagnostics.kktError) ∧
    (s.solution.diagnostics = .zero ∨ ∃ e e', Evaluates s₀ e ∧ e.evaluate = .ok e' ∧
      s.solution.diagnostics = e'.iterates.diagnostics) := by
  obtain ⟨s₀, hrun⟩ := exists_paired
  obtain ⟨s, hsolve, -⟩ := hrun.exists_solution
  have hreport := solve_kktError hsolve
  rw [hrun.problem, hrun.settings] at hreport
  exact ⟨s₀, s, hsolve, hreport⟩

/-- A solution that comes with the error zero, which no evaluation found. -/
theorem exists_solve_kktError_ne : ∃ s₀ : Solver ℝ SilentOracle, s₀.Built ∧
    s₀.problem = .pinned 2 ∧ s₀.settings = singleSettings ∧ ∃ s, s₀.solve = .ok s ∧
      s.solution.diagnostics.kktError = 0 ∧
      s₀.problem.kktError s.solution.primal s.solution.dual = .ok √8 ∧ √8 ≠ (0 : ℝ) := by
  obtain ⟨s₀, hrun⟩ := exists_single
  obtain ⟨s, hsolve, hprimal, hdual, herror⟩ := hrun.exists_solution
  refine ⟨s₀, hrun.built, hrun.problem, hrun.settings, s, hsolve, herror, ?_, by norm_num⟩
  rw [hrun.problem, hprimal, hdual, Problem.kktError_pinned]
  norm_num

/-- A run that was solved by its error certifies the point that it proposed last. -/
theorem solve_certified (h : s₀.solve = .ok s) (hsolved : s.solution.status = .solved)
    (hopen : s₀.GapStaysOpen) :
    ∃ error, s₀.problem.kktError (s.iterates.proposal.take s₀.problem.primalDim)
        (s.iterates.proposal.drop s₀.problem.primalDim) = .ok error ∧
      error < s₀.settings.kktTolerance ∧
      (s.iterates.epochLength ≠ 0 →
        s₀.problem.kktError s.solution.primal s.solution.dual = .ok error) := by
  obtain ⟨S, n, ended, hended, -, -, hiterates, hprimal, hdual, -, -, hstatus⟩ := exists_ended h
  rw [hstatus] at hsolved
  obtain ⟨hassessed, hsmall⟩ := hended.kktError_lt hopen (hended.terminate_of_solved hsolved)
  rw [hiterates, hprimal, hdual]
  refine ⟨_, hassessed, hsmall, fun hlength => ?_⟩
  rw [hended.standing.point (by simp) hlength]
  exact hassessed

theorem solve_certified_paired : ∃ (s₀ s : Solver ℝ SilentOracle), s₀.solve = .ok s ∧
    s.solution.status = .solved ∧ s₀.GapStaysOpen ∧
    ∃ error, (Problem.pinned 2).kktError (s.iterates.proposal.take 1)
        (s.iterates.proposal.drop 1) = .ok error ∧
      error < pairedSettings.kktTolerance ∧
      (s.iterates.epochLength ≠ 0 →
        (Problem.pinned 2).kktError s.solution.primal s.solution.dual = .ok error) := by
  obtain ⟨s₀, hrun⟩ := exists_paired
  obtain ⟨s, hsolve, hsolved, -⟩ := hrun.exists_solution
  have hcertified := solve_certified hsolve hsolved (gapStaysOpen_silent s₀)
  rw [hrun.problem, hrun.settings] at hcertified
  exact ⟨s₀, s, hsolve, hsolved, gapStaysOpen_silent s₀, hcertified⟩

/-- A run that is solved by its error, but not at the point that it returns. -/
theorem exists_solve_uncertified : ∃ s₀ : Solver ℝ SilentOracle, s₀.Built ∧
    s₀.problem = .pinned 2 ∧ s₀.settings = pairedSettings ∧ s₀.GapStaysOpen ∧
    ∃ s, s₀.solve = .ok s ∧ s.solution.status = .solved ∧
      s₀.problem.kktError s.solution.primal s.solution.dual = .ok √2 ∧
      s₀.settings.kktTolerance ≤ √2 := by
  obtain ⟨s₀, hrun⟩ := exists_paired
  obtain ⟨s, hsolve, hsolved, hprimal, hdual, -⟩ := hrun.exists_solution
  refine ⟨s₀, hrun.built, hrun.problem, hrun.settings, gapStaysOpen_silent s₀, s, hsolve, hsolved,
    ?_, ?_⟩
  · rw [hrun.problem, hprimal, hdual, Problem.kktError_pinned]
    norm_num
  · rw [hrun.settings]
    change (1 : ℝ) ≤ √2
    exact Real.one_le_sqrt.mpr one_le_two

end PrimalDual.Solver
