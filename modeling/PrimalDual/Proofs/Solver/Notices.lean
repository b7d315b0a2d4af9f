import PrimalDual.Proofs.Solver.Completion
import PrimalDual.Proofs.Report.Notices
import PrimalDual.Proofs.Solver.Repetition
import PrimalDual.Proofs.Solver.Termination

/-!
# One notice for each loss

Whichever query disables the gap, the pass that it belongs to ends with a notice, before its tests
may end the run. Nothing else that a run prints is a notice, but for lines of the problem's name.
-/
namespace PrimalDual

variable {T ω : Type}

/-- A short run that observes itself in every pass and gives the gap up at the first failure. -/
noncomputable def Settings.impatient : Settings ℝ :=
  { brief 1 Scalar.inverseE with gapFailureLimit := 1 }

namespace GapEvaluator

/-- Whether the gap was given up and the notice of that taken. Only an evaluator that has given up
leaves a notice. -/
structure Told (told : Bool) (e : GapEvaluator ω) : Prop where
  disabled : e.justDisabled = true → e.disabled = true
  told : (e.disabled && !e.justDisabled) = told

variable {e e' : GapEvaluator ω} {told : Bool}

/-- A failure may leave a notice, and takes none. -/
theorem Told.recordFailure (h : e.Told told) (henabled : e.disabled = false)
    (hrecord : e.recordFailure = .ok e') : e'.Told told := by
  obtain ⟨failures, -, hrecord⟩ := bind_eq_ok.mp hrecord
  split at hrecord
  · rw [← Except.ok.inj hrecord]
    exact ⟨fun _ => rfl, by rw [← h.told, henabled]; rfl⟩
  · rw [← Except.ok.inj hrecord]
    exact ⟨h.disabled, h.told⟩

/-- An evaluator that leaves a notice has not told of its loss before. -/
theorem Told.eq_false (h : e.Told told) (hnotice : e.justDisabled = true) : told = false := by
  rw [← h.told, hnotice, h.disabled hnotice]
  rfl

theorem Told.takeNotice (h : e.Told told) : e.takeNotice.2.Told (told || e.justDisabled) := by
  refine ⟨nofun, ?_⟩
  cases hnotice : e.justDisabled with
  | false =>
    rw [Bool.or_false, ← h.told, hnotice]
    rfl
  | true =>
    rw [Bool.or_true]
    exact (Bool.and_true _).trans (h.disabled hnotice)

variable [Scalar T]

theorem Told.settle (h : e.Told told) (henabled : e.disabled = false)
    {answer settled : Except GapError T} (hsettle : e.settle answer = .ok (settled, e')) :
    e'.Told told := by
  unfold GapEvaluator.settle at hsettle
  split at hsettle
  · split at hsettle
    · rw [snd_eq_of_pure hsettle]
      exact ⟨h.disabled, h.told⟩
    · obtain ⟨failed, hrecord, hsettle⟩ := bind_eq_ok.mp hsettle
      rw [snd_eq_of_pure hsettle]
      exact h.recordFailure henabled hrecord
  · obtain ⟨failed, hrecord, hsettle⟩ := bind_eq_ok.mp hsettle
    rw [snd_eq_of_pure hsettle]
    exact h.recordFailure henabled hrecord

theorem stable_told [GapOracle ω T] (p : Problem T) (told : Bool) :
    Stable p fun e : GapEvaluator ω => e.Told told := by
  intro e e' z r answer htold h
  unfold evaluate at h
  split at h
  · rw [snd_eq_of_pure h]
    exact htold
  · next hdisabled =>
    split at h
    · rw [snd_eq_of_pure h]
      exact htold
    · obtain ⟨⟨given, o⟩, -, h⟩ := bind_eq_ok.mp h
      have hasked : { e with oracle := some o }.Told told := ⟨htold.disabled, htold.told⟩
      exact hasked.settle (Bool.not_eq_true _ ▸ hdisabled) h

/-- An evaluator that has given up stays that way. -/
theorem stable_disabled [GapOracle ω T] (p : Problem T) :
    Stable p fun e : GapEvaluator ω => e.disabled = true := by
  intro e e' z r answer hdisabled h
  rw [evaluate, if_pos hdisabled] at h
  rw [snd_eq_of_pure h]
  exact hdisabled

end GapEvaluator

namespace Solver

/-- Between two states of a run no notice is printed, and none is taken. -/
structure Quiet (s s' : Solver T ω) : Prop where
  report : s.report.Quiet s'.report
  gap : ∀ told, s.gap.Told told → s'.gap.Told told

variable {s s' s'' : Solver T ω}

theorem Quiet.refl (s : Solver T ω) : Quiet s s := ⟨.refl _, fun _ => id⟩

theorem Quiet.trans (h : Quiet s s') (h' : Quiet s' s'') : Quiet s s'' :=
  ⟨h.report.trans h'.report, fun told ht => h'.gap told (h.gap told ht)⟩

theorem quiet_of_report (hgap : s'.gap = s.gap) (h : s.report.Quiet s'.report) : Quiet s s' :=
  ⟨h, fun _ ht => hgap ▸ ht⟩

theorem record_quiet (h : s.record = .ok s') : Quiet s s' := by
  obtain ⟨appended, -, h⟩ := bind_eq_ok.mp h
  cases appended with
  | error e =>
    rw [← Except.ok.inj h]
    exact quiet_of_report rfl (Report.recordWarning_quiet s.report s.settings e)
  | ok trajectory =>
    rw [← Except.ok.inj h]
    exact quiet_of_report rfl (.refl s.report)

theorem recordWhen_quiet {onRecord : Bool} (h : s.recordWhen onRecord = .ok s') : Quiet s s' := by
  cases onRecord with
  | false => exact Except.ok.inj h ▸ .refl s
  | true => exact record_quiet h

theorem performRestart_quiet (h : s.performRestart = .ok s') : Quiet s s' := by
  obtain ⟨iterates, -, hrecord⟩ := performRestart_eq_ok h
  have hmoved : Quiet s { s with iterates } := quiet_of_report rfl (.refl s.report)
  rcases recordRestart_eq_ok hrecord with ⟨-, rfl⟩ | ⟨-, k, -, -, hrecord⟩
  · exact hmoved
  · exact hmoved.trans (recordWhen_quiet hrecord)

variable {s₀ : Solver T ω}

/-- The notice that the gap was given up. -/
def notice (settings : Settings T) : List Char := ("warning: " ++ disabledMessage settings).toList

theorem linesWith_notice (settings : Settings T) :
    Text.linesWith noticeStart (Report.warningText (disabledMessage settings)).toList =
      [notice settings] := by
  have hmessage : (disabledMessage settings).toList = "duality gap disabled after ".toList ++
      ((toString settings.gapFailureLimit).toList ++
        " consecutive failures, using the KKT criterion".toList) := by
    unfold disabledMessage
    rw [String.toList_append, String.toList_append, List.append_assoc]
  rw [Report.linesWith_warning, if_pos]
  · rfl
  · rw [List.isPrefixOf_iff_prefix, String.toList_append, hmessage, ← List.append_assoc]
    exact List.prefix_append _ _
  · rw [hmessage, List.mem_append, List.mem_append, not_or, not_or]
    exact ⟨by decide, Report.notMem_toString _, by decide⟩

/-- Since the start of the run from `s₀` the notices of the problem's name were printed, and one of
the gap if it was given up and that is told. -/
def Noticed (s₀ s : Solver T ω) : Prop :=
  ∃ told, s.gap.Told told ∧ s₀.report.target.Adds noticeStart
    (s₀.problem.namedNotices ++ if told then [notice s₀.settings] else []) s.report.target

theorem Noticed.quiet (h : Noticed s₀ s) (hquiet : Quiet s s') : Noticed s₀ s' := by
  obtain ⟨told, htold, hadds⟩ := h
  refine ⟨told, hquiet.gap told htold, ?_⟩
  have hadded := hadds.trans (by decide) hquiet.report
  rwa [List.append_nil] at hadded

theorem passNotice_report (s : Solver T ω) :
    s.passNotice.report = if s.gap.justDisabled then
      s.report.printWarning s.settings (disabledMessage s.settings) else s.report := by
  unfold passNotice GapEvaluator.takeNotice
  dsimp only
  split
  · rfl
  · rfl

/-- A notice is printed when it is taken. -/
theorem Noticed.passNotice (h : Noticed s₀ s) (hsettings : s.settings = s₀.settings)
    (hverbose : s₀.settings.verbose = true) : Noticed s₀ s.passNotice := by
  obtain ⟨told, htold, hadds⟩ := h
  refine ⟨told || s.gap.justDisabled, by rw [passNotice_gap]; exact htold.takeNotice, ?_⟩
  rw [passNotice_report, hsettings]
  cases hnotice : s.gap.justDisabled with
  | false =>
    rw [Bool.or_false]
    exact hadds
  | true =>
    obtain rfl := htold.eq_false hnotice
    have hprinted := PrintTarget.adds_print (Report.ended_warning (disabledMessage s₀.settings))
      noticeStart s.report.target
    rw [linesWith_notice] at hprinted
    rw [if_neg Bool.false_ne_true, List.append_nil] at hadds
    rw [if_pos rfl, Report.printWarning, if_pos hverbose]
    exact hadds.trans (by decide) hprinted

variable [Scalar T]

theorem takeStep_quiet (h : s.takeStep = .ok s') : Quiet s s' := by
  obtain ⟨iterates, timers, -, rfl⟩ := takeStep_eq_ok h
  exact quiet_of_report rfl (.refl s.report)

theorem printWhen_quiet {onPrint : Bool} (h : s.printWhen onPrint = .ok s') : Quiet s s' := by
  cases onPrint with
  | false => exact Except.ok.inj h ▸ .refl s
  | true =>
    obtain ⟨report, hreport, h⟩ := bind_eq_ok.mp h
    rw [← Except.ok.inj h]
    exact quiet_of_report rfl (Report.printStatus_quiet hreport)

variable [GapOracle ω T]

theorem evaluate_quiet (h : s.evaluate = .ok s') : Quiet s s' := by
  obtain ⟨iterates, gap, hevaluate, rfl⟩ := evaluate_eq_ok h
  exact ⟨.refl s.report, fun told ht =>
    Iterates.evaluate_stable (GapEvaluator.stable_told s.problem told) ht hevaluate⟩

theorem observe_quiet (h : s.observe = .ok s') : Quiet s s' := by
  obtain ⟨k, -, -, -, ⟨-, rfl⟩ | ⟨-, evaluated, recorded, hevaluate, hrecord, hprint⟩⟩ :=
    observe_eq_ok h
  · exact .refl _
  · have hstarted : Quiet s (s.startTimer "evaluate") := quiet_of_report rfl (.refl s.report)
    have hstopped : Quiet evaluated evaluated.stopTimer :=
      quiet_of_report rfl (.refl evaluated.report)
    exact (hstarted.trans (evaluate_quiet hevaluate)).trans <|
      (hstopped.trans (recordWhen_quiet hrecord)).trans (printWhen_quiet hprint)

theorem decideRestart_quiet {fire : Bool} (h : s.decideRestart = .ok (fire, s')) : Quiet s s' := by
  obtain ⟨gap, timers, hcheck, rfl⟩ := decideRestart_eq_ok h
  exact ⟨.refl s.report, fun told ht =>
    RestartPolicy.check_stable (GapEvaluator.stable_told s.problem told) ht hcheck⟩

theorem announceRestart_quiet (h : s.announceRestart = .ok s') : Quiet s s' := by
  obtain ⟨k, -, h⟩ := bind_eq_ok.mp h
  obtain ⟨evaluated, hevaluate, h⟩ := bind_eq_ok.mp h
  obtain ⟨report, hrestart, h⟩ := bind_eq_ok.mp h
  obtain ⟨report', hstatus, h⟩ := bind_eq_ok.mp h
  have hnoted : Quiet s { s with trajectory := s.trajectory.pushRestart k } :=
    quiet_of_report rfl (.refl s.report)
  rw [← Except.ok.inj h]
  exact (hnoted.trans (evaluate_quiet hevaluate)).trans <| quiet_of_report rfl
    ((Report.printRestart_quiet hrestart).trans (Report.printStatus_quiet hstatus))

variable {stage : Stage} {S n : ℕ}

omit [GapOracle ω T] in
theorem prepare_noticed (h : s₀.prepare = .ok s) (hverbose : s₀.settings.verbose = true) :
    Noticed s₀ s := by
  unfold prepare reset printOpening untimed at h
  obtain ⟨fresh, hfresh, h⟩ := bind_eq_ok.mp h
  obtain ⟨capacity, -, hfresh⟩ := bind_eq_ok.mp hfresh
  obtain rfl := Except.ok.inj hfresh
  obtain ⟨opened, hopened, h⟩ := bind_eq_ok.mp h
  obtain ⟨report, hreport, hopened⟩ := bind_eq_ok.mp hopened
  obtain ⟨configured, hconfigured, hreport⟩ := bind_eq_ok.mp hreport
  obtain rfl := Except.ok.inj hopened
  obtain rfl := Except.ok.inj h
  obtain rfl := Except.ok.inj hreport
  have hbanner := Report.orderly_banner.quiet s₀.settings.verbose s₀.report
  have hheader := Report.orderly_header.quiet s₀.settings.verbose configured
  have hadds := (PrintTarget.Adds.trans (by decide) hbanner
    (Report.printConfiguration_adds hverbose hconfigured)).trans (by decide) hheader
  exact ⟨false, ⟨nofun, rfl⟩, hadds⟩

theorem Moment.noticed (h : Moment s₀ stage S n s) (hverbose : s₀.settings.verbose = true) :
    Noticed s₀ s := by
  induction h with
  | begin hs => exact prepare_noticed hs hverbose
  | step _ hs ih => exact ih.quiet (takeStep_quiet hs)
  | observe _ hs ih => exact ih.quiet (observe_quiet hs)
  | decide _ hs ih => exact ih.quiet (decideRestart_quiet hs)
  | announce _ hs ih => exact ih.quiet (announceRestart_quiet hs)
  | restart _ hs ih => exact ih.quiet (performRestart_quiet hs)
  | @close S n s h ih =>
    have hstopped : Quiet s s.stopTimer := quiet_of_report rfl (.refl s.report)
    exact (ih.quiet hstopped).passNotice h.course.frame.settings hverbose
  | stop _ _ ih => exact ih.quiet (quiet_of_report rfl (.refl _))
  | keep _ ih | again _ _ ih => exact ih

/-- A run ends with every notice taken. -/
theorem Moment.justDisabled_ended (h : Moment s₀ .ended S n s) : s.gap.justDisabled = false := by
  cases h with
  | stop h _ =>
    obtain ⟨settled, -, hgap, -⟩ := h.closed_cases
    exact congrArg GapEvaluator.justDisabled hgap

theorem solve_adds (h : s₀.solve = .ok s) (hverbose : s₀.settings.verbose = true) :
    s₀.report.target.Adds noticeStart
      (s₀.problem.namedNotices ++ if s.gap.disabled then [notice s₀.settings] else [])
      s.report.target := by
  obtain ⟨S, n, ended, hended, hfinish⟩ := exists_moment h
  obtain ⟨told, htold, hadds⟩ := hended.noticed hverbose
  obtain rfl : ended.gap.disabled = told := by
    rw [← htold.told, hended.justDisabled_ended]
    exact (Bool.and_true _).symm
  obtain ⟨report, hreport, hfinish⟩ := bind_eq_ok.mp hfinish
  obtain ⟨solution, -, hfinish⟩ := bind_eq_ok.mp hfinish
  obtain ⟨k, -, hreport⟩ := bind_eq_ok.mp hreport
  have hfooter : ended.report.Quiet (report.printFooter ended.settings) := by
    have htarget : ended.report.target = report.target := by rw [← Except.ok.inj hreport]; rfl
    rw [Report.Quiet, htarget]
    exact (Report.orderly_footer report).quiet ended.settings.verbose report
  have hadded := hadds.trans (by decide) hfooter
  rw [List.append_nil] at hadded
  rw [← Except.ok.inj hfinish]
  exact hadded

/-- Without an oracle there is nothing to give up. -/
theorem solve_idle (h : s₀.solve = .ok s) (hnone : s₀.gap.oracle = none) : s.gap.Idle := by
  obtain ⟨S, n, ended, hended, hfinish⟩ := exists_moment h
  obtain ⟨-, -, -, -, hgap, -⟩ := finish_keeps hfinish
  rw [hgap]
  exact hended.idle hnone

/-- An evaluation that asks a silent oracle gives it up if a single failure counts. -/
theorem evaluate_silent {s s' : Solver T SilentOracle} (h : s.evaluate = .ok s')
    (henabled : s.settings.gapEnabled = true) (horacle : s.gap.oracle.isSome = true)
    (hlimit : s.gap.failureLimit ≤ 1) : s'.gap.disabled = true := by
  obtain ⟨iterates, gap, hevaluate, rfl⟩ := evaluate_eq_ok h
  obtain ⟨error, -, hevaluate⟩ := bind_eq_ok.mp hevaluate
  obtain ⟨⟨value, e⟩, hvalue, hevaluate⟩ := bind_eq_ok.mp hevaluate
  obtain ⟨rfl, rfl⟩ := Prod.mk.inj (Except.ok.inj hevaluate)
  rw [Iterates.gapIfEnabled, if_pos henabled] at hvalue
  obtain ⟨distance, -, hvalue⟩ := bind_eq_ok.mp hvalue
  obtain ⟨⟨answer, e⟩, hask, hvalue⟩ := bind_eq_ok.mp hvalue
  obtain ⟨rfl, rfl⟩ := Prod.mk.inj (Except.ok.inj hvalue)
  exact (SilentOracle.evaluate_eq_ok hask).2 horacle hlimit

/-- Where every pass evaluates, a silent oracle is given up in the first one. -/
theorem Moment.disabled_silent {s₀ s : Solver T SilentOracle} (h : Moment s₀ stage S n s)
    (hevery : s₀.settings.recordEvery = 1) (henabled : s₀.settings.gapEnabled = true)
    (horacle : s₀.gap.oracle.isSome = true) (hlimit : s₀.gap.failureLimit ≤ 1)
    (hhead : stage ≠ .head) (hstepped : stage ≠ .stepped) : s.gap.disabled = true := by
  induction h with
  | begin _ => exact (hhead rfl).elim
  | step _ _ _ => exact (hstepped rfl).elim
  | @observe S n s s' h hs _ =>
    have hsettings : s.settings = s₀.settings := h.course.frame.settings
    have hgap : s.gap.failureLimit = s₀.gap.failureLimit := h.course.frame.failureLimit
    have hpresent : s.gap.oracle.isSome = true :=
      h.gap_induction (P := fun e => e.oracle.isSome = true) horacle
        (GapEvaluator.stable_isSome _ _) fun _ => id
    obtain ⟨k, -, -, -, ⟨hoff, -⟩ | ⟨-, evaluated, recorded, hevaluate, hrecord, hprint⟩⟩ :=
      Solver.observe_eq_ok hs
    · rw [Settings.OnCadence, hsettings, hevery, Nat.mod_one] at hoff
      exact (hoff (.inl rfl)).elim
    · have hdisabled : evaluated.gap.disabled = true :=
        evaluate_silent hevaluate (hsettings ▸ henabled) hpresent (hgap ▸ hlimit)
      obtain ⟨trajectory, report, rfl⟩ := recordWhen_eq_ok hrecord
      obtain ⟨report, timers, rfl⟩ := printWhen_eq_ok hprint
      exact hdisabled
  | decide _ hs ih =>
    obtain ⟨gap, timers, hcheck, rfl⟩ := decideRestart_eq_ok hs
    have hbefore := ih (by simp) (by simp)
    exact RestartPolicy.check_stable (GapEvaluator.stable_disabled _) hbefore hcheck
  | announce _ hs ih =>
    obtain ⟨k, evaluated, report, -, hevaluate, rfl⟩ := announceRestart_eq_ok hs
    obtain ⟨iterates, gap, hfound, rfl⟩ := evaluate_eq_ok hevaluate
    have hbefore := ih (by simp) (by simp)
    exact Iterates.evaluate_stable (GapEvaluator.stable_disabled _) hbefore hfound
  | restart _ hs ih =>
    rw [performRestart_gap hs]
    exact ih (by simp) (by simp)
  | close _ ih =>
    rw [passNotice_gap]
    exact ih (by simp) (by simp)
  | keep _ ih | stop _ _ ih => exact ih (by simp) (by simp)
  | again _ _ _ => exact (hhead rfl).elim

theorem solve_disabled_silent {s₀ s : Solver T SilentOracle} (h : s₀.solve = .ok s)
    (hevery : s₀.settings.recordEvery = 1) (henabled : s₀.settings.gapEnabled = true)
    (horacle : s₀.gap.oracle.isSome = true) (hlimit : s₀.gap.failureLimit ≤ 1) :
    s.gap.disabled = true := by
  obtain ⟨S, n, ended, hended, hfinish⟩ := exists_moment h
  obtain ⟨-, -, -, -, hgap, -⟩ := finish_keeps hfinish
  rw [hgap]
  exact hended.disabled_silent hevery henabled horacle hlimit (by simp) (by simp)

/-- The same solver with another print target. -/
def printingTo (s : Solver T ω) (target : PrintTarget) : Solver T ω :=
  { s with report := { s.report with target } }

omit [GapOracle ω T] in
theorem Built.printingTo (h : s.Built) (target : PrintTarget) : (s.printingTo target).Built :=
  h.of_frame rfl rfl rfl

/-- A run that may print tells once that the gap was given up, if it was, and never otherwise.
Besides this notice there are only those that the problem's name brings along. -/
theorem Built.solve_notices {good : ω → Prop} {old : String} (h : s₀.Built)
    (hverbose : s₀.settings.verbose = true)
    (hmax : s₀.settings.maxIterations + 2 < Counter.bound)
    (hanswers : GapOracle.Answers s₀.problem good) (horacle : ∀ o, s₀.gap.oracle = some o → good o)
    (hbuffer : s₀.report.target = .buffered old) :
    ∃ s text, s₀.solve = .ok s ∧ s.report.target.bufferText = .ok (old ++ text) ∧
      Text.linesWith noticeStart text.toList = s₀.problem.namedNotices ++
        if s.gap.disabled then [notice s₀.settings] else [] := by
  obtain ⟨s, hsolve⟩ := h.exists_solve hmax hanswers horacle
  obtain ⟨text, -, hlines, htarget⟩ := solve_adds hsolve hverbose old hbuffer
  exact ⟨s, text, hsolve, by rw [htarget, PrintTarget.bufferText_buffered], hlines⟩

/-- The oracle is silent and given up in the first pass. -/
theorem Built.solve_notices_silent : ∃ s₀ : Solver ℝ SilentOracle, s₀.Built ∧
    s₀.problem = .pinned 2 ∧ s₀.settings = .impatient ∧ s₀.report.target = .buffered "" ∧
    ∃ s text, s₀.solve = .ok s ∧ s.report.target.bufferText = .ok ("" ++ text) ∧
      s.gap.disabled = true ∧
      Text.linesWith noticeStart text.toList = [notice s₀.settings] := by
  obtain ⟨built, hrun⟩ : ∃ built, Pinned 2 .impatient .adaptive built :=
    exists_pinned 2 ⟨rfl, rfl, rfl, rfl, rfl, by decide, by decide, by decide, by decide⟩
      (by decide) rfl rfl (by decide) (by decide)
  have hgiven : (built.printingTo (.buffered "")).settings = .impatient := hrun.settings
  obtain ⟨s, text, hsolve, htext, hlines⟩ :=
    (hrun.built.printingTo (.buffered "")).solve_notices (by rw [hgiven]; rfl)
      (by rw [hgiven]; decide) (SilentOracle.answers _) (fun _ _ => trivial) rfl
  have hdisabled : s.gap.disabled = true :=
    solve_disabled_silent hsolve (by rw [hgiven]; rfl) (by rw [hgiven]; rfl)
      (by change built.gap.oracle.isSome = true; rw [hrun.gap]; rfl)
      (by change built.gap.failureLimit ≤ 1; rw [hrun.gap]; exact le_rfl)
  have hnamed : (Problem.pinned 2).namedNotices = [] := by decide
  rw [hdisabled, if_pos rfl] at hlines
  refine ⟨built.printingTo (.buffered ""), hrun.built.printingTo _, hrun.problem, hgiven, rfl, s,
    text, hsolve, htext, hdisabled, ?_⟩
  rw [hlines]
  change built.problem.namedNotices ++ _ = _
  rw [hrun.problem, hnamed, List.nil_append]

/-- The reference instance under a name of two lines, of which the second is a notice. -/
def heralded : Problem T :=
  { (Problem.reference : Problem T) with
    name := some ("lp\nwarning: duality gap disabled after 3 consecutive failures, " ++
      "using the KKT criterion") }

/-- A run whose gap was never given up prints the notice that its problem is named after. -/
theorem exists_solve_heralded : ∃ s₀ s : Solver ℝ BallOracle, ∃ text,
    new heralded (.brief (1 / 2) (1 / 2)) = .ok (.ok s₀) ∧
      (s₀.printingTo (.new .buffer)).solve = .ok s ∧ s.report.target.bufferText = .ok text ∧
      s.gap.disabled = false ∧
      Text.linesWith noticeStart text.toList = [notice (.brief (1 / 2) (1 / 2))] := by
  have hp : (heralded : Problem ℝ).Accepted := rfl
  obtain ⟨s₀, hnew, hproblem, hsettings, -, hgap⟩ := @exists_new ℝ BallOracle _ heralded
    (.brief (1 / 2) (1 / 2)) .adaptive 10 Settings.validate_brief rfl (by decide) rfl
  have hbuilt : s₀.Built := built_of_new hp (by decide) hnew
  have hnone : s₀.gap.oracle = none := by
    rw [hgap]
    rfl
  have hverbose : s₀.settings.verbose = true := by
    rw [hsettings]
    rfl
  obtain ⟨s, hsolve⟩ := (hbuilt.printingTo (.new .buffer)).exists_solve
    (by change s₀.settings.maxIterations + 2 < Counter.bound; rw [hsettings]; decide)
    (BallOracle.answers_suits hbuilt.accepted)
    (by change ∀ o, s₀.gap.oracle = some o → _; simp [hnone])
  have henabled : s.gap.disabled = false := (solve_idle hsolve hnone).enabled
  obtain ⟨text, -, hlines, htarget⟩ := solve_adds hsolve hverbose "" rfl
  rw [henabled, if_neg Bool.false_ne_true, List.append_nil] at hlines
  refine ⟨s₀, s, text, hnew, hsolve, ?_, henabled, ?_⟩
  · rw [htarget, PrintTarget.bufferText_buffered, String.empty_append]
  · rw [hlines]
    change s₀.problem.namedNotices = _
    rw [hproblem]
    decide +kernel

end Solver

end PrimalDual
