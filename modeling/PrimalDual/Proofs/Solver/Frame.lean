import PrimalDual.Proofs.Gap.Evaluator
import PrimalDual.Proofs.Iterates
import PrimalDual.Solver

/-!
# What the operations of a solver leave alone

No operation of a pass changes the data of the run. Those that only observe it change no more of the
iterates than what an evaluation found out.
-/
namespace PrimalDual

variable {T ω : Type}

namespace Iterates

/-- Iterates that differ in what an evaluation found out. -/
def SameCourse (s s' : Iterates T) : Prop :=
  s' = { s with diagnostics := s'.diagnostics, terminate := s'.terminate }

variable {s s' s'' : Iterates T}

theorem SameCourse.refl (s : Iterates T) : SameCourse s s := rfl

theorem SameCourse.trans (h : SameCourse s s') (h' : SameCourse s' s'') : SameCourse s s'' := by
  unfold SameCourse at h h' ⊢
  rw [h', h]

theorem Fits.of_sameCourse {p : Problem T} (hfits : s.Fits p) (h : SameCourse s s') :
    s'.Fits p := by
  rw [h]
  exact ⟨hfits.layout, hfits.point, hfits.proposal, hfits.average, hfits.epochStart,
    hfits.previousStart⟩

variable [Scalar T] [GapOracle ω T] {p : Problem T} {settings : Settings T}
  {gap gap' : GapEvaluator ω} {P : GapEvaluator ω → Prop}

theorem gapOfEpoch_stable {value : Option T} (hstable : GapEvaluator.Stable p P) (hgap : P gap)
    (h : s.gapOfEpoch p gap = .ok (value, gap')) : P gap' := by
  unfold gapOfEpoch at h
  obtain ⟨distance, -, h⟩ := bind_eq_ok.mp h
  obtain ⟨⟨answer, e⟩, hevaluate, h⟩ := bind_eq_ok.mp h
  rw [snd_eq_of_pure h]
  exact hstable _ _ _ _ _ hgap hevaluate

theorem gapIfEnabled_stable {value : Option T} (hstable : GapEvaluator.Stable p P) (hgap : P gap)
    (h : s.gapIfEnabled p settings gap = .ok (value, gap')) : P gap' := by
  unfold gapIfEnabled at h
  split at h
  · exact gapOfEpoch_stable hstable hgap h
  · rw [snd_eq_of_pure h]
    exact hgap

theorem evaluate_stable (hstable : GapEvaluator.Stable p P) (hgap : P gap)
    (h : s.evaluate p settings gap = .ok (s', gap')) : P gap' := by
  unfold evaluate at h
  obtain ⟨error, -, h⟩ := bind_eq_ok.mp h
  obtain ⟨⟨value, e⟩, hvalue, h⟩ := bind_eq_ok.mp h
  rw [snd_eq_of_pure h]
  exact gapIfEnabled_stable hstable hgap hvalue

theorem evaluate_sameCourse (h : s.evaluate p settings gap = .ok (s', gap')) :
    SameCourse s s' := by
  unfold evaluate at h
  obtain ⟨error, -, h⟩ := bind_eq_ok.mp h
  obtain ⟨⟨value, e⟩, -, h⟩ := bind_eq_ok.mp h
  obtain ⟨rfl, rfl⟩ := Prod.mk.inj (Except.ok.inj h)
  rfl

end Iterates

namespace RestartPolicy

variable {settings : Settings T} {s : Iterates T} {gap gap' : GapEvaluator ω} {fire : Bool}

theorem checkFixed_gap (h : checkFixed s settings gap = .ok (fire, gap')) : gap' = gap := by
  unfold checkFixed at h
  obtain ⟨step, -, h⟩ := bind_eq_ok.mp h
  obtain ⟨onCadence, -, h⟩ := bind_eq_ok.mp h
  exact snd_eq_of_pure h

variable [Scalar T] [GapOracle ω T] {p : Problem T} {P : GapEvaluator ω → Prop}

theorem decayed_stable {previous : List T} (hstable : GapEvaluator.Stable p P) (hgap : P gap)
    (h : decayed s previous p settings gap = .ok (fire, gap')) : P gap' := by
  unfold decayed at h
  obtain ⟨epochRadius, -, h⟩ := bind_eq_ok.mp h
  obtain ⟨previousRadius, -, h⟩ := bind_eq_ok.mp h
  obtain ⟨⟨now, e⟩, hnow, h⟩ := bind_eq_ok.mp h
  have hfirst := hstable _ _ _ _ _ hgap hnow
  cases now with
  | error err =>
    rw [snd_eq_of_pure h]
    exact hfirst
  | ok now =>
    obtain ⟨⟨before, e'⟩, hbefore, h⟩ := bind_eq_ok.mp h
    have hsecond := hstable _ _ _ _ _ hfirst hbefore
    cases before with
    | error err | ok before =>
      rw [snd_eq_of_pure h]
      exact hsecond

theorem checkAdaptive_stable (hstable : GapEvaluator.Stable p P) (hgap : P gap)
    (h : checkAdaptive s p settings gap = .ok (fire, gap')) : P gap' := by
  unfold checkAdaptive at h
  obtain ⟨step, -, h⟩ := bind_eq_ok.mp h
  obtain ⟨onCadence, -, h⟩ := bind_eq_ok.mp h
  split at h
  · rw [snd_eq_of_pure h]
    exact hgap
  · split at h
    · rw [snd_eq_of_pure h]
      exact hgap
    · split at h
      · rw [snd_eq_of_pure h]
        exact hgap
      · exact decayed_stable hstable hgap h

theorem check_stable {policy : RestartPolicy} (hstable : GapEvaluator.Stable p P) (hgap : P gap)
    (h : policy.check s p settings gap = .ok (fire, gap')) : P gap' := by
  unfold check at h
  cases policy with
  | never =>
    rw [snd_eq_of_pure h]
    exact hgap
  | adaptive =>
    dsimp only at h
    split at h
    · exact checkAdaptive_stable hstable hgap h
    · rw [snd_eq_of_pure h]
      exact hgap
  | fixed =>
    dsimp only at h
    split at h
    · rw [checkFixed_gap h]
      exact hgap
    · rw [snd_eq_of_pure h]
      exact hgap

/-- Only the adaptive policy asks for a gap. -/
theorem check_gap {policy : RestartPolicy} (hpolicy : policy ≠ .adaptive)
    (h : policy.check s p settings gap = .ok (fire, gap')) : gap' = gap := by
  unfold check at h
  cases policy with
  | never => exact snd_eq_of_pure h
  | adaptive => exact (hpolicy rfl).elim
  | fixed =>
    dsimp only at h
    split at h
    · exact checkFixed_gap h
    · exact snd_eq_of_pure h

end RestartPolicy

namespace Solver

/-- What stays the same through a run. -/
structure Frame (s s' : Solver T ω) : Prop where
  problem : s'.problem = s.problem
  settings : s'.settings = s.settings
  policy : s'.policy = s.policy
  solution : s'.solution = s.solution
  failureLimit : s'.gap.failureLimit = s.gap.failureLimit

/-- What stays the same while a solver only observes its iterates. -/
structure Observes (s s' : Solver T ω) : Prop extends Frame s s' where
  course : s.iterates.SameCourse s'.iterates
  restartSteps : s'.trajectory.restartSteps = s.trajectory.restartSteps

section Frames

variable {s s' s'' : Solver T ω}

theorem Frame.refl (s : Solver T ω) : Frame s s := ⟨rfl, rfl, rfl, rfl, rfl⟩

theorem Frame.trans (h : Frame s s') (h' : Frame s' s'') : Frame s s'' :=
  ⟨h'.problem.trans h.problem, h'.settings.trans h.settings, h'.policy.trans h.policy,
    h'.solution.trans h.solution, h'.failureLimit.trans h.failureLimit⟩

theorem Observes.refl (s : Solver T ω) : Observes s s := ⟨.refl s, .refl _, rfl⟩

theorem Observes.trans (h : Observes s s') (h' : Observes s' s'') : Observes s s'' :=
  ⟨h.toFrame.trans h'.toFrame, h.course.trans h'.course, h'.restartSteps.trans h.restartSteps⟩

/-- To write a report, to keep time and to take notes is to observe. -/
theorem observes_with {gap : GapEvaluator ω} {trajectory : Trajectory T} {report : Report T}
    {timers : Timers} (hlimit : gap.failureLimit = s.gap.failureLimit)
    (hsteps : trajectory.restartSteps = s.trajectory.restartSteps) :
    Observes s { s with gap, trajectory, report, timers } :=
  ⟨⟨rfl, rfl, rfl, rfl, hlimit⟩, rfl, hsteps⟩

theorem startTimer_observes (s : Solver T ω) (key : String) : Observes s (s.startTimer key) :=
  observes_with rfl rfl

theorem stopTimer_observes (s : Solver T ω) : Observes s s.stopTimer :=
  observes_with rfl rfl

theorem untimed_observes {print : Solver T ω → Except Fault (Report T)}
    (h : s.untimed print = .ok s') : Observes s s' := by
  unfold untimed at h
  obtain ⟨report, -, h⟩ := bind_eq_ok.mp h
  rw [← Except.ok.inj h]
  exact observes_with rfl rfl

theorem passNotice_observes (s : Solver T ω) : Observes s s.passNotice := by
  unfold passNotice
  dsimp only
  split
  · exact observes_with rfl rfl
  · exact observes_with rfl rfl

theorem passNotice_gap (s : Solver T ω) : s.passNotice.gap = s.gap.takeNotice.2 := by
  unfold passNotice
  dsimp only
  split
  · rfl
  · rfl

theorem append_restartSteps {t t' : Trajectory T} {i : Iterates T}
    (h : t.append i = .ok (.ok t')) : t'.restartSteps = t.restartSteps := by
  unfold Trajectory.append at h
  split at h
  · cases h
  · obtain ⟨step, -, h⟩ := bind_eq_ok.mp h
    rw [← Except.ok.inj (Except.ok.inj h)]

theorem record_observes (h : s.record = .ok s') : Observes s s' := by
  unfold record at h
  obtain ⟨appended, happend, h⟩ := bind_eq_ok.mp h
  cases appended with
  | error e =>
    rw [← Except.ok.inj h]
    exact observes_with rfl rfl
  | ok trajectory =>
    rw [← Except.ok.inj h]
    exact observes_with rfl (append_restartSteps happend)

theorem recordWhen_observes {onRecord : Bool} (h : s.recordWhen onRecord = .ok s') :
    Observes s s' := by
  unfold recordWhen at h
  split at h
  · exact record_observes h
  · rw [← Except.ok.inj h]
    exact .refl s

theorem recordRestart_observes (h : s.recordRestart = .ok s') : Observes s s' := by
  unfold recordRestart at h
  split at h
  · obtain ⟨step, -, h⟩ := bind_eq_ok.mp h
    obtain ⟨onRecord, -, h⟩ := bind_eq_ok.mp h
    exact recordWhen_observes h
  · rw [← Except.ok.inj h]
    exact .refl s

/-- A restart changes the iterates, and then only observes them. -/
theorem performRestart_observes (h : s.performRestart = .ok s') :
    ∃ iterates, s.iterates.restart = .ok iterates ∧ Observes { s with iterates } s' := by
  unfold performRestart at h
  obtain ⟨iterates, hrestart, h⟩ := bind_eq_ok.mp h
  exact ⟨iterates, hrestart, recordRestart_observes h⟩

/-- A run goes on only within the iterations allowed. -/
theorem outcome?_eq_none (h : s.outcome? = none) :
    s.iterates.terminate = false ∧ s.iterates.count ≤ s.settings.maxIterations := by
  unfold outcome? at h
  split at h
  · cases h
  · next hterminate =>
    split at h
    · cases h
    · next hcount => exact ⟨by simpa using hterminate, not_lt.mp hcount⟩

theorem outcome?_eq_some {status : SolverStatus} (h : s.outcome? = some status) :
    status = .solved ∧ s.iterates.terminate = true ∨
      status = .maxIterations ∧ s.settings.maxIterations < s.iterates.count := by
  unfold outcome? at h
  split at h
  · next hterminate => exact .inl ⟨(Option.some.inj h).symm, hterminate⟩
  · split at h
    · next hcount => exact .inr ⟨(Option.some.inj h).symm, hcount⟩
    · cases h

variable [Scalar T]

theorem printWhen_observes {onPrint : Bool} (h : s.printWhen onPrint = .ok s') :
    Observes s s' := by
  unfold printWhen at h
  split at h
  · exact untimed_observes h
  · rw [← Except.ok.inj h]
    exact .refl s

/-- A step changes the iterates and the timers. -/
theorem takeStep_frame (h : s.takeStep = .ok s') : Frame s s' ∧
    s.iterates.advance s.problem s.settings.stepSize s.settings.primalWeight = .ok s'.iterates ∧
    s'.trajectory = s.trajectory := by
  unfold takeStep at h
  obtain ⟨iterates, hadvance, h⟩ := bind_eq_ok.mp h
  rw [← Except.ok.inj h]
  exact ⟨⟨rfl, rfl, rfl, rfl, rfl⟩, hadvance, rfl⟩

theorem reset_eq_ok (h : s.reset = .ok s') :
    s'.iterates = .origin s.problem.primalDim s.problem.dualDim ∧
      s'.trajectory.restartSteps = #[] ∧
      Frame { s with solution := .unsolved s.problem.primalDim s.problem.dualDim } s' := by
  unfold reset at h
  obtain ⟨capacity, -, h⟩ := bind_eq_ok.mp h
  rw [← Except.ok.inj h]
  exact ⟨rfl, rfl, rfl, rfl, rfl, rfl, rfl⟩

theorem prepare_observes (h : s.prepare = .ok s') :
    ∃ fresh, s.reset = .ok fresh ∧ Observes fresh s' := by
  unfold prepare at h
  obtain ⟨fresh, hreset, h⟩ := bind_eq_ok.mp h
  obtain ⟨opened, hprint, h⟩ := bind_eq_ok.mp h
  have hopened : Observes fresh opened := untimed_observes hprint
  rw [← Except.ok.inj h]
  exact ⟨fresh, hreset, ⟨hopened.problem, hopened.settings, hopened.policy, hopened.solution,
    hopened.failureLimit⟩, hopened.course, hopened.restartSteps⟩

/-- What is made of the last moment keeps the state of the run. -/
theorem finish_keeps (h : s.finish = .ok s') : s'.problem = s.problem ∧
    s'.settings = s.settings ∧ s'.policy = s.policy ∧ s'.iterates = s.iterates ∧
    s'.gap = s.gap ∧ s'.trajectory = s.trajectory := by
  unfold finish at h
  obtain ⟨report, -, h⟩ := bind_eq_ok.mp h
  obtain ⟨solution, -, h⟩ := bind_eq_ok.mp h
  rw [← Except.ok.inj h]
  exact ⟨rfl, rfl, rfl, rfl, rfl, rfl⟩

variable [GapOracle ω T]

theorem evaluate_observes (h : s.evaluate = .ok s') : Observes s s' := by
  unfold evaluate at h
  obtain ⟨⟨iterates, gap⟩, hevaluate, h⟩ := bind_eq_ok.mp h
  have hlimit := Iterates.evaluate_stable (GapEvaluator.stable_failureLimit _ _) rfl hevaluate
  rw [← Except.ok.inj h]
  exact ⟨⟨rfl, rfl, rfl, rfl, hlimit⟩, Iterates.evaluate_sameCourse hevaluate, rfl⟩

theorem observe_observes (h : s.observe = .ok s') : Observes s s' := by
  unfold observe at h
  obtain ⟨k, -, h⟩ := bind_eq_ok.mp h
  obtain ⟨onRecord, -, h⟩ := bind_eq_ok.mp h
  obtain ⟨onPrint, -, h⟩ := bind_eq_ok.mp h
  split at h
  · unfold observeAs at h
    obtain ⟨evaluated, hevaluate, h⟩ := bind_eq_ok.mp h
    obtain ⟨recorded, hrecord, h⟩ := bind_eq_ok.mp h
    exact (startTimer_observes s _).trans <| (evaluate_observes hevaluate).trans <|
      (stopTimer_observes evaluated).trans <| (recordWhen_observes hrecord).trans <|
        printWhen_observes h
  · rw [← Except.ok.inj h]
    exact .refl s

theorem decideRestart_observes {fire : Bool} (h : s.decideRestart = .ok (fire, s')) :
    Observes s s' := by
  unfold decideRestart at h
  obtain ⟨⟨fire', gap⟩, hcheck, h⟩ := bind_eq_ok.mp h
  rw [snd_eq_of_pure h]
  exact observes_with
    (RestartPolicy.check_stable (GapEvaluator.stable_failureLimit _ _) rfl hcheck) rfl

/-- A pass is made of four operations, after which only the time and a notice are left. -/
theorem pass_eq_ok (h : s.pass = .ok s') : ∃ stepped observed fire decided settled,
    s.takeStep = .ok stepped ∧ stepped.observe = .ok observed ∧
      observed.decideRestart = .ok (fire, decided) ∧ decided.restartWhen fire = .ok settled ∧
      s' = settled.stopTimer.passNotice := by
  unfold Solver.pass considerRestart at h
  obtain ⟨stepped, hstep, h⟩ := bind_eq_ok.mp h
  obtain ⟨observed, hobserve, h⟩ := bind_eq_ok.mp h
  obtain ⟨restarted, hrestart, h⟩ := bind_eq_ok.mp h
  obtain ⟨⟨fire, decided⟩, hdecide, hrestart⟩ := bind_eq_ok.mp hrestart
  obtain ⟨settled, hsettle, hrestart⟩ := bind_eq_ok.mp hrestart
  obtain rfl := Except.ok.inj hrestart
  exact ⟨stepped, observed, fire, decided, settled, hstep, hobserve, hdecide, hsettle,
    (Except.ok.inj h).symm⟩

/-- The announcement of a restart notes its step. -/
theorem announceRestart_frame (h : s.announceRestart = .ok s') : Frame s s' ∧
    s.iterates.SameCourse s'.iterates ∧
    ∃ step, s'.trajectory.restartSteps = s.trajectory.restartSteps.push step := by
  unfold announceRestart at h
  obtain ⟨step, -, h⟩ := bind_eq_ok.mp h
  obtain ⟨evaluated, hevaluate, h⟩ := bind_eq_ok.mp h
  obtain ⟨report, -, h⟩ := bind_eq_ok.mp h
  obtain ⟨report', -, h⟩ := bind_eq_ok.mp h
  have hobserves := evaluate_observes hevaluate
  rw [← Except.ok.inj h]
  exact ⟨⟨hobserves.problem, hobserves.settings, hobserves.policy, hobserves.solution,
    hobserves.failureLimit⟩, hobserves.course, step, hobserves.restartSteps⟩

end Frames

end Solver

end PrimalDual
