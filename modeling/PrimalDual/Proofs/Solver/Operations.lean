import PrimalDual.Proofs.Solver.Moment

/-!
# What the operations of a solver do

For each operation of a pass, the parts of the solver that it replaces and where the new ones come
from. Facts about whole runs go through these lemmas, one operation at a time.
-/
namespace PrimalDual

theorem Counter.onCadence_eq_ok_iff {k every : ℕ} {b : Bool} :
    Counter.onCadence k every = .ok b ↔ every ≠ 0 ∧ b = (k % every == 0) := by
  by_cases h : every = 0
  · simp [Counter.onCadence, h]
  · simp [Counter.onCadence, h, eq_comm]

theorem RestartPolicy.checkFixed_eq_ok {T ω : Type} {s : Iterates T} {settings : Settings T}
    {gap gap' : GapEvaluator ω} {fire : Bool} {k : ℕ} (hk : s.step = .ok k)
    (h : checkFixed s settings gap = .ok (fire, gap')) :
    fire = (k % settings.restartLength == 0) := by
  unfold checkFixed at h
  rw [hk, ok_bind] at h
  obtain ⟨onCadence, hcadence, h⟩ := bind_eq_ok.mp h
  obtain ⟨-, rfl⟩ := Counter.onCadence_eq_ok_iff.mp hcadence
  exact (Prod.mk.inj (Except.ok.inj h)).1.symm

/-- Whether the iterates are observed at a step: one of the two cadences asks for it. -/
def Settings.OnCadence {T : Type} (settings : Settings T) (k : ℕ) : Prop :=
  k % settings.recordEvery = 0 ∨ k % settings.printEvery = 0

namespace Solver

variable {T ω : Type} {s s' : Solver T ω}

theorem printWhen_eq_ok [Scalar T] {onPrint : Bool} (h : s.printWhen onPrint = .ok s') :
    ∃ report timers, s' = { s with report, timers } := by
  unfold printWhen untimed at h
  split at h
  · obtain ⟨report, -, h⟩ := bind_eq_ok.mp h
    exact ⟨report, _, (Except.ok.inj h).symm⟩
  · exact ⟨s.report, s.timers, (Except.ok.inj h).symm⟩

theorem passNotice_eq (s : Solver T ω) :
    ∃ report, s.passNotice = { s with gap := s.gap.takeNotice.2, report } := by
  unfold passNotice
  dsimp only
  split
  · exact ⟨_, rfl⟩
  · exact ⟨s.report, rfl⟩

/-- The end of a pass leaves the iterates alone. -/
theorem passNotice_iterates (s : Solver T ω) : s.stopTimer.passNotice.iterates = s.iterates := by
  obtain ⟨report, h⟩ := passNotice_eq s.stopTimer
  rw [h]
  rfl

/-- A record is kept, or refused by a trajectory that is full. -/
theorem record_eq_ok (h : s.record = .ok s') :
    ∃ trajectory report, s' = { s with trajectory, report } ∧
      (s.trajectory.append s.iterates = .ok (.ok trajectory) ∨
        (∃ e, s.trajectory.append s.iterates = .ok (.error e)) ∧ trajectory = s.trajectory) := by
  unfold record at h
  obtain ⟨appended, happend, h⟩ := bind_eq_ok.mp h
  cases appended with
  | error e => exact ⟨_, _, (Except.ok.inj h).symm, .inr ⟨⟨e, happend⟩, rfl⟩⟩
  | ok trajectory => exact ⟨trajectory, s.report, (Except.ok.inj h).symm, .inl happend⟩

theorem recordWhen_eq_ok {onRecord : Bool} (h : s.recordWhen onRecord = .ok s') :
    ∃ trajectory report, s' = { s with trajectory, report } := by
  unfold recordWhen at h
  split at h
  · obtain ⟨trajectory, report, hs, -⟩ := record_eq_ok h
    exact ⟨trajectory, report, hs⟩
  · exact ⟨s.trajectory, s.report, (Except.ok.inj h).symm⟩

theorem recordRestart_eq_ok (h : s.recordRestart = .ok s') :
    s.policy.recordsAfterRestart = false ∧ s' = s ∨
      s.policy.recordsAfterRestart = true ∧ ∃ k, s.iterates.step = .ok k ∧
        s.settings.recordEvery ≠ 0 ∧ s.recordWhen (k % s.settings.recordEvery == 0) = .ok s' := by
  unfold recordRestart at h
  split at h
  · next hpolicy =>
    obtain ⟨k, hstep, h⟩ := bind_eq_ok.mp h
    obtain ⟨onRecord, hcadence, h⟩ := bind_eq_ok.mp h
    obtain ⟨hrecord, rfl⟩ := Counter.onCadence_eq_ok_iff.mp hcadence
    exact .inr ⟨hpolicy, k, hstep, hrecord, h⟩
  · next hpolicy => exact .inl ⟨by simpa using hpolicy, (Except.ok.inj h).symm⟩

theorem performRestart_eq_ok (h : s.performRestart = .ok s') :
    ∃ iterates, s.iterates.restart = .ok iterates ∧
      { s with iterates }.recordRestart = .ok s' :=
  bind_eq_ok.mp h

theorem performRestart_gap (h : s.performRestart = .ok s') : s'.gap = s.gap := by
  obtain ⟨iterates, -, hrecord⟩ := performRestart_eq_ok h
  rcases recordRestart_eq_ok hrecord with ⟨-, rfl⟩ | ⟨-, k, -, -, hrecord⟩
  · rfl
  · obtain ⟨trajectory, report, rfl⟩ := recordWhen_eq_ok hrecord
    rfl

variable [Scalar T]

theorem takeStep_eq_ok (h : s.takeStep = .ok s') :
    ∃ iterates timers,
      s.iterates.advance s.problem s.settings.stepSize s.settings.primalWeight = .ok iterates ∧
        s' = { s with iterates, timers } := by
  unfold takeStep at h
  obtain ⟨iterates, hadvance, h⟩ := bind_eq_ok.mp h
  exact ⟨iterates, _, hadvance, (Except.ok.inj h).symm⟩

/-- What a run starts with. -/
theorem prepare_eq_ok (h : s.prepare = .ok s') :
    ∃ capacity report timers, s.settings.recordCapacity = .ok capacity ∧
      s' = { s with
        iterates := .origin s.problem.primalDim s.problem.dualDim
        trajectory := .withCapacity capacity
        gap := s.gap.reset
        solution := .unsolved s.problem.primalDim s.problem.dualDim
        report
        timers } := by
  unfold prepare reset printOpening untimed at h
  obtain ⟨fresh, hfresh, h⟩ := bind_eq_ok.mp h
  obtain ⟨capacity, hcapacity, hfresh⟩ := bind_eq_ok.mp hfresh
  obtain rfl := Except.ok.inj hfresh
  obtain ⟨opened, hopened, h⟩ := bind_eq_ok.mp h
  obtain ⟨report, -, hopened⟩ := bind_eq_ok.mp hopened
  obtain rfl := Except.ok.inj hopened
  exact ⟨capacity, _, _, hcapacity, (Except.ok.inj h).symm⟩

/-- The solution is read off the last iterates. -/
theorem finish_eq_ok (h : s.finish = .ok s') :
    s.iterates.primal = .ok s'.solution.primal ∧ s.iterates.dual = .ok s'.solution.dual ∧
      s.iterates.step = .ok s'.solution.iterations ∧
      s'.solution.restarts = s.iterates.restarts ∧
      s'.solution.diagnostics = s.iterates.diagnostics ∧
      s'.solution.status = s.report.status := by
  unfold finish at h
  obtain ⟨report, hreport, h⟩ := bind_eq_ok.mp h
  obtain ⟨solution, hsolution, h⟩ := bind_eq_ok.mp h
  obtain rfl := Except.ok.inj h
  obtain ⟨k, hstep, hreport⟩ := bind_eq_ok.mp hreport
  obtain rfl := Except.ok.inj hreport
  simp only [Solution.finalize, bind_eq_ok, Vector.copyOnto_eq_ok_iff] at hsolution
  obtain ⟨_, hprimal, _, ⟨-, rfl⟩, _, hdual, _, ⟨-, rfl⟩, _, -, _, -, hsolution⟩ := hsolution
  obtain rfl := Except.ok.inj hsolution
  exact ⟨hprimal, hdual, hstep, rfl, rfl, rfl⟩

variable [GapOracle ω T]

theorem evaluate_eq_ok (h : s.evaluate = .ok s') :
    ∃ iterates gap, s.iterates.evaluate s.problem s.settings s.gap = .ok (iterates, gap) ∧
      s' = { s with iterates, gap } := by
  unfold evaluate at h
  obtain ⟨⟨iterates, gap⟩, hevaluate, h⟩ := bind_eq_ok.mp h
  exact ⟨iterates, gap, hevaluate, (Except.ok.inj h).symm⟩

/-- An evaluation may tell a run to end, and never tells it to go on. -/
theorem evaluate_terminate (h : s.evaluate = .ok s') : s'.iterates.terminate =
    (s.iterates.terminate ||
      Iterates.converged s.settings s'.gap.disabled s'.iterates.diagnostics) := by
  obtain ⟨iterates, gap, hevaluate, rfl⟩ := evaluate_eq_ok h
  obtain ⟨error, -, hevaluate⟩ := bind_eq_ok.mp hevaluate
  obtain ⟨⟨value, e⟩, -, hevaluate⟩ := bind_eq_ok.mp hevaluate
  obtain ⟨rfl, rfl⟩ := Prod.mk.inj (Except.ok.inj hevaluate)
  rfl

/-- Off both cadences nothing happens; on one of them there is an evaluation, and a record and a
text as asked. -/
theorem observe_eq_ok (h : s.observe = .ok s') :
    ∃ k, s.iterates.step = .ok k ∧ s.settings.recordEvery ≠ 0 ∧ s.settings.printEvery ≠ 0 ∧
      (¬ s.settings.OnCadence k ∧ s' = s ∨
        s.settings.OnCadence k ∧ ∃ evaluated recorded,
          (s.startTimer "evaluate").evaluate = .ok evaluated ∧
          evaluated.stopTimer.recordWhen (k % s.settings.recordEvery == 0) = .ok recorded ∧
          recorded.printWhen (k % s.settings.printEvery == 0) = .ok s') := by
  unfold observe at h
  obtain ⟨k, hstep, h⟩ := bind_eq_ok.mp h
  obtain ⟨onRecord, hcadence, h⟩ := bind_eq_ok.mp h
  obtain ⟨hrecord, rfl⟩ := Counter.onCadence_eq_ok_iff.mp hcadence
  obtain ⟨onPrint, hcadence, h⟩ := bind_eq_ok.mp h
  obtain ⟨hprint, rfl⟩ := Counter.onCadence_eq_ok_iff.mp hcadence
  refine ⟨k, hstep, hrecord, hprint, ?_⟩
  split at h
  · next hdue =>
    unfold observeAs at h
    obtain ⟨evaluated, hevaluate, h⟩ := bind_eq_ok.mp h
    obtain ⟨recorded, hrecorded, h⟩ := bind_eq_ok.mp h
    exact .inr ⟨by simpa [Settings.OnCadence] using hdue, evaluated, recorded, hevaluate,
      hrecorded, h⟩
  · next hdue =>
    exact .inl ⟨by simpa [Settings.OnCadence] using hdue, (Except.ok.inj h).symm⟩

theorem decideRestart_eq_ok {fire : Bool} (h : s.decideRestart = .ok (fire, s')) :
    ∃ gap timers, s.policy.check s.iterates s.problem s.settings s.gap = .ok (fire, gap) ∧
      s' = { s with gap, timers } := by
  unfold decideRestart at h
  obtain ⟨⟨fire', gap⟩, hcheck, h⟩ := bind_eq_ok.mp h
  obtain ⟨rfl, rfl⟩ := Prod.mk.inj (Except.ok.inj h)
  exact ⟨gap, _, hcheck, rfl⟩

theorem announceRestart_eq_ok (h : s.announceRestart = .ok s') :
    ∃ k evaluated report, s.iterates.step = .ok k ∧
      { s with trajectory := s.trajectory.pushRestart k }.evaluate = .ok evaluated ∧
      s' = { evaluated with report } := by
  unfold announceRestart at h
  obtain ⟨k, hstep, h⟩ := bind_eq_ok.mp h
  obtain ⟨evaluated, hevaluate, h⟩ := bind_eq_ok.mp h
  obtain ⟨report, -, h⟩ := bind_eq_ok.mp h
  obtain ⟨report', -, h⟩ := bind_eq_ok.mp h
  exact ⟨k, evaluated, report', hstep, hevaluate, (Except.ok.inj h).symm⟩

/-- What holds of the evaluator at the start, and survives queries and the notice, holds of it at
every moment. -/
theorem Moment.gap_induction {s₀ : Solver T ω} {stage : Stage} {S n : ℕ}
    {P : GapEvaluator ω → Prop} (reset : P s₀.gap.reset)
    (query : GapEvaluator.Stable s₀.problem P) (notice : ∀ gap, P gap → P gap.takeNotice.2)
    (h : Moment s₀ stage S n s) : P s.gap := by
  induction h with
  | begin hs =>
    obtain ⟨capacity, report, timers, -, rfl⟩ := prepare_eq_ok hs
    exact reset
  | step _ hs ih =>
    obtain ⟨iterates, timers, -, rfl⟩ := takeStep_eq_ok hs
    exact ih
  | @observe S n stepped _ h hs ih =>
    have hproblem : stepped.problem = s₀.problem := h.course.frame.problem
    obtain ⟨k, -, -, -, ⟨-, rfl⟩ | ⟨-, evaluated, recorded, hevaluate, hrecord, hprint⟩⟩ :=
      observe_eq_ok hs
    · exact ih
    · obtain ⟨trajectory, report, rfl⟩ := recordWhen_eq_ok hrecord
      obtain ⟨report, timers, rfl⟩ := printWhen_eq_ok hprint
      obtain ⟨iterates, gap, hfound, rfl⟩ := evaluate_eq_ok hevaluate
      exact Iterates.evaluate_stable (hproblem ▸ query) ih hfound
  | @decide S n observed _ _ h hs ih =>
    have hproblem : observed.problem = s₀.problem := h.course.frame.problem
    obtain ⟨gap, timers, hcheck, rfl⟩ := decideRestart_eq_ok hs
    exact RestartPolicy.check_stable (hproblem ▸ query) ih hcheck
  | @announce S n decided _ h hs ih =>
    have hproblem : decided.problem = s₀.problem := h.course.frame.problem
    obtain ⟨k, evaluated, report, -, hevaluate, rfl⟩ := announceRestart_eq_ok hs
    obtain ⟨iterates, gap, hfound, rfl⟩ := evaluate_eq_ok hevaluate
    exact Iterates.evaluate_stable (hproblem ▸ query) ih hfound
  | restart _ hs ih =>
    rw [performRestart_gap hs]
    exact ih
  | keep _ ih => exact ih
  | close _ ih =>
    rw [passNotice_gap]
    exact notice _ ih
  | again _ _ ih => exact ih
  | stop _ _ ih => exact ih

/-- A pass closes without a restart or after one. -/
theorem Moment.closed_cases {s₀ : Solver T ω} {S n : ℕ} (h : Moment s₀ .closed S n s) :
    ∃ settled, s.iterates = settled.iterates ∧ s.gap = settled.gap.takeNotice.2 ∧
      (Moment s₀ (.decided false) S n settled ∨
        ∃ n' announced, n = n' + 1 ∧ Moment s₀ .announced S n' announced ∧
          announced.performRestart = .ok settled) := by
  cases h with
  | @close _ _ settled h =>
    obtain ⟨report, hclosed⟩ := passNotice_eq (stopTimer settled)
    rw [hclosed]
    refine ⟨settled, rfl, rfl, ?_⟩
    cases h with
    | restart h hs => exact .inr ⟨_, _, rfl, h, hs⟩
    | keep h => exact .inl h

/-- While the gap is neither wanted nor given up, an evaluation has no consequences. -/
theorem evaluate_off (h : s.evaluate = .ok s') (hoff : s.settings.gapEnabled = false)
    (hdisabled : s.gap.disabled = false) :
    s'.gap = s.gap ∧ s'.iterates.terminate = s.iterates.terminate := by
  obtain ⟨iterates, gap, hevaluate, rfl⟩ := evaluate_eq_ok h
  obtain ⟨error, -, hevaluate⟩ := bind_eq_ok.mp hevaluate
  obtain ⟨⟨value, e⟩, hvalue, hevaluate⟩ := bind_eq_ok.mp hevaluate
  obtain ⟨rfl, rfl⟩ := Prod.mk.inj (Except.ok.inj hevaluate)
  unfold Iterates.gapIfEnabled at hvalue
  rw [hoff, if_neg (by simp)] at hvalue
  obtain ⟨rfl, rfl⟩ := Prod.mk.inj (Except.ok.inj hvalue)
  refine ⟨rfl, ?_⟩
  simp [Iterates.converged, hdisabled]

theorem observe_off (h : s.observe = .ok s') (hoff : s.settings.gapEnabled = false)
    (hdisabled : s.gap.disabled = false) :
    s'.gap = s.gap ∧ s'.iterates.terminate = s.iterates.terminate := by
  obtain ⟨k, -, -, -, ⟨-, rfl⟩ | ⟨-, evaluated, recorded, hevaluate, hrecord, hprint⟩⟩ :=
    observe_eq_ok h
  · exact ⟨rfl, rfl⟩
  · obtain ⟨trajectory, report, rfl⟩ := recordWhen_eq_ok hrecord
    obtain ⟨report, timers, rfl⟩ := printWhen_eq_ok hprint
    have hevaluated := evaluate_off hevaluate hoff hdisabled
    exact hevaluated

theorem announceRestart_off (h : s.announceRestart = .ok s') (hoff : s.settings.gapEnabled = false)
    (hdisabled : s.gap.disabled = false) :
    s'.gap = s.gap ∧ s'.iterates.terminate = s.iterates.terminate := by
  obtain ⟨k, evaluated, report, -, hevaluate, rfl⟩ := announceRestart_eq_ok h
  have hevaluated := evaluate_off hevaluate hoff hdisabled
  exact hevaluated

variable {s₀ : Solver T ω} {fire : Bool} {S n : ℕ}

theorem Moment.decided_never (h : Moment s₀ (.decided fire) S n s)
    (hpolicy : s₀.policy = .never) : fire = false := by
  cases h with
  | decide h hs =>
    obtain ⟨gap, timers, hcheck, -⟩ := decideRestart_eq_ok hs
    have hnever := h.course.frame.policy.trans hpolicy
    rw [hnever] at hcheck
    exact (Prod.mk.inj (Except.ok.inj hcheck)).1.symm

/-- The fixed policy restarts at the multiples of its period. -/
theorem Moment.decided_fixed (h : Moment s₀ (.decided fire) S n s)
    (hpolicy : s₀.policy = .fixed) (henabled : s₀.settings.restartEnabled = true) :
    fire = ((S + n) % s₀.settings.restartLength == 0) := by
  cases h with
  | decide h hs =>
    obtain ⟨gap, timers, hcheck, -⟩ := decideRestart_eq_ok hs
    have hfixed := h.course.frame.policy.trans hpolicy
    rw [hfixed, h.course.frame.settings] at hcheck
    dsimp only [RestartPolicy.check] at hcheck
    rw [if_pos henabled] at hcheck
    exact RestartPolicy.checkFixed_eq_ok h.step_eq hcheck

/-- The first epoch of the adaptive policy ends by its length. -/
theorem Moment.decideRestart_first (h : Moment s₀ .observed S 0 s) (hpolicy : s₀.policy = .adaptive)
    (henabled : s₀.settings.restartEnabled = true) (hs : s.decideRestart = .ok (fire, s')) :
    s'.gap = s.gap ∧ fire = (S % s₀.settings.evaluateEvery == 0 &&
      s₀.settings.firstEpochLength ≤ s.iterates.epochLength) := by
  obtain ⟨gap, timers, hcheck, rfl⟩ := decideRestart_eq_ok hs
  have hadaptive := h.course.frame.policy.trans hpolicy
  rw [hadaptive, h.course.frame.settings] at hcheck
  dsimp only [RestartPolicy.check] at hcheck
  rw [if_pos henabled] at hcheck
  obtain ⟨k, hk, hcheck⟩ := bind_eq_ok.mp hcheck
  obtain rfl := ok_unique h.step_eq hk
  obtain ⟨onCadence, hcadence, hcheck⟩ := bind_eq_ok.mp hcheck
  obtain ⟨-, rfl⟩ := Counter.onCadence_eq_ok_iff.mp hcadence
  rw [if_pos h.course.restarts, add_zero] at hcheck
  split at hcheck
  · next hoff =>
    obtain ⟨rfl, rfl⟩ := Prod.mk.inj (Except.ok.inj hcheck)
    simp only [Bool.not_eq_true'] at hoff
    rw [hoff]
    exact ⟨rfl, rfl⟩
  · next hon =>
    obtain ⟨rfl, rfl⟩ := Prod.mk.inj (Except.ok.inj hcheck)
    simp only [Bool.not_eq_true', Bool.not_eq_false] at hon
    rw [hon]
    exact ⟨rfl, rfl⟩

end Solver

end PrimalDual
