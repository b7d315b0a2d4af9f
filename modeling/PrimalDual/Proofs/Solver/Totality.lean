import PrimalDual.Proofs.Report
import PrimalDual.Proofs.Solver.Frame

/-!
# The operations of a solver never fault

A solver is ready when its problem is accepted, its cadences have multiples, its iterates fit and
its evaluator can go on. Each operation of a pass then succeeds and leaves the solver ready; only
the counters of steps and restarts have to be kept in their words from outside.
-/
namespace PrimalDual

variable {T ω : Type} [Scalar T] {p : Problem T} {s : Iterates T} {settings : Settings T}

namespace Iterates

variable [GapOracle ω T] {gap : GapEvaluator ω} {good : ω → Prop}

theorem Fits.exists_gapOfEpoch (h : s.Fits p) (hgap : gap.Ready good)
    (hanswers : GapOracle.Answers p good) :
    ∃ value gap', s.gapOfEpoch p gap = .ok (value, gap') ∧ gap'.Ready good := by
  have hdist : Vector.dist s.point s.epochStart = .ok (Vector.distance s.point s.epochStart) :=
    Vector.dist_eq_ok (by rw [h.point, h.epochStart])
  obtain ⟨answer, gap', hevaluate, hready⟩ := hgap.exists_evaluate hanswers h.average
    (Vector.distance s.point s.epochStart + radiusShift)
  refine ⟨answer.toOption, gap', ?_, hready⟩
  unfold gapOfEpoch
  simp only [hdist, hevaluate, ok_bind, pure_eq_ok]

theorem Fits.exists_evaluate (hp : p.Accepted) (h : s.Fits p) (settings : Settings T)
    (hgap : gap.Ready good) (hanswers : GapOracle.Answers p good) :
    ∃ s' gap', s.evaluate p settings gap = .ok (s', gap') ∧ gap'.Ready good := by
  obtain ⟨error, herror⟩ := h.exists_kktError hp
  have hvalue : ∃ value gap', s.gapIfEnabled p settings gap = .ok (value, gap') ∧
      gap'.Ready good := by
    unfold gapIfEnabled
    split
    · exact h.exists_gapOfEpoch hgap hanswers
    · exact ⟨none, gap, rfl, hgap⟩
  obtain ⟨value, gap', hvalue, hready⟩ := hvalue
  unfold evaluate
  simp only [herror, hvalue, ok_bind, pure_eq_ok]
  exact ⟨_, gap', rfl, hready⟩

end Iterates

/-- The cadences of a run are not zero. -/
structure Settings.Paced (settings : Settings T) : Prop where
  restartLength : settings.restartLength ≠ 0
  evaluateEvery : settings.evaluateEvery ≠ 0
  recordEvery : settings.recordEvery ≠ 0
  printEvery : settings.printEvery ≠ 0

namespace RestartPolicy

variable [GapOracle ω T] {gap : GapEvaluator ω} {good : ω → Prop}

theorem exists_decayed (h : s.Fits p) (settings : Settings T) (hgap : gap.Ready good)
    (hanswers : GapOracle.Answers p good) {previous : List T}
    (hprevious : previous.length = p.primalDim + p.dualDim) :
    ∃ fire gap', decayed s previous p settings gap = .ok (fire, gap') ∧ gap'.Ready good := by
  have hepoch : Vector.dist s.average s.epochStart =
      .ok (Vector.distance s.average s.epochStart) :=
    Vector.dist_eq_ok (by rw [h.average, h.epochStart])
  have hbefore : Vector.dist s.epochStart previous =
      .ok (Vector.distance s.epochStart previous) :=
    Vector.dist_eq_ok (by rw [h.epochStart, hprevious])
  obtain ⟨now, gap₁, hnow, hready₁⟩ :=
    hgap.exists_evaluate hanswers h.average (Vector.distance s.average s.epochStart)
  obtain ⟨before, gap₂, hstart, hready₂⟩ :=
    hready₁.exists_evaluate hanswers h.epochStart (Vector.distance s.epochStart previous)
  unfold decayed
  simp only [hepoch, hbefore, hnow, ok_bind]
  cases now with
  | error err => exact ⟨false, gap₁, rfl, hready₁⟩
  | ok now =>
    simp only [hstart, ok_bind]
    cases before with
    | error err => exact ⟨false, gap₂, rfl, hready₂⟩
    | ok before => exact ⟨_, gap₂, rfl, hready₂⟩

theorem exists_checkAdaptive (h : s.Fits p) (hcount : s.count ≠ 0) (hpaced : settings.Paced)
    (hgap : gap.Ready good) (hanswers : GapOracle.Answers p good) :
    ∃ fire gap', checkAdaptive s p settings gap = .ok (fire, gap') ∧ gap'.Ready good := by
  unfold checkAdaptive
  simp only [Iterates.step_eq_ok hcount, Counter.onCadence_eq_ok _ hpaced.evaluateEvery, ok_bind]
  split
  · exact ⟨false, gap, rfl, hgap⟩
  · split
    · exact ⟨_, gap, rfl, hgap⟩
    · split
      · exact ⟨false, gap, rfl, hgap⟩
      · next previous hprevious =>
        exact exists_decayed h settings hgap hanswers (h.previousStart previous hprevious)

/-- Every policy comes to a decision. -/
theorem exists_check (policy : RestartPolicy) (h : s.Fits p) (hcount : s.count ≠ 0)
    (hpaced : settings.Paced) (hgap : gap.Ready good) (hanswers : GapOracle.Answers p good) :
    ∃ fire gap', policy.check s p settings gap = .ok (fire, gap') ∧ gap'.Ready good := by
  unfold check
  cases policy with
  | never => exact ⟨false, gap, rfl, hgap⟩
  | adaptive =>
    dsimp only
    split
    · exact exists_checkAdaptive h hcount hpaced hgap hanswers
    · exact ⟨false, gap, rfl, hgap⟩
  | fixed =>
    dsimp only
    split
    · unfold checkFixed
      simp only [Iterates.step_eq_ok hcount, Counter.onCadence_eq_ok _ hpaced.restartLength,
        ok_bind, pure_eq_ok]
      exact ⟨_, gap, rfl, hgap⟩
    · exact ⟨false, gap, rfl, hgap⟩

end RestartPolicy

namespace Solver

variable [GapOracle ω T] {good : ω → Prop} {s s' : Solver T ω}

/-- What a solver needs to go on without a fault. -/
structure Ready (good : ω → Prop) (s : Solver T ω) : Prop where
  accepted : s.problem.Accepted
  paced : s.settings.Paced
  answers : GapOracle.Answers s.problem good
  fits : s.iterates.Fits s.problem
  count : s.iterates.count ≠ 0
  gap : s.gap.Ready good

theorem Ready.of_observes (h : s.Ready good) (ho : Observes s s') (hgap : s'.gap.Ready good) :
    s'.Ready good where
  accepted := by rw [ho.problem]; exact h.accepted
  paced := by rw [ho.settings]; exact h.paced
  answers := by rw [ho.problem]; exact h.answers
  fits := by rw [ho.problem]; exact h.fits.of_sameCourse ho.course
  count := by rw [ho.course]; exact h.count
  gap := hgap

/-- A report, the time and notes make no difference to what comes next. -/
theorem Ready.ready_with (h : s.Ready good) {trajectory : Trajectory T} {report : Report T}
    {timers : Timers} : { s with trajectory, report, timers }.Ready good :=
  ⟨h.accepted, h.paced, h.answers, h.fits, h.count, h.gap⟩

theorem Ready.exists_takeStep (h : s.Ready good)
    (hepoch : s.iterates.epochLength + 1 < Counter.bound)
    (hcount : s.iterates.count + 1 < Counter.bound) :
    ∃ s', s.takeStep = .ok s' ∧ s'.Ready good := by
  obtain ⟨point, hadvance⟩ := h.fits.exists_advance h.accepted s.settings.stepSize
    s.settings.primalWeight hepoch hcount
  have hs : s.takeStep =
      .ok { s.startTimer "step" with iterates := s.iterates.movedTo point }.stopTimer := by
    simp only [takeStep, startTimer, hadvance, ok_bind, pure_eq_ok]
  refine ⟨_, hs, h.accepted, h.paced, h.answers, h.fits.of_advance hadvance, ?_, h.gap⟩
  exact Nat.succ_ne_zero s.iterates.count

theorem Ready.exists_evaluate (h : s.Ready good) :
    ∃ s', s.evaluate = .ok s' ∧ s'.Ready good := by
  obtain ⟨iterates, gap, hevaluate, hready⟩ :=
    h.fits.exists_evaluate h.accepted s.settings h.gap h.answers
  have hs : s.evaluate = .ok { s with iterates, gap } := by
    rw [evaluate, hevaluate]
    rfl
  exact ⟨_, hs, h.of_observes (evaluate_observes hs) hready⟩

theorem Ready.exists_record (h : s.Ready good) : ∃ s', s.record = .ok s' ∧ s'.Ready good := by
  have happend : ∃ appended, s.trajectory.append s.iterates = .ok appended := by
    unfold Trajectory.append
    split
    · exact ⟨_, rfl⟩
    · simp only [Iterates.step_eq_ok h.count, ok_bind, pure_eq_ok]
      exact ⟨_, rfl⟩
  obtain ⟨appended, happend⟩ := happend
  unfold record
  rw [happend, ok_bind]
  cases appended with
  | error e => exact ⟨_, rfl, h.ready_with⟩
  | ok trajectory => exact ⟨_, rfl, h.ready_with⟩

theorem Ready.exists_recordWhen (h : s.Ready good) (onRecord : Bool) :
    ∃ s', s.recordWhen onRecord = .ok s' ∧ s'.Ready good := by
  unfold recordWhen
  split
  · exact h.exists_record
  · exact ⟨s, rfl, h⟩

theorem Ready.exists_printWhen (h : s.Ready good) (onPrint : Bool) :
    ∃ s', s.printWhen onPrint = .ok s' ∧ s'.Ready good := by
  unfold printWhen untimed
  split
  · obtain ⟨report, hreport⟩ := Report.exists_printStatus s.report s.settings h.accepted h.fits
      h.count s.timers.suspend.now
    simp only [hreport, ok_bind, pure_eq_ok]
    exact ⟨_, rfl, h.ready_with⟩
  · exact ⟨s, rfl, h⟩

theorem Ready.exists_observe (h : s.Ready good) : ∃ s', s.observe = .ok s' ∧ s'.Ready good := by
  unfold observe
  simp only [Iterates.step_eq_ok h.count, Counter.onCadence_eq_ok _ h.paced.recordEvery,
    Counter.onCadence_eq_ok _ h.paced.printEvery, ok_bind]
  split
  · have hstarted : (s.startTimer "evaluate").Ready good :=
      h.of_observes (startTimer_observes s _) h.gap
    obtain ⟨evaluated, hevaluate, hready⟩ := hstarted.exists_evaluate
    have hstopped : evaluated.stopTimer.Ready good :=
      hready.of_observes (stopTimer_observes evaluated) hready.gap
    obtain ⟨recorded, hrecord, hready⟩ := hstopped.exists_recordWhen _
    obtain ⟨printed, hprint, hready⟩ := hready.exists_printWhen _
    refine ⟨printed, ?_, hready⟩
    rw [observeAs, hevaluate, ok_bind, hrecord, ok_bind, hprint]
  · exact ⟨s, rfl, h⟩

theorem Ready.exists_decideRestart (h : s.Ready good) :
    ∃ fire s', s.decideRestart = .ok (fire, s') ∧ s'.Ready good := by
  obtain ⟨fire, gap, hcheck, hready⟩ :=
    RestartPolicy.exists_check s.policy h.fits h.count h.paced h.gap h.answers
  have hs : s.decideRestart = .ok (fire, { s.startTimer "restart" with gap }) := by
    simp only [decideRestart, startTimer, hcheck, ok_bind, pure_eq_ok]
  exact ⟨fire, _, hs, h.of_observes (decideRestart_observes hs) hready⟩

theorem Ready.exists_announceRestart (h : s.Ready good)
    (hrestarts : s.iterates.restarts + 1 < Counter.bound) :
    ∃ s', s.announceRestart = .ok s' ∧ s'.Ready good := by
  set noted : Solver T ω :=
    { s with trajectory := s.trajectory.pushRestart (s.iterates.count - 1) } with hnoted
  have hready : noted.Ready good := h.ready_with
  obtain ⟨evaluated, hevaluate, hready⟩ := hready.exists_evaluate
  have hcourse := (evaluate_observes hevaluate).course
  have hbound : evaluated.iterates.restarts + 1 < Counter.bound := by
    rw [hcourse]
    exact hrestarts
  obtain ⟨report, hrestart⟩ :=
    evaluated.report.exists_printRestart evaluated.settings hready.count hbound
  obtain ⟨report', hstatus⟩ := report.exists_printStatus evaluated.settings hready.accepted
    hready.fits hready.count evaluated.timers.now
  have hs : s.announceRestart = .ok { evaluated with report := report' } := by
    simp only [announceRestart, Iterates.step_eq_ok h.count, ok_bind, ← hnoted, hevaluate,
      hrestart, hstatus, pure_eq_ok]
  exact ⟨_, hs, hready.ready_with⟩

theorem Ready.exists_performRestart (h : s.Ready good)
    (hrestarts : s.iterates.restarts + 1 < Counter.bound)
    (hcount : s.iterates.count + 1 < Counter.bound) :
    ∃ s', s.performRestart = .ok s' ∧ s'.Ready good := by
  have hrestart : s.iterates.restart = .ok s.iterates.restarted :=
    h.fits.restart_eq_ok_iff.mpr ⟨hrestarts, hcount, rfl⟩
  have hready : { s with iterates := s.iterates.restarted }.Ready good :=
    ⟨h.accepted, h.paced, h.answers, h.fits.restarted, Nat.succ_ne_zero s.iterates.count, h.gap⟩
  unfold performRestart
  rw [hrestart, ok_bind]
  unfold recordRestart
  split
  · simp only [Iterates.step_eq_ok hready.count, ok_bind,
      Counter.onCadence_eq_ok _ hready.paced.recordEvery]
    exact hready.exists_recordWhen _
  · exact ⟨_, rfl, hready⟩

theorem Ready.close (h : s.Ready good) : s.stopTimer.passNotice.Ready good := by
  refine h.of_observes ((stopTimer_observes s).trans (passNotice_observes _)) ?_
  rw [passNotice_gap]
  exact h.gap.takeNotice

end Solver

end PrimalDual
