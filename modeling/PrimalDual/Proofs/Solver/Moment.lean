import PrimalDual.Proofs.Solver.Frame

/-!
# The moments of a run

The states that a run goes through between its operations, with the numbers of steps and of restarts
made so far. What the counters and the record hold at each moment follows from these two numbers.
-/
namespace PrimalDual.Solver

variable {T ω : Type} [Scalar T]

/-- The places between the operations of the main loop. -/
inductive Stage where
  | head
  | stepped
  | observed
  | decided (fire : Bool)
  | announced
  | settled
  | closed
  | ended
  deriving DecidableEq

/-- The moments of the run that starts at `s₀`, after a number of steps and of restarts. -/
inductive Moment [GapOracle ω T] (s₀ : Solver T ω) : Stage → ℕ → ℕ → Solver T ω → Prop
  | begin {s : Solver T ω} : s₀.prepare = .ok s → Moment s₀ .head 0 0 s
  | step {S n : ℕ} {s s' : Solver T ω} :
    Moment s₀ .head S n s → s.takeStep = .ok s' → Moment s₀ .stepped (S + 1) n s'
  | observe {S n : ℕ} {s s' : Solver T ω} :
    Moment s₀ .stepped S n s → s.observe = .ok s' → Moment s₀ .observed S n s'
  | decide {S n : ℕ} {s s' : Solver T ω} {fire : Bool} :
    Moment s₀ .observed S n s → s.decideRestart = .ok (fire, s') →
      Moment s₀ (.decided fire) S n s'
  | announce {S n : ℕ} {s s' : Solver T ω} :
    Moment s₀ (.decided true) S n s → s.announceRestart = .ok s' → Moment s₀ .announced S n s'
  | restart {S n : ℕ} {s s' : Solver T ω} :
    Moment s₀ .announced S n s → s.performRestart = .ok s' → Moment s₀ .settled S (n + 1) s'
  | keep {S n : ℕ} {s : Solver T ω} : Moment s₀ (.decided false) S n s → Moment s₀ .settled S n s
  | close {S n : ℕ} {s : Solver T ω} :
    Moment s₀ .settled S n s → Moment s₀ .closed S n s.stopTimer.passNotice
  | again {S n : ℕ} {s : Solver T ω} :
    Moment s₀ .closed S n s → s.outcome? = none → Moment s₀ .head S n s
  | stop {S n : ℕ} {s : Solver T ω} {status : SolverStatus} :
    Moment s₀ .closed S n s → s.outcome? = some status →
      Moment s₀ .ended S n { s with report := { s.report with status } }

namespace Stage

/-- By how much the steps lead the restarts at least: a restart follows the step of its pass. -/
def lead : Stage → ℕ
  | .stepped | .observed | .decided _ | .announced => 1
  | .head | .settled | .closed | .ended => 0

/-- The restarts noted and not yet carried out. -/
def pending : Stage → ℕ
  | .announced => 1
  | _ => 0

end Stage

/-- What is known of a solver at a moment of the run from `s₀`. -/
structure Course (s₀ : Solver T ω) (stage : Stage) (S n : ℕ) (s : Solver T ω) : Prop where
  frame : Frame { s₀ with solution := .unsolved s₀.problem.primalDim s₀.problem.dualDim } s
  fits : s.iterates.Fits s₀.problem
  count : s.iterates.count = S + n + 1
  restarts : s.iterates.restarts = n
  epochLength : s.iterates.epochLength ≤ S
  restartSteps : s.trajectory.restartSteps.size = n + stage.pending
  lead : n + stage.lead ≤ S
  begun : stage = .head ∨ 1 ≤ S

variable {s₀ s s' : Solver T ω} {stage stage' : Stage} {S n : ℕ}

theorem Course.of_observes (h : Course s₀ stage S n s) (ho : Observes s s')
    (hpending : stage'.pending = stage.pending) (hlead : stage'.lead ≤ stage.lead)
    (hbegun : stage' = .head ∨ 1 ≤ S) : Course s₀ stage' S n s' where
  frame := h.frame.trans ho.toFrame
  fits := h.fits.of_sameCourse ho.course
  count := by rw [ho.course]; exact h.count
  restarts := by rw [ho.course]; exact h.restarts
  epochLength := by rw [ho.course]; exact h.epochLength
  restartSteps := by rw [ho.restartSteps, hpending]; exact h.restartSteps
  lead := (Nat.add_le_add_left hlead n).trans h.lead
  begun := hbegun

theorem reset_course (h : s₀.reset = .ok s) : Course s₀ .head 0 0 s := by
  obtain ⟨hiterates, hsteps, hframe⟩ := reset_eq_ok h
  exact
    { frame := hframe
      fits := by rw [hiterates]; exact Iterates.fits_origin _
      count := by rw [hiterates]; rfl
      restarts := by rw [hiterates]; rfl
      epochLength := by rw [hiterates]; exact le_rfl
      restartSteps := by rw [hsteps]; rfl
      lead := le_rfl
      begun := .inl rfl }

theorem Course.step (h : Course s₀ .head S n s) (hs : s.takeStep = .ok s') :
    Course s₀ .stepped (S + 1) n s' := by
  obtain ⟨hframe, hadvance, htrajectory⟩ := takeStep_frame hs
  rw [h.frame.problem] at hadvance
  obtain ⟨point, -, hpoint, -, -, hmoved⟩ := h.fits.advance_eq_ok_iff.mp hadvance
  exact
    { frame := h.frame.trans hframe
      fits := h.fits.of_advance hadvance
      count := by
        have hcount := h.count
        rw [hmoved]
        change s.iterates.count + 1 = _
        omega
      restarts := by rw [hmoved]; exact h.restarts
      epochLength := by rw [hmoved]; exact Nat.succ_le_succ h.epochLength
      restartSteps := by rw [htrajectory]; exact h.restartSteps
      lead := Nat.succ_le_succ h.lead
      begun := .inr (Nat.le_add_left 1 S) }

theorem Course.restart (h : Course s₀ .announced S n s) (hs : s.performRestart = .ok s') :
    Course s₀ .settled S (n + 1) s' := by
  obtain ⟨iterates, hrestart, hobserves⟩ := performRestart_observes hs
  obtain ⟨-, -, rfl⟩ := h.fits.restart_eq_ok_iff.mp hrestart
  have hrestarted : Course s₀ .settled S (n + 1) { s with iterates := s.iterates.restarted } :=
    { frame := ⟨h.frame.problem, h.frame.settings, h.frame.policy, h.frame.solution,
        h.frame.failureLimit⟩
      fits := h.fits.restarted
      count := by
        have hcount := h.count
        change s.iterates.count + 1 = _
        omega
      restarts := congrArg (· + 1) h.restarts
      epochLength := Nat.zero_le S
      restartSteps := h.restartSteps
      lead := h.lead
      begun := .inr (Nat.le_of_add_left_le h.lead) }
  exact hrestarted.of_observes hobserves rfl le_rfl hrestarted.begun

variable [GapOracle ω T]

theorem Course.announce (h : Course s₀ (.decided true) S n s) (hs : s.announceRestart = .ok s') :
    Course s₀ .announced S n s' := by
  obtain ⟨hframe, hcourse, step, hsteps⟩ := announceRestart_frame hs
  exact
    { frame := h.frame.trans hframe
      fits := h.fits.of_sameCourse hcourse
      count := by rw [hcourse]; exact h.count
      restarts := by rw [hcourse]; exact h.restarts
      epochLength := by rw [hcourse]; exact h.epochLength
      restartSteps := by
        rw [hsteps, Array.size_push, h.restartSteps]
        rfl
      lead := h.lead
      begun := .inr (Nat.le_of_add_left_le h.lead) }

/-- The course of a run. -/
theorem Moment.course (h : Moment s₀ stage S n s) : Course s₀ stage S n s := by
  induction h with
  | begin hs =>
    obtain ⟨fresh, hreset, hobserves⟩ := prepare_observes hs
    exact (reset_course hreset).of_observes hobserves rfl le_rfl (.inl rfl)
  | step _ hs ih => exact ih.step hs
  | observe _ hs ih =>
    exact ih.of_observes (observe_observes hs) rfl le_rfl (by simpa using ih.begun)
  | decide _ hs ih =>
    exact ih.of_observes (decideRestart_observes hs) rfl le_rfl (by simpa using ih.begun)
  | announce _ hs ih => exact ih.announce hs
  | restart _ hs ih => exact ih.restart hs
  | keep _ ih => exact ih.of_observes (.refl _) rfl (Nat.zero_le 1) (by simpa using ih.begun)
  | close _ ih =>
    exact ih.of_observes ((stopTimer_observes _).trans (passNotice_observes _)) rfl le_rfl
      (by simpa using ih.begun)
  | again _ _ ih => exact ih.of_observes (.refl _) rfl le_rfl (.inl rfl)
  | stop _ _ ih =>
    exact ih.of_observes (observes_with rfl rfl) rfl le_rfl (by simpa using ih.begun)

theorem Moment.step_eq (h : Moment s₀ stage S n s) : s.iterates.step = .ok (S + n) := by
  rw [Iterates.step, h.course.count, Counter.previous_succ]

/-- A run has only one moment without a step. -/
theorem Moment.head_zero (h : Moment s₀ .head 0 n s) : n = 0 ∧ s₀.prepare = .ok s := by
  cases h with
  | begin hs => exact ⟨rfl, hs⟩
  | again h _ =>
    have hbegun := h.course.begun
    simp at hbegun

/-- What holds of the origin, and survives steps, restarts and evaluations, holds of the iterates at
every moment. -/
theorem Moment.iterates_induction {P : Iterates T → Prop}
    (origin : P (.origin s₀.problem.primalDim s₀.problem.dualDim))
    (advance : ∀ i i', i.Fits s₀.problem → P i →
      i.advance s₀.problem s₀.settings.stepSize s₀.settings.primalWeight = .ok i' → P i')
    (restart : ∀ i i', i.Fits s₀.problem → P i → i.restart = .ok i' → P i')
    (course : ∀ i i', i.SameCourse i' → P i → P i') (h : Moment s₀ stage S n s) :
    P s.iterates := by
  induction h with
  | begin hs =>
    obtain ⟨fresh, hreset, hobserves⟩ := prepare_observes hs
    refine course _ _ hobserves.course ?_
    rw [(reset_eq_ok hreset).1]
    exact origin
  | step h hs ih =>
    have hcourse := h.course
    obtain ⟨-, hadvance, -⟩ := takeStep_frame hs
    rw [hcourse.frame.problem, hcourse.frame.settings] at hadvance
    exact advance _ _ hcourse.fits ih hadvance
  | observe _ hs ih => exact course _ _ (observe_observes hs).course ih
  | decide _ hs ih => exact course _ _ (decideRestart_observes hs).course ih
  | announce _ hs ih => exact course _ _ (announceRestart_frame hs).2.1 ih
  | restart h hs ih =>
    obtain ⟨iterates, hrestart, hobserves⟩ := performRestart_observes hs
    exact course _ _ hobserves.course (restart _ _ h.course.fits ih hrestart)
  | keep _ ih => exact ih
  | close _ ih =>
    exact course _ _ ((stopTimer_observes _).trans (passNotice_observes _)).course ih
  | again _ _ ih => exact ih
  | stop _ _ ih => exact ih

/-- After a restart there is a previous epoch. -/
theorem Moment.exists_previousStart (h : Moment s₀ stage S n s) (hn : n ≠ 0) :
    ∃ previous, s.iterates.previousStart = some previous := by
  refine h.iterates_induction
    (P := fun i => i.restarts ≠ 0 → ∃ previous, i.previousStart = some previous) ?_ ?_ ?_ ?_
    (by rw [h.course.restarts]; exact hn)
  · exact fun hzero => (hzero rfl).elim
  · intro i i' hfits hi hs
    obtain ⟨point, -, -, -, -, rfl⟩ := hfits.advance_eq_ok_iff.mp hs
    exact hi
  · intro i i' hfits _ hs _
    obtain ⟨-, -, rfl⟩ := hfits.restart_eq_ok_iff.mp hs
    exact ⟨i.epochStart, rfl⟩
  · intro i i' hs hi
    rw [hs]
    exact hi

/-- After the first pass there is a next one only within the iterations allowed. -/
theorem Moment.count_le (h : Moment s₀ .head S n s) (hS : 1 ≤ S) :
    S + n + 1 ≤ s₀.settings.maxIterations := by
  cases h with
  | begin _ => omega
  | again hclosed houtcome =>
    have hcourse := hclosed.course
    rw [← hcourse.count, ← hcourse.frame.settings]
    exact (outcome?_eq_none houtcome).2

/-- Every step but the last belongs to a pass after which the run goes on. -/
theorem Moment.exists_closed {k : ℕ} (h : Moment s₀ stage S n s) (hk : 1 ≤ k) (hlt : k < S) :
    ∃ n' s', Moment s₀ .closed k n' s' ∧ s'.outcome? = none := by
  induction h with
  | begin _ => omega
  | @step S n s s' h _ ih =>
    rcases Nat.lt_succ_iff_lt_or_eq.mp hlt with hlt | rfl
    · exact ih hlt
    · cases h with
      | begin _ => omega
      | again hclosed houtcome => exact ⟨n, s, hclosed, houtcome⟩
  | observe _ _ ih | decide _ _ ih | announce _ _ ih | restart _ _ ih | keep _ ih | close _ ih
  | again _ _ ih | stop _ _ ih => exact ih hlt

/-- A pass makes one step and at most one restart. -/
theorem Moment.pass (h : Moment s₀ .head S n s) (hs : s.pass = .ok s') :
    ∃ n', n' ≤ n + 1 ∧ Moment s₀ .closed (S + 1) n' s' := by
  obtain ⟨stepped, observed, fire, decided, settled, hstep, hobserve, hdecide, hsettle, rfl⟩ :=
    pass_eq_ok hs
  have hdecided := ((h.step hstep).observe hobserve).decide hdecide
  cases fire with
  | false =>
    obtain rfl := Except.ok.inj hsettle
    exact ⟨n, Nat.le_succ n, hdecided.keep.close⟩
  | true =>
    obtain ⟨announced, hannounce, hperform⟩ := bind_eq_ok.mp hsettle
    exact ⟨n + 1, le_rfl, ((hdecided.announce hannounce).restart hperform).close⟩

/-- The allowance of a run suffices for it to come to its end. -/
theorem Moment.passes {allowance : ℕ} (h : Moment s₀ .head S n s) (hS : 1 ≤ S + allowance)
    (hallowance : s₀.settings.maxIterations ≤ S + allowance)
    (hs : s.passes allowance = .ok s') : ∃ S' n', Moment s₀ .ended S' n' s' := by
  induction allowance generalizing S n s with
  | zero =>
    have hcount := h.count_le hS
    omega
  | succ allowance ih =>
    unfold Solver.passes at hs
    split at hs
    · cases hs
    · next closed hpass =>
      obtain ⟨n', -, hclosed⟩ := h.pass hpass
      split at hs
      · next status houtcome =>
        rw [← Except.ok.inj hs]
        exact ⟨S + 1, n', hclosed.stop houtcome⟩
      · next houtcome => exact ih (hclosed.again houtcome) (by omega) (by omega) hs

/-- What a solver returns is made from the last moment of its run. -/
theorem exists_moment (h : s₀.solve = .ok s') :
    ∃ S n s, Moment s₀ .ended S n s ∧ s.finish = .ok s' := by
  unfold solve at h
  obtain ⟨prepared, hprepare, h⟩ := bind_eq_ok.mp h
  obtain ⟨ended, hrun, hfinish⟩ := bind_eq_ok.mp h
  have hbegin := Moment.begin hprepare
  have hsettings : prepared.settings = s₀.settings := hbegin.course.frame.settings
  obtain ⟨S, n, hended⟩ := hbegin.passes (by omega) (by rw [hsettings]; omega) hrun
  exact ⟨S, n, ended, hended, hfinish⟩

end PrimalDual.Solver
