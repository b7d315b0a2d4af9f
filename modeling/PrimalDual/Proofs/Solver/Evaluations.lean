import PrimalDual.Proofs.Solver.Operations
import PrimalDual.Proofs.Solver.Totality

/-!
# The evaluations of a run

An evaluation finds out the error of the current point, which until then is the point that the
latest step proposed. A restart moves the point on and leaves the finding behind. So what a run
reports is the error of the point proposed last, if its last pass evaluated at all, and that is the
point returned unless the last pass made a restart.
-/
namespace PrimalDual

variable {T ω : Type} [Scalar T]

namespace Iterates

/-- The error that is kept is that of the point proposed last. -/
def Assessed (s : Iterates T) (p : Problem T) : Prop :=
  p.kktError (s.proposal.take p.primalDim) (s.proposal.drop p.primalDim) =
    .ok s.diagnostics.kktError

variable {p : Problem T} {settings : Settings T} {s s' : Iterates T}

/-- Without a small gap, an evaluation ends a run only for a small error. -/
theorem kktError_lt_of_converged {disabled : Bool} {d : Diagnostics T}
    (h : converged settings disabled d = true)
    (hgap : ∀ g, d.gap = some g → ¬ Scalar.abs g < settings.gapTolerance) :
    d.kktError < settings.kktTolerance := by
  unfold converged at h
  cases hd : d.gap with
  | some g => simp [hd, hgap g hd] at h
  | none =>
    simp only [hd, Bool.and_eq_true, decide_eq_true_eq] at h
    exact h.2

variable [GapOracle ω T] {gap gap' : GapEvaluator ω}

/-- What an evaluation finds out, and when it ends the run. -/
theorem Fits.evaluate_eq_ok (hfits : s.Fits p) (h : s.evaluate p settings gap = .ok (s', gap')) :
    ∃ d, p.kktError (s.point.take p.primalDim) (s.point.drop p.primalDim) = .ok d.kktError ∧
      s' = { s with
        diagnostics := d
        terminate := s.terminate || converged settings gap'.disabled d } := by
  unfold evaluate at h
  obtain ⟨error, herror, h⟩ := bind_eq_ok.mp h
  obtain ⟨⟨value, e⟩, -, h⟩ := bind_eq_ok.mp h
  obtain ⟨rfl, rfl⟩ := Prod.mk.inj (Except.ok.inj h)
  rw [hfits.kktError_eq] at herror
  exact ⟨⟨error, value⟩, herror, rfl⟩

/-- An evaluation never hears of a gap from a silent oracle. Where it gives the oracle up at once,
the error decides. -/
theorem Fits.evaluate_silent {gap gap' : GapEvaluator SilentOracle} (hfits : s.Fits p)
    (h : s.evaluate p settings gap = .ok (s', gap')) : s'.diagnostics.gap = none ∧
      (settings.gapEnabled = true → gap.oracle.isSome → gap.failureLimit ≤ 1 →
        ∃ d, p.kktError (s.point.take p.primalDim) (s.point.drop p.primalDim) = .ok d.kktError ∧
          s' = { s with
            diagnostics := d
            terminate := s.terminate || decide (d.kktError < settings.kktTolerance) }) := by
  unfold evaluate at h
  obtain ⟨error, herror, h⟩ := bind_eq_ok.mp h
  obtain ⟨⟨value, e⟩, hvalue, h⟩ := bind_eq_ok.mp h
  obtain ⟨rfl, rfl⟩ := Prod.mk.inj (Except.ok.inj h)
  rw [hfits.kktError_eq] at herror
  unfold gapIfEnabled at hvalue
  split at hvalue
  · obtain ⟨distance, -, hvalue⟩ := bind_eq_ok.mp hvalue
    obtain ⟨⟨answer, e⟩, hask, hvalue⟩ := bind_eq_ok.mp hvalue
    obtain ⟨rfl, rfl⟩ := Prod.mk.inj (Except.ok.inj hvalue)
    obtain ⟨hnone, hdisabled⟩ := SilentOracle.evaluate_eq_ok hask
    refine ⟨hnone, fun _ horacle hlimit => ⟨⟨error, none⟩, herror, ?_⟩⟩
    rw [hnone, hdisabled horacle hlimit]
    rfl
  · next henabled =>
    obtain ⟨rfl, rfl⟩ := Prod.mk.inj (Except.ok.inj hvalue)
    exact ⟨rfl, fun h => (henabled h).elim⟩

end Iterates

namespace Solver

variable {s₀ s s' e e' : Solver T ω} {stage stage' : Stage} {S n : ℕ}

/-- When the point proposed last has been evaluated, given whether its step is on a cadence and how
long the epoch is. A restart in the pass leaves an epoch without a step. -/
def Stage.Due (onCadence : Prop) (epochLength : ℕ) : Stage → Prop
  | .head | .stepped => False
  | .announced => True
  | _ => epochLength = 0 ∨ onCadence

/-- How the point proposed last stands at a moment. -/
structure Standing (s₀ : Solver T ω) (stage : Stage) (S n : ℕ) (s : Solver T ω) : Prop where
  point : stage ≠ .head → s.iterates.epochLength ≠ 0 → s.iterates.point = s.iterates.proposal
  epochLength : stage.lead = 1 → s.iterates.epochLength ≠ 0
  assessed : stage.Due (s₀.settings.OnCadence (S + n)) s.iterates.epochLength →
    s.iterates.Assessed s₀.problem

theorem Course.standing_step (h : Course s₀ .head S n s) (hs : s.takeStep = .ok s') :
    Standing s₀ .stepped (S + 1) n s' := by
  obtain ⟨iterates, timers, hadvance, rfl⟩ := takeStep_eq_ok hs
  rw [h.frame.problem] at hadvance
  obtain ⟨point, -, -, -, -, rfl⟩ := h.fits.advance_eq_ok_iff.mp hadvance
  exact ⟨fun _ _ => rfl, fun _ => Nat.succ_ne_zero _, False.elim⟩

/-- Where only reports, the time and notes change, the point proposed last stands as before. -/
theorem Standing.of_iterates (h : Standing s₀ stage S n s)
    (hiterates : s'.iterates = s.iterates) (hstage : stage' ≠ .head → stage ≠ .head)
    (hlead : stage'.lead ≤ stage.lead)
    (hdue : ∀ onCadence t, stage'.Due onCadence t → stage.Due onCadence t) :
    Standing s₀ stage' S n s' where
  point hne := by rw [hiterates]; exact h.point (hstage hne)
  epochLength hone := by
    rw [hiterates]
    apply h.epochLength
    cases stage <;> simp_all [Stage.lead]
  assessed due := by
    rw [hiterates] at due ⊢
    exact h.assessed (hdue _ _ due)

variable [GapOracle ω T]

/-- The states in which the run from `s₀` evaluates its iterates: at the cadences, and before a
restart. -/
inductive Evaluates (s₀ : Solver T ω) : Solver T ω → Prop
  | observed {S n : ℕ} {s : Solver T ω} :
    Moment s₀ .stepped S n s → s₀.settings.OnCadence (S + n) →
      Evaluates s₀ (s.startTimer "evaluate")
  | announced {S n : ℕ} {s : Solver T ω} :
    Moment s₀ (.decided true) S n s →
      Evaluates s₀ { s with trajectory := s.trajectory.pushRestart (S + n) }

/-- An evaluation of the run is about its problem and goes by its settings. -/
theorem Evaluates.data (h : Evaluates s₀ e) :
    (e.problem = s₀.problem ∧ e.settings = s₀.settings) ∧ e.iterates.Fits e.problem := by
  cases h with
  | observed h _ | announced h =>
    have hproblem := h.course.frame.problem
    exact ⟨⟨hproblem, h.course.frame.settings⟩, hproblem ▸ h.course.fits⟩

theorem Evaluates.eq_ok (h : Evaluates s₀ e) (he : e.evaluate = .ok e') : ∃ d disabled,
    s₀.problem.kktError (e.iterates.point.take s₀.problem.primalDim)
        (e.iterates.point.drop s₀.problem.primalDim) = .ok d.kktError ∧
      e'.iterates = { e.iterates with
        diagnostics := d
        terminate := e.iterates.terminate || Iterates.converged s₀.settings disabled d } := by
  obtain ⟨⟨hproblem, hsettings⟩, hfits⟩ := h.data
  obtain ⟨iterates, gap, hevaluate, rfl⟩ := evaluate_eq_ok he
  obtain ⟨d, herror, rfl⟩ := hfits.evaluate_eq_ok hevaluate
  rw [hproblem] at herror
  exact ⟨d, gap.disabled, herror, by rw [hsettings]⟩

/-- An observation evaluates the iterates at the cadences, and does nothing else to them. -/
theorem Moment.observe_eq_ok (h : Moment s₀ .stepped S n s) (hs : s.observe = .ok s') :
    ¬ s₀.settings.OnCadence (S + n) ∧ s' = s ∨
      s₀.settings.OnCadence (S + n) ∧ ∃ e e', Evaluates s₀ e ∧ e.evaluate = .ok e' ∧
        e.iterates = s.iterates ∧ s'.iterates = e'.iterates := by
  obtain ⟨k, hk, -, -, hcases⟩ := Solver.observe_eq_ok hs
  obtain rfl := ok_unique h.step_eq hk
  rw [h.course.frame.settings] at hcases
  rcases hcases with ⟨hoff, hs⟩ | ⟨hon, evaluated, recorded, hevaluate, hrecord, hprint⟩
  · exact .inl ⟨hoff, hs⟩
  · obtain ⟨trajectory, report, rfl⟩ := recordWhen_eq_ok hrecord
    obtain ⟨report, timers, rfl⟩ := printWhen_eq_ok hprint
    exact .inr ⟨hon, _, evaluated, .observed h hon, hevaluate, rfl, rfl⟩

theorem Moment.announce_eq_ok (h : Moment s₀ (.decided true) S n s)
    (hs : s.announceRestart = .ok s') :
    ∃ e e', Evaluates s₀ e ∧ e.evaluate = .ok e' ∧ e.iterates = s.iterates ∧
      s'.iterates = e'.iterates := by
  obtain ⟨k, evaluated, report, hk, hevaluate, rfl⟩ := announceRestart_eq_ok hs
  obtain rfl := ok_unique h.step_eq hk
  exact ⟨_, evaluated, .announced h, hevaluate, rfl, rfl⟩

theorem Moment.restart_iterates (h : Moment s₀ .announced S n s)
    (hs : s.performRestart = .ok s') : s'.iterates = s.iterates.restarted := by
  obtain ⟨iterates, hrestart, hrecord⟩ := performRestart_eq_ok hs
  obtain ⟨-, -, rfl⟩ := h.course.fits.restart_eq_ok_iff.mp hrestart
  rcases recordRestart_eq_ok hrecord with ⟨-, rfl⟩ | ⟨-, k, -, -, hrecord⟩
  · rfl
  · obtain ⟨trajectory, report, rfl⟩ := recordWhen_eq_ok hrecord
    rfl

/-- An evaluation in a pass finds out about the point proposed in that pass. -/
theorem Standing.evaluate (h : Standing s₀ stage S n s) (hstage : stage ≠ .head)
    (hlead : stage.lead = 1) (heval : Evaluates s₀ e) (he : e.evaluate = .ok e')
    (hbefore : e.iterates = s.iterates) (hafter : s'.iterates = e'.iterates) :
    Standing s₀ stage' S n s' := by
  have hlength := h.epochLength hlead
  have hpoint := h.point hstage hlength
  obtain ⟨d, disabled, herror, hiterates⟩ := heval.eq_ok he
  rw [hbefore] at herror hiterates
  refine ⟨fun _ _ => ?_, fun _ => ?_, fun _ => ?_⟩
  · rw [hafter, hiterates]
    exact hpoint
  · rw [hafter, hiterates]
    exact hlength
  · rw [hafter, hiterates]
    rw [hpoint] at herror
    exact herror

theorem Moment.standing (h : Moment s₀ stage S n s) : Standing s₀ stage S n s := by
  induction h with
  | begin hs => exact ⟨fun hstage => (hstage rfl).elim, by simp [Stage.lead], False.elim⟩
  | step h hs _ => exact h.course.standing_step hs
  | observe h hs ih =>
    rcases h.observe_eq_ok hs with ⟨hoff, rfl⟩ | ⟨-, e, e', heval, he, hbefore, hafter⟩
    · have hlength := ih.epochLength rfl
      exact ⟨fun _ => ih.point (by simp), fun _ => hlength,
        fun hdue => (hdue.elim hlength hoff).elim⟩
    · exact ih.evaluate (by simp) rfl heval he hbefore hafter
  | decide _ hs ih =>
    obtain ⟨gap, timers, -, rfl⟩ := decideRestart_eq_ok hs
    exact ih.of_iterates rfl (by simp) le_rfl fun _ _ => id
  | announce h hs ih =>
    obtain ⟨e, e', heval, he, hbefore, hafter⟩ := h.announce_eq_ok hs
    exact ih.evaluate (by simp) rfl heval he hbefore hafter
  | restart h hs ih =>
    have hrestarted := h.restart_iterates hs
    refine ⟨fun _ hlength => ?_, by simp [Stage.lead], fun _ => ?_⟩
    · rw [hrestarted] at hlength
      exact (hlength rfl).elim
    · rw [hrestarted]
      exact ih.assessed trivial
  | keep _ ih => exact ih.of_iterates rfl (by simp) (Nat.zero_le _) fun _ _ => id
  | close _ ih =>
    obtain ⟨report, hclosed⟩ := passNotice_eq (stopTimer _)
    exact ih.of_iterates (by rw [hclosed]; rfl) (by simp) le_rfl fun _ _ => id
  | again _ _ ih => exact ih.of_iterates rfl (by simp) le_rfl fun _ _ => False.elim
  | stop _ _ ih => exact ih.of_iterates rfl (by simp) le_rfl fun _ _ => id

theorem Evaluates.point_eq (h : Evaluates s₀ e) : e.iterates.point = e.iterates.proposal := by
  cases h with
  | observed h _ => exact h.standing.point (by simp) (h.standing.epochLength rfl)
  | announced h => exact h.standing.point (by simp) (h.standing.epochLength rfl)

/-- A pass begins with a run that has not been told to end. -/
theorem Moment.terminate_eq_false (h : Moment s₀ .head S n s) : s.iterates.terminate = false := by
  cases h with
  | begin hs =>
    obtain ⟨capacity, report, timers, -, rfl⟩ := prepare_eq_ok hs
    rfl
  | again _ houtcome => exact (outcome?_eq_none houtcome).1

/-- What holds of the origin, and survives steps, restarts and the evaluations of the run, holds of
the iterates at every moment. -/
theorem Moment.evaluation_induction {P : Iterates T → Prop}
    (origin : P (.origin s₀.problem.primalDim s₀.problem.dualDim))
    (advance : ∀ i i', i.Fits s₀.problem → i.terminate = false → P i →
      i.advance s₀.problem s₀.settings.stepSize s₀.settings.primalWeight = .ok i' → P i')
    (restart : ∀ i, i.Fits s₀.problem → i.epochLength ≠ 0 → P i → P i.restarted)
    (evaluate : ∀ e e', Evaluates s₀ e → e.evaluate = .ok e' → P e.iterates → P e'.iterates)
    (h : Moment s₀ stage S n s) : P s.iterates := by
  induction h with
  | begin hs =>
    obtain ⟨capacity, report, timers, -, rfl⟩ := prepare_eq_ok hs
    exact origin
  | step h hs ih =>
    obtain ⟨iterates, timers, hadvance, rfl⟩ := takeStep_eq_ok hs
    rw [h.course.frame.problem, h.course.frame.settings] at hadvance
    exact advance _ _ h.course.fits h.terminate_eq_false ih hadvance
  | observe h hs ih =>
    rcases h.observe_eq_ok hs with ⟨-, rfl⟩ | ⟨-, e, e', heval, he, hbefore, hafter⟩
    · exact ih
    · rw [hafter]
      exact evaluate e e' heval he (by rwa [hbefore])
  | decide _ hs ih =>
    obtain ⟨gap, timers, -, rfl⟩ := decideRestart_eq_ok hs
    exact ih
  | announce h hs ih =>
    obtain ⟨e, e', heval, he, hbefore, hafter⟩ := h.announce_eq_ok hs
    rw [hafter]
    exact evaluate e e' heval he (by rwa [hbefore])
  | restart h hs ih =>
    rw [h.restart_iterates hs]
    exact restart _ h.course.fits (h.standing.epochLength rfl) ih
  | keep _ ih => exact ih
  | close _ ih =>
    obtain ⟨report, hclosed⟩ := passNotice_eq (stopTimer _)
    rw [hclosed]
    exact ih
  | again _ _ ih => exact ih
  | stop _ _ ih => exact ih

/-- The diagnostics are those of an evaluation, unless there was none yet. -/
theorem Moment.diagnostics_eq (h : Moment s₀ stage S n s) :
    s.iterates.diagnostics = .zero ∨ ∃ e e', Evaluates s₀ e ∧ e.evaluate = .ok e' ∧
      s.iterates.diagnostics = e'.iterates.diagnostics := by
  refine h.evaluation_induction (P := fun i => i.diagnostics = .zero ∨ ∃ e e', Evaluates s₀ e ∧
    e.evaluate = .ok e' ∧ i.diagnostics = e'.iterates.diagnostics) ?_ ?_ ?_ ?_
  · exact .inl rfl
  · intro i i' hfits _ hi hadvance
    obtain ⟨point, -, -, -, -, rfl⟩ := hfits.advance_eq_ok_iff.mp hadvance
    exact hi
  · exact fun i _ _ hi => hi
  · exact fun e e' heval he _ => .inr ⟨e, e', heval, he, rfl⟩

/-- No evaluation of the run finds a gap below the tolerance. -/
def GapStaysOpen (s₀ : Solver T ω) : Prop :=
  ∀ e e', Evaluates s₀ e → e.evaluate = .ok e' → ∀ g, e'.iterates.diagnostics.gap = some g →
    ¬ Scalar.abs g < s₀.settings.gapTolerance

theorem gapStaysOpen_silent (s₀ : Solver T SilentOracle) : s₀.GapStaysOpen := by
  intro e e' heval he g hg
  obtain ⟨-, hfits⟩ := heval.data
  obtain ⟨iterates, gap, hevaluate, rfl⟩ := evaluate_eq_ok he
  rw [(hfits.evaluate_silent hevaluate).1] at hg
  cases hg

/-- A run that was told to end while no gap closed has a small error at the point proposed last. -/
theorem Moment.kktError_lt (h : Moment s₀ stage S n s) (hopen : s₀.GapStaysOpen)
    (hterminate : s.iterates.terminate = true) : s.iterates.Assessed s₀.problem ∧
      s.iterates.diagnostics.kktError < s₀.settings.kktTolerance := by
  refine h.evaluation_induction
    (P := fun i => i.terminate = true → i.Assessed s₀.problem ∧
      i.diagnostics.kktError < s₀.settings.kktTolerance) ?_ ?_ ?_ ?_ hterminate
  · intro horigin
    cases horigin
  · intro i i' hfits hgoing _ hadvance hterminate
    obtain ⟨point, -, -, -, -, rfl⟩ := hfits.advance_eq_ok_iff.mp hadvance
    rw [Iterates.movedTo, hgoing] at hterminate
    cases hterminate
  · exact fun i _ _ hi => hi
  · intro e e' heval he hbefore hterminate
    obtain ⟨d, disabled, herror, hiterates⟩ := heval.eq_ok he
    have hgap : ∀ g, d.gap = some g → ¬ Scalar.abs g < s₀.settings.gapTolerance := by
      have hall := hopen e e' heval he
      rwa [hiterates] at hall
    rw [heval.point_eq] at herror
    rw [hiterates] at hterminate ⊢
    refine ⟨herror, ?_⟩
    rcases Bool.or_eq_true_iff.mp hterminate with hearlier | hnow
    · obtain ⟨hassessed, hsmall⟩ := hbefore hearlier
      rw [ok_unique herror hassessed]
      exact hsmall
    · exact Iterates.kktError_lt_of_converged hnow hgap

end Solver

end PrimalDual
