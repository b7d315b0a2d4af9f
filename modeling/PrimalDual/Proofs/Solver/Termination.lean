import PrimalDual.Proofs.Solver.Outcome

/-!
# When a run is solved

A run takes its course in one way only, so that there is one state at each of its moments. An
evaluation that meets the rule tells the run to end, nothing takes that back, and the pass in which
it is made is the last. A run without such an evaluation goes on to the limit, and so does every run
without an oracle, since a gap that is never had does not count as given up.
-/
namespace PrimalDual

/-- The steps made so far. The count is one at the origin and grows with each step and each
restart. -/
def Iterates.steps {T : Type} (s : Iterates T) : ℕ := s.count - 1 - s.restarts

/-- The rule in the words of its two cases. -/
theorem Iterates.converged_iff {T : Type} [Scalar T] {settings : Settings T} {disabled : Bool}
    {d : Diagnostics T} : converged settings disabled d = true ↔
      (∃ g, d.gap = some g ∧ Scalar.abs g < settings.gapTolerance) ∨
        d.gap = none ∧ disabled = true ∧ d.kktError < settings.kktTolerance := by
  unfold converged
  cases d.gap with
  | none => simp
  | some g => simp

namespace Solver

variable {T ω : Type} [Scalar T]

/-- What an evaluation left meets the rule: there is a gap below the tolerance, or there is none, it
was given up after failures and the error is below its own tolerance. -/
def MeetsRule (s : Solver T ω) : Prop :=
  (∃ g, s.iterates.diagnostics.gap = some g ∧ Scalar.abs g < s.settings.gapTolerance) ∨
    s.iterates.diagnostics.gap = none ∧ s.gap.disabled = true ∧
      s.iterates.diagnostics.kktError < s.settings.kktTolerance

variable [GapOracle ω T] {s₀ s s' e e' : Solver T ω} {stage : Stage} {S n n' : ℕ}

/-- An evaluation of the run from `s₀` that meets the rule, by the states before and after it. -/
structure Decisive (s₀ e e' : Solver T ω) : Prop where
  evaluates : Evaluates s₀ e
  eq_ok : e.evaluate = .ok e'
  rule : e'.MeetsRule

theorem MeetsRule.iff_converged (he : e.evaluate = .ok e') : e'.MeetsRule ↔
    Iterates.converged e.settings e'.gap.disabled e'.iterates.diagnostics = true := by
  have hsettings : e'.settings = e.settings := (evaluate_observes he).settings
  rw [Iterates.converged_iff, MeetsRule, hsettings]

/-- After its observation a closed pass has come to a decision and seen to it. -/
theorem Moment.exists_observed (h : Moment s₀ .closed S n s) :
    ∃ n' observed fire decided settled, Moment s₀ .observed S n' observed ∧
      observed.decideRestart = .ok (fire, decided) ∧ decided.restartWhen fire = .ok settled ∧
      s = settled.stopTimer.passNotice := by
  cases h with
  | close h =>
    cases h with
    | restart h hperform =>
      cases h with
      | announce h hannounce =>
        cases h with
        | decide h hdecide =>
          refine ⟨_, _, _, _, _, h, hdecide, ?_, rfl⟩
          rw [restartWhen, if_pos rfl, hannounce, ok_bind, hperform]
    | keep h =>
      cases h with
      | decide h hdecide => exact ⟨_, _, _, _, _, h, hdecide, rfl, rfl⟩

/-- What is true of the states after a step is true of the states after their observation. -/
theorem Moment.observed_unique_of
    (hstepped : ∀ {n n' s s'}, Moment s₀ .stepped S n s → Moment s₀ .stepped S n' s' → s' = s)
    (h : Moment s₀ .observed S n s) (h' : Moment s₀ .observed S n' s') : s' = s := by
  cases h with
  | observe h hs =>
    cases h' with
    | observe h' hs' =>
      obtain rfl := hstepped h h'
      exact ok_unique hs' hs

theorem Moment.closed_unique_of
    (hobserved : ∀ {n n' s s'}, Moment s₀ .observed S n s → Moment s₀ .observed S n' s' → s' = s)
    (h : Moment s₀ .closed S n s) (h' : Moment s₀ .closed S n' s') : s' = s := by
  obtain ⟨_, observed, fire, decided, settled, hmoment, hdecide, hsettle, rfl⟩ := h.exists_observed
  obtain ⟨_, observed', _, _, settled', hmoment', hdecide', hsettle', rfl⟩ := h'.exists_observed
  obtain rfl := hobserved hmoment hmoment'
  obtain ⟨rfl, rfl⟩ := Prod.mk.inj (ok_unique hdecide' hdecide)
  obtain rfl := ok_unique hsettle' hsettle
  rfl

/-- After each number of steps there is one state. -/
theorem Moment.stepped_unique (h : Moment s₀ .stepped S n s) (h' : Moment s₀ .stepped S n' s') :
    s' = s := by
  induction S generalizing n n' s s' with
  | zero => cases h
  | succ S ih =>
    have hhead {n n' : ℕ} {s s' : Solver T ω} (h : Moment s₀ .head S n s)
        (h' : Moment s₀ .head S n' s') : s' = s := by
      cases h with
      | begin hs =>
        obtain ⟨-, hs'⟩ := h'.head_zero
        exact ok_unique hs' hs
      | again h _ =>
        cases h' with
        | begin _ =>
          have hbegun := h.course.begun
          simp at hbegun
        | again h' _ => exact closed_unique_of (observed_unique_of ih) h h'
    cases h with
    | step h hs =>
      cases h' with
      | step h' hs' =>
        obtain rfl := hhead h h'
        exact ok_unique hs' hs

theorem Moment.observed_unique (h : Moment s₀ .observed S n s) (h' : Moment s₀ .observed S n' s') :
    s' = s :=
  observed_unique_of stepped_unique h h'

theorem Moment.closed_unique (h : Moment s₀ .closed S n s) (h' : Moment s₀ .closed S n' s') :
    s' = s :=
  closed_unique_of observed_unique h h'

theorem Moment.head_unique (h : Moment s₀ .head S n s) (h' : Moment s₀ .head S n' s') : s' = s := by
  cases h with
  | begin hs => exact ok_unique h'.head_zero.2 hs
  | again h _ =>
    cases h' with
    | begin _ =>
      have hbegun := h.course.begun
      simp at hbegun
    | again h' _ => exact closed_unique h h'

/-- No moment of a run comes after its end. -/
theorem Moment.le_ended {S' : ℕ} (h : Moment s₀ stage S n s)
    (hended : Moment s₀ .ended S' n' s') : S ≤ S' := by
  have hbegun : 1 ≤ S' := by simpa using hended.course.begun
  by_contra hlt
  obtain ⟨_, closed, hclosed, hgoing⟩ := h.exists_closed hbegun (not_le.mp hlt)
  cases hended with
  | stop hlast hstop =>
    obtain rfl := hlast.closed_unique hclosed
    rw [hgoing] at hstop
    cases hstop

theorem Moment.steps_eq (h : Moment s₀ stage S n s) : s.iterates.steps = S := by
  rw [Iterates.steps, h.course.count, h.course.restarts]
  omega

theorem Moment.announce_terminate (h : Moment s₀ (.decided true) S n s)
    (hs : s.announceRestart = .ok s') (hterminate : s.iterates.terminate = true) :
    s'.iterates.terminate = true := by
  obtain ⟨e, e', -, he, hbefore, hafter⟩ := h.announce_eq_ok hs
  rw [hafter, evaluate_terminate he, hbefore, hterminate, Bool.true_or]

/-- Once a run was told to end by its observation, the pass closes so. -/
theorem Moment.terminate_of_observed (h : Moment s₀ .observed S n s)
    (hterminate : s.iterates.terminate = true) (hclosed : Moment s₀ .closed S n' s') :
    s'.iterates.terminate = true := by
  obtain ⟨_, observed, fire, decided, settled, hobserved, hdecide, hsettle, rfl⟩ :=
    hclosed.exists_observed
  obtain rfl := hobserved.observed_unique h
  rw [passNotice_iterates]
  have hmoment := h.decide hdecide
  obtain ⟨gap, timers, -, rfl⟩ := decideRestart_eq_ok hdecide
  cases fire with
  | false =>
    obtain rfl := Except.ok.inj hsettle
    exact hterminate
  | true =>
    obtain ⟨announced, hannounce, hperform⟩ := bind_eq_ok.mp hsettle
    rw [(hmoment.announce hannounce).restart_iterates hperform]
    exact hmoment.announce_terminate hannounce hterminate

/-- The same of the evaluation that announces a restart. -/
theorem Moment.terminate_of_announced (h : Moment s₀ (.decided true) S n s)
    (hterminate : ∀ announced, s.announceRestart = .ok announced →
      announced.iterates.terminate = true) (hclosed : Moment s₀ .closed S n' s') :
    s'.iterates.terminate = true := by
  obtain ⟨_, observed, fire, decided, settled, hobserved, hdecide, hsettle, rfl⟩ :=
    hclosed.exists_observed
  rw [passNotice_iterates]
  cases h with
  | decide h hdecide' =>
    obtain rfl := hobserved.observed_unique h
    obtain ⟨rfl, rfl⟩ := Prod.mk.inj (ok_unique hdecide' hdecide)
    obtain ⟨announced, hannounce, hperform⟩ := bind_eq_ok.mp hsettle
    rw [((h.decide hdecide).announce hannounce).restart_iterates hperform]
    exact hterminate announced hannounce

/-- The pass of a decisive evaluation closes with the verdict. -/
theorem Decisive.terminate_of_closed (h : Decisive s₀ e e')
    (hclosed : Moment s₀ .closed e.iterates.steps n s) : s.iterates.terminate = true := by
  have hterminate : e'.iterates.terminate = true := by
    rw [evaluate_terminate h.eq_ok, (MeetsRule.iff_converged h.eq_ok).mp h.rule, Bool.or_true]
  have he := h.eq_ok
  cases h.evaluates with
  | @observed S _ stepped hstepped hdue =>
    have hsteps : stepped.iterates.steps = S := hstepped.steps_eq
    change Moment s₀ .closed stepped.iterates.steps n s at hclosed
    rw [hsteps] at hclosed
    obtain ⟨_, observed, _, _, _, hobserved, -⟩ := hclosed.exists_observed
    refine hobserved.terminate_of_observed ?_ hclosed
    cases hobserved with
    | observe hstepped' hobserve =>
      obtain rfl := hstepped.stepped_unique hstepped'
      obtain ⟨k, hk, -, -, hcases⟩ := Solver.observe_eq_ok hobserve
      obtain rfl := ok_unique hstepped'.step_eq hk
      rw [hstepped'.course.frame.settings] at hcases
      rcases hcases with ⟨hoff, -⟩ | ⟨-, evaluated, recorded, hevaluate, hrecord, hprint⟩
      · exact (hoff (hstepped.course.restarts.symm.trans hstepped'.course.restarts ▸ hdue)).elim
      · obtain ⟨trajectory, report, rfl⟩ := recordWhen_eq_ok hrecord
        obtain ⟨report, timers, rfl⟩ := printWhen_eq_ok hprint
        obtain rfl := ok_unique hevaluate he
        exact hterminate
  | @announced S _ decided hdecided =>
    have hsteps : decided.iterates.steps = S := hdecided.steps_eq
    change Moment s₀ .closed decided.iterates.steps n s at hclosed
    rw [hsteps] at hclosed
    refine hdecided.terminate_of_announced (fun announced hannounce => ?_) hclosed
    obtain ⟨k, evaluated, report, hk, hevaluate, rfl⟩ := announceRestart_eq_ok hannounce
    obtain rfl := ok_unique hdecided.step_eq hk
    obtain rfl := ok_unique hevaluate he
    exact hterminate

theorem Evaluates.exists_moment (h : Evaluates s₀ e) :
    ∃ stage n s, Moment s₀ stage e.iterates.steps n s ∧ stage.lead = 1 := by
  cases h with
  | @observed S n stepped h _ =>
    have hsteps : stepped.iterates.steps = S := h.steps_eq
    exact ⟨.stepped, n, stepped, by rwa [← hsteps] at h, rfl⟩
  | @announced S n decided h =>
    have hsteps : decided.iterates.steps = S := h.steps_eq
    exact ⟨.decided true, n, decided, by rwa [← hsteps] at h, rfl⟩

/-- A decisive evaluation is made in the last pass, and the run ends as solved. -/
theorem Decisive.last (h : Decisive s₀ e e') (hended : Moment s₀ .ended S n s) :
    S = e.iterates.steps ∧ s.report.status = .solved := by
  obtain ⟨stage, n', moment, hmoment, hlead⟩ := h.evaluates.exists_moment
  have hbegun : 1 ≤ e.iterates.steps := by
    have hcourse := hmoment.course.lead
    omega
  have hfirst : 1 ≤ S := by simpa using hended.course.begun
  -- Until the last pass the run was not told to end, and after it there is none.
  rcases lt_trichotomy S e.iterates.steps with hlt | rfl | hlt
  · obtain ⟨n', closed, hclosed, houtcome⟩ := hmoment.exists_closed hfirst hlt
    cases hended with
    | stop hlast hstop =>
      obtain rfl := hlast.closed_unique hclosed
      rw [houtcome] at hstop
      cases hstop
  · cases hended with
    | @stop _ _ closed status hlast hstop =>
      rw [outcome?, if_pos (h.terminate_of_closed hlast)] at hstop
      exact ⟨rfl, (Option.some.inj hstop).symm⟩
  · obtain ⟨n', closed, hclosed, houtcome⟩ := hended.exists_closed hbegun hlt
    have hterminate := h.terminate_of_closed hclosed
    rw [(outcome?_eq_none houtcome).1] at hterminate
    cases hterminate

/-- Only a decisive evaluation tells a run to end. -/
theorem Moment.exists_decisive (h : Moment s₀ stage S n s)
    (hterminate : s.iterates.terminate = true) : ∃ e e', Decisive s₀ e e' := by
  refine h.evaluation_induction
    (P := fun i => i.terminate = true → ∃ e e', Decisive s₀ e e') ?_ ?_ ?_ ?_ hterminate
  · intro horigin
    cases horigin
  · intro i i' hfits hgoing _ hadvance hterminate
    obtain ⟨point, -, -, -, -, rfl⟩ := hfits.advance_eq_ok_iff.mp hadvance
    rw [Iterates.movedTo, hgoing] at hterminate
    cases hterminate
  · exact fun i _ _ hi => hi
  · intro e e' heval he hbefore hterminate
    rw [evaluate_terminate he] at hterminate
    rcases Bool.or_eq_true_iff.mp hterminate with hearlier | hnow
    · exact hbefore hearlier
    · exact ⟨e, e', heval, he, (MeetsRule.iff_converged he).mpr hnow⟩

theorem Moment.idle (h : Moment s₀ stage S n s) (hnone : s₀.gap.oracle = none) : s.gap.Idle :=
  h.gap_induction ⟨hnone, rfl⟩ (GapEvaluator.stable_idle _) fun _ hgap =>
    ⟨hgap.missing, hgap.enabled⟩

theorem Evaluates.idle (h : Evaluates s₀ e) (hnone : s₀.gap.oracle = none) : e.gap.Idle := by
  cases h with
  | observed h _ => exact h.idle hnone
  | announced h => exact h.idle hnone

theorem evaluate_idle (he : e.evaluate = .ok e') (hidle : e.gap.Idle) :
    e'.iterates.diagnostics.gap = none ∧ e'.gap.disabled = false := by
  obtain ⟨iterates, gap, hevaluate, rfl⟩ := evaluate_eq_ok he
  have hstable := Iterates.evaluate_stable (GapEvaluator.stable_idle e.problem) hidle hevaluate
  obtain ⟨error, -, hevaluate⟩ := bind_eq_ok.mp hevaluate
  obtain ⟨⟨value, asked⟩, hvalue, hevaluate⟩ := bind_eq_ok.mp hevaluate
  obtain ⟨rfl, rfl⟩ := Prod.mk.inj (Except.ok.inj hevaluate)
  refine ⟨?_, hstable.enabled⟩
  unfold Iterates.gapIfEnabled at hvalue
  split at hvalue
  · obtain ⟨distance, -, hvalue⟩ := bind_eq_ok.mp hvalue
    obtain ⟨⟨answer, evaluator⟩, hask, hvalue⟩ := bind_eq_ok.mp hvalue
    rw [GapEvaluator.evaluate_idle hidle] at hask
    obtain ⟨rfl, rfl⟩ := Prod.mk.inj (Except.ok.inj hask)
    exact (Prod.mk.inj (Except.ok.inj hvalue)).1.symm
  · exact (Prod.mk.inj (Except.ok.inj hvalue)).1.symm

theorem not_decisive_of_missing (hnone : s₀.gap.oracle = none) : ¬ Decisive s₀ e e' := by
  intro h
  obtain ⟨hgap, henabled⟩ := evaluate_idle h.eq_ok (h.evaluates.idle hnone)
  rcases h.rule with ⟨g, hg, -⟩ | ⟨-, hdisabled, -⟩
  · rw [hgap] at hg
    cases hg
  · rw [henabled] at hdisabled
    cases hdisabled

/-- Nothing tells a run without an oracle to end. -/
theorem Moment.terminate_idle (h : Moment s₀ stage S n s) (hnone : s₀.gap.oracle = none) :
    s.iterates.terminate = false := by
  rw [← Bool.not_eq_true]
  intro hterminate
  obtain ⟨e, e', hdecisive⟩ := h.exists_decisive hterminate
  exact not_decisive_of_missing hnone hdecisive

theorem Moment.status_eq (h : Moment s₀ .ended S n s) :
    s.report.status = .solved ∨ s.report.status = .maxIterations := by
  cases h with
  | stop _ houtcome =>
    rcases outcome?_eq_some houtcome with ⟨hsolved, -⟩ | ⟨hlimit, -⟩
    · exact .inl hsolved
    · exact .inr hlimit

/-- A run is solved exactly if one of its evaluations meets the rule, and makes no step after it. -/
theorem Built.solve_status {good : ω → Prop} (h : s₀.Built)
    (hmax : s₀.settings.maxIterations + 2 < Counter.bound)
    (hanswers : GapOracle.Answers s₀.problem good)
    (horacle : ∀ o, s₀.gap.oracle = some o → good o) :
    ∃ s, s₀.solve = .ok s ∧
      (s.solution.status = .solved ↔ ∃ e e', Decisive s₀ e e') ∧
      (∀ e e', Decisive s₀ e e' → s.iterates.steps = e.iterates.steps) ∧
      ((¬ ∃ e e', Decisive s₀ e e') → s.solution.status = .maxIterations) ∧
      (s₀.gap.oracle = none → s.solution.status = .maxIterations) := by
  obtain ⟨s, hsolve⟩ := h.exists_solve hmax hanswers horacle
  obtain ⟨S, n, ended, hended, -, -, hiterates, -, -, -, -, hstatus⟩ := exists_ended hsolve
  have hunsolved : (¬ ∃ e e', Decisive s₀ e e') → s.solution.status = .maxIterations := by
    intro hnone
    rw [hstatus]
    exact hended.status_eq.resolve_left fun hsolved =>
      hnone (hended.exists_decisive (hended.terminate_of_solved hsolved))
  refine ⟨s, hsolve, ⟨fun hsolved => ?_, ?_⟩, ?_, hunsolved, fun hnone => ?_⟩
  · rw [hstatus] at hsolved
    exact hended.exists_decisive (hended.terminate_of_solved hsolved)
  · rintro ⟨e, e', hdecisive⟩
    rw [hstatus]
    exact (hdecisive.last hended).2
  · intro e e' hdecisive
    rw [hiterates, hended.steps_eq]
    exact (hdecisive.last hended).1
  · exact hunsolved fun ⟨_, _, hdecisive⟩ => not_decisive_of_missing hnone hdecisive

theorem Built.solve_status_paired : ∃ s₀ : Solver ℝ SilentOracle, Paired 2 s₀ ∧
    ∃ s, s₀.solve = .ok s ∧
      (s.solution.status = .solved ↔ ∃ e e', Decisive s₀ e e') ∧
      (∀ e e', Decisive s₀ e e' → s.iterates.steps = e.iterates.steps) ∧
      ((¬ ∃ e e', Decisive s₀ e e') → s.solution.status = .maxIterations) ∧
      (s₀.gap.oracle = none → s.solution.status = .maxIterations) := by
  obtain ⟨s₀, hrun⟩ := exists_paired
  exact ⟨s₀, hrun, Built.solve_status hrun.built (by rw [hrun.settings]; decide)
    (SilentOracle.answers s₀.problem) fun _ _ => trivial⟩

end Solver

end PrimalDual
