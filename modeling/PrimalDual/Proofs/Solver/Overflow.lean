import PrimalDual.Proofs.Solver.Completion
import PrimalDual.Proofs.Settings.Builder
import PrimalDual.Proofs.Solver.Termination

/-!
# Where counting ends

The steps of an epoch and the restarts are fewer than all iterations, so their counters never leave
their words. The count of the iterations does, if a run is still going when the count has filled its
word: the test at the end of a pass comes after the increment, and no count that fits the word is
beyond a limit at its top. Nor does a limit below the top help where the last pass makes a restart,
which counts once more.
-/
namespace PrimalDual

namespace Iterates

variable {T : Type} {p : Problem T} {s : Iterates T}

theorem restart_full (hrestarts : s.restarts + 1 < Counter.bound)
    (hcount : Counter.bound ≤ s.count + 1) : s.restart = .error .counterOverflow := by
  have hnext : Counter.next s.count = .error .counterOverflow := if_neg (not_lt.mpr hcount)
  unfold restart
  rw [Counter.next_eq_ok hrestarts, ok_bind, hnext]
  rfl

theorem Fits.advance_full [Scalar T] (hp : p.Accepted) (h : s.Fits p) (stepSize weight : T)
    (hepoch : s.epochLength + 1 < Counter.bound) (hcount : Counter.bound ≤ s.count + 1) :
    s.advance p stepSize weight = .error .counterOverflow := by
  obtain ⟨point, hstep, hpoint⟩ :=
    Problem.exists_stepFrom hp stepSize weight h.length_primal h.length_dual
  have hcopy : Vector.copyOnto s.proposal point = .ok point :=
    Vector.copyOnto_eq_ok (by rw [h.proposal, hpoint])
  have hfold : Vector.axpby (Scalar.recip ((s.epochLength : T) + 1)) point
      ((s.epochLength : T) * Scalar.recip ((s.epochLength : T) + 1)) s.average =
        .ok (s.averageWith point) :=
    Vector.axpby_eq_ok _ _ (by rw [h.average, hpoint])
  have hnext : Counter.next s.count = .error .counterOverflow := if_neg (not_lt.mpr hcount)
  unfold advance update
  simp only [h.isSplit_eq, h.point, h.primal_eq_ok, h.dual_eq_ok, hstep, hcopy, hfold, hnext,
    Counter.next_eq_ok hepoch, ne_eq, not_true_eq_false, if_false, Bool.false_eq_true, ok_bind]
  rfl

end Iterates

namespace Solver

variable {T ω : Type} [Scalar T] [GapOracle ω T] {good : ω → Prop} {s₀ s s' : Solver T ω}
  {stage : Stage} {S n : ℕ}

/-- The run from `s₀` fills the word of its count while it still has to count a step or a
restart. -/
def Fills (s₀ : Solver T ω) : Prop :=
  ∃ S n s, S + n + 2 = Counter.bound ∧
    (Moment s₀ .head S n s ∨ Moment s₀ .announced S n s)

/-- The other counters have room for one more at every moment of a run. -/
theorem Moment.counters_lt (h : Moment s₀ stage S n s) :
    s.iterates.epochLength + 1 < Counter.bound ∧ s.iterates.restarts + 1 < Counter.bound ∧
      s.iterates.count < Counter.bound := by
  have hbound := h.count_lt
  have hcourse := h.course
  have hepoch := hcourse.epochLength
  have hrestarts := hcourse.restarts
  have hcount := hcourse.count
  have hlead := hcourse.lead
  refine ⟨?_, ?_, ?_⟩ <;> omega

theorem Moment.takeStep_full (h : Moment s₀ .head S n s) (hready : s.Ready good)
    (hfull : S + n + 2 = Counter.bound) : s.takeStep = .error .counterOverflow := by
  have hcount := h.course.count
  have hadvance := hready.fits.advance_full hready.accepted s.settings.stepSize
    s.settings.primalWeight h.counters_lt.1 (by omega)
  simp only [takeStep, startTimer, hadvance]
  rfl

theorem Moment.performRestart_full (h : Moment s₀ .announced S n s)
    (hfull : S + n + 2 = Counter.bound) : s.performRestart = .error .counterOverflow := by
  have hcount := h.course.count
  rw [performRestart, Iterates.restart_full h.counters_lt.2.1 (by omega)]
  rfl

/-- A pass succeeds unless it fills the word of the count. -/
theorem Moment.pass_or_fills (h : Moment s₀ .head S n s) (hready : s.Ready good) :
    (∃ s', s.pass = .ok s') ∨ s.pass = .error .counterOverflow ∧ s₀.Fills := by
  have hbound := h.count_lt
  have hcount := h.course.count
  by_cases hfull : S + n + 2 = Counter.bound
  · refine .inr ⟨?_, S, n, s, hfull, .inl h⟩
    rw [Solver.pass, h.takeStep_full hready hfull]
    rfl
  · obtain ⟨stepped, hstep, hready⟩ :=
      hready.exists_takeStep h.counters_lt.1 (by omega)
    obtain ⟨observed, hobserve, hready⟩ := hready.exists_observe
    obtain ⟨fire, decided, hdecide, hready⟩ := hready.exists_decideRestart
    have hdecided := ((h.step hstep).observe hobserve).decide hdecide
    have hpass : s.pass = decided.restartWhen fire >>= fun settled =>
        .ok settled.stopTimer.passNotice := by
      simp only [Solver.pass, considerRestart, hstep, hobserve, hdecide, ok_bind, bind_assoc,
        pure_eq_ok]
    rw [hpass]
    cases fire with
    | false => exact .inl ⟨_, rfl⟩
    | true =>
      obtain ⟨announced, hannounce, hready⟩ :=
        hready.exists_announceRestart hdecided.counters_lt.2.1
      have hannounced := hdecided.announce hannounce
      have hnext := hannounced.course.count
      have hwithin := hannounced.count_lt
      rw [restartWhen, if_pos rfl, hannounce, ok_bind]
      by_cases hfull : S + 1 + n + 2 = Counter.bound
      · refine .inr ⟨?_, S + 1, n, announced, hfull, .inr hannounced⟩
        rw [hannounced.performRestart_full hfull]
        rfl
      · obtain ⟨settled, hperform, -⟩ :=
          hready.exists_performRestart hannounced.counters_lt.2.1 (by omega)
        exact .inl ⟨_, by rw [hperform, ok_bind]⟩

/-- Passes go on until one of them ends the run or fills the word of the count. -/
theorem Moment.passes_or_fills (hbuilt : s₀.Built) (hanswers : GapOracle.Answers s₀.problem good)
    (horacle : ∀ o, s₀.gap.oracle = some o → good o) {allowance : ℕ}
    (h : Moment s₀ .head S n s) : (∃ s', s.passes allowance = .ok s') ∨
      s.passes allowance = .error .counterOverflow ∧ s₀.Fills := by
  induction allowance generalizing S n s with
  | zero => exact .inl ⟨s, rfl⟩
  | succ allowance ih =>
    rcases h.pass_or_fills (h.ready hbuilt hanswers horacle) with ⟨closed, hpass⟩ | ⟨hpass, hfills⟩
    · obtain ⟨n', -, hclosed⟩ := h.pass hpass
      cases houtcome : closed.outcome? with
      | some status =>
        refine .inl ⟨{ closed with report := { closed.report with status } }, ?_⟩
        simp only [Solver.passes, hpass, houtcome]
      | none =>
        have hnext : s.passes (allowance + 1) = closed.passes allowance := by
          simp only [Solver.passes, hpass, houtcome]
        rw [hnext]
        exact ih (hclosed.again houtcome)
    · exact .inr ⟨by simp only [Solver.passes, hpass], hfills⟩

theorem Built.solve_or_fills (h : s₀.Built) (hanswers : GapOracle.Answers s₀.problem good)
    (horacle : ∀ o, s₀.gap.oracle = some o → good o) : (∃ s, s₀.solve = .ok s) ∨
      s₀.solve = .error .counterOverflow ∧ s₀.Fills := by
  obtain ⟨prepared, hprepare, -⟩ := h.exists_prepare hanswers horacle
  have hbegin := Moment.begin hprepare
  have hsettings : prepared.settings = s₀.settings := hbegin.course.frame.settings
  have hrun : (∃ ended, prepared.run = .ok ended) ∨
      prepared.run = .error .counterOverflow ∧ s₀.Fills :=
    hbegin.passes_or_fills h hanswers horacle
  rw [solve, hprepare, ok_bind]
  rcases hrun with ⟨ended, hrun⟩ | ⟨hrun, hfills⟩
  · obtain ⟨S, n, hended⟩ := hbegin.passes (by omega) (by rw [hsettings]; omega) hrun
    obtain ⟨s, hfinish, -⟩ := hended.course.exists_finish h.accepted
    exact .inl ⟨s, by rw [hrun, ok_bind, hfinish]⟩
  · exact .inr ⟨by rw [hrun]; rfl, hfills⟩

/-- A run that fills the word has a limit at its top. -/
theorem Built.bound_le_of_fills (hbuilt : s₀.Built) (h : s₀.Fills) :
    Counter.bound ≤ s₀.settings.maxIterations + 2 := by
  obtain ⟨S, n, s, hfull, hhead | hannounced⟩ := h
  · have hlead := hhead.course.lead
    have htwo : 2 < Counter.bound := by decide
    have hwithin := hhead.count_le (by omega)
    omega
  · have hwithin := hbuilt.index_le hannounced rfl
    omega

/-- Every step so far has left a moment. -/
theorem Moment.exists_stepped {k : ℕ} (h : Moment s₀ stage S n s) (hk : 1 ≤ k) (hle : k ≤ S) :
    ∃ n' s', Moment s₀ .stepped k n' s' := by
  induction h with
  | begin _ => omega
  | @step S n s s' h hs ih =>
    rcases Nat.le_succ_iff.mp hle with hle | rfl
    · exact ih hle
    · exact ⟨n, s', h.step hs⟩
  | observe _ _ ih | decide _ _ ih | announce _ _ ih | restart _ _ ih | keep _ ih | close _ ih
  | again _ _ ih | stop _ _ ih => exact ih hle

/-- Where a run goes on, it does not end. -/
theorem Moment.lt_ended {S' n' : ℕ} (h : Moment s₀ .head S n s) (hS : 1 ≤ S)
    (hended : Moment s₀ .ended S' n' s') : S < S' := by
  refine lt_of_le_of_ne (h.le_ended hended) ?_
  rintro rfl
  cases h with
  | begin _ => omega
  | again hclosed hgoing =>
    cases hended with
    | stop hlast hstop =>
      obtain rfl := hlast.closed_unique hclosed
      rw [hgoing] at hstop
      cases hstop

/-- A restart that was announced in a run that ends was carried out. -/
theorem Moment.exists_settled {S' n' : ℕ} (h : Moment s₀ .announced S n s)
    (hended : Moment s₀ .ended S' n' s') : ∃ settled, Moment s₀ .settled S (n + 1) settled := by
  have hlead : n + 1 ≤ S := h.course.lead
  have hclosed : ∃ n'' closed, Moment s₀ .closed S n'' closed := by
    rcases Nat.lt_or_eq_of_le (h.le_ended hended) with hlt | rfl
    · obtain ⟨n'', closed, hclosed, -⟩ := hended.exists_closed (by omega) hlt
      exact ⟨n'', closed, hclosed⟩
    · cases hended with
      | stop hlast _ => exact ⟨_, _, hlast⟩
  obtain ⟨n'', closed, hclosed⟩ := hclosed
  obtain ⟨_, observed, _, _, settled, hobserved, hdecide, hsettle, -⟩ := hclosed.exists_observed
  have hannounced := h
  cases h with
  | announce hdecided hannounce =>
    cases hdecided with
    | decide hobserved' hdecide' =>
      obtain rfl := hobserved.observed_unique hobserved'
      obtain ⟨rfl, rfl⟩ := Prod.mk.inj (ok_unique hdecide hdecide')
      obtain ⟨announced, hannounce', hperform⟩ := bind_eq_ok.mp hsettle
      obtain rfl := ok_unique hannounce hannounce'
      exact ⟨settled, hannounced.restart hperform⟩

/-- A run that comes to its end had room for what it counted. -/
theorem Moment.not_fills (hended : Moment s₀ .ended S n s) : ¬ s₀.Fills := by
  rintro ⟨S', n', s', hfull, hhead | hannounced⟩
  · -- The step from that moment would be one that the count has no room for.
    have hlead := hhead.course.lead
    have htwo : 2 < Counter.bound := by decide
    obtain ⟨n'', stepped, hstepped⟩ := hended.exists_stepped (k := S' + 1) (by omega)
      (hhead.lt_ended (by omega) hended)
    have hbound := hstepped.count_lt
    cases hstepped with
    | step hhead' _ =>
      obtain rfl := hhead.head_unique hhead'
      have hrestarts := hhead.course.restarts
      have hrestarts' := hhead'.course.restarts
      omega
  · -- The restart that was announced would be one.
    obtain ⟨settled, hsettled⟩ := hannounced.exists_settled hended
    have hbound := hsettled.count_lt
    omega

/-- At the very top of the word nothing ends a run without an oracle. -/
theorem Built.fills_of_missing (h : s₀.Built) (hnone : s₀.gap.oracle = none)
    (hmax : Counter.bound ≤ s₀.settings.maxIterations + 1) :
    s₀.solve = .error .counterOverflow ∧ s₀.Fills := by
  have hanswers : GapOracle.Answers s₀.problem (fun _ : ω => False) :=
    fun _ _ _ hgood => hgood.elim
  refine (h.solve_or_fills hanswers (by simp [hnone])).resolve_left ?_
  rintro ⟨s, hsolve⟩
  obtain ⟨S, n, ended, hended, -⟩ := exists_moment hsolve
  cases hended with
  | @stop _ _ closed _ hclosed hstop =>
    rcases outcome?_eq_some hstop with ⟨-, hterminate⟩ | ⟨-, hover⟩
    · rw [hclosed.terminate_idle hnone] at hterminate
      cases hterminate
    · have hcount := hclosed.counters_lt.2.2
      rw [hclosed.course.frame.settings] at hover
      change s₀.settings.maxIterations < _ at hover
      omega

/-- The counters of steps and of restarts never overflow. The count of iterations does exactly in
the runs that fill its word. For that the limit has to be at the top of the word, and there a run
without an oracle always fills it. Any other run ends by its verdict or by its limit. -/
theorem Built.solve_overflows_iff (h : s₀.Built) (hanswers : GapOracle.Answers s₀.problem good)
    (horacle : ∀ o, s₀.gap.oracle = some o → good o) :
    (∀ stage S n s, Moment s₀ stage S n s → s.iterates.epochLength + 1 < Counter.bound ∧
      s.iterates.restarts + 1 < Counter.bound ∧ s.iterates.count < Counter.bound) ∧
    (s₀.solve = .error .counterOverflow ↔ s₀.Fills) ∧
    (s₀.Fills → Counter.bound ≤ s₀.settings.maxIterations + 2) ∧
    (s₀.gap.oracle = none → Counter.bound ≤ s₀.settings.maxIterations + 1 → s₀.Fills) ∧
    (¬ s₀.Fills → ∃ s, s₀.solve = .ok s ∧
      (s.solution.status = .solved ∨ s.solution.status = .maxIterations ∧
        s₀.settings.maxIterations < s.iterates.count)) := by
  have hends : s₀.Fills → s₀.solve = .error .counterOverflow := by
    intro hfills
    rcases h.solve_or_fills hanswers horacle with ⟨s, hsolve⟩ | ⟨hover, -⟩
    · obtain ⟨S, n, ended, hended, -⟩ := exists_moment hsolve
      exact (hended.not_fills hfills).elim
    · exact hover
  refine ⟨fun stage S n s hs => hs.counters_lt, ⟨fun hover => ?_, hends⟩, h.bound_le_of_fills,
    fun hnone hmax => (h.fills_of_missing hnone hmax).2, fun hroom => ?_⟩
  · rcases h.solve_or_fills hanswers horacle with ⟨s, hsolve⟩ | ⟨-, hfills⟩
    · rw [hover] at hsolve
      cases hsolve
    · exact hfills
  · obtain ⟨s, hsolve⟩ := (h.solve_or_fills hanswers horacle).resolve_right fun hover =>
      hroom hover.2
    obtain ⟨S, n, ended, hended, -, -, hiterates, -, -, -, -, hstatus⟩ := exists_ended hsolve
    refine ⟨s, hsolve, ?_⟩
    rw [hstatus, hiterates]
    cases hended with
    | @stop _ _ closed _ hclosed hstop =>
      have hsettings : closed.settings = s₀.settings := hclosed.course.frame.settings
      rcases outcome?_eq_some hstop with ⟨hsolved, -⟩ | ⟨hlimit, hover⟩
      · exact .inl hsolved
      · exact .inr ⟨hlimit, hsettings ▸ hover⟩

/-- A run of ten iterations, far from the top of the word. -/
theorem Built.solve_overflows_iff_brief : ∃ s₀ : Solver ℝ BallOracle, s₀.problem = .reference ∧
    s₀.settings = .brief (1 / 2) (1 / 2) ∧ ¬ s₀.Fills ∧ ∃ s, s₀.solve = .ok s ∧
      (s.solution.status = .solved ∨ s.solution.status = .maxIterations ∧
        10 < s.iterates.count) := by
  obtain ⟨s₀, hbuilt, hproblem, hsettings, hsuits⟩ := exists_brief
  obtain ⟨-, -, hlimit, -, hreturns⟩ := Built.solve_overflows_iff hbuilt
    (BallOracle.answers_suits hbuilt.accepted) hsuits
  rw [hsettings] at hlimit hreturns
  have hroom : ¬ s₀.Fills := fun hfills => absurd (hlimit hfills) (by decide)
  exact ⟨s₀, hproblem, hsettings, hroom, hreturns hroom⟩

/-- The defaults with the greatest limit, and without records and texts on the way. -/
def endlessSettings : Settings Float :=
  { (Settings.default : Settings Float) with
    maxIterations := 4294967295
    recordEvery := 4294967295
    printEvery := 4294967295 }

/-- Its solver is built, and its run counts until it faults. -/
theorem exists_solve_overflows : ∃ s₀ : Solver Float BallOracle,
    new .reference endlessSettings = .ok (.ok s₀) ∧ s₀.gap.oracle = none ∧
      s₀.solve = .error .counterOverflow := by
  have hp : (Problem.reference : Problem Float).Accepted := rfl
  obtain ⟨s₀, hnew, -, hsettings, -, hgap⟩ := @exists_new Float BallOracle _ .reference
    endlessSettings .never 1 rfl rfl (by decide) rfl
  have hnone : s₀.gap.oracle = none := by
    rw [hgap]
    rfl
  have hbuilt := built_of_new hp (by decide) hnew
  exact ⟨s₀, hnew, hnone, (hbuilt.fills_of_missing hnone (by rw [hsettings]; decide)).1⟩

end Solver

end PrimalDual
