import Mathlib.Algebra.BigOperators.Intervals
import Mathlib.Data.Set.Card
import PrimalDual.Proofs.Solver.Repetition
import PrimalDual.Proofs.Solver.Termination
import PrimalDual.Proofs.Timers

/-!
# What the timers count

Every operation of a pass stops the timers that it starts, and so does a run. The counts therefore
tell how many steps a solver made in all of its runs, and how many passes it observed; only the
timer of the run itself begins anew each time.
-/
namespace PrimalDual

open Timers (Balanced)

/-- The steps of a run are its iterations but for the restarts. -/
def Solution.steps {T : Type} (s : Solution T) : ℕ := s.iterations - s.restarts

namespace Solver

variable {T ω : Type} {s s' s₀ : Solver T ω} {S n : ℕ}

theorem untimed_balanced {print : Solver T ω → Except Fault (Report T)}
    (h : s.untimed print = .ok s') : Balanced 0 s.timers s'.timers := by
  unfold untimed at h
  obtain ⟨report, -, h⟩ := bind_eq_ok.mp h
  rw [← Except.ok.inj h]
  exact Timers.balanced_suspend_resume s.timers

theorem performRestart_timers (h : s.performRestart = .ok s') : s'.timers = s.timers := by
  obtain ⟨iterates, -, hrecord⟩ := performRestart_eq_ok h
  rcases recordRestart_eq_ok hrecord with ⟨-, rfl⟩ | ⟨-, k, -, -, hrecord⟩
  · rfl
  · obtain ⟨trajectory, report, rfl⟩ := recordWhen_eq_ok hrecord
    rfl

theorem passNotice_timers (s : Solver T ω) : s.passNotice.timers = s.timers := by
  obtain ⟨report, h⟩ := passNotice_eq s
  rw [h]

variable [Scalar T]

theorem takeStep_balanced (h : s.takeStep = .ok s') : Balanced {"step"} s.timers s'.timers := by
  unfold takeStep at h
  obtain ⟨iterates, -, h⟩ := bind_eq_ok.mp h
  rw [← Except.ok.inj h]
  exact (Balanced.refl _).stop

theorem printWhen_balanced {onPrint : Bool} (h : s.printWhen onPrint = .ok s') :
    Balanced 0 s.timers s'.timers := by
  unfold printWhen at h
  split at h
  · exact untimed_balanced h
  · rw [← Except.ok.inj h]
    exact .refl _

/-- A solver that was built has timed its construction. -/
theorem timers_of_new {p : Problem T} {settings : Settings T} (h : new p settings = .ok (.ok s)) :
    s.timers = (({} : Timers).start "setup").stop := by
  unfold new at h
  split at h
  · cases h
  · obtain ⟨capacity, -, h⟩ := bind_eq_ok.mp h
    split at h
    · cases h
    · split at h
      · cases h
      · rw [← Except.ok.inj (Except.ok.inj h)]

/-- A run is timed from where its texts have been printed, on a timer that begins anew. -/
theorem prepare_timers (h : s.prepare = .ok s') : ∃ t : Timers, t.stack = s.timers.stack ∧
    (∀ k, t.calls k = if k = "solve" then 0 else s.timers.calls k) ∧
    s'.timers = t.start "solve" := by
  unfold prepare at h
  obtain ⟨fresh, hreset, h⟩ := bind_eq_ok.mp h
  obtain ⟨opened, hprint, h⟩ := bind_eq_ok.mp h
  have hfresh : fresh.timers = s.timers := by
    unfold reset at hreset
    obtain ⟨capacity, -, hreset⟩ := bind_eq_ok.mp hreset
    rw [← Except.ok.inj hreset]
  have hopened : Balanced 0 fresh.timers opened.timers := untimed_balanced hprint
  rw [← Except.ok.inj h]
  refine ⟨opened.timers.resetTimer "solve", ?_, fun k => ?_, rfl⟩
  · rw [← hfresh]
    exact hopened.stack
  · rw [Timers.calls_resetTimer, hopened.calls, hfresh, Multiset.count_zero, Nat.add_zero]

theorem finish_timers (h : s.finish = .ok s') : s'.timers = s.timers.stop := by
  unfold finish at h
  obtain ⟨report, -, h⟩ := bind_eq_ok.mp h
  obtain ⟨solution, -, h⟩ := bind_eq_ok.mp h
  rw [← Except.ok.inj h]
  rfl

variable [GapOracle ω T]

/-- An observation is timed where it evaluates. -/
theorem observe_balanced (h : s.observe = .ok s') : ∃ k, s.iterates.step = .ok k ∧
    (¬ s.settings.OnCadence k ∧ Balanced 0 s.timers s'.timers ∨
      s.settings.OnCadence k ∧ Balanced {"evaluate"} s.timers s'.timers) := by
  obtain ⟨k, hk, -, -, ⟨hoff, rfl⟩ | ⟨hon, evaluated, recorded, hevaluate, hrecord, hprint⟩⟩ :=
    observe_eq_ok h
  · exact ⟨k, hk, .inl ⟨hoff, .refl _⟩⟩
  · obtain ⟨iterates, gap, -, rfl⟩ := evaluate_eq_ok hevaluate
    obtain ⟨trajectory, report, rfl⟩ := recordWhen_eq_ok hrecord
    have hevaluated : Balanced {"evaluate"} s.timers (s.timers.start "evaluate").stop :=
      (Balanced.refl _).stop
    exact ⟨k, hk, .inr ⟨hon, hevaluated.trans (printWhen_balanced hprint)⟩⟩

/-- The decision on a restart and the restart itself are timed together. -/
theorem considerRestart_balanced (h : s.considerRestart = .ok s') :
    Balanced {"restart"} s.timers s'.timers := by
  unfold considerRestart at h
  obtain ⟨⟨fire, decided⟩, hdecide, h⟩ := bind_eq_ok.mp h
  obtain ⟨settled, hsettle, h⟩ := bind_eq_ok.mp h
  have hdecided : decided.timers = s.timers.start "restart" := by
    unfold decideRestart at hdecide
    obtain ⟨⟨fire', gap⟩, -, hdecide⟩ := bind_eq_ok.mp hdecide
    rw [snd_eq_of_pure hdecide]
    rfl
  have hsettled : settled.timers = decided.timers := by
    unfold restartWhen at hsettle
    split at hsettle
    · obtain ⟨announced, hannounce, hperform⟩ := bind_eq_ok.mp hsettle
      obtain ⟨k, evaluated, report, -, hevaluate, rfl⟩ := announceRestart_eq_ok hannounce
      obtain ⟨iterates, gap, -, rfl⟩ := evaluate_eq_ok hevaluate
      have htimers := performRestart_timers hperform
      exact htimers
    · rw [← Except.ok.inj hsettle]
  rw [← Except.ok.inj h]
  change Balanced {"restart"} s.timers settled.timers.stop
  rw [hsettled, hdecided]
  exact (Balanced.refl _).stop

/-- The passes of the run from `s₀` that are observed: those whose index right after the step is on
a cadence. -/
def observedPasses (s₀ : Solver T ω) : Set ℕ :=
  {k | ∃ n s, Moment s₀ .stepped k n s ∧ s₀.settings.OnCadence (k + n)}

/-- What the first `S` passes of a run count. -/
noncomputable def passTimers (s₀ : Solver T ω) (S : ℕ) : Multiset String :=
  S • {"step"} + S • {"restart"} + (s₀.observedPasses ∩ Set.Iic S).ncard • {"evaluate"}

theorem mem_observedPasses (h : Moment s₀ .stepped S n s) :
    S ∈ s₀.observedPasses ↔ s₀.settings.OnCadence (S + n) := by
  constructor
  · rintro ⟨n', s', h', hdue⟩
    obtain rfl := h.stepped_unique h'
    rwa [← h.course.restarts, h'.course.restarts]
  · exact fun hdue => ⟨n, s, h, hdue⟩

theorem observedPasses_inter_zero (s₀ : Solver T ω) : s₀.observedPasses ∩ Set.Iic 0 = ∅ := by
  rw [Set.eq_empty_iff_forall_notMem]
  rintro k ⟨⟨n, s, h, -⟩, hk⟩
  obtain rfl := Nat.le_zero.mp hk
  cases h

theorem passTimers_zero (s₀ : Solver T ω) : s₀.passTimers 0 = 0 := by
  rw [passTimers, observedPasses_inter_zero, Set.ncard_empty]
  rfl

theorem passTimers_succ_off (h : S + 1 ∉ s₀.observedPasses) :
    s₀.passTimers (S + 1) = s₀.passTimers S + ({"step"} + 0 + {"restart"}) := by
  have hsame : s₀.observedPasses ∩ Set.Iic (S + 1) = s₀.observedPasses ∩ Set.Iic S := by
    ext k
    simp only [Set.mem_inter_iff, Set.mem_Iic, and_congr_right_iff]
    intro hk
    have hne : k ≠ S + 1 := fun heq => h (heq ▸ hk)
    omega
  rw [passTimers, passTimers, hsame, succ_nsmul, succ_nsmul]
  abel

theorem passTimers_succ_on (h : S + 1 ∈ s₀.observedPasses) :
    s₀.passTimers (S + 1) = s₀.passTimers S + ({"step"} + {"evaluate"} + {"restart"}) := by
  have hmore : s₀.observedPasses ∩ Set.Iic (S + 1) =
      insert (S + 1) (s₀.observedPasses ∩ Set.Iic S) := by
    ext k
    simp only [Set.mem_inter_iff, Set.mem_Iic, Set.mem_insert_iff]
    constructor
    · rintro ⟨hk, hle⟩
      exact (Nat.lt_or_eq_of_le hle).symm.imp_right fun hlt => ⟨hk, Nat.le_of_lt_succ hlt⟩
    · rintro (rfl | ⟨hk, hle⟩)
      · exact ⟨h, le_rfl⟩
      · exact ⟨hk, Nat.le_succ_of_le hle⟩
  have hnew : S + 1 ∉ s₀.observedPasses ∩ Set.Iic S := fun hmem => Nat.not_succ_le_self S hmem.2
  rw [passTimers, passTimers, hmore,
    Set.ncard_insert_of_notMem hnew ((Set.finite_Iic S).inter_of_right _), succ_nsmul, succ_nsmul,
    succ_nsmul]
  abel

/-- A pass is a bracket around its step, its evaluation if it has one, and its restart. -/
theorem Moment.pass_balanced {t : Timers} (h : Moment s₀ .head S n s)
    (hs : s.pass = .ok s') (hbefore : Balanced (s₀.passTimers S) t s.timers) :
    Balanced (s₀.passTimers (S + 1)) t s'.timers := by
  unfold Solver.pass at hs
  obtain ⟨stepped, hstep, hs⟩ := bind_eq_ok.mp hs
  obtain ⟨observed, hobserve, hs⟩ := bind_eq_ok.mp hs
  obtain ⟨settled, hconsider, hs⟩ := bind_eq_ok.mp hs
  obtain rfl := Except.ok.inj hs
  rw [passNotice_timers]
  have hstepped := h.step hstep
  have hrestart := considerRestart_balanced hconsider
  obtain ⟨k, hk, hcases⟩ := observe_balanced hobserve
  obtain rfl := ok_unique hstepped.step_eq hk
  rw [hstepped.course.frame.settings, ← mem_observedPasses hstepped] at hcases
  rcases hcases with ⟨hoff, hobserved⟩ | ⟨hon, hobserved⟩
  · rw [passTimers_succ_off hoff]
    exact hbefore.trans (((takeStep_balanced hstep).trans hobserved).trans hrestart)
  · rw [passTimers_succ_on hon]
    exact hbefore.trans (((takeStep_balanced hstep).trans hobserved).trans hrestart)

/-- A pass that has closed began at a head. -/
theorem Moment.exists_head (h : Moment s₀ .closed S n s) :
    ∃ S' n' head, S = S' + 1 ∧ Moment s₀ .head S' n' head ∧ head.pass = .ok s := by
  obtain ⟨n', observed, fire, decided, settled, hobserved, hdecide, hsettle, rfl⟩ :=
    h.exists_observed
  cases hobserved with
  | observe hstepped hobserve =>
    cases hstepped with
    | step hhead hstep =>
      refine ⟨_, _, _, rfl, hhead, ?_⟩
      unfold Solver.pass considerRestart
      simp only [hstep, hobserve, hdecide, hsettle, ok_bind, pure_eq_ok]

/-- From its first moment on a run is a bracket around its passes. -/
theorem Moment.closed_balanced {prepared : Solver T ω} (hprepare : s₀.prepare = .ok prepared)
    (h : Moment s₀ .closed S n s) : Balanced (s₀.passTimers S) prepared.timers s.timers := by
  induction S generalizing n s with
  | zero =>
    obtain ⟨S', -, -, hS, -⟩ := h.exists_head
    omega
  | succ S ih =>
    obtain ⟨S', n', head, hS, hhead, hpass⟩ := h.exists_head
    obtain rfl := Nat.succ.inj hS
    refine hhead.pass_balanced hpass ?_
    cases hhead with
    | begin hs =>
      obtain rfl := ok_unique hprepare hs
      rw [passTimers_zero]
      exact .refl _
    | again hclosed _ => exact ih hclosed

/-- A run has no passes beyond its last. -/
theorem Moment.observedPasses_subset (h : Moment s₀ .ended S n s) :
    s₀.observedPasses ⊆ Set.Icc 1 S := by
  rintro k ⟨n', stepped, hstepped, -⟩
  have hfirst : n' + 1 ≤ k := hstepped.course.lead
  exact ⟨by omega, hstepped.le_ended h⟩

/-- The last moment of a run, by what its solution says of the steps and the restarts. -/
theorem exists_ended_steps (h : s₀.solve = .ok s) : ∃ ended,
    Moment s₀ .ended s.solution.steps s.solution.restarts ended ∧ ended.finish = .ok s := by
  obtain ⟨S, n, ended, hended, hfinish⟩ := exists_moment h
  obtain ⟨-, -, hiterations, hrestarts, -⟩ := finish_eq_ok hfinish
  rw [Solution.steps, ok_unique hiterations hended.step_eq, hrestarts, hended.course.restarts,
    Nat.add_sub_cancel]
  exact ⟨ended, hended, hfinish⟩

/-- What a run adds to the counts. -/
theorem solve_timers (h : s₀.solve = .ok s) : s.timers.stack = s₀.timers.stack ∧
    s.timers.calls "setup" = s₀.timers.calls "setup" ∧ s.timers.calls "solve" = 1 ∧
    s.timers.calls "step" = s₀.timers.calls "step" + s.solution.steps ∧
    s.timers.calls "restart" = s₀.timers.calls "restart" + s.solution.steps ∧
    s.timers.calls "evaluate" = s₀.timers.calls "evaluate" + s₀.observedPasses.ncard := by
  obtain ⟨ended, hended, hfinish⟩ := exists_ended_steps h
  obtain ⟨prepared, hprepare, -⟩ := bind_eq_ok.mp h
  obtain ⟨t, hstack, hcalls, htimers⟩ := prepare_timers hprepare
  have hpasses : s₀.observedPasses ∩ Set.Iic s.solution.steps = s₀.observedPasses :=
    Set.inter_eq_left.mpr (hended.observedPasses_subset.trans Set.Icc_subset_Iic_self)
  have hrun : Balanced ("solve" ::ₘ s₀.passTimers s.solution.steps) t s.timers := by
    rw [finish_timers hfinish]
    cases hended with
    | stop hclosed _ =>
      have hpassed := hclosed.closed_balanced hprepare
      rw [htimers] at hpassed
      exact hpassed.stop
  refine ⟨hrun.stack.trans hstack, ?_, ?_, ?_, ?_, ?_⟩ <;>
    simp [hrun.calls, hcalls, passTimers, hpasses]

/-- What a number of runs adds to the counts. -/
theorem runs_timers {states : ℕ → Solver T ω}
    (hruns : ∀ i, (states i).solve = .ok (states (i + 1))) (m : ℕ) :
    (states m).timers.stack = (states 0).timers.stack ∧
    (states m).timers.calls "setup" = (states 0).timers.calls "setup" ∧
    (states m).timers.calls "step" = (states 0).timers.calls "step" +
      ∑ i ∈ Finset.range m, (states (i + 1)).solution.steps ∧
    (states m).timers.calls "restart" = (states 0).timers.calls "restart" +
      ∑ i ∈ Finset.range m, (states (i + 1)).solution.steps ∧
    (states m).timers.calls "evaluate" = (states 0).timers.calls "evaluate" +
      ∑ i ∈ Finset.range m, (states i).observedPasses.ncard := by
  induction m with
  | zero => simp
  | succ m ih =>
    obtain ⟨hstack, hsetup, hstep, hrestart, hevaluate⟩ := ih
    obtain ⟨hstack', hsetup', -, hstep', hrestart', hevaluate'⟩ := solve_timers (hruns m)
    simp only [Finset.sum_range_succ, ← Nat.add_assoc]
    rw [hstack', hsetup', hstep', hrestart', hevaluate', hstack, hsetup, hstep, hrestart, hevaluate]
    exact ⟨rfl, rfl, rfl, rfl, rfl⟩

/-- What a solver needs for its runs to complete. -/
structure Operable (good : ω → Prop) (s : Solver T ω) : Prop where
  built : s.Built
  within : s.settings.maxIterations + 2 < Counter.bound
  answers : GapOracle.Answers s.problem good
  oracle : ∀ o, s.gap.oracle = some o → good o

variable {good : ω → Prop}

/-- After a run a solver is as able to run as it was before. -/
theorem Operable.exists_solve (h : s.Operable good) :
    ∃ s', s.solve = .ok s' ∧ s'.Operable good := by
  obtain ⟨s', hsolve⟩ := h.built.exists_solve h.within h.answers h.oracle
  obtain ⟨hproblem, hsettings, -, -⟩ := solve_keeps hsolve
  exact ⟨s', hsolve, h.built.of_solve hsolve, hsettings ▸ h.within, hproblem ▸ h.answers,
    h.built.oracle_of_solve h.answers h.oracle hsolve⟩

/-- A solver runs as often as it is asked to. -/
theorem Operable.exists_runs (h : s₀.Operable good) :
    ∃ states : ℕ → Solver T ω, states 0 = s₀ ∧ ∀ i, (states i).solve = .ok (states (i + 1)) := by
  choose next hsolve hnext using fun s : {s : Solver T ω // s.Operable good} => s.2.exists_solve
  let states : ℕ → {s : Solver T ω // s.Operable good} :=
    fun i => (fun s => ⟨next s, hnext s⟩)^[i] ⟨s₀, h⟩
  have hstep (i : ℕ) : states (i + 1) = ⟨next (states i), hnext (states i)⟩ :=
    Function.iterate_succ_apply' _ i _
  refine ⟨fun i => (states i).1, rfl, fun i => ?_⟩
  dsimp only
  rw [hstep i]
  exact hsolve (states i)

/-- Whatever runs a solver makes, its timers are all stopped in the end. Those of the steps and of
the restarts count the steps of all runs, that of the evaluations counts the passes observed in
them, and that of a run counts the latest. -/
theorem timers_account {p : Problem T} {settings : Settings T} {built : Solver T ω} {o : Option ω}
    (hp : p.Accepted) (hlimit : settings.gapFailureLimit < Counter.bound)
    (hmax : settings.maxIterations + 2 < Counter.bound) (hnew : new p settings = .ok (.ok built))
    (hanswers : GapOracle.Answers p good) (ho : ∀ x, o = some x → good x) :
    ∃ states : ℕ → Solver T ω, states 0 = o.elim built built.setOracle ∧
      (∀ i, (states i).solve = .ok (states (i + 1))) ∧
      (∀ i, (∃ ended, Moment (states i) .ended (states (i + 1)).solution.steps
          (states (i + 1)).solution.restarts ended) ∧
        (states i).observedPasses ⊆ Set.Icc 1 (states (i + 1)).solution.steps) ∧
      ∀ m, 1 ≤ m →
        (states m).timers.stack = [] ∧
        (states m).timers.calls "setup" = 1 ∧
        (states m).timers.calls "solve" = 1 ∧
        (states m).timers.calls "step" = ∑ i ∈ Finset.range m, (states (i + 1)).solution.steps ∧
        (states m).timers.calls "restart" =
          ∑ i ∈ Finset.range m, (states (i + 1)).solution.steps ∧
        (states m).timers.calls "evaluate" =
          ∑ i ∈ Finset.range m, (states i).observedPasses.ncard := by
  obtain ⟨hproblem, hsettings, hgap, -⟩ := new_eq_ok hnew
  have hbuilt := built_of_new hp hlimit hnew
  have hstart : (o.elim built built.setOracle).Operable good := by
    cases o with
    | none =>
      refine ⟨hbuilt, hsettings ▸ hmax, hproblem ▸ hanswers, fun x hx => ?_⟩
      rw [Option.elim_none, hgap] at hx
      cases hx
    | some o => exact ⟨hbuilt.setOracle o, hsettings ▸ hmax, hproblem ▸ hanswers, ho⟩
  have htimers : (o.elim built built.setOracle).timers = (({} : Timers).start "setup").stop := by
    rw [← timers_of_new hnew]
    cases o <;> rfl
  obtain ⟨states, hzero, hruns⟩ := hstart.exists_runs
  refine ⟨states, hzero, hruns, fun i => ?_, fun m hm => ?_⟩
  · obtain ⟨ended, hended, -⟩ := exists_ended_steps (hruns i)
    exact ⟨⟨ended, hended⟩, hended.observedPasses_subset⟩
  · have hlast : (states m).timers.calls "solve" = 1 := by
      obtain ⟨m, rfl⟩ := Nat.exists_eq_add_of_le' hm
      exact (solve_timers (hruns m)).2.2.1
    obtain ⟨hstack, hsetup, hstep, hrestart, hevaluate⟩ := runs_timers hruns m
    rw [hzero, htimers] at hstack hsetup hstep hrestart hevaluate
    rw [hstack, hsetup, hlast, hstep, hrestart, hevaluate]
    refine ⟨rfl, rfl, rfl, ?_, ?_, ?_⟩
    · exact Nat.zero_add _
    · exact Nat.zero_add _
    · exact Nat.zero_add _

/-- Two runs of a solver that asks for the gap by projection. -/
theorem timers_account_twice : ∃ built : Solver ℝ BallOracle,
    new .reference (.brief (1 / 2) (1 / 2)) = .ok (.ok built) ∧
    ∃ once twice, (built.setOracle {}).solve = .ok once ∧ once.solve = .ok twice ∧
      twice.timers.stack = [] ∧ twice.timers.calls "setup" = 1 ∧ twice.timers.calls "solve" = 1 ∧
      twice.timers.calls "step" = once.solution.steps + twice.solution.steps ∧
      twice.timers.calls "restart" = once.solution.steps + twice.solution.steps ∧
      twice.timers.calls "evaluate" =
        (built.setOracle {}).observedPasses.ncard + once.observedPasses.ncard := by
  obtain ⟨built, hnew⟩ := exists_brief_new BallOracle true
  obtain ⟨states, hzero, hruns, -, hcounts⟩ := timers_account (o := some {})
    Problem.reference_accepted (by decide) (by decide) hnew
    (BallOracle.answers_suits Problem.reference_accepted) fun x hx => by
      rw [← Option.some.inj hx]
      exact BallOracle.suits_new (by decide)
  have hfirst := hruns 0
  obtain ⟨hstack, hsetup, hsolve, hstep, hrestart, hevaluate⟩ := hcounts 2 (by decide)
  simp only [Finset.sum_range_succ, Finset.sum_range_zero, Nat.zero_add, hzero, Option.elim_some]
    at hstep hrestart hevaluate hfirst
  exact ⟨built, hnew, states 1, states 2, hfirst, hruns 1, hstack, hsetup, hsolve, hstep, hrestart,
    hevaluate⟩

end Solver

end PrimalDual
