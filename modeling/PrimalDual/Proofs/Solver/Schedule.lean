import Mathlib.Algebra.Ring.Parity
import Mathlib.Order.Bounds.Basic
import PrimalDual.Proofs.Solver.Entries
import PrimalDual.Proofs.Solver.Observation

/-!
# The schedule of restarts

A restart takes an index of its own, so that the decision after it is made two indices later. A run
whose decisions go by a schedule that leaves this gap loses none of the scheduled indices: it
restarts at each of them up to the limit, and runs one index past the limit if it restarts there.
The fixed policy goes by the multiples of its period, the adaptive one without an oracle by the
first index on its cadence that is late enough.
-/
namespace PrimalDual

namespace Solver

variable {T ω : Type} [Scalar T] [GapOracle ω T] {s₀ s : Solver T ω} {stage : Stage} {S n : ℕ}

/-- The indices made so far at which it is open whether there is a restart. -/
def Stage.undecided : Stage → ℕ
  | .stepped | .observed | .decided _ => 1
  | _ => 0

/-- The run from `s₀` goes by a schedule: as long as it restarted at the scheduled indices, it
decides to do so again. No two of them follow on each other. -/
structure Follows (s₀ : Solver T ω) (P : ℕ → Prop) [DecidablePred P] : Prop where
  decides : ∀ {S n : ℕ} {s : Solver T ω} {fire : Bool}, Moment s₀ (.decided fire) S n s →
    s.trajectory.restartSteps.toList = stepsWhere P (S + n - 1) → (fire = true ↔ P (S + n))
  apart : ∀ k, P k → ¬ P (k + 1)

variable {P : ℕ → Prop} [DecidablePred P]

/-- At each moment the restarts are those scheduled so far. -/
theorem Moment.restartSteps_eq (hfollows : Follows s₀ P) (h : Moment s₀ stage S n s) :
    s.trajectory.restartSteps.toList = stepsWhere P (S + n - stage.undecided) := by
  induction h with
  | begin hs =>
    obtain ⟨capacity, report, timers, -, rfl⟩ := prepare_eq_ok hs
    rfl
  | @step S n s s' _ hs ih =>
    obtain ⟨iterates, timers, -, rfl⟩ := takeStep_eq_ok hs
    have hindex : S + 1 + n - 1 = S + n := by omega
    rw [Stage.undecided, hindex]
    exact ih
  | observe _ hs ih => rw [(observe_observes hs).restartSteps, ih]; rfl
  | decide _ hs ih => rw [(decideRestart_observes hs).restartSteps, ih]; rfl
  | @announce S n s s' h hs ih =>
    have hscheduled := (hfollows.decides h ih).mp rfl
    have hbegun : n + 1 ≤ S := h.course.lead
    obtain ⟨k, hk⟩ : ∃ k, S + n = k + 1 := ⟨S + n - 1, by omega⟩
    obtain ⟨index, evaluated, report, hindex, hevaluate, rfl⟩ := announceRestart_eq_ok hs
    obtain rfl := ok_unique h.step_eq hindex
    obtain ⟨iterates, gap, -, rfl⟩ := evaluate_eq_ok hevaluate
    rw [hk] at hscheduled
    change (s.trajectory.restartSteps.push (S + n)).toList = stepsWhere P (S + n)
    rw [Array.toList_push, ih, hk, stepsWhere_concat hscheduled]
    rfl
  | @restart S n s s' h hs ih =>
    -- The restart takes the next index, which is not a scheduled one.
    have hnoted := Array.mem_toList_iff.mpr h.mem_restartSteps
    rw [ih] at hnoted
    obtain ⟨iterates, -, hobserves⟩ := performRestart_observes hs
    rw [hobserves.restartSteps]
    exact ih.trans (stepsWhere_skip (hfollows.apart _ (mem_stepsWhere.mp hnoted).2)).symm
  | @keep S n s h ih =>
    have hbegun : n + 1 ≤ S := h.course.lead
    obtain ⟨k, hk⟩ : ∃ k, S + n = k + 1 := ⟨S + n - 1, by omega⟩
    have hscheduled : ¬ P (S + n) := fun hP => by cases (hfollows.decides h ih).mpr hP
    rw [hk] at hscheduled
    rw [ih, Stage.undecided, hk]
    exact (stepsWhere_skip hscheduled).symm
  | close _ ih =>
    rw [((stopTimer_observes _).trans (passNotice_observes _)).restartSteps, ih]
    rfl
  | again _ _ ih => exact ih
  | stop _ _ ih => exact ih

/-- Where the run decided on a restart, one was scheduled. -/
theorem Follows.decided_iff {fire : Bool} (hfollows : Follows s₀ P)
    (h : Moment s₀ (.decided fire) S n s) : fire = true ↔ P (S + n) :=
  hfollows.decides h (h.restartSteps_eq hfollows)

/-- A run that nothing told to end makes the limit its last index, or the one after it if there is a
restart at the limit. -/
theorem Follows.ended_index (hfollows : Follows s₀ P) (hbuilt : s₀.Built)
    (h : Moment s₀ .ended S n s) (hgoing : s.iterates.terminate = false) :
    S + n = if P s₀.settings.maxIterations then s₀.settings.maxIterations + 1
      else s₀.settings.maxIterations := by
  cases h with
  | @stop _ _ closed status h houtcome =>
    have hover : s₀.settings.maxIterations < S + n + 1 := by
      rcases outcome?_eq_some houtcome with ⟨-, hterminate⟩ | ⟨-, hover⟩
      · cases hterminate.symm.trans hgoing
      · rwa [h.course.frame.settings, h.course.count] at hover
    obtain ⟨settled, -, -, hkept | ⟨n', announced, rfl, hannounced, -⟩⟩ := h.closed_cases
    · have hwithin := hbuilt.index_le hkept rfl
      have hlast : S + n = s₀.settings.maxIterations := by omega
      have hscheduled : ¬ P (S + n) := fun hP => by cases (hfollows.decided_iff hkept).mpr hP
      rw [hlast] at hscheduled
      rw [if_neg hscheduled]
      exact hlast
    · have hwithin := hbuilt.index_le hannounced rfl
      cases hannounced with
      | announce hdecided _ =>
        have hscheduled := (hfollows.decided_iff hdecided).mp rfl
        rcases hwithin.eq_or_lt with hlast | hlt
        · rw [hlast] at hscheduled
          rw [if_pos hscheduled]
          omega
        · have hlast : S + n' + 1 = s₀.settings.maxIterations := by omega
          have hskipped := hfollows.apart _ hscheduled
          rw [hlast] at hskipped
          rw [if_neg hskipped]
          omega

/-- A run that nothing told to end restarts at all scheduled indices up to the limit. -/
theorem Follows.ended (hfollows : Follows s₀ P) (hbuilt : s₀.Built) (h : Moment s₀ .ended S n s)
    (hgoing : s.iterates.terminate = false) :
    s.trajectory.restartSteps.toList = stepsWhere P s₀.settings.maxIterations ∧
      S + n = if P s₀.settings.maxIterations then s₀.settings.maxIterations + 1
        else s₀.settings.maxIterations := by
  have hlast := hfollows.ended_index hbuilt h hgoing
  refine ⟨?_, hlast⟩
  have hsteps : s.trajectory.restartSteps.toList = stepsWhere P (S + n) :=
    h.restartSteps_eq hfollows
  rw [hsteps, hlast]
  split
  · next hscheduled => exact stepsWhere_skip (hfollows.apart _ hscheduled)
  · rfl

theorem not_exists_decisive (hnone : s₀.gap.oracle = none) : ¬ ∃ e e', Decisive s₀ e e' := by
  rintro ⟨e, e', hdecisive⟩
  exact not_decisive_of_missing hnone hdecisive

/-- What such a run leaves behind. Its steps are the iterations that are not restarts. -/
theorem Follows.solve (hfollows : Follows s₀ P) (hbuilt : s₀.Built) (hsolve : s₀.solve = .ok s)
    (hundecided : ¬ ∃ e e', Decisive s₀ e e') :
    ∃ S n ended, Moment s₀ .ended S n ended ∧ ended.finish = .ok s ∧
      s.trajectory.restartSteps.toList = stepsWhere P s₀.settings.maxIterations ∧
      s.solution.restarts = s.trajectory.restartSteps.size ∧
      S + s.solution.restarts = s.solution.iterations ∧
      s.solution.iterations = if P s₀.settings.maxIterations
        then s₀.settings.maxIterations + 1 else s₀.settings.maxIterations := by
  obtain ⟨S, n, ended, hended, hfinish⟩ := exists_moment hsolve
  obtain ⟨-, -, -, -, -, htrajectory⟩ := finish_keeps hfinish
  obtain ⟨-, -, hstep, hrestarts, -, -⟩ := finish_eq_ok hfinish
  have hgoing : ended.iterates.terminate = false := by
    rw [← Bool.not_eq_true]
    exact fun hterminate => hundecided (hended.exists_decisive hterminate)
  obtain ⟨hsteps, hlast⟩ := hfollows.ended hbuilt hended hgoing
  have hiterations := ok_unique hended.step_eq hstep
  rw [hended.course.restarts] at hrestarts
  rw [htrajectory, hrestarts, ← hiterations]
  exact ⟨S, n, ended, hended, hfinish, hsteps, hended.course.restartSteps.symm, rfl, hlast⟩

end Solver

/-- The indices at which a fixed period restarts: its multiples, every other one of them if each
index is a multiple. -/
def RestartPolicy.FixedAt (length k : ℕ) : Prop := length ∣ k ∧ (length = 1 → Odd k)

namespace RestartPolicy.FixedAt

instance (length : ℕ) : DecidablePred (FixedAt length) :=
  fun k => inferInstanceAs (Decidable (length ∣ k ∧ (length = 1 → Odd k)))

variable {length k : ℕ}

theorem not_succ (h : FixedAt length k) : ¬ FixedAt length (k + 1) := by
  rintro ⟨hdvd, hodd⟩
  obtain rfl : length = 1 := Nat.dvd_one.mp ((Nat.dvd_add_right h.1).mp hdvd)
  exact Nat.not_even_iff_odd.mpr (hodd rfl) (h.2 rfl).add_one

theorem iff_dvd (h : 2 ≤ length) : FixedAt length k ↔ length ∣ k :=
  and_iff_left fun hone => by omega

theorem one_iff : FixedAt 1 k ↔ Odd k := by
  simp [FixedAt]

/-- Of a longer period these are the multiples in their order. -/
theorem stepsWhere_eq_map (h : 2 ≤ length) (last : ℕ) :
    stepsWhere (FixedAt length) last = (List.range' 1 (last / length)).map (· * length) := by
  induction last with
  | zero => simp [stepsWhere]
  | succ last ih =>
    by_cases hdvd : length ∣ last + 1
    · have hquotient : (last + 1) / length = last / length + 1 := by
        rw [Nat.succ_div, if_pos hdvd]
      have hmultiple : (1 + last / length) * length = last + 1 := by
        rw [Nat.add_comm, ← hquotient, Nat.div_mul_cancel hdvd]
      rw [stepsWhere_concat ((iff_dvd h).mpr hdvd), ih, hquotient, List.range'_1_concat,
        List.map_append, List.map_singleton, hmultiple]
    · rw [stepsWhere_skip fun hat => hdvd hat.1, ih, Nat.succ_div, if_neg hdvd, add_zero]

theorem stepsWhere_one (last : ℕ) : stepsWhere (FixedAt 1) last = stepsWhere Odd last :=
  List.filter_congr fun _ _ => decide_eq_decide.mpr one_iff

end RestartPolicy.FixedAt

namespace Solver

variable {T ω : Type} [Scalar T] [GapOracle ω T] {s₀ s : Solver T ω} {S n : ℕ}

/-- The fixed policy goes by its period. -/
theorem follows_fixed (hpolicy : s₀.policy = .fixed)
    (henabled : s₀.settings.restartEnabled = true) :
    Follows s₀ (RestartPolicy.FixedAt s₀.settings.restartLength) where
  apart _ := RestartPolicy.FixedAt.not_succ
  decides {S n s fire} h hsteps := by
    rw [h.decided_fixed hpolicy henabled, beq_iff_eq, ← Nat.dvd_iff_mod_eq_zero]
    refine ⟨fun hdvd => ⟨hdvd, fun hone => ?_⟩, And.left⟩
    -- The index before an even one is odd, and a restart there would have taken the even one.
    by_contra hodd
    rw [Nat.not_odd_iff_even] at hodd
    have hbegun : n + 1 ≤ S := h.course.lead
    have heven := hodd.two_dvd
    have hbefore : S + n - 1 ∈ s.trajectory.restartSteps := by
      rw [← Array.mem_toList_iff, hsteps, hone, RestartPolicy.FixedAt.stepsWhere_one,
        mem_stepsWhere]
      exact ⟨by omega, Nat.Even.sub_odd (by omega) hodd odd_one⟩
    have hpast : S + n - 1 + 2 ≤ S + n := h.spaced.past _ hbefore
    omega

/-- A run with the fixed policy restarts at the multiples of its period, and at the odd indices if
the period is one, unless an evaluation ends it. -/
theorem Built.solve_fixed_schedule {good : ω → Prop} (h : s₀.Built)
    (hmax : s₀.settings.maxIterations + 2 < Counter.bound)
    (hanswers : GapOracle.Answers s₀.problem good)
    (horacle : ∀ o, s₀.gap.oracle = some o → good o) (hpolicy : s₀.policy = .fixed)
    (henabled : s₀.settings.restartEnabled = true) :
    ∃ s, s₀.solve = .ok s ∧ (s₀.gap.oracle = none → ¬ ∃ e e', Decisive s₀ e e') ∧
      ((¬ ∃ e e', Decisive s₀ e e') →
        (2 ≤ s₀.settings.restartLength →
          s.trajectory.restartSteps.toList =
            (List.range' 1 (s₀.settings.maxIterations / s₀.settings.restartLength)).map
              (· * s₀.settings.restartLength) ∧
          s.solution.iterations =
            if s₀.settings.restartLength ∣ s₀.settings.maxIterations
            then s₀.settings.maxIterations + 1 else s₀.settings.maxIterations) ∧
        (s₀.settings.restartLength = 1 →
          s.trajectory.restartSteps.toList =
            (List.range' 1 s₀.settings.maxIterations).filter (fun k => Odd k) ∧
          s.solution.iterations =
            if Odd s₀.settings.maxIterations
            then s₀.settings.maxIterations + 1 else s₀.settings.maxIterations)) := by
  obtain ⟨s, hsolve⟩ := h.exists_solve hmax hanswers horacle
  refine ⟨s, hsolve, not_exists_decisive, fun hundecided => ?_⟩
  obtain ⟨-, -, -, -, -, hsteps, -, -, hlast⟩ :=
    (follows_fixed hpolicy henabled).solve h hsolve hundecided
  rw [hsteps, hlast]
  refine ⟨fun hlong => ⟨RestartPolicy.FixedAt.stepsWhere_eq_map hlong _, ?_⟩, fun hone => ?_⟩
  · simp only [RestartPolicy.FixedAt.iff_dvd hlong]
  · rw [hone, RestartPolicy.FixedAt.stepsWhere_one]
    exact ⟨rfl, by simp only [RestartPolicy.FixedAt.one_iff]⟩

/-- Ten iterations with a period of their own, the first epoch of four steps at least. -/
noncomputable def scheduledSettings (method : String) (every : ℕ) : Settings ℝ :=
  { Settings.brief 1 Scalar.inverseE with
    restartMethod := method
    restartLength := every
    evaluateEvery := every
    firstEpochLength := 4 }

theorem exists_scheduled {method : String} {policy : RestartPolicy} {every : ℕ}
    (hmethod : method ∈ Settings.restartMethods)
    (hpolicy : RestartPolicy.ofName method = .ok policy) (hevery : every ≠ 0) :
    ∃ s₀ : Solver ℝ SilentOracle, s₀.Built ∧ s₀.problem = .reference ∧
      s₀.settings = scheduledSettings method every ∧ s₀.policy = policy ∧
      s₀.gap.oracle = none := by
  have hnorm : (scheduledSettings method every).Normalized :=
    ⟨rfl, rfl, rfl, rfl, rfl, hevery, hevery, one_ne_zero, one_ne_zero⟩
  have hcapacity : (scheduledSettings method every).recordCapacity = .ok 10 := by
    simp [Settings.recordCapacity, scheduledSettings, Settings.brief]
  obtain ⟨s₀, hnew, hproblem, hsettings, hchosen, hgap⟩ := @exists_new ℝ SilentOracle _ .reference
    _ policy 10 (hnorm.validate_eq_ok hmethod) hcapacity (by decide) hpolicy
  have hlimit : (scheduledSettings method every).gapFailureLimit < Counter.bound :=
    show 3 < Counter.bound by decide
  exact ⟨s₀, built_of_new Problem.reference_accepted hlimit hnew, hproblem, hsettings, hchosen,
    by rw [hgap]; rfl⟩

/-- Ten iterations with a restart at every fifth. -/
theorem Built.solve_fixed_schedule_five : ∃ s₀ : Solver ℝ SilentOracle,
    s₀.problem = .reference ∧ s₀.settings = scheduledSettings "fixed" 5 ∧
    s₀.policy = .fixed ∧ s₀.gap.oracle = none ∧
    ∃ s, s₀.solve = .ok s ∧ s.trajectory.restartSteps.toList = [5, 10] ∧
      s.solution.iterations = 11 := by
  obtain ⟨s₀, hbuilt, hproblem, hsettings, hpolicy, hnone⟩ :=
    @exists_scheduled "fixed" _ 5 (by decide) rfl (by decide)
  obtain ⟨s, hsolve, hundecided, hschedule⟩ := Built.solve_fixed_schedule hbuilt
    (by rw [hsettings]; decide) (SilentOracle.answers s₀.problem) (fun _ _ => trivial) hpolicy
    (by rw [hsettings]; rfl)
  rw [hsettings] at hschedule
  obtain ⟨hsteps, hlast⟩ := (hschedule (hundecided hnone)).1 (by decide)
  exact ⟨s₀, hproblem, hsettings, hpolicy, hnone, s, hsolve, hsteps, hlast⟩

/-- In the first epoch every index is that of a step. -/
theorem Moment.epochLength_eq (h : Moment s₀ stage S 0 s) : s.iterates.epochLength = S := by
  have hcourse := h.course
  have hfirst : s.iterates.restarts = 0 → s.iterates.count = s.iterates.epochLength + 1 := by
    refine h.iterates_induction
      (P := fun i => i.restarts = 0 → i.count = i.epochLength + 1) ?_ ?_ ?_ ?_
    · exact fun _ => rfl
    · intro i i' hfits hi hs hzero
      obtain ⟨point, -, -, -, -, rfl⟩ := hfits.advance_eq_ok_iff.mp hs
      exact congrArg (· + 1) (hi hzero)
    · intro i i' hfits _ hs hzero
      obtain ⟨-, -, rfl⟩ := hfits.restart_eq_ok_iff.mp hs
      cases hzero
    · intro i i' hs hi
      rw [hs]
      exact hi
  have hcount := hfirst hcourse.restarts
  rw [hcourse.count] at hcount
  omega

/-- Without an oracle the adaptive policy decides by the cadence and the length of the first epoch,
and only in that epoch. -/
theorem Moment.decided_adaptive {fire : Bool} (hpolicy : s₀.policy = .adaptive)
    (henabled : s₀.settings.restartEnabled = true) (hnone : s₀.gap.oracle = none)
    (h : Moment s₀ (.decided fire) S n s) : fire = true ↔
      n = 0 ∧ s₀.settings.evaluateEvery ∣ S ∧ s₀.settings.firstEpochLength ≤ S := by
  cases h with
  | decide hobserved hdecide =>
    have hfire := hobserved.decided_idle hnone hdecide
    rw [hpolicy, RestartPolicy.scheduled, henabled] at hfire
    rcases Nat.eq_zero_or_pos n with rfl | hn
    · rw [hfire, hobserved.epochLength_eq, Nat.dvd_iff_mod_eq_zero]
      simp
    · have hrestarted : (n == 0) = false := by simpa using hn.ne'
      rw [hrestarted, Bool.and_false, Bool.false_and] at hfire
      rw [hfire]
      exact iff_of_false Bool.false_ne_true fun hfirst => hn.ne' hfirst.1

/-- The first index at which it may restart is its only one. -/
theorem follows_adaptive {m : ℕ} (hpolicy : s₀.policy = .adaptive)
    (henabled : s₀.settings.restartEnabled = true) (hnone : s₀.gap.oracle = none)
    (hm : IsLeast {k | 0 < k ∧ s₀.settings.evaluateEvery ∣ k ∧
      s₀.settings.firstEpochLength ≤ k} m) : Follows s₀ (· = m) where
  apart k hk hnext := by
    subst hk
    exact Nat.succ_ne_self k hnext
  decides {S n s fire} h hsteps := by
    have hcourse := h.course
    have hbegun : n + 1 ≤ S := hcourse.lead
    have hsize : s.trajectory.restartSteps.toList.length = n := hcourse.restartSteps
    rw [hsteps, stepsWhere_eq m _ hm.1.1] at hsize
    rw [h.decided_adaptive hpolicy henabled hnone]
    rcases Nat.eq_zero_or_pos n with rfl | hn
    · have hlate : S ≤ m := by
        by_contra hlt
        rw [if_pos (by omega)] at hsize
        cases hsize
      constructor
      · rintro ⟨-, hdvd, hlong⟩
        exact le_antisymm hlate (hm.2 ⟨hbegun, hdvd, hlong⟩)
      · rintro rfl
        exact ⟨rfl, hm.1.2⟩
    · have hpast : m ≤ S + n - 1 := by
        by_contra hlt
        rw [if_neg hlt] at hsize
        exact hn.ne hsize
      exact iff_of_false (fun hfirst => hn.ne' hfirst.1) (by omega)

/-- Without an oracle a run with the adaptive policy restarts once, at the first index that is on
the cadence and late enough, if the limit lets it. All other iterations are steps. -/
theorem Built.solve_adaptive_schedule (h : s₀.Built)
    (hmax : s₀.settings.maxIterations + 2 < Counter.bound) (hpolicy : s₀.policy = .adaptive)
    (henabled : s₀.settings.restartEnabled = true) (hnone : s₀.gap.oracle = none) :
    ∃ m S n ended s, IsLeast {k | 0 < k ∧ s₀.settings.evaluateEvery ∣ k ∧
        s₀.settings.firstEpochLength ≤ k} m ∧
      Moment s₀ .ended S n ended ∧ ended.finish = .ok s ∧ s₀.solve = .ok s ∧
      s.trajectory.restartSteps.toList = (if m ≤ s₀.settings.maxIterations then [m] else []) ∧
      s.solution.restarts = s.trajectory.restartSteps.size ∧
      S + s.solution.restarts = s.solution.iterations ∧
      s.solution.iterations = if s₀.settings.maxIterations = m
        then s₀.settings.maxIterations + 1 else s₀.settings.maxIterations := by
  have hcadence := Nat.pos_of_ne_zero h.paced.evaluateEvery
  obtain ⟨m, hm⟩ : ∃ m, IsLeast {k | 0 < k ∧ s₀.settings.evaluateEvery ∣ k ∧
      s₀.settings.firstEpochLength ≤ k} m := by
    refine ⟨_, Nat.sInf_mem ⟨s₀.settings.evaluateEvery * (s₀.settings.firstEpochLength + 1), ?_, ?_,
      ?_⟩, fun _ => Nat.sInf_le⟩
    · positivity
    · exact Nat.dvd_mul_right _ _
    · exact (Nat.le_succ _).trans (Nat.le_mul_of_pos_left _ hcadence)
  have hanswers : GapOracle.Answers s₀.problem (fun _ : ω => False) :=
    fun _ _ _ hgood => hgood.elim
  obtain ⟨s, hsolve⟩ := h.exists_solve hmax hanswers (by simp [hnone])
  obtain ⟨S, n, ended, hended, hfinish, hsteps, hcount, htaken, hlast⟩ :=
    (follows_adaptive hpolicy henabled hnone hm).solve h hsolve (not_exists_decisive hnone)
  rw [stepsWhere_eq m _ hm.1.1] at hsteps
  exact ⟨m, S, n, ended, s, hm, hended, hfinish, hsolve, hsteps, hcount, htaken, hlast⟩

/-- Ten iterations with a decision at every third, of which the first comes too early. -/
theorem Built.solve_adaptive_schedule_third : ∃ s₀ : Solver ℝ SilentOracle,
    s₀.problem = .reference ∧ s₀.settings = scheduledSettings "adaptive" 3 ∧
    s₀.policy = .adaptive ∧ s₀.gap.oracle = none ∧
    ∃ S n ended s, Moment s₀ .ended S n ended ∧ ended.finish = .ok s ∧ s₀.solve = .ok s ∧
      s.trajectory.restartSteps.toList = [6] ∧ S + s.solution.restarts = s.solution.iterations ∧
      s.solution.iterations = 10 := by
  obtain ⟨s₀, hbuilt, hproblem, hsettings, hpolicy, hnone⟩ :=
    @exists_scheduled "adaptive" _ 3 (by decide) rfl (by decide)
  obtain ⟨m, S, n, ended, s, hm, hended, hfinish, hsolve, hsteps, -, hcount, hlast⟩ :=
    Built.solve_adaptive_schedule hbuilt (by rw [hsettings]; decide) hpolicy
      (by rw [hsettings]; rfl) hnone
  rw [hsettings] at hm hsteps hlast
  have hsix : IsLeast {k | 0 < k ∧ 3 ∣ k ∧ 4 ≤ k} 6 := by
    refine ⟨by decide, ?_⟩
    rintro k ⟨-, hdvd, hlong⟩
    omega
  obtain rfl : m = 6 := hm.unique hsix
  exact ⟨s₀, hproblem, hsettings, hpolicy, hnone, S, n, ended, s, hended, hfinish, hsolve, hsteps,
    hcount, hlast⟩

end Solver

end PrimalDual
