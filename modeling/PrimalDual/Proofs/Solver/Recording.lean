import PrimalDual.Proofs.Solver.Entries
import PrimalDual.Proofs.Solver.Pinned

/-!
# The records of a run

A run asks for a record at the multiples of the record cadence, at most once for each. The
trajectory has room for all multiples within the iterations allowed. A restart in the last pass
takes the index one past them, where there is room for a record as well, unless every index has
one. What the trajectory holds in the end is what was due up to the last index.
-/
namespace PrimalDual

namespace Trajectory

variable {T : Type} {t t' : Trajectory T} {i : Iterates T} {every k : ℕ} {all : Prop}

/-- The trajectory holds records of the multiples of a cadence up to an index: of all of them, as
far as there is room, if so asked. -/
structure Through (t : Trajectory T) (every k : ℕ) (all : Prop) : Prop where
  size_le : t.entries.size ≤ k / every
  le_size : all → min (k / every) t.capacity ≤ t.entries.size

/-- The records that were due are at multiples, and at all of them if none is left out. -/
theorem Holds.through {policy : RestartPolicy} {restartSteps : Array ℕ}
    (h : t.Holds (policy.dueSteps every k restartSteps)) :
    t.Through every k (policy.recordsAfterRestart = true) := by
  have hsize := h.size_eq
  have hmost := policy.length_dueSteps_le every k restartSteps
  refine ⟨by omega, fun hall => ?_⟩
  rw [RestartPolicy.recordsAfterRestart_iff] at hall
  rw [hsize, hall, RestartPolicy.length_dueSteps_fixed, min_comm]

end Trajectory

namespace Solver

variable {T ω : Type} {s₀ s s' : Solver T ω} {stage : Stage} {S n k : ℕ}

/-- How far the trajectory goes at a moment. -/
structure Recorded (s₀ : Solver T ω) (k : ℕ) (s : Solver T ω) : Prop where
  capacity : s₀.settings.recordCapacity = .ok s.trajectory.capacity
  through : s.trajectory.Through s₀.settings.recordEvery k
    (s₀.policy.recordsAfterRestart = true)

/-- A trajectory that holds what was due goes as far. -/
theorem Listed.recorded (h : Listed s₀ k s) : Recorded s₀ k s :=
  ⟨h.capacity, h.holds.through⟩

theorem Recorded.capacity_eq (h : Recorded s₀ k s) (hrecord : s₀.settings.recordEvery ≠ 0) :
    s.trajectory.capacity =
      (s₀.settings.maxIterations + s₀.settings.recordEvery - 1) / s₀.settings.recordEvery := by
  have hcapacity := h.capacity
  rw [Settings.recordCapacity, if_neg hrecord] at hcapacity
  exact (Except.ok.inj hcapacity).symm

/-- What is known of a state in which a record is asked for. -/
structure Recordable (s₀ : Solver T ω) (k : ℕ) (s : Solver T ω) : Prop where
  dvd : s₀.settings.recordEvery ∣ k + 1
  recorded : Recorded s₀ k s
  step : s.iterates.step = .ok (k + 1)
  le : k ≤ s₀.settings.maxIterations
  beyond : k = s₀.settings.maxIterations → s₀.policy.recordsAfterRestart = true

/-- There is room for a record within the iterations allowed, and beyond them as well if not every
index has one. -/
theorem Recordable.append_eq_ok (h : Recordable s₀ k s) (hrecord : s₀.settings.recordEvery ≠ 0)
    (hroom : ¬ (s₀.settings.recordEvery = 1 ∧ k = s₀.settings.maxIterations)) :
    ∃ t, s.trajectory.append s.iterates = .ok (.ok t) := by
  have hle := h.le
  have hsize := h.recorded.through.size_le
  have hquotient : (k + 1) / s₀.settings.recordEvery = k / s₀.settings.recordEvery + 1 := by
    rw [Nat.succ_div, if_pos h.dvd]
  have hcapacity : (k + 1) / s₀.settings.recordEvery ≤ s.trajectory.capacity := by
    rw [h.recorded.capacity_eq hrecord]
    apply Nat.div_le_div_right
    omega
  exact ⟨_, Trajectory.append_eq_ok h.step (by omega)⟩

/-- If every index has a record, there is none left for the one beyond. -/
theorem Recordable.append_eq_full (h : Recordable s₀ s₀.settings.maxIterations s)
    (hrecord : s₀.settings.recordEvery = 1) : s.trajectory.append s.iterates =
      .ok (.error (.capacityExceeded s₀.settings.maxIterations)) := by
  have hcapacity := h.recorded.capacity_eq (by rw [hrecord]; exact one_ne_zero)
  have hsize := h.recorded.through.le_size (h.beyond rfl)
  rw [hrecord, Nat.div_one] at hcapacity hsize
  rw [Nat.add_sub_cancel] at hcapacity
  rw [hcapacity, min_self] at hsize
  rw [Trajectory.append_eq_full (hcapacity.trans_le hsize), hcapacity]

variable [Scalar T] [GapOracle ω T]

/-- The states in which the run from `s₀` asks for a record, with their indices: at the record
cadence after a step, and after a restart if the policy says so. -/
inductive Records (s₀ : Solver T ω) : ℕ → Solver T ω → Prop
  | observed {S n : ℕ} {s evaluated : Solver T ω} :
    Moment s₀ .stepped S n s → (S + n) % s₀.settings.recordEvery = 0 →
      (s.startTimer "evaluate").evaluate = .ok evaluated →
        Records s₀ (S + n) evaluated.stopTimer
  | restarted {S n : ℕ} {s : Solver T ω} {iterates : Iterates T} :
    Moment s₀ .announced S n s → s.iterates.restart = .ok iterates →
      s₀.policy.recordsAfterRestart = true → (S + n + 1) % s₀.settings.recordEvery = 0 →
        Records s₀ (S + n + 1) { s with iterates }

theorem Records.step_eq (h : Records s₀ k s) : s.iterates.step = .ok k := by
  cases h with
  | @observed S n s evaluated h _ hevaluate =>
    have hcourse : s.iterates.SameCourse evaluated.iterates :=
      (evaluate_observes hevaluate).course
    change evaluated.iterates.step = _
    rw [hcourse]
    exact h.step_eq
  | restarted h hrestart _ _ => exact h.restart_step hrestart

theorem Records.recordable (hbuilt : s₀.Built) (h : Records s₀ k s) :
    ∃ j, k = j + 1 ∧ Recordable s₀ j s := by
  have hstep := h.step_eq
  cases h with
  | @observed S n s evaluated h hdue hevaluate =>
    have hbegun : n + 1 ≤ S := h.course.lead
    have hwithin := hbuilt.index_le h rfl
    have hindex : S + n = S + n - 1 + 1 := by omega
    have hrecorded : Recorded s₀ (S + n - 1) s := h.listed.recorded
    obtain ⟨iterates, gap, -, rfl⟩ := evaluate_eq_ok hevaluate
    refine ⟨S + n - 1, hindex, ?_, ⟨hrecorded.capacity, hrecorded.through⟩, ?_, ?_, ?_⟩
    · rw [← hindex]
      exact Nat.dvd_of_mod_eq_zero hdue
    · rw [← hindex]
      exact hstep
    · omega
    · intro hlast
      omega
  | @restarted S n s iterates h hrestart hpolicy hdue =>
    have hrecorded : Recorded s₀ (S + n) s := h.listed.recorded
    exact ⟨S + n, rfl, Nat.dvd_of_mod_eq_zero hdue, ⟨hrecorded.capacity, hrecorded.through⟩,
      hstep, hbuilt.index_le h rfl, fun _ => hpolicy⟩

/-- Every entry of the trajectory is a copy of a state that asked for it, at its index. -/
def Justified (s₀ s : Solver T ω) : Prop :=
  ∀ entry ∈ s.trajectory.entries, ∃ asked, Records s₀ entry.step asked ∧
    entry.iterates = asked.iterates ∧ entry.diagnostics = asked.iterates.diagnostics

theorem Justified.recordWhen {due : Bool} (h : Justified s₀ s) (hs : s.recordWhen due = .ok s')
    (hasked : due = true → ∃ k, Records s₀ k s) : Justified s₀ s' := by
  unfold Solver.recordWhen at hs
  split at hs
  · next hdue =>
    obtain ⟨k, hrecords⟩ := hasked hdue
    obtain ⟨trajectory, report, rfl, happend | ⟨-, rfl⟩⟩ := record_eq_ok hs
    · obtain ⟨k', hk, rfl⟩ := Trajectory.append_push happend
      obtain rfl := ok_unique hrecords.step_eq hk
      intro entry hentry
      rcases Array.mem_push.mp hentry with hold | rfl
      · exact h entry hold
      · exact ⟨s, hrecords, rfl, rfl⟩
    · exact h
  · rw [← Except.ok.inj hs]
    exact h

theorem Moment.justified_observe (h : Moment s₀ .stepped S n s) (hbefore : Justified s₀ s)
    (hs : s.observe = .ok s') : Justified s₀ s' := by
  have hsettings : s.settings = s₀.settings := h.course.frame.settings
  obtain ⟨k, hk, -, -, ⟨-, rfl⟩ | ⟨-, evaluated, recorded, hevaluate, hrecord, hprint⟩⟩ :=
    Solver.observe_eq_ok hs
  · exact hbefore
  · obtain rfl := ok_unique h.step_eq hk
    have hasked : ((S + n) % s.settings.recordEvery == 0) = true →
        ∃ k, Records s₀ k evaluated.stopTimer := by
      intro hdue
      rw [hsettings] at hdue
      exact ⟨_, .observed h (by simpa using hdue) hevaluate⟩
    obtain ⟨report, timers, rfl⟩ := printWhen_eq_ok hprint
    have hevaluated : Justified s₀ evaluated.stopTimer := by
      obtain ⟨iterates, gap, -, rfl⟩ := evaluate_eq_ok hevaluate
      exact hbefore
    have hrecorded := hevaluated.recordWhen hrecord hasked
    exact hrecorded

theorem Moment.justified_restart (h : Moment s₀ .announced S n s) (hbefore : Justified s₀ s)
    (hs : s.performRestart = .ok s') : Justified s₀ s' := by
  have hsettings : s.settings = s₀.settings := h.course.frame.settings
  have hpolicy : s.policy = s₀.policy := h.course.frame.policy
  obtain ⟨iterates, hrestart, hrecord⟩ := performRestart_eq_ok hs
  have hrestarted : Justified s₀ { s with iterates } := hbefore
  rcases recordRestart_eq_ok hrecord with ⟨-, rfl⟩ | ⟨hall, k, hk, -, hrecord⟩
  · exact hrestarted
  · obtain rfl := ok_unique (h.restart_step hrestart) hk
    refine hrestarted.recordWhen hrecord fun hdue => ⟨S + n + 1, ?_⟩
    rw [hsettings] at hdue
    exact .restarted h hrestart (hpolicy ▸ hall) (by simpa using hdue)

theorem Moment.justified (h : Moment s₀ stage S n s) : Justified s₀ s := by
  induction h with
  | begin hs =>
    obtain ⟨capacity, report, timers, -, rfl⟩ := prepare_eq_ok hs
    intro entry hentry
    cases Array.not_mem_empty entry hentry
  | step _ hs ih =>
    obtain ⟨iterates, timers, -, rfl⟩ := takeStep_eq_ok hs
    exact ih
  | observe h hs ih => exact h.justified_observe ih hs
  | decide _ hs ih =>
    obtain ⟨gap, timers, -, rfl⟩ := decideRestart_eq_ok hs
    exact ih
  | announce _ hs ih =>
    obtain ⟨k, evaluated, report, -, hevaluate, rfl⟩ := announceRestart_eq_ok hs
    obtain ⟨iterates, gap, -, rfl⟩ := evaluate_eq_ok hevaluate
    exact ih
  | restart h hs ih => exact h.justified_restart ih hs
  | keep _ ih => exact ih
  | close _ ih =>
    obtain ⟨report, hclosed⟩ := passNotice_eq (stopTimer _)
    rw [hclosed]
    exact ih
  | again _ _ ih => exact ih
  | stop _ _ ih => exact ih

/-- A trajectory holds nothing but what the run asked it to. -/
theorem solve_justified (h : s₀.solve = .ok s) : Justified s₀ s := by
  obtain ⟨S, n, ended, hended, hfinish⟩ := exists_moment h
  obtain ⟨-, -, -, -, -, htrajectory⟩ := finish_keeps hfinish
  intro entry hentry
  rw [htrajectory] at hentry
  exact hended.justified entry hentry

/-- A run of one step and a restart, with a record of each. -/
noncomputable def recordingSettings : Settings ℝ :=
  { Settings.brief 1 Scalar.inverseE with
    maxIterations := 1
    restartMethod := "fixed"
    restartLength := 1 }

theorem exists_recording : ∃ s₀, Pinned 1 recordingSettings .fixed s₀ :=
  exists_pinned 1 ⟨rfl, rfl, rfl, rfl, rfl, by decide, by decide, by decide, by decide⟩
    (by decide) rfl rfl (by decide) (by decide)

/-- The restart of this run asks for a record. -/
theorem exists_records_beyond : ∃ s₀ : Solver ℝ SilentOracle, s₀.Built ∧
    s₀.problem = .pinned 1 ∧ s₀.settings = recordingSettings ∧ ∃ s, Records s₀ 2 s := by
  obtain ⟨s₀, hrun⟩ := exists_recording
  obtain ⟨n, closed, hclosed, -⟩ := hrun.exists_pass (by decide)
  refine ⟨s₀, hrun.built, hrun.problem, hrun.settings, ?_⟩
  obtain ⟨settled, -, -, h | ⟨n, announced, -, h, hs⟩⟩ := hclosed.closed_cases
  · have hfire := h.decided_fixed hrun.policy (by rw [hrun.settings]; rfl)
    rw [hrun.settings] at hfire
    change false = (_ % 1 == 0) at hfire
    rw [Nat.mod_one] at hfire
    cases hfire
  · obtain rfl := Nat.le_zero.mp (Nat.le_of_succ_le_succ h.course.lead)
    obtain ⟨iterates, hrestart, -⟩ := performRestart_eq_ok hs
    exact ⟨_, .restarted h hrestart (by rw [hrun.policy]; rfl) (by rw [hrun.settings]; rfl)⟩

/-- A record is refused exactly if every index has one and the last restart took the run past the
iterations allowed. -/
theorem Records.append_eq (hbuilt : s₀.Built) (h : Records s₀ k s) :
    (∃ t, s.trajectory.append s.iterates = .ok (.ok t)) ∧
        ¬ (s₀.settings.recordEvery = 1 ∧ k = s₀.settings.maxIterations + 1) ∨
      s.trajectory.append s.iterates =
          .ok (.error (.capacityExceeded s₀.settings.maxIterations)) ∧
        s₀.settings.recordEvery = 1 ∧ k = s₀.settings.maxIterations + 1 := by
  obtain ⟨j, rfl, hrecordable⟩ := h.recordable hbuilt
  by_cases hlast : s₀.settings.recordEvery = 1 ∧ j = s₀.settings.maxIterations
  · obtain ⟨hrecord, rfl⟩ := hlast
    exact .inr ⟨hrecordable.append_eq_full hrecord, hrecord, rfl⟩
  · exact .inl ⟨hrecordable.append_eq_ok hbuilt.paced.recordEvery hlast,
      fun ⟨hrecord, hindex⟩ => hlast ⟨hrecord, Nat.succ.inj hindex⟩⟩

theorem Records.append_eq_beyond : ∃ (s₀ s : Solver ℝ SilentOracle), s₀.Built ∧
    Records s₀ 2 s ∧
    ((∃ t, s.trajectory.append s.iterates = .ok (.ok t)) ∧
        ¬ (recordingSettings.recordEvery = 1 ∧ 2 = recordingSettings.maxIterations + 1) ∨
      s.trajectory.append s.iterates =
          .ok (.error (.capacityExceeded recordingSettings.maxIterations)) ∧
        recordingSettings.recordEvery = 1 ∧ 2 = recordingSettings.maxIterations + 1) := by
  obtain ⟨s₀, hbuilt, -, hsettings, s, hrecords⟩ := exists_records_beyond
  have happend := Records.append_eq hbuilt hrecords
  rw [hsettings] at happend
  exact ⟨s₀, s, hbuilt, hrecords, happend⟩

/-- A run whose trajectory refuses a record. -/
theorem exists_append_refused : ∃ s₀ : Solver ℝ SilentOracle, s₀.Built ∧
    s₀.problem = .pinned 1 ∧ s₀.settings = recordingSettings ∧ ∃ s, Records s₀ 2 s ∧
      s.trajectory.append s.iterates = .ok (.error (.capacityExceeded 1)) := by
  obtain ⟨s₀, hbuilt, hproblem, hsettings, s, hrecords⟩ := exists_records_beyond
  obtain ⟨j, hj, hrecordable⟩ := hrecords.recordable hbuilt
  obtain rfl := Nat.succ.inj hj
  have hlimit : s₀.settings.maxIterations = 1 := by rw [hsettings]; rfl
  rw [← hlimit] at hrecordable
  have hfull := hrecordable.append_eq_full (by rw [hsettings]; rfl)
  rw [hlimit] at hfull
  exact ⟨s₀, hbuilt, hproblem, hsettings, s, hrecords, hfull⟩

/-- A run ends with the records that were due, in their order, and with its restarts apart. -/
theorem Built.solve_entries {good : ω → Prop} (h : s₀.Built)
    (hmax : s₀.settings.maxIterations + 2 < Counter.bound)
    (hanswers : GapOracle.Answers s₀.problem good)
    (horacle : ∀ o, s₀.gap.oracle = some o → good o) :
    ∃ s capacity, s₀.solve = .ok s ∧ s₀.settings.recordCapacity = .ok capacity ∧
      s.trajectory.steps = (s₀.policy.dueSteps s₀.settings.recordEvery s.solution.iterations
        s.trajectory.restartSteps).take capacity ∧
      s.trajectory.steps.Pairwise (· < ·) ∧
      (∀ entry ∈ s.trajectory.entries, entry.iterates.count = entry.step + 1) ∧
      s.trajectory.restartSteps.toList.Pairwise fun r r' => r + 2 ≤ r' := by
  obtain ⟨s, hsolve⟩ := h.exists_solve hmax hanswers horacle
  have hlisted := (solve_listed hsolve).holds
  refine ⟨s, s.trajectory.capacity, hsolve, (solve_listed hsolve).capacity, hlisted, ?_, ?_, ?_⟩
  · have hsublist := List.take_sublist s.trajectory.capacity
      (s₀.policy.dueSteps s₀.settings.recordEvery s.solution.iterations s.trajectory.restartSteps)
    rw [Trajectory.Holds] at hlisted
    rw [hlisted]
    exact (RestartPolicy.dueSteps_pairwise _ _ _ _).sublist hsublist
  · intro entry hentry
    obtain ⟨asked, hrecords, hcopy, -⟩ := solve_justified hsolve entry hentry
    rw [hcopy]
    exact Counter.previous_eq_ok_iff.mp hrecords.step_eq
  · obtain ⟨S, n, ended, hended, hfinish⟩ := exists_moment hsolve
    obtain ⟨-, -, -, -, -, htrajectory⟩ := finish_keeps hfinish
    rw [htrajectory]
    exact hended.spaced.apart

theorem Built.solve_entries_recording : ∃ s₀ : Solver ℝ SilentOracle,
    Pinned 1 recordingSettings .fixed s₀ ∧
    ∃ s capacity, s₀.solve = .ok s ∧ s₀.settings.recordCapacity = .ok capacity ∧
      s.trajectory.steps = (s₀.policy.dueSteps s₀.settings.recordEvery s.solution.iterations
        s.trajectory.restartSteps).take capacity ∧
      s.trajectory.steps.Pairwise (· < ·) ∧
      (∀ entry ∈ s.trajectory.entries, entry.iterates.count = entry.step + 1) ∧
      s.trajectory.restartSteps.toList.Pairwise fun r r' => r + 2 ≤ r' := by
  obtain ⟨s₀, hrun⟩ := exists_recording
  exact ⟨s₀, hrun, Built.solve_entries hrun.built (by rw [hrun.settings]; decide)
    (SilentOracle.answers s₀.problem) fun _ _ => trivial⟩

end Solver

end PrimalDual
