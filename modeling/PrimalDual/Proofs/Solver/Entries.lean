import PrimalDual.Proofs.Solver.Operations

/-!
# The indices that a trajectory holds

A step takes an index and so does a restart. The pass of a step looks at the index of the step; the
index of a restart is looked at only where the policy records after restarts. So a trajectory holds
the multiples of the record cadence in their order, less those that a restart of another policy
took, until it is full.
-/
namespace PrimalDual

theorem Counter.previous_eq_ok_iff {n k : ℕ} : previous n = .ok k ↔ n = k + 1 := by
  cases n with
  | zero => simp [previous]
  | succ n => simp [previous_succ]

/-- The indices with a property, from one up to a last one. -/
def stepsWhere (P : ℕ → Prop) [DecidablePred P] (last : ℕ) : List ℕ :=
  (List.range' 1 last).filter P

section Indices

variable {P : ℕ → Prop} [DecidablePred P] {k last : ℕ}

theorem mem_stepsWhere : k ∈ stepsWhere P last ↔ (1 ≤ k ∧ k ≤ last) ∧ P k := by
  rw [stepsWhere, List.mem_filter, List.mem_range'_1, decide_eq_true_iff]
  exact and_congr_left fun _ => by omega

theorem stepsWhere_concat (h : P (last + 1)) :
    stepsWhere P (last + 1) = stepsWhere P last ++ [last + 1] := by
  rw [stepsWhere, List.range'_1_concat, List.filter_append, Nat.add_comm 1 last,
    List.filter_singleton, decide_eq_true h]
  rfl

theorem stepsWhere_skip (h : ¬ P (last + 1)) : stepsWhere P (last + 1) = stepsWhere P last := by
  rw [stepsWhere, List.range'_1_concat, List.filter_append, Nat.add_comm 1 last,
    List.filter_singleton, decide_eq_false h]
  exact List.append_nil _

theorem stepsWhere_eq (m last : ℕ) (hm : 1 ≤ m) :
    stepsWhere (· = m) last = if m ≤ last then [m] else [] := by
  induction last with
  | zero => rw [if_neg (by omega)]; rfl
  | succ last ih =>
    rcases lt_trichotomy m (last + 1) with hlt | rfl | hgt
    · rw [stepsWhere_skip hlt.ne', ih, if_pos (by omega), if_pos hlt.le]
    · have hconcat := @stepsWhere_concat (· = last + 1) _ last rfl
      rw [hconcat, ih, if_neg (by omega), if_pos le_rfl]
      rfl
    · rw [stepsWhere_skip hgt.ne, ih, if_neg (by omega), if_neg (by omega)]

end Indices

namespace RestartPolicy

variable {policy : RestartPolicy} {every k : ℕ} {restartSteps : Array ℕ}

/-- The index is to be recorded: it is on the cadence and, unless the policy records after restarts,
no restart took it. -/
def Due (policy : RestartPolicy) (every : ℕ) (restartSteps : Array ℕ) (k : ℕ) : Prop :=
  every ∣ k ∧ (policy = .fixed ∨ k - 1 ∉ restartSteps)

instance : DecidablePred (policy.Due every restartSteps) :=
  fun k => inferInstanceAs (Decidable (every ∣ k ∧ (policy = .fixed ∨ k - 1 ∉ restartSteps)))

theorem recordsAfterRestart_iff : policy.recordsAfterRestart = true ↔ policy = .fixed := by
  cases policy with
  | never | adaptive | fixed => simp [recordsAfterRestart]

/-- The indices to be recorded, up to the last one. -/
def dueSteps (policy : RestartPolicy) (every last : ℕ) (restartSteps : Array ℕ) : List ℕ :=
  (List.range' 1 last).filter fun k => policy.Due every restartSteps k

theorem dueSteps_pairwise (policy : RestartPolicy) (every last : ℕ) (restartSteps : Array ℕ) :
    (policy.dueSteps every last restartSteps).Pairwise (· < ·) :=
  List.Pairwise.filter _ List.pairwise_lt_range'

theorem dueSteps_concat (hdue : policy.Due every restartSteps (k + 1)) :
    policy.dueSteps every (k + 1) restartSteps =
      policy.dueSteps every k restartSteps ++ [k + 1] :=
  stepsWhere_concat hdue

theorem dueSteps_skip (hdue : ¬ policy.Due every restartSteps (k + 1)) :
    policy.dueSteps every (k + 1) restartSteps = policy.dueSteps every k restartSteps :=
  stepsWhere_skip hdue

theorem length_dueSteps_le (policy : RestartPolicy) (every k : ℕ) (restartSteps : Array ℕ) :
    (policy.dueSteps every k restartSteps).length ≤ k / every := by
  induction k with
  | zero => simp [dueSteps]
  | succ k ih =>
    by_cases hdue : policy.Due every restartSteps (k + 1)
    · rw [dueSteps_concat hdue, List.length_append, List.length_singleton, Nat.succ_div,
        if_pos hdue.1]
      exact Nat.succ_le_succ ih
    · rw [dueSteps_skip hdue]
      exact ih.trans (Nat.div_le_div_right (Nat.le_succ k))

/-- If the policy records after restarts, then at all multiples. -/
theorem length_dueSteps_fixed (every k : ℕ) (restartSteps : Array ℕ) :
    (fixed.dueSteps every k restartSteps).length = k / every := by
  induction k with
  | zero => simp [dueSteps]
  | succ k ih =>
    by_cases hdvd : every ∣ k + 1
    · rw [dueSteps_concat ⟨hdvd, .inl rfl⟩, List.length_append, List.length_singleton, ih,
        Nat.succ_div, if_pos hdvd]
    · rw [dueSteps_skip fun hdue => hdvd hdue.1, ih, Nat.succ_div, if_neg hdvd, add_zero]

/-- A restart takes an index that comes later. -/
theorem dueSteps_push (policy : RestartPolicy) (every k : ℕ) (restartSteps : Array ℕ) :
    policy.dueSteps every k (restartSteps.push k) = policy.dueSteps every k restartSteps := by
  refine List.filter_congr fun j hj => ?_
  have hbounds := List.mem_range'_1.mp hj
  have hother : j - 1 ≠ k := by omega
  exact decide_eq_decide.mpr (by simp [Due, Array.mem_push, hother])

end RestartPolicy

namespace Trajectory

variable {T : Type} {t t' : Trajectory T} {i : Iterates T} {k : ℕ} {due : List ℕ}

theorem append_eq_ok (hstep : i.step = .ok k) (h : t.entries.size < t.capacity) :
    t.append i = .ok (.ok { t with entries := t.entries.push ⟨k, i, i.diagnostics⟩ }) := by
  rw [append, if_neg (not_le.mpr h), hstep, ok_bind, pure_eq_ok]

theorem append_eq_full (h : t.capacity ≤ t.entries.size) :
    t.append i = .ok (.error (.capacityExceeded t.capacity)) := by
  rw [append, if_pos h]
  rfl

/-- A trajectory refuses a record only when it is full. -/
theorem le_size_of_append {e : RecordError} (h : t.append i = .ok (.error e)) :
    t.capacity ≤ t.entries.size := by
  by_contra hroom
  unfold append at h
  rw [if_neg hroom] at h
  obtain ⟨step, -, h⟩ := bind_eq_ok.mp h
  cases Except.ok.inj h

/-- A record that is kept is a copy of the iterates with their index. -/
theorem append_push (h : t.append i = .ok (.ok t')) : ∃ k, i.step = .ok k ∧
    t' = { t with entries := t.entries.push ⟨k, i, i.diagnostics⟩ } := by
  unfold append at h
  split at h
  · cases h
  · obtain ⟨k, hstep, h⟩ := bind_eq_ok.mp h
    exact ⟨k, hstep, (Except.ok.inj (Except.ok.inj h)).symm⟩

/-- The indices of the entries. -/
def steps (t : Trajectory T) : List ℕ := t.entries.toList.map (·.step)

/-- The trajectory holds what was due, as far as there is room. -/
def Holds (t : Trajectory T) (due : List ℕ) : Prop := t.steps = due.take t.capacity

theorem Holds.size_eq (h : t.Holds due) : t.entries.size = min t.capacity due.length := by
  have hlength := congrArg List.length h
  rwa [steps, List.length_map, Array.length_toList, List.length_take] at hlength

/-- There is room for a record as long as there was room for all that came before. -/
theorem Holds.append (h : t.Holds due) (hstep : i.step = .ok k)
    (happend : t.append i = .ok (.ok t')) : t'.Holds (due ++ [k]) := by
  have hsize := h.size_eq
  have hroom : t.entries.size < t.capacity := by
    by_contra hfull
    rw [append_eq_full (not_lt.mp hfull)] at happend
    cases Except.ok.inj happend
  rw [append_eq_ok hstep hroom] at happend
  obtain rfl := Except.ok.inj (Except.ok.inj happend)
  have hbefore : t.steps = due := h.trans (List.take_of_length_le (by omega))
  have hafter : (due ++ [k]).length ≤ t.capacity := by
    rw [List.length_append, List.length_singleton]
    omega
  rw [Holds, List.take_of_length_le hafter, ← hbefore, steps, Array.toList_push, List.map_append]
  rfl

theorem Holds.full (h : t.Holds due) (hfull : t.capacity ≤ t.entries.size) :
    t.Holds (due ++ [k]) := by
  have hsize := h.size_eq
  rw [Holds, List.take_append_of_le_length (by omega)]
  exact h

end Trajectory

namespace Solver

variable {T ω : Type} {s₀ s s' : Solver T ω} {stage stage' : Stage} {S n k : ℕ}

/-- The trajectory holds what is due up to an index. -/
structure Listed (s₀ : Solver T ω) (k : ℕ) (s : Solver T ω) : Prop where
  capacity : s₀.settings.recordCapacity = .ok s.trajectory.capacity
  holds : s.trajectory.Holds
    (s₀.policy.dueSteps s₀.settings.recordEvery k s.trajectory.restartSteps)

/-- Nothing is recorded where nothing is due. -/
theorem Listed.skip (h : Listed s₀ k s)
    (hdue : ¬ s₀.policy.Due s₀.settings.recordEvery s.trajectory.restartSteps (k + 1)) :
    Listed s₀ (k + 1) s :=
  ⟨h.capacity, by rw [RestartPolicy.dueSteps_skip hdue]; exact h.holds⟩

/-- A record that is asked for exactly where it is due. -/
theorem Listed.recordWhen {asked : Bool} (h : Listed s₀ k s) (hs : s.recordWhen asked = .ok s')
    (hstep : s.iterates.step = .ok (k + 1)) (hasked : asked = true ↔
      s₀.policy.Due s₀.settings.recordEvery s.trajectory.restartSteps (k + 1)) :
    Listed s₀ (k + 1) s' := by
  unfold Solver.recordWhen at hs
  split at hs
  · next hnow =>
    have hdue := hasked.mp hnow
    obtain ⟨trajectory, report, rfl, happend | ⟨⟨e, happend⟩, rfl⟩⟩ := record_eq_ok hs
    · have hafter := h.holds.append hstep happend
      obtain ⟨step, -, rfl⟩ := Trajectory.append_push happend
      rw [← RestartPolicy.dueSteps_concat hdue] at hafter
      exact ⟨h.capacity, hafter⟩
    · have hafter := h.holds.full (k := k + 1) (Trajectory.le_size_of_append happend)
      rw [← RestartPolicy.dueSteps_concat hdue] at hafter
      exact ⟨h.capacity, hafter⟩
  · next hnow =>
    obtain rfl := Except.ok.inj hs
    exact h.skip fun hdue => hnow (hasked.mpr hdue)

/-- By how much the index is past that of any restart noted so far, at least. -/
def Stage.spacing : Stage → ℕ
  | .announced => 0
  | .head | .settled | .closed | .ended => 1
  | .stepped | .observed | .decided _ => 2

/-- Two restarts are at least two indices apart, and the present index is past them. -/
structure Spaced (stage : Stage) (k : ℕ) (restartSteps : Array ℕ) : Prop where
  apart : restartSteps.toList.Pairwise fun r r' => r + 2 ≤ r'
  past : ∀ r ∈ restartSteps, r + stage.spacing ≤ k

variable {restartSteps restartSteps' : Array ℕ} {k' : ℕ}

theorem Spaced.forward (h : Spaced stage k restartSteps)
    (hle : k + stage'.spacing ≤ k' + stage.spacing) (hsame : restartSteps' = restartSteps) :
    Spaced stage' k' restartSteps' := by
  subst hsame
  refine ⟨h.apart, fun r hr => ?_⟩
  have hpast := h.past r hr
  omega

theorem Spaced.announce {fire : Bool} (h : Spaced (.decided fire) k restartSteps) :
    Spaced .announced k (restartSteps.push k) := by
  refine ⟨?_, fun r hr => ?_⟩
  · rw [Array.toList_push]
    refine List.pairwise_append.mpr ⟨h.apart, List.pairwise_singleton _ _, fun r hr k' hk' => ?_⟩
    obtain rfl := List.mem_singleton.mp hk'
    exact h.past r (Array.mem_toList_iff.mp hr)
  · rcases Array.mem_push.mp hr with hr | rfl
    · exact (Nat.le_add_right _ _).trans (h.past r hr)
    · exact le_rfl

variable [Scalar T] [GapOracle ω T]

/-- A restart takes the next index. -/
theorem Moment.restart_step (h : Moment s₀ .announced S n s) {iterates : Iterates T}
    (hrestart : s.iterates.restart = .ok iterates) : iterates.step = .ok (S + n + 1) := by
  obtain ⟨-, -, rfl⟩ := h.course.fits.restart_eq_ok_iff.mp hrestart
  change Counter.previous (s.iterates.count + 1) = _
  rw [h.course.count, Counter.previous_succ]

theorem Moment.spaced (h : Moment s₀ stage S n s) :
    Spaced stage (S + n) s.trajectory.restartSteps := by
  induction h with
  | begin hs =>
    obtain ⟨capacity, report, timers, -, rfl⟩ := prepare_eq_ok hs
    exact ⟨List.Pairwise.nil, fun r hr => (Array.not_mem_empty r hr).elim⟩
  | step _ hs ih =>
    obtain ⟨iterates, timers, -, rfl⟩ := takeStep_eq_ok hs
    exact ih.forward (by simp only [Stage.spacing]; omega) rfl
  | observe _ hs ih => exact ih.forward le_rfl (observe_observes hs).restartSteps
  | decide _ hs ih => exact ih.forward le_rfl (decideRestart_observes hs).restartSteps
  | announce h hs ih =>
    obtain ⟨k, evaluated, report, hk, hevaluate, rfl⟩ := announceRestart_eq_ok hs
    obtain rfl := ok_unique h.step_eq hk
    obtain ⟨iterates, gap, -, rfl⟩ := evaluate_eq_ok hevaluate
    exact ih.announce
  | restart _ hs ih =>
    obtain ⟨iterates, -, hobserves⟩ := performRestart_observes hs
    exact ih.forward le_rfl hobserves.restartSteps
  | keep _ ih => exact ih.forward (by simp only [Stage.spacing]; omega) rfl
  | close _ ih =>
    exact ih.forward le_rfl ((stopTimer_observes _).trans (passNotice_observes _)).restartSteps
  | again _ _ ih => exact ih.forward le_rfl rfl
  | stop _ _ ih => exact ih.forward le_rfl rfl

/-- A restart is noted before it is carried out. -/
theorem Moment.mem_restartSteps (h : Moment s₀ .announced S n s) :
    S + n ∈ s.trajectory.restartSteps := by
  cases h with
  | announce h hs =>
    obtain ⟨k, evaluated, report, hk, hevaluate, rfl⟩ := announceRestart_eq_ok hs
    obtain rfl := ok_unique h.step_eq hk
    obtain ⟨iterates, gap, -, rfl⟩ := evaluate_eq_ok hevaluate
    exact Array.mem_push_self

/-- No restart took the index of a step, so the cadence alone decides. -/
theorem Moment.listed_observe (h : Moment s₀ .stepped S n s) (hbefore : Listed s₀ (S + n - 1) s)
    (hs : s.observe = .ok s') : Listed s₀ (S + n) s' := by
  have hsettings : s.settings = s₀.settings := h.course.frame.settings
  have hstep := h.step_eq
  obtain ⟨k, hk⟩ : ∃ k, S + n = k + 1 := by
    have : n + 1 ≤ S := h.course.lead
    exact ⟨S + n - 1, by omega⟩
  have hfree : k ∉ s.trajectory.restartSteps := by
    intro htaken
    have hpast : k + 2 ≤ S + n := h.spaced.past k htaken
    omega
  have hdue : s₀.policy.Due s₀.settings.recordEvery s.trajectory.restartSteps (k + 1) ↔
      s₀.settings.recordEvery ∣ k + 1 := and_iff_left (.inr hfree)
  rw [hk] at hstep hbefore ⊢
  obtain ⟨index, hindex, -, -, hcases⟩ := Solver.observe_eq_ok hs
  obtain rfl := ok_unique hstep hindex
  rw [hsettings] at hcases
  rcases hcases with ⟨hoff, hsame⟩ | ⟨-, evaluated, recorded, hevaluate, hrecord, hprint⟩
  · have hskip : ¬ s₀.policy.Due s₀.settings.recordEvery s.trajectory.restartSteps (k + 1) :=
      fun h => hoff (.inl (Nat.mod_eq_zero_of_dvd (hdue.mp h)))
    rw [hsame]
    exact hbefore.skip hskip
  · have hcourse : s.iterates.SameCourse evaluated.iterates :=
      (evaluate_observes hevaluate).course
    have hcopy : evaluated.iterates.step = .ok (k + 1) := by
      rw [hcourse]
      exact hstep
    obtain ⟨iterates, gap, -, rfl⟩ := evaluate_eq_ok hevaluate
    obtain ⟨report, timers, rfl⟩ := printWhen_eq_ok hprint
    have hevaluated : Listed s₀ k { s.startTimer "evaluate" with iterates, gap }.stopTimer :=
      ⟨hbefore.capacity, hbefore.holds⟩
    have hrecorded := hevaluated.recordWhen hrecord hcopy
      (by rw [beq_iff_eq, ← Nat.dvd_iff_mod_eq_zero]; exact hdue.symm)
    exact ⟨hrecorded.capacity, hrecorded.holds⟩

/-- The index of a restart is due if its policy records after restarts. -/
theorem Moment.listed_restart (h : Moment s₀ .announced S n s) (hbefore : Listed s₀ (S + n) s)
    (hs : s.performRestart = .ok s') : Listed s₀ (S + n + 1) s' := by
  have hsettings : s.settings = s₀.settings := h.course.frame.settings
  have hpolicy : s.policy = s₀.policy := h.course.frame.policy
  have hdue : s₀.policy.Due s₀.settings.recordEvery s.trajectory.restartSteps (S + n + 1) ↔
      s₀.settings.recordEvery ∣ S + n + 1 ∧ s₀.policy.recordsAfterRestart = true := by
    rw [RestartPolicy.recordsAfterRestart_iff]
    exact and_congr_right fun _ => or_iff_left (not_not.mpr h.mem_restartSteps)
  obtain ⟨iterates, hrestart, hrecord⟩ := performRestart_eq_ok hs
  have hrestarted : Listed s₀ (S + n) { s with iterates } := ⟨hbefore.capacity, hbefore.holds⟩
  rcases recordRestart_eq_ok hrecord with ⟨hnone, rfl⟩ | ⟨hall, k, hk, -, hrecord⟩
  · have hskip : ¬ s₀.policy.Due s₀.settings.recordEvery s.trajectory.restartSteps (S + n + 1) := by
      intro hnow
      have hall := (hdue.mp hnow).2
      rw [← hpolicy, hnone] at hall
      cases hall
    exact hrestarted.skip hskip
  · have hstep := h.restart_step hrestart
    obtain rfl := ok_unique hstep hk
    change s.policy.recordsAfterRestart = true at hall
    rw [hpolicy] at hall
    refine hrestarted.recordWhen hrecord hstep ?_
    rw [hsettings, beq_iff_eq, ← Nat.dvd_iff_mod_eq_zero]
    exact ⟨fun hdvd => hdue.mpr ⟨hdvd, hall⟩, fun hnow => (hdue.mp hnow).1⟩

/-- The indices made so far that have not been looked at: the observation follows the step. -/
def Stage.unseen : Stage → ℕ
  | .stepped => 1
  | _ => 0

theorem Moment.listed (h : Moment s₀ stage S n s) : Listed s₀ (S + n - stage.unseen) s := by
  induction h with
  | begin hs =>
    obtain ⟨capacity, report, timers, hcapacity, rfl⟩ := prepare_eq_ok hs
    exact ⟨hcapacity, List.take_nil.symm⟩
  | @step S n s s' h hs ih =>
    obtain ⟨iterates, timers, -, rfl⟩ := takeStep_eq_ok hs
    have hindex : S + 1 + n - 1 = S + n := by omega
    rw [Stage.unseen, hindex]
    exact ⟨ih.capacity, ih.holds⟩
  | observe h hs ih => exact h.listed_observe ih hs
  | decide _ hs ih =>
    obtain ⟨gap, timers, -, rfl⟩ := decideRestart_eq_ok hs
    exact ⟨ih.capacity, ih.holds⟩
  | announce h hs ih =>
    obtain ⟨k, evaluated, report, hk, hevaluate, rfl⟩ := announceRestart_eq_ok hs
    obtain rfl := ok_unique h.step_eq hk
    obtain ⟨iterates, gap, -, rfl⟩ := evaluate_eq_ok hevaluate
    have hholds := ih.holds
    rw [← RestartPolicy.dueSteps_push] at hholds
    exact ⟨ih.capacity, hholds⟩
  | restart h hs ih => exact h.listed_restart ih hs
  | keep _ ih => exact ih
  | close _ ih =>
    obtain ⟨report, hclosed⟩ := passNotice_eq (stopTimer _)
    rw [hclosed]
    exact ⟨ih.capacity, ih.holds⟩
  | again _ _ ih => exact ih
  | stop _ _ ih => exact ⟨ih.capacity, ih.holds⟩

/-- What a trajectory holds after a run. -/
theorem solve_listed (h : s₀.solve = .ok s) : Listed s₀ s.solution.iterations s := by
  obtain ⟨S, n, ended, hended, hfinish⟩ := exists_moment h
  obtain ⟨-, -, -, -, -, htrajectory⟩ := finish_keeps hfinish
  obtain ⟨-, -, hstep, -⟩ := finish_eq_ok hfinish
  have hlisted : Listed s₀ (S + n) ended := hended.listed
  rw [← ok_unique hended.step_eq hstep]
  exact ⟨by rw [htrajectory]; exact hlisted.capacity, by rw [htrajectory]; exact hlisted.holds⟩

end Solver

end PrimalDual
