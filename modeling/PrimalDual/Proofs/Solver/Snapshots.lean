import PrimalDual.Proofs.Solver.Outcome
import PrimalDual.Proofs.Solver.Recording

/-!
# What the diagnostics in a trajectory are about

A record after a step follows an evaluation of what it keeps. A record after a restart does not: the
evaluation came before the restart, which put the average in the place of the point. So the error of
such a record is that of the point proposed last, while the point it keeps is the average.
-/
namespace PrimalDual.Solver

section Records

variable {T ω : Type} [Scalar T] {s₀ s : Solver T ω} {i : Iterates T} {k : ℕ}

/-- How iterates stand when they are recorded: the point proposed last has been evaluated, and the
point is that one, unless a restart has just put the average in its place. -/
structure Snapshot (s₀ : Solver T ω) (i : Iterates T) : Prop where
  fits : i.Fits s₀.problem
  assessed : i.Assessed s₀.problem
  stepped : i.epochLength ≠ 0 → i.point = i.proposal
  restarted : i.epochLength = 0 → s₀.policy = .fixed ∧ i.point = i.average

theorem Snapshot.kktError_eq (h : Snapshot s₀ i) (hlength : i.epochLength ≠ 0) :
    i.kktError s₀.problem = .ok i.diagnostics.kktError := by
  rw [h.fits.kktError_eq, h.stepped hlength]
  exact h.assessed

/-- The error is in any case that of the iterates back at the point proposed last. -/
theorem Snapshot.kktError_proposal_eq (h : Snapshot s₀ i) :
    { i with point := i.proposal }.kktError s₀.problem = .ok i.diagnostics.kktError := by
  have hfits : { i with point := i.proposal }.Fits s₀.problem := { h.fits with
    point := h.fits.proposal }
  rw [hfits.kktError_eq]
  exact h.assessed

variable [GapOracle ω T]

theorem Records.snapshot (h : Records s₀ k s) : Snapshot s₀ s.iterates := by
  cases h with
  | @observed S n stepped evaluated h hdue hevaluate =>
    have hcourse : stepped.iterates.SameCourse evaluated.iterates :=
      (evaluate_observes hevaluate).course
    have hstanding : Standing s₀ .observed S n evaluated :=
      h.standing.evaluate (by simp) rfl (.observed h (.inl hdue)) hevaluate rfl rfl
    have hlength : evaluated.iterates.epochLength ≠ 0 := hstanding.epochLength rfl
    exact ⟨h.course.fits.of_sameCourse hcourse, hstanding.assessed (.inr (.inl hdue)),
      hstanding.point (by simp), fun hzero => (hlength hzero).elim⟩
  | @restarted S n announced iterates h hrestart hpolicy _ =>
    have hfits := h.course.fits
    obtain ⟨-, -, rfl⟩ := hfits.restart_eq_ok_iff.mp hrestart
    exact ⟨hfits.restarted, h.standing.assessed trivial, fun hlength => (hlength rfl).elim,
      fun _ => ⟨RestartPolicy.recordsAfterRestart_iff.mp hpolicy, rfl⟩⟩

end Records

section Late

/-- A run with its only record after the restart of the second pass. -/
noncomputable def lateSettings : Settings ℝ :=
  { Settings.brief 1 Scalar.inverseE with
    maxIterations := 3
    restartMethod := "fixed"
    restartLength := 2
    recordEvery := 3
    printEvery := 100 }

theorem lateSettings_deferred : Deferred lateSettings :=
  ⟨rfl, rfl, by simp [Settings.OnCadence, lateSettings]⟩

/-- A solver that makes this run. -/
abbrev Late (b : ℝ) (s₀ : Solver ℝ SilentOracle) : Prop :=
  Pinned b lateSettings .fixed s₀

theorem exists_late : ∃ s₀, Late 2 s₀ :=
  exists_pinned 2 ⟨rfl, rfl, rfl, rfl, rfl, by decide, by decide, by decide, by decide⟩
    (by decide) rfl rfl (by decide) (by decide)

variable {s₀ s : Solver ℝ SilentOracle} {settings : Settings ℝ} {S n : ℕ}

/-- Whatever is observed in the second pass, its restart starts from the second step. -/
theorem Pinned.announced_two (hrun : Pinned 2 settings .fixed s₀) (hdeferred : Deferred settings)
    (h : Moment s₀ .announced 2 n s) :
    n = 0 ∧ (pairedSecond 2).SameCourse s.iterates ∧ s.iterates.diagnostics.kktError = 0 := by
  have hassessed := h.standing.assessed trivial
  have hcourse : n = 0 ∧ (pairedSecond 2).SameCourse s.iterates := by
    cases h with
    | announce h hannounce =>
      cases h with
      | decide h hdecide =>
        cases h with
        | observe h hobserve =>
          obtain ⟨rfl, hsecond, -⟩ := hrun.stepped_two hdeferred h
          have hcourse := ((observe_observes hobserve).course.trans
            (decideRestart_observes hdecide).course).trans (announceRestart_frame hannounce).2.1
          rw [hsecond] at hcourse
          exact ⟨rfl, hcourse⟩
  obtain ⟨hn, hcourse⟩ := hcourse
  refine ⟨hn, hcourse, ?_⟩
  rw [hcourse, hrun.problem] at hassessed
  exact ok_unique hassessed kktError_pairedSecond

theorem Pinned.closed_two (hrun : Pinned 2 settings .fixed s₀) (hdeferred : Deferred settings)
    (h : Moment s₀ .closed 2 n s) : n = 1 := by
  obtain ⟨settled, -, -, hkept | ⟨n', announced, rfl, h, -⟩⟩ := h.closed_cases
  · have hfire := hkept.decided_fixed hrun.policy
      (by rw [hrun.settings]; exact hdeferred.restartEnabled)
    cases hkept with
    | decide h _ =>
      cases h with
      | observe h _ =>
        obtain ⟨rfl, -⟩ := hrun.stepped_two hdeferred h
        rw [hrun.settings, hdeferred.restartLength] at hfire
        cases hfire
  · rw [(hrun.announced_two hdeferred h).1]

theorem Late.not_head_two (hrun : Late 2 s₀) : ¬ Moment s₀ .head 2 n s := by
  intro h
  have hwithin := h.count_le one_le_two
  rw [hrun.settings] at hwithin
  change 2 + n + 1 ≤ 3 at hwithin
  cases h with
  | again h _ =>
    obtain rfl := hrun.closed_two lateSettings_deferred h
    omega

/-- The run ends with the restart of its second pass. -/
theorem Late.ended (hrun : Late 2 s₀) (h : Moment s₀ .ended S n s) : S = 2 ∧ n = 1 := by
  have hleast := hrun.two_le lateSettings_deferred (by decide) h
  have hwithin : ¬ 2 < S := by
    intro hlt
    obtain ⟨n', closed, hclosed, houtcome⟩ := h.exists_closed one_le_two hlt
    exact hrun.not_head_two (hclosed.again houtcome)
  obtain rfl : S = 2 := by omega
  cases h with
  | stop h _ => exact ⟨rfl, hrun.closed_two lateSettings_deferred h⟩

/-- The third index is the one that the restart takes. -/
theorem Late.records_three {k : ℕ} (hrun : Late 2 s₀) (h : Records s₀ k s) (hk : k = 3) :
    s.iterates.point = [1, 1] ∧ s.iterates.diagnostics.kktError = 0 := by
  cases h with
  | @observed S n stepped evaluated h _ _ =>
    have hlead : n + 1 ≤ S := h.course.lead
    obtain ⟨rfl, rfl⟩ | ⟨rfl, rfl⟩ : S = 3 ∧ n = 0 ∨ S = 2 ∧ n = 1 := by omega
    · cases h with
      | step h _ => exact (hrun.not_head_two h).elim
    · cases (hrun.stepped_two lateSettings_deferred h).1
  | @restarted S n announced iterates h hrestart _ _ =>
    have hlead : n + 1 ≤ S := h.course.lead
    obtain ⟨rfl, rfl⟩ : S = 2 ∧ n = 0 := by omega
    obtain ⟨-, -, rfl⟩ := h.course.fits.restart_eq_ok_iff.mp hrestart
    obtain ⟨-, hcourse, herror⟩ := hrun.announced_two lateSettings_deferred h
    refine ⟨?_, herror⟩
    change announced.iterates.average = _
    rw [hcourse]
    exact pairedSecond_average

/-- The only record of the run has the error of the second step, and keeps the average. -/
theorem Late.exists_entry (hrun : Late 2 s₀) : ∃ s, s₀.solve = .ok s ∧
    ∃ entry ∈ s.trajectory.entries, entry.diagnostics.kktError = 0 ∧
      entry.iterates.kktError s₀.problem = .ok √2 := by
  obtain ⟨s, hsolve⟩ := hrun.exists_solve (by decide)
  obtain ⟨S, n, ended, hended, -, -, -, -, -, hiterations, -⟩ := exists_ended hsolve
  obtain ⟨rfl, rfl⟩ := hrun.ended hended
  have hcapacity := (solve_listed hsolve).capacity
  have hlisted : s.trajectory.steps = _ := (solve_listed hsolve).holds
  rw [hrun.settings] at hcapacity
  rw [hrun.policy, hrun.settings, hiterations, ← Except.ok.inj hcapacity] at hlisted
  have hthree : 3 ∈ s.trajectory.steps := by
    rw [hlisted]
    exact List.mem_singleton_self 3
  obtain ⟨entry, hentry, hstep⟩ := List.mem_map.mp hthree
  obtain ⟨asked, hrecords, hcopy, hdiagnostics⟩ :=
    solve_justified hsolve entry (Array.mem_toList_iff.mp hentry)
  obtain ⟨hpoint, herror⟩ := hrun.records_three hrecords hstep
  refine ⟨s, hsolve, entry, Array.mem_toList_iff.mp hentry, hdiagnostics ▸ herror, ?_⟩
  have hfits : asked.iterates.Fits (.pinned 2) := hrun.problem ▸ hrecords.snapshot.fits
  rw [hcopy, hrun.problem, hfits.kktError_eq, hpoint]
  have hactual : (Problem.pinned 2).kktError [1] [1] = .ok √2 := by
    rw [Problem.kktError_pinned]
    norm_num
  exact hactual

end Late

variable {T ω : Type} [Scalar T] [GapOracle ω T] {s₀ s : Solver T ω}

/-- The diagnostics in an entry are those of its iterates, and their error is that of the point
proposed last. It is the error of the point kept, unless the entry was made right after a
restart. -/
theorem solve_snapshots (h : s₀.solve = .ok s) : ∀ entry ∈ s.trajectory.entries,
    entry.diagnostics = entry.iterates.diagnostics ∧
    { entry.iterates with point := entry.iterates.proposal }.kktError s₀.problem =
      .ok entry.diagnostics.kktError ∧
    (entry.iterates.epochLength ≠ 0 →
      entry.iterates.kktError s₀.problem = .ok entry.diagnostics.kktError) ∧
    (entry.iterates.epochLength = 0 →
      s₀.policy = .fixed ∧ entry.iterates.point = entry.iterates.average) := by
  intro entry hentry
  obtain ⟨asked, hrecords, hcopy, hdiagnostics⟩ := solve_justified h entry hentry
  have hsnapshot := hrecords.snapshot
  rw [← hcopy] at hsnapshot hdiagnostics
  rw [hdiagnostics]
  exact ⟨rfl, hsnapshot.kktError_proposal_eq, hsnapshot.kktError_eq, hsnapshot.restarted⟩

theorem solve_snapshots_late : ∃ (s₀ s : Solver ℝ SilentOracle), s₀.solve = .ok s ∧
    s.trajectory.entries ≠ #[] ∧ ∀ entry ∈ s.trajectory.entries,
      entry.diagnostics = entry.iterates.diagnostics ∧
      { entry.iterates with point := entry.iterates.proposal }.kktError s₀.problem =
        .ok entry.diagnostics.kktError ∧
      (entry.iterates.epochLength ≠ 0 →
        entry.iterates.kktError s₀.problem = .ok entry.diagnostics.kktError) ∧
      (entry.iterates.epochLength = 0 →
        s₀.policy = .fixed ∧ entry.iterates.point = entry.iterates.average) := by
  obtain ⟨s₀, hrun⟩ := exists_late
  obtain ⟨s, hsolve, entry, hentry, -⟩ := hrun.exists_entry
  exact ⟨s₀, s, hsolve, Array.ne_empty_of_mem hentry, solve_snapshots hsolve⟩

/-- An entry with the error zero, which is not that of the iterates in it. -/
theorem exists_entry_kktError_ne : ∃ s₀ : Solver ℝ SilentOracle, s₀.Built ∧
    s₀.problem = .pinned 2 ∧ s₀.settings = lateSettings ∧ ∃ s, s₀.solve = .ok s ∧
      ∃ entry ∈ s.trajectory.entries, entry.diagnostics.kktError = 0 ∧
        entry.iterates.kktError s₀.problem = .ok √2 ∧ √2 ≠ (0 : ℝ) := by
  obtain ⟨s₀, hrun⟩ := exists_late
  obtain ⟨s, hsolve, entry, hentry, herror, hactual⟩ := hrun.exists_entry
  exact ⟨s₀, hrun.built, hrun.problem, hrun.settings, s, hsolve, entry, hentry, herror, hactual,
    by norm_num⟩

end PrimalDual.Solver
