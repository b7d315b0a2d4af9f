import PrimalDual.Proofs.Gap.Lockstep
import PrimalDual.Proofs.Solver.Completion
import PrimalDual.Proofs.Solver.Printing

/-!
# Two runs in step

Two runs about the same problem, whose settings differ at most in their verbosity and whose oracles
answer alike, stay equal in all that they compute. What is printed, the time, and the solution of an
earlier run make no difference.
-/
namespace PrimalDual

variable {T ω₁ ω₂ : Type} {R : ω₁ → ω₂ → Prop}

namespace Solver

/-- Two runs that agree in all that is computed. -/
structure InStep (p : Problem T) (R : ω₁ → ω₂ → Prop) (s : Solver T ω₁) (t : Solver T ω₂) :
    Prop where
  problem₁ : s.problem = p
  problem₂ : t.problem = p
  settings : t.settings = { s.settings with verbose := t.settings.verbose }
  policy : t.policy = s.policy
  iterates : t.iterates = s.iterates
  gap : s.gap.InStep R t.gap
  trajectory : t.trajectory = s.trajectory
  status : t.report.status = s.report.status
  fits : s.iterates.Fits p

variable {p : Problem T} {s : Solver T ω₁} {t : Solver T ω₂}

/-- Neither the time nor what else a report holds matters. -/
theorem InStep.reported (h : InStep p R s t) {r₁ r₂ : Report T} (t₁ t₂ : Timers)
    (h₁ : r₁.status = s.report.status) (h₂ : r₂.status = t.report.status) :
    InStep p R { s with report := r₁, timers := t₁ } { t with report := r₂, timers := t₂ } :=
  { h with status := by rw [h₁, h₂, h.status] }

theorem InStep.startTimer (h : InStep p R s t) (key : String) :
    InStep p R (s.startTimer key) (t.startTimer key) :=
  h.reported _ _ rfl rfl

theorem InStep.stopTimer (h : InStep p R s t) : InStep p R s.stopTimer t.stopTimer :=
  h.reported _ _ rfl rfl

theorem InStep.outcome?_eq (h : InStep p R s t) : t.outcome? = s.outcome? := by
  rw [outcome?, outcome?, h.iterates, h.settings]

theorem InStep.recordWhen (h : InStep p R s t) (onRecord : Bool) :
    Agree (InStep p R) (s.recordWhen onRecord) (t.recordWhen onRecord) := by
  cases onRecord with
  | false => exact agree_ok h
  | true =>
    have happend : t.trajectory.append t.iterates = s.trajectory.append s.iterates := by
      rw [h.trajectory, h.iterates]
    unfold Solver.recordWhen record
    rw [happend]
    refine agree_bind _ fun appended => ?_
    cases appended with
    | ok trajectory => exact agree_ok { h with trajectory := rfl }
    | error e =>
      exact agree_ok (h.reported s.timers t.timers (Report.printWarning_printed _ _ _).status
        (Report.printWarning_printed _ _ _).status)

theorem InStep.recordRestart (h : InStep p R s t) :
    Agree (InStep p R) s.recordRestart t.recordRestart := by
  unfold Solver.recordRestart
  rw [h.policy, h.iterates, h.settings]
  by_cases hpolicy : s.policy.recordsAfterRestart
  · rw [if_pos hpolicy, if_pos hpolicy]
    exact agree_bind _ fun k => agree_bind _ fun onRecord => h.recordWhen onRecord
  · rw [if_neg hpolicy, if_neg hpolicy]
    exact agree_ok h

theorem InStep.performRestart (h : InStep p R s t) :
    Agree (InStep p R) s.performRestart t.performRestart := by
  intro s' t' hs ht
  obtain ⟨iterates, hrestart, hs⟩ := performRestart_eq_ok hs
  obtain ⟨iterates', hrestart', ht⟩ := performRestart_eq_ok ht
  rw [h.iterates] at hrestart'
  obtain rfl := ok_unique hrestart hrestart'
  have hrestarted : InStep p R { s with iterates } { t with iterates } :=
    { h with iterates := rfl, fits := h.fits.of_restart hrestart }
  exact hrestarted.recordRestart s' t' hs ht

theorem InStep.passNotice (h : InStep p R s t) : InStep p R s.passNotice t.passNotice := by
  have hsStatus := (passNotice_printed s).2.status
  have htStatus := (passNotice_printed t).2.status
  obtain ⟨report, hs⟩ := passNotice_eq s
  obtain ⟨report', ht⟩ := passNotice_eq t
  rw [hs] at hsStatus ⊢
  rw [ht] at htStatus ⊢
  exact { h with gap := h.gap.takeNotice, status := by rw [hsStatus, htStatus, h.status] }

variable [Scalar T]

theorem InStep.takeStep (h : InStep p R s t) : Agree (InStep p R) s.takeStep t.takeStep := by
  intro s' t' hs ht
  obtain ⟨iterates, timers, hadvance, rfl⟩ := takeStep_eq_ok hs
  obtain ⟨iterates', timers', hadvance', rfl⟩ := takeStep_eq_ok ht
  rw [h.iterates, h.problem₂, h.settings] at hadvance'
  rw [h.problem₁] at hadvance
  obtain rfl := ok_unique hadvance hadvance'
  exact { h with iterates := rfl, fits := h.fits.of_advance hadvance }

theorem InStep.printWhen (h : InStep p R s t) (onPrint : Bool) :
    Agree (InStep p R) (s.printWhen onPrint) (t.printWhen onPrint) := by
  intro s' t' hs ht
  have hsStatus := (printWhen_printed hs).2.status
  have htStatus := (printWhen_printed ht).2.status
  obtain ⟨report, timers, rfl⟩ := printWhen_eq_ok hs
  obtain ⟨report', timers', rfl⟩ := printWhen_eq_ok ht
  exact h.reported _ _ hsStatus htStatus

section Queries

variable [GapOracle ω₁ T] [GapOracle ω₂ T]

theorem InStep.evaluate (h : InStep p R s t) (halike : GapOracle.Alike p R) :
    Agree (InStep p R) s.evaluate t.evaluate := by
  intro s' t' hs ht
  obtain ⟨iterates, gap, hevaluate, rfl⟩ := evaluate_eq_ok hs
  obtain ⟨iterates', gap', hevaluate', rfl⟩ := evaluate_eq_ok ht
  rw [h.iterates, h.problem₂, h.settings] at hevaluate'
  rw [h.problem₁] at hevaluate
  obtain ⟨hsame, hgap⟩ := Iterates.evaluate_inStep h.fits halike h.gap _ _ hevaluate hevaluate'
  exact { h with
    iterates := hsame
    gap := hgap
    fits := h.fits.of_sameCourse (Iterates.evaluate_sameCourse hevaluate) }

theorem InStep.observe (h : InStep p R s t) (halike : GapOracle.Alike p R) :
    Agree (InStep p R) s.observe t.observe := by
  unfold Solver.observe
  rw [h.iterates, h.settings]
  refine agree_bind _ fun k => agree_bind _ fun onRecord => agree_bind _ fun onPrint => ?_
  by_cases hdue : (onRecord || onPrint) = true
  · rw [if_pos hdue, if_pos hdue]
    refine ((h.startTimer "evaluate").evaluate halike).bind fun s₁ t₁ h₁ => ?_
    exact (h₁.stopTimer.recordWhen onRecord).bind fun s₂ t₂ h₂ => h₂.printWhen onPrint
  · rw [if_neg hdue, if_neg hdue]
    exact agree_ok h

theorem InStep.decideRestart (h : InStep p R s t) (halike : GapOracle.Alike p R) :
    Agree (fun x y => y.1 = x.1 ∧ InStep p R x.2 y.2) s.decideRestart t.decideRestart := by
  rintro ⟨fire, s'⟩ ⟨fire', t'⟩ hs ht
  obtain ⟨gap, timers, hcheck, rfl⟩ := decideRestart_eq_ok hs
  obtain ⟨gap', timers', hcheck', rfl⟩ := decideRestart_eq_ok ht
  rw [h.policy, h.iterates, h.problem₂, h.settings] at hcheck'
  rw [h.problem₁] at hcheck
  obtain ⟨hfire, hgap⟩ :=
    RestartPolicy.check_inStep s.policy h.fits halike h.gap _ _ hcheck hcheck'
  exact ⟨hfire, { h with gap := hgap }⟩

theorem InStep.announceRestart (h : InStep p R s t) (halike : GapOracle.Alike p R) :
    Agree (InStep p R) s.announceRestart t.announceRestart := by
  intro s' t' hs ht
  have hsStatus := (announceRestart_printed hs).2.status
  have htStatus := (announceRestart_printed ht).2.status
  obtain ⟨k, evaluated, report, hstep, hevaluate, rfl⟩ := announceRestart_eq_ok hs
  obtain ⟨k', evaluated', report', hstep', hevaluate', rfl⟩ := announceRestart_eq_ok ht
  rw [h.iterates] at hstep'
  obtain rfl := ok_unique hstep hstep'
  have hnoted : InStep p R { s with trajectory := s.trajectory.pushRestart k }
      { t with trajectory := t.trajectory.pushRestart k } :=
    { h with trajectory := by rw [h.trajectory] }
  have hevaluated := hnoted.evaluate halike _ _ hevaluate hevaluate'
  exact { hevaluated with status := by rw [hsStatus, htStatus, h.status] }

theorem InStep.restartWhen (h : InStep p R s t) (halike : GapOracle.Alike p R) (fire : Bool) :
    Agree (InStep p R) (s.restartWhen fire) (t.restartWhen fire) := by
  cases fire with
  | false => exact agree_ok h
  | true => exact (h.announceRestart halike).bind fun s₁ t₁ h₁ => h₁.performRestart

theorem InStep.considerRestart (h : InStep p R s t) (halike : GapOracle.Alike p R) :
    Agree (InStep p R) s.considerRestart t.considerRestart := by
  refine (h.decideRestart halike).bind ?_
  rintro ⟨fire, s₁⟩ ⟨fire', t₁⟩ ⟨rfl, h₁⟩
  exact (h₁.restartWhen halike _).bind fun s₂ t₂ h₂ => agree_ok h₂.stopTimer

theorem InStep.pass (h : InStep p R s t) (halike : GapOracle.Alike p R) :
    Agree (InStep p R) s.pass t.pass :=
  h.takeStep.bind fun _ _ h₁ => (h₁.observe halike).bind fun _ _ h₂ =>
    (h₂.considerRestart halike).bind fun _ _ h₃ => agree_ok h₃.passNotice

/-- The two runs end in the same pass, and with the same status. -/
theorem InStep.passes (h : InStep p R s t) (halike : GapOracle.Alike p R) (allowance : ℕ) :
    Agree (InStep p R) (s.passes allowance) (t.passes allowance) := by
  induction allowance generalizing s t with
  | zero => exact agree_ok h
  | succ allowance ih =>
    intro s' t' hs ht
    unfold Solver.passes at hs ht
    cases hspass : s.pass with
    | error f =>
      rw [hspass] at hs
      cases hs
    | ok s₁ =>
      cases htpass : t.pass with
      | error f =>
        rw [htpass] at ht
        cases ht
      | ok t₁ =>
        have h₁ := h.pass halike s₁ t₁ hspass htpass
        simp only [hspass] at hs
        simp only [htpass, h₁.outcome?_eq] at ht
        cases houtcome : s₁.outcome? with
        | some status =>
          simp only [houtcome, Except.ok.injEq] at hs ht
          rw [← hs, ← ht]
          exact { h₁ with status := rfl }
        | none =>
          simp only [houtcome] at hs ht
          exact ih h₁ s' t' hs ht

end Queries

end Solver

/-- What is copied does not depend on where it is copied to. -/
theorem Vector.copyOnto_agree {α : Type} (old₁ old₂ x : List α) :
    Agree Eq (copyOnto old₁ x) (copyOnto old₂ x) := by
  intro y z hy hz
  rw [copyOnto_eq_ok_iff] at hy hz
  rw [hy.2, hz.2]

namespace Report

/-- Reports with the same summary of a run, up to its time. -/
def SameSummary (r₁ r₂ : Report T) : Prop :=
  r₂.status = r₁.status ∧ r₂.iterations = r₁.iterations ∧ r₂.restarts = r₁.restarts ∧
    r₂.last = r₁.last

theorem finalize_agree {r₁ r₂ : Report T} (hstatus : r₂.status = r₁.status) (i : Iterates T)
    (time₁ time₂ : ℕ) : Agree SameSummary (r₁.finalize i time₁) (r₂.finalize i time₂) :=
  agree_bind _ fun _ => agree_ok ⟨hstatus, rfl, rfl, rfl⟩

/-- The solution of an earlier run is overwritten. -/
theorem SameSummary.finalize [Scalar T] {r₁ r₂ : Report T} (h : SameSummary r₁ r₂)
    (old₁ old₂ : Solution T) (p : Problem T) (i : Iterates T) :
    Agree (fun x y : Solution T => y = { x with solveTime := y.solveTime })
      (old₁.finalize p i r₁) (old₂.finalize p i r₂) := by
  unfold Solution.finalize
  refine agree_bind _ fun x => (Vector.copyOnto_agree _ _ x).bind ?_
  rintro primal _ rfl
  refine agree_bind _ fun y => (Vector.copyOnto_agree _ _ y).bind ?_
  rintro dual _ rfl
  refine agree_bind _ fun objective => agree_bind _ fun dualObjective => agree_ok ?_
  rw [h.1, h.2.1, h.2.2.1, h.2.2.2]

end Report

namespace Solver

variable {p : Problem T} {s : Solver T ω₁} {t : Solver T ω₂}

/-- Solvers that are set the same task: their settings differ at most in the verbosity. Nothing is
asked of what earlier runs left behind. -/
structure SameTask (R : ω₁ → ω₂ → Prop) (s : Solver T ω₁) (t : Solver T ω₂) : Prop where
  problem : t.problem = s.problem
  settings : t.settings = { s.settings with verbose := t.settings.verbose }
  policy : t.policy = s.policy
  oracle : Option.Rel R s.gap.oracle t.gap.oracle
  failureLimit : t.gap.failureLimit = s.gap.failureLimit

/-- Runs with the same results: all that a run leaves behind, but for texts and times. -/
structure SameResults (R : ω₁ → ω₂ → Prop) (s : Solver T ω₁) (t : Solver T ω₂) : Prop where
  iterates : t.iterates = s.iterates
  trajectory : t.trajectory = s.trajectory
  gap : s.gap.InStep R t.gap
  status : t.report.status = s.report.status
  solution : t.solution = { s.solution with solveTime := t.solution.solveTime }

theorem SameTask.setOracle (h : SameTask R s t) {o₁ : ω₁} {o₂ : ω₂} (ho : R o₁ o₂) :
    SameTask R (s.setOracle o₁) (t.setOracle o₂) :=
  { h with oracle := .some ho }

/-- The print targets are no part of the task. -/
theorem SameTask.reported (h : SameTask R s t) (r₁ r₂ : Report T) :
    SameTask R { s with report := r₁ } { t with report := r₂ } :=
  { h with }

variable [Scalar T]

/-- What a solver is built from. -/
theorem new_eq_ok {ω : Type} {settings : Settings T} {s : Solver T ω}
    (h : new p settings = .ok (.ok s)) :
    s.problem = p ∧ s.settings = settings ∧ s.gap = .withLimit settings.gapFailureLimit ∧
      RestartPolicy.ofName settings.restartMethod = .ok s.policy := by
  unfold new at h
  split at h
  · cases h
  · obtain ⟨capacity, -, h⟩ := bind_eq_ok.mp h
    split at h
    · cases h
    · split at h
      · cases h
      · next policy hpolicy =>
        rw [← Except.ok.inj (Except.ok.inj h)]
        exact ⟨rfl, rfl, rfl, hpolicy⟩

/-- Solvers that were built for one problem have the same task. -/
theorem sameTask_of_new {settings : Settings T} {verbose : Bool} (hs : new p settings = .ok (.ok s))
    (ht : new p { settings with verbose } = .ok (.ok t)) : SameTask R s t := by
  obtain ⟨hproblem, hsettings, hgap, hpolicy⟩ := new_eq_ok hs
  obtain ⟨hproblem', hsettings', hgap', hpolicy'⟩ := new_eq_ok ht
  exact
    { problem := by rw [hproblem', hproblem]
      settings := by rw [hsettings', hsettings]
      policy := ok_unique hpolicy' hpolicy
      oracle := by rw [hgap, hgap']; exact .none
      failureLimit := by rw [hgap, hgap']; rfl }

theorem SameTask.prepare (h : SameTask R s t) :
    Agree (InStep s.problem R) s.prepare t.prepare := by
  intro s' t' hs ht
  have hsStatus := (prepare_silent hs).1
  have htStatus := (prepare_silent ht).1
  obtain ⟨capacity, report, timers, hcapacity, rfl⟩ := prepare_eq_ok hs
  obtain ⟨capacity', report', timers', hcapacity', rfl⟩ := prepare_eq_ok ht
  rw [h.settings] at hcapacity'
  obtain rfl := ok_unique hcapacity hcapacity'
  exact
    { problem₁ := rfl
      problem₂ := h.problem
      settings := h.settings
      policy := h.policy
      iterates := by rw [h.problem]
      gap := ⟨h.oracle, rfl, h.failureLimit, rfl, rfl⟩
      trajectory := rfl
      status := by rw [hsStatus, htStatus]
      fits := Iterates.fits_origin _ }

theorem InStep.finish (h : InStep p R s t) : Agree (SameResults R) s.finish t.finish := by
  replace h := h.stopTimer
  unfold Solver.finish
  generalize s.stopTimer = s at h ⊢
  generalize t.stopTimer = t at h ⊢
  dsimp only
  rw [h.iterates, h.problem₁, h.problem₂]
  refine (Report.finalize_agree h.status _ _ _).bind fun r₁ r₂ hr => ?_
  refine (hr.finalize _ _ _ _).bind fun x y hxy => ?_
  have hfooter₁ := (Report.printed_text r₁ r₁.footerText s.settings.verbose).status
  have hfooter₂ := (Report.printed_text r₂ r₂.footerText t.settings.verbose).status
  exact agree_ok ⟨rfl, h.trajectory, h.gap, hfooter₂.trans (hr.1.trans hfooter₁.symm), hxy⟩

theorem SameTask.built (h : SameTask R s t) (hs : s.Built) : t.Built where
  accepted := by rw [h.problem]; exact hs.accepted
  paced := by
    rw [h.settings]
    exact ⟨hs.paced.restartLength, hs.paced.evaluateEvery, hs.paced.recordEvery,
      hs.paced.printEvery⟩
  capacity := by rw [h.settings]; exact hs.capacity
  failureLimit := by rw [h.failureLimit]; exact hs.failureLimit

variable [GapOracle ω₁ T] [GapOracle ω₂ T]

theorem SameTask.solve (h : SameTask R s t) (halike : GapOracle.Alike s.problem R) :
    Agree (SameResults R) s.solve t.solve := by
  refine h.prepare.bind fun s₁ t₁ h₁ => ?_
  have hrun : Agree (InStep s.problem R) s₁.run t₁.run := by
    unfold Solver.run
    rw [h₁.settings]
    exact h₁.passes halike _
  exact hrun.bind fun s₂ t₂ h₂ => h₂.finish

/-- Solvers that are set the same task both return, and with the same results. -/
theorem SameTask.exists_solve (h : SameTask R s t) (hs : s.Built)
    (hmax : s.settings.maxIterations + 2 < Counter.bound)
    (halike : GapOracle.Alike s.problem R) :
    ∃ s' t', s.solve = .ok s' ∧ t.solve = .ok t' ∧ SameResults R s' t' := by
  have hmax' : t.settings.maxIterations + 2 < Counter.bound := by rw [h.settings]; exact hmax
  have hanswers : GapOracle.Answers t.problem fun o₂ => ∃ o₁, R o₁ o₂ := by
    rw [h.problem]
    exact halike.answers_right
  obtain ⟨s', hsolve⟩ := hs.exists_solve hmax halike.answers_left fun o ho =>
    exists_related_right (ho ▸ h.oracle)
  obtain ⟨t', hsolve'⟩ := (h.built hs).exists_solve hmax' hanswers fun o ho =>
    exists_related_left (ho ▸ h.oracle)
  exact ⟨s', t', hsolve, hsolve', h.solve halike s' t' hsolve hsolve'⟩

end Solver

end PrimalDual
