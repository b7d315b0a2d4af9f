import PrimalDual.Proofs.Solver.Operations

/-!
# What a run prints

Whatever a run prints, no part of its report depends on how the print target takes it. Without
verbosity the target is left alone.
-/
namespace PrimalDual

variable {T ω : Type}

namespace Report

/-- Nothing but texts leads from one report to the other, and not even those without verbosity. -/
structure Printed (verbose : Bool) (r r' : Report T) : Prop where
  status : r'.status = r.status
  silent : verbose = false → r'.target = r.target

variable {r r' r'' : Report T} {settings : Settings T} {verbose : Bool} {s : Iterates T}
  {p : Problem T}

theorem Printed.refl (verbose : Bool) (r : Report T) : Printed verbose r r := ⟨rfl, fun _ => rfl⟩

theorem Printed.trans (h : Printed verbose r r') (h' : Printed verbose r' r'') :
    Printed verbose r r'' :=
  ⟨h'.status.trans h.status, fun hsilent => (h'.silent hsilent).trans (h.silent hsilent)⟩

/-- A text is printed where verbosity is asked for. -/
theorem printed_text (r : Report T) (text : String) (verbose : Bool) :
    Printed verbose r (if verbose then r.print text else r) := by
  cases verbose with
  | false => exact .refl _ r
  | true => exact ⟨rfl, by simp⟩

theorem printWarning_printed (r : Report T) (settings : Settings T) (message : String) :
    Printed settings.verbose r (r.printWarning settings message) :=
  printed_text r (warningText message) settings.verbose

/-- A text is made and printed where verbosity is asked for. -/
theorem printed_of_ite {x : Except Fault (Report T)} (hx : ∀ r', x = .ok r' → r'.status = r.status)
    (h : (if verbose then x else pure r) = .ok r') : Printed verbose r r' := by
  cases verbose with
  | false => exact Except.ok.inj h ▸ .refl _ r
  | true => exact ⟨hx r' h, by simp⟩

theorem printRestart_printed (h : r.printRestart settings s = .ok r') :
    Printed settings.verbose r r' := by
  refine printed_of_ite (fun r' h => ?_) h
  obtain ⟨text, -, h⟩ := bind_eq_ok.mp h
  rw [← Except.ok.inj h]
  rfl

variable [Scalar T]

theorem printConfiguration_printed {policy : RestartPolicy}
    (h : r.printConfiguration settings p policy = .ok r') : Printed settings.verbose r r' := by
  refine printed_of_ite (fun r' h => ?_) h
  obtain ⟨text, -, h⟩ := bind_eq_ok.mp h
  rw [← Except.ok.inj h]
  rfl

theorem printStatus_printed {now : ℕ} (h : r.printStatus settings s p now = .ok r') :
    Printed settings.verbose r r' := by
  refine printed_of_ite (fun r' h => ?_) h
  obtain ⟨text, -, h⟩ := bind_eq_ok.mp h
  rw [← Except.ok.inj h]
  rfl

end Report

namespace Solver

/-- Between two states of a run the report has only been printed to. -/
def Printed (s s' : Solver T ω) : Prop :=
  s'.settings = s.settings ∧ s.report.Printed s.settings.verbose s'.report

variable {s s' s'' : Solver T ω}

theorem Printed.refl (s : Solver T ω) : Printed s s := ⟨rfl, .refl _ _⟩

theorem Printed.trans (h : Printed s s') (h' : Printed s' s'') : Printed s s'' :=
  ⟨h'.1.trans h.1, h.2.trans (h.1 ▸ h'.2)⟩

theorem record_printed (h : s.record = .ok s') : Printed s s' := by
  obtain ⟨appended, -, h⟩ := bind_eq_ok.mp h
  cases appended with
  | error e =>
    rw [← Except.ok.inj h]
    exact ⟨rfl, Report.printWarning_printed _ _ _⟩
  | ok trajectory =>
    rw [← Except.ok.inj h]
    exact ⟨rfl, .refl _ _⟩

theorem recordWhen_printed {onRecord : Bool} (h : s.recordWhen onRecord = .ok s') :
    Printed s s' := by
  cases onRecord with
  | false => exact Except.ok.inj h ▸ .refl s
  | true => exact record_printed h

theorem performRestart_printed (h : s.performRestart = .ok s') : Printed s s' := by
  obtain ⟨iterates, -, hrecord⟩ := performRestart_eq_ok h
  rcases recordRestart_eq_ok hrecord with ⟨-, rfl⟩ | ⟨-, k, -, -, hrecord⟩
  · exact ⟨rfl, .refl _ _⟩
  · have hprinted := recordWhen_printed hrecord
    exact hprinted

theorem passNotice_printed (s : Solver T ω) : Printed s s.passNotice := by
  by_cases hnotice : s.gap.takeNotice.1
  · simp only [passNotice, hnotice, if_true]
    exact ⟨rfl, Report.printWarning_printed _ _ _⟩
  · simp only [passNotice, hnotice]
    exact ⟨rfl, .refl _ _⟩

variable [Scalar T]

theorem takeStep_printed (h : s.takeStep = .ok s') : Printed s s' := by
  obtain ⟨iterates, timers, -, rfl⟩ := takeStep_eq_ok h
  exact ⟨rfl, .refl _ _⟩

theorem printWhen_printed {onPrint : Bool} (h : s.printWhen onPrint = .ok s') : Printed s s' := by
  cases onPrint with
  | false => exact Except.ok.inj h ▸ .refl s
  | true =>
    obtain ⟨report, hreport, h⟩ := bind_eq_ok.mp h
    rw [← Except.ok.inj h]
    exact ⟨rfl, Report.printStatus_printed hreport⟩

/-- The report is reset at the start of a run, and its target is not. -/
theorem prepare_silent (h : s.prepare = .ok s') :
    s'.report.status = .unsolved ∧
      (s.settings.verbose = false → s'.report.target = s.report.target) := by
  unfold prepare reset printOpening untimed at h
  obtain ⟨fresh, hfresh, h⟩ := bind_eq_ok.mp h
  obtain ⟨capacity, -, hfresh⟩ := bind_eq_ok.mp hfresh
  obtain rfl := Except.ok.inj hfresh
  obtain ⟨opened, hopened, h⟩ := bind_eq_ok.mp h
  obtain ⟨report, hreport, hopened⟩ := bind_eq_ok.mp hopened
  obtain ⟨configured, hconfigured, hreport⟩ := bind_eq_ok.mp hreport
  obtain rfl := Except.ok.inj hopened
  obtain rfl := Except.ok.inj h
  obtain rfl := Except.ok.inj hreport
  refine ⟨rfl, fun hsilent => ?_⟩
  have hbanner := Report.printed_text s.report Report.bannerText s.settings.verbose
  have hheader := Report.printed_text configured Report.headerText s.settings.verbose
  exact ((hbanner.trans (Report.printConfiguration_printed hconfigured)).trans hheader).silent
    hsilent

variable [GapOracle ω T]

theorem evaluate_printed (h : s.evaluate = .ok s') : Printed s s' := by
  obtain ⟨iterates, gap, -, rfl⟩ := evaluate_eq_ok h
  exact ⟨rfl, .refl _ _⟩

theorem observe_printed (h : s.observe = .ok s') : Printed s s' := by
  obtain ⟨k, -, -, -, ⟨-, rfl⟩ | ⟨-, evaluated, recorded, hevaluate, hrecord, hprint⟩⟩ :=
    observe_eq_ok h
  · exact .refl _
  · have hstarted : Printed s (s.startTimer "evaluate") := ⟨rfl, .refl _ _⟩
    have hstopped : Printed evaluated evaluated.stopTimer := ⟨rfl, .refl _ _⟩
    exact (hstarted.trans (evaluate_printed hevaluate)).trans <|
      (hstopped.trans (recordWhen_printed hrecord)).trans (printWhen_printed hprint)

theorem decideRestart_printed {fire : Bool} (h : s.decideRestart = .ok (fire, s')) :
    Printed s s' := by
  obtain ⟨gap, timers, -, rfl⟩ := decideRestart_eq_ok h
  exact ⟨rfl, .refl _ _⟩

theorem announceRestart_printed (h : s.announceRestart = .ok s') : Printed s s' := by
  obtain ⟨k, -, h⟩ := bind_eq_ok.mp h
  obtain ⟨evaluated, hevaluate, h⟩ := bind_eq_ok.mp h
  obtain ⟨report, hrestart, h⟩ := bind_eq_ok.mp h
  obtain ⟨report', hstatus, h⟩ := bind_eq_ok.mp h
  have hnoted : Printed s { s with trajectory := s.trajectory.pushRestart k } := ⟨rfl, .refl _ _⟩
  rw [← Except.ok.inj h]
  exact (hnoted.trans (evaluate_printed hevaluate)).trans ⟨rfl,
    (Report.printRestart_printed hrestart).trans (Report.printStatus_printed hstatus)⟩

variable {s₀ : Solver T ω} {stage : Stage} {S n : ℕ}

/-- Nothing was printed up to any moment of a run without verbosity. -/
theorem Moment.silent (h : Moment s₀ stage S n s) (hsilent : s₀.settings.verbose = false) :
    s.settings.verbose = false ∧ s.report.target = s₀.report.target := by
  have keep {a b : Solver T ω} (hab : Printed a b)
      (ih : a.settings.verbose = false ∧ a.report.target = s₀.report.target) :
      b.settings.verbose = false ∧ b.report.target = s₀.report.target :=
    ⟨by rw [hab.1, ih.1], (hab.2.silent ih.1).trans ih.2⟩
  induction h with
  | begin hs =>
    have hsettings := (Moment.begin hs).course.frame.settings
    exact ⟨by rw [hsettings]; exact hsilent, (prepare_silent hs).2 hsilent⟩
  | step _ hs ih => exact keep (takeStep_printed hs) ih
  | observe _ hs ih => exact keep (observe_printed hs) ih
  | decide _ hs ih => exact keep (decideRestart_printed hs) ih
  | announce _ hs ih => exact keep (announceRestart_printed hs) ih
  | restart _ hs ih => exact keep (performRestart_printed hs) ih
  | keep _ ih => exact ih
  | close _ ih => exact keep (passNotice_printed _) ih
  | again _ _ ih => exact ih
  | stop _ _ ih => exact ih

/-- Without verbosity a run writes nothing. -/
theorem solve_silent (h : s₀.solve = .ok s) (hsilent : s₀.settings.verbose = false) :
    s.report.target = s₀.report.target := by
  obtain ⟨S, n, ended, hended, hfinish⟩ := exists_moment h
  obtain ⟨hverbose, htarget⟩ := hended.silent hsilent
  obtain ⟨report, hreport, hfinish⟩ := bind_eq_ok.mp hfinish
  obtain ⟨solution, -, hfinish⟩ := bind_eq_ok.mp hfinish
  obtain ⟨k, -, hreport⟩ := bind_eq_ok.mp hreport
  obtain rfl := Except.ok.inj hreport
  rw [← Except.ok.inj hfinish, ← htarget]
  exact (Report.printed_text _ _ _).silent hverbose

end Solver

end PrimalDual
