import PrimalDual.Proofs.Solver.Lockstep
import PrimalDual.Proofs.Solver.Logging

/-!
# Printing has no influence on a run

A run that prints and a run that does not make the same queries in the same order and leave the same
results, whatever becomes of the texts.
-/
namespace PrimalDual

variable {T ω₁ ω₂ : Type} {R : ω₁ → ω₂ → Prop}

/-- Related oracles that were asked for the same centres and radii in the same order. -/
def LoggedOracle.SameLog (R : ω₁ → ω₂ → Prop) (o₁ : LoggedOracle ω₁ T) (o₂ : LoggedOracle ω₂ T) :
    Prop :=
  R o₁.oracle o₂.oracle ∧ o₂.log = o₁.log

variable [GapOracle ω₁ T] [GapOracle ω₂ T]

theorem GapOracle.Alike.sameLog {p : Problem T} (h : GapOracle.Alike p R) :
    GapOracle.Alike p (LoggedOracle.SameLog (T := T) R) := by
  rintro o₁ o₂ z r ⟨ho, hlog⟩ hz
  obtain ⟨answer, o₁', o₂', hask₁, hask₂, ho'⟩ := h o₁.oracle o₂.oracle z r ho hz
  refine ⟨answer, ⟨o₁', (z, r) :: o₁.log⟩, ⟨o₂', (z, r) :: o₂.log⟩, ?_, ?_, ho', ?_⟩
  · simp [GapOracle.ask, hask₁]
  · simp [GapOracle.ask, hask₂]
  · simp [hlog]

namespace Solver

variable [Scalar T]

/-- Of two solvers with the same task, of which one may print and the other not, both make the same
queries and come to the same results. One that is not verbose writes nothing to its target. -/
theorem SameTask.solve_verbose {s : Solver T (LoggedOracle ω₁ T)}
    {t : Solver T (LoggedOracle ω₂ T)} (h : SameTask (LoggedOracle.SameLog R) s t) (hs : s.Built)
    (hmax : s.settings.maxIterations + 2 < Counter.bound) (halike : GapOracle.Alike s.problem R) :
    ∃ s' t', s.solve = .ok s' ∧ t.solve = .ok t' ∧
      SameResults (LoggedOracle.SameLog R) s' t' ∧
      (s.settings.verbose = false → s'.report.target = s.report.target) ∧
      (t.settings.verbose = false → t'.report.target = t.report.target) := by
  obtain ⟨s', t', hsolve, hsolve', hresults⟩ := h.exists_solve hs hmax halike.sameLog
  exact ⟨s', t', hsolve, hsolve', hresults, solve_silent hsolve, solve_silent hsolve'⟩

/-- A target that takes nothing. -/
def refusing : PrintTarget := ⟨.stream, #[], fun _ _ => false⟩

theorem SameTask.solve_verbose_refusing :
    ∃ s t : Solver ℝ (LoggedOracle BallOracle ℝ), s.settings.verbose = true ∧
      s.report.target = refusing ∧ t.settings.verbose = false ∧
      ∃ s' t', s.solve = .ok s' ∧ t.solve = .ok t' ∧ t'.report.target = t.report.target ∧
        SameResults (LoggedOracle.SameLog fun o₁ o₂ : BallOracle =>
          o₁.Suits s.problem ∧ o₂.Suits s.problem) s' t' := by
  obtain ⟨s, hnew⟩ := exists_brief_new (LoggedOracle BallOracle ℝ) true
  obtain ⟨t, hnew'⟩ := exists_brief_new (LoggedOracle BallOracle ℝ) false
  obtain ⟨hproblem, hsettings, -, -⟩ := new_eq_ok hnew
  obtain ⟨-, hsettings', -, -⟩ := new_eq_ok hnew'
  have hbuilt : s.Built := built_of_new Problem.reference_accepted (by decide) hnew
  have hsuits : ({} : BallOracle).Suits s.problem := by
    rw [hproblem]
    exact BallOracle.suits_new (by decide)
  have hsame : LoggedOracle.SameLog (T := ℝ) (fun o₁ o₂ : BallOracle =>
      o₁.Suits s.problem ∧ o₂.Suits s.problem) ⟨{}, []⟩ ⟨{}, []⟩ := ⟨⟨hsuits, hsuits⟩, rfl⟩
  have htask := ((sameTask_of_new hnew hnew').setOracle hsame).reported
    { s.report with target := refusing } t.report
  have hmax : s.settings.maxIterations + 2 < Counter.bound := by
    rw [hsettings]
    decide
  obtain ⟨s', t', hsolve, hsolve', hresults, -, hsilent⟩ :=
    SameTask.solve_verbose htask (hbuilt.of_frame rfl rfl rfl) hmax
      (BallOracle.consistent_suits hbuilt.accepted).alike
  have hquiet : t.settings.verbose = false := by rw [hsettings']
  refine ⟨_, _, ?_, ?_, ?_, s', t', hsolve, hsolve', hsilent hquiet, hresults⟩
  · exact congrArg Settings.verbose hsettings
  · rfl
  · exact hquiet

end Solver

end PrimalDual
