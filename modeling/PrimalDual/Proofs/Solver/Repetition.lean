import Mathlib.Logic.Relation
import PrimalDual.Proofs.Solver.Completion
import PrimalDual.Proofs.Solver.Lockstep
import PrimalDual.Proofs.Solver.Workspace

/-!
# Runs again

A solver that has run before runs as a new one does: neither its buffers nor its counters nor an
oracle that was given up make a difference to its results.
-/
namespace PrimalDual

open GapOracle (Both)

variable {T ω : Type} {p : Problem T} {good : ω → Prop}

/-- What is related to an oracle stays related to it for as long as its states are good. -/
theorem GapOracle.rel_of_isSome {a b b' : Option ω} (h : Option.Rel (Both good) a b)
    (hsome : b'.isSome = b.isSome) (hb : ∀ o, b' = some o → good o) :
    Option.Rel (Both good) a b' := by
  cases h with
  | some h =>
    obtain ⟨o, rfl⟩ := Option.isSome_iff_exists.mp hsome
    exact .some ⟨h.1, hb o rfl⟩
  | none =>
    rw [Option.isSome_none, Option.isSome_eq_false_iff, Option.isNone_iff_eq_none] at hsome
    rw [hsome]
    exact .none

section Runs

variable [Scalar T] [GapOracle ω T]

/-- A query makes an oracle neither appear nor disappear. -/
theorem GapEvaluator.stable_isSome (p : Problem T) (attached : Bool) :
    Stable p fun e : GapEvaluator ω => e.oracle.isSome = attached := by
  intro e e' z r answer hattached h
  unfold evaluate at h
  split at h
  · rw [snd_eq_of_pure h, hattached]
  · split at h
    · rw [snd_eq_of_pure h, hattached]
    · next o ho =>
      rcases bind_eq_ok.mp h with ⟨⟨given, o'⟩, -, h⟩
      simp [(settle_keeps h).1, ← hattached, ho]

namespace Solver

variable {s t t' : Solver T ω}

theorem solve_isSome (h : t.solve = .ok t') : t'.gap.oracle.isSome = t.gap.oracle.isSome := by
  rcases exists_moment h with ⟨S, n, ended, hended, hfinish⟩
  rcases finish_keeps hfinish with ⟨-, -, -, -, hgap, -⟩
  rw [hgap]
  apply hended.gap_induction (P := fun e => e.oracle.isSome = t.gap.oracle.isSome)
  · rfl
  · exact GapEvaluator.stable_isSome _ _
  · exact fun gap hgap => hgap

/-- After a run a solver has the task that it had before. -/
theorem SameTask.again (h : SameTask (Both good) s t) (hs : s.Built)
    (hmax : s.settings.maxIterations + 2 < Counter.bound)
    (hgood : GapOracle.Consistent s.problem good) (hsolve : t.solve = .ok t') :
    SameTask (Both good) s t' := by
  rcases h.exists_solve hs hmax hgood.alike with ⟨s', t'', -, hsolve', hresults⟩
  obtain rfl := ok_unique hsolve hsolve'
  rcases solve_keeps hsolve with ⟨hproblem, hsettings, hpolicy, hlimit⟩
  have horacle : ∀ o, t'.gap.oracle = some o → good o := by
    intro o ho
    rcases exists_related_left (ho ▸ hresults.gap.oracle) with ⟨o', -, hgood⟩
    exact hgood
  exact
    { problem := hproblem.trans h.problem
      settings := by rw [hsettings, h.settings]
      policy := hpolicy.trans h.policy
      oracle := GapOracle.rel_of_isSome h.oracle (solve_isSome hsolve) horacle
      failureLimit := hlimit.trans h.failureLimit }

end Solver

end Runs

namespace EquippedSolver

section Construction

variable {e f : EquippedSolver T ω} (o : Option ω)

@[simp] theorem attach_problem : (e.attach o).solver.problem = e.solver.problem := by
  cases o <;> rfl

@[simp] theorem attach_settings : (e.attach o).solver.settings = e.solver.settings := by
  cases o <;> rfl

variable {o}

theorem sameTask_attach {R : ω → ω → Prop} {o' : Option ω}
    (h : Solver.SameTask R f.solver e.solver) (ho : Option.Rel R o o') :
    Solver.SameTask R (f.attach o).solver (e.attach o').solver := by
  cases ho with
  | some ho => exact h.setOracle ho
  | none => exact h

theorem Fits.attach (h : e.Fits p) (o : Option ω) : (e.attach o).Fits p := by
  cases o with
  | none => exact h
  | some o => exact h.withSolver rfl

variable [Scalar T]

theorem built_attach (h : e.solver.Built) (o : Option ω) : (e.attach o).solver.Built := by
  cases o with
  | none => exact h
  | some o => exact h.setOracle o

theorem new_eq_ok {settings : Settings T} (h : new p settings = .ok (.ok e)) :
    Solver.new p settings = .ok (.ok e.solver) ∧ e.Fits p := by
  rcases bind_eq_ok.mp h with ⟨built, hbuilt, h⟩
  cases built with
  | error err => cases h
  | ok s =>
    obtain rfl := Except.ok.inj (Except.ok.inj h)
    exact ⟨hbuilt, (Solver.new_eq_ok hbuilt).1, StepSpace.fits_new p, ErrorSpace.fits_new p⟩

end Construction

variable [Scalar T] [GapOracle ω T]

/-- Whatever runs a solver has behind it, its buffers fit and it has the task it was built for. -/
theorem Fits.after {f : Solver T ω} {e₀ e : EquippedSolver T ω} (h : e₀.Fits p)
    (htask : Solver.SameTask (Both good) f e₀.solver) (hf : f.Built)
    (hmax : f.settings.maxIterations + 2 < Counter.bound)
    (hgood : GapOracle.Consistent f.problem good)
    (hruns : Relation.ReflTransGen (fun e e' => e.solve = .ok e') e₀ e) :
    e.Fits p ∧ Solver.SameTask (Both good) f e.solver := by
  induction hruns with
  | refl => exact ⟨h, htask⟩
  | tail _ hsolve ih =>
    rcases ih with ⟨hfits, htask⟩
    rcases htask.exists_solve hf hmax hgood.alike with ⟨f', s, -, hs, -⟩
    rcases hfits.solve s hs with ⟨e', he', rfl, hfits'⟩
    obtain rfl := ok_unique hsolve he'
    exact ⟨hfits', htask.again hf hmax hgood hs⟩

/-- However often a solver has run, it runs again as a new solver does for the first time, and to
the same results. -/
theorem solve_again {settings : Settings T} {fresh built e : EquippedSolver T ω} {o o' : Option ω}
    (hp : p.Accepted) (hlimit : settings.gapFailureLimit < Counter.bound)
    (hmax : settings.maxIterations + 2 < Counter.bound)
    (hfresh : new p settings = .ok (.ok fresh)) (hbuilt : new p settings = .ok (.ok built))
    (hgood : GapOracle.Consistent p good) (ho : Option.Rel (Both good) o o')
    (hruns : Relation.ReflTransGen (fun e e' => e.solve = .ok e') (built.attach o') e) :
    ∃ f' e', (fresh.attach o).solve = .ok f' ∧ e.solve = .ok e' ∧
      (fresh.attach o).solver.solve = .ok f'.solver ∧ e.solver.solve = .ok e'.solver ∧
      Solver.SameResults (Both good) f'.solver e'.solver := by
  rcases new_eq_ok hfresh with ⟨hnew, hfits⟩
  rcases new_eq_ok hbuilt with ⟨hnew', hfits'⟩
  rcases Solver.new_eq_ok hnew with ⟨hproblem, hsettings, -⟩
  have hf : (fresh.attach o).solver.Built := built_attach (Solver.built_of_new hp hlimit hnew) o
  have hmax' : (fresh.attach o).solver.settings.maxIterations + 2 < Counter.bound := by
    simpa [hsettings] using hmax
  have hgood' : GapOracle.Consistent (fresh.attach o).solver.problem good := by
    simpa [hproblem] using hgood
  have htask := sameTask_attach (Solver.sameTask_of_new hnew hnew') ho
  rcases (hfits'.attach o').after htask hf hmax' hgood' hruns with ⟨hfits', htask⟩
  rcases htask.exists_solve hf hmax' hgood'.alike with ⟨s, t, hs, ht, hresults⟩
  rcases (hfits.attach o).solve s hs with ⟨f', hf', rfl, -⟩
  rcases hfits'.solve t ht with ⟨e', he', rfl, -⟩
  exact ⟨f', e', hf', he', hs, ht, hresults⟩

theorem solve_again_brief : ∃ built once : EquippedSolver ℝ BallOracle,
    new .reference (.brief (1 / 2) (1 / 2)) = .ok (.ok built) ∧
      (built.attach (some {})).solve = .ok once ∧
      ∃ f' e', (built.attach (some {})).solve = .ok f' ∧ once.solve = .ok e' ∧
        Solver.SameResults (Both (BallOracle.Suits · (.reference : Problem ℝ))) f'.solver
          e'.solver := by
  rcases Solver.exists_brief_new BallOracle true with ⟨s, hnew⟩
  have hbuilt : new .reference (.brief (1 / 2) (1 / 2)) =
      .ok (.ok (⟨s, .new .reference, .new .reference⟩ : EquippedSolver ℝ BallOracle)) := by
    have hbrief : Solver.new .reference (.brief (1 / 2) (1 / 2)) = .ok (.ok s) := hnew
    rw [new, hbrief]
    rfl
  have hgood := BallOracle.consistent_suits (T := ℝ) Problem.reference_accepted
  have ho : Option.Rel (Both (BallOracle.Suits · (.reference : Problem ℝ))) (some {}) (some {}) :=
    .some ⟨BallOracle.suits_new (by decide), BallOracle.suits_new (by decide)⟩
  rcases solve_again Problem.reference_accepted (by decide) (by decide) hbuilt hbuilt hgood ho .refl
    with ⟨once, -, honce, -⟩
  rcases solve_again Problem.reference_accepted (by decide) (by decide) hbuilt hbuilt hgood ho
    (.single honce) with ⟨f', e', hf', he', -, -, hresults⟩
  exact ⟨_, once, hbuilt, honce, f', e', hf', he', hresults⟩

end EquippedSolver

end PrimalDual
