import PrimalDual.Proofs.Solver.Frame
import PrimalDual.Proofs.Sparse.Product
import PrimalDual.Solver.Workspace

/-!
# Runs in place

A run with buffers of the right lengths computes what the run without buffers computes, whatever
earlier runs left in them. Each buffer is overwritten before it is read, and keeps its length.
-/
namespace PrimalDual

variable {T ω : Type} [Scalar T] {p : Problem T}

namespace StepSpace

structure Fits (w : StepSpace T) (p : Problem T) : Prop where
  nextPrimal : w.nextPrimal.length = p.primalDim
  nextDual : w.nextDual.length = p.dualDim
  work : w.work.length = p.primalDim

theorem fits_new (p : Problem T) : (new p).Fits p := by
  constructor <;> simp [new]

/-- The points of a step do not depend on what the buffers held. -/
theorem Fits.moveFrom {w : StepSpace T} (hw : w.Fits p) {stepSize weight : T}
    {x y next nextDual : List T} (hnext : p.primalStep stepSize weight x y = .ok next)
    (hdual : p.dualStep stepSize weight x next y = .ok nextDual) :
    ∃ w', w.moveFrom p stepSize weight x y = .ok w' ∧ w'.nextPrimal = next ∧
      w'.nextDual = nextDual ∧ w'.Fits p := by
  simp only [Problem.primalStep, bind_eq_ok, Vector.waxpby_eq_ok_iff, pure_eq_ok,
    Except.ok.injEq, Vector.length_zeros] at hnext
  rcases hnext with ⟨slack, hslack, moved, ⟨hx, hcols, hmoved⟩, hclamp⟩
  simp only [Problem.dualStep, bind_eq_ok, Vector.waxpby_eq_ok_iff, Vector.length_zeros] at hdual
  rcases hdual with ⟨ahead, ⟨hlen, -, hahead⟩, residual, hresidual, hdual⟩
  have hcost := (SparseMatrix.transposeMulAdd_lengths hslack).2.1
  rcases SparseMatrix.mulAdd_lengths hresidual with ⟨hfar, hrhs, hrows⟩
  rcases Vector.axpby_eq_ok_iff.mp hdual with ⟨hy, hcombine⟩
  have hcopy : Vector.copyOnto w.work p.cost = .ok p.cost :=
    Vector.copyOnto_eq_ok (hw.work.trans hcost.symm)
  have hprimal : Vector.waxpby w.nextPrimal 1 x (-stepSize / weight) slack = .ok moved :=
    Vector.waxpby_eq_ok_iff.mpr ⟨hw.nextPrimal.trans hx, hw.nextPrimal.trans hcols, hmoved⟩
  have hwork : Vector.waxpby slack ((2 : Nat) : T) next (-1) x = .ok ahead :=
    Vector.waxpby_eq_ok_iff.mpr ⟨hcols.symm.trans hlen, hcols.symm.trans hx, hahead⟩
  have hcopy' : Vector.copyOnto w.nextDual p.rhs = .ok p.rhs :=
    Vector.copyOnto_eq_ok (hw.nextDual.trans hrhs.symm)
  refine ⟨⟨next, nextDual, ahead⟩, ?_, rfl, rfl, hlen.symm, ?_, hfar⟩
  · simp only [StepSpace.moveFrom, hcopy, hslack, hprimal, hclamp, hwork, hcopy', hresidual, hdual,
      ok_bind, pure_eq_ok]
  · rw [hcombine, Vector.length_combine, ← hy, hrows, min_self]
    rfl

end StepSpace

namespace Iterates

variable {s s' : Iterates T}

theorem advanceIn_eq_ok {w : StepSpace T} (hw : w.Fits p) {stepSize weight : T}
    (h : s.advance p stepSize weight = .ok s') :
    ∃ w', s.advanceIn w p stepSize weight = .ok (s', w') ∧ w'.Fits p := by
  by_cases hsplit : s.layout.isSplit
  · simp [advance, hsplit] at h
  by_cases hlen : s.point.length = p.primalDim + p.dualDim
  · simp only [advance, hsplit, hlen, ne_eq, not_true_eq_false, if_false, Bool.false_eq_true,
      Problem.stepFrom, bind_eq_ok, pure_eq_ok, Except.ok.injEq, Vector.copyOnto_eq_ok_iff] at h
    rcases h with ⟨x, hx, y, hy, point, ⟨next, hnext, nextDual, hdual, rfl⟩, _, ⟨hproposal, rfl⟩,
      hupdate⟩
    rcases hw.moveFrom hnext hdual with ⟨w', hmove, rfl, rfl, hw'⟩
    have hprimal :
        Vector.copyOnto (s.point.take p.primalDim) w'.nextPrimal = .ok w'.nextPrimal := by
      apply Vector.copyOnto_eq_ok
      simp [hw'.nextPrimal, hlen]
    have hdual : Vector.copyOnto (s.point.drop p.primalDim) w'.nextDual = .ok w'.nextDual := by
      apply Vector.copyOnto_eq_ok
      simp [hw'.nextDual, hlen]
    refine ⟨w', ?_, hw'⟩
    simp [advanceIn, hsplit, hlen, hx, hy, hmove, hprimal, hdual, Vector.copyOnto_eq_ok hproposal,
      hupdate]
  · simp [advance, hsplit, hlen] at h

end Iterates

namespace ErrorSpace

structure Fits (w : ErrorSpace T) (p : Problem T) : Prop where
  residual : w.residual.length = p.dualDim
  slack : w.slack.length = p.primalDim

theorem fits_new (p : Problem T) : (new p).Fits p := by
  constructor <;> simp [new]

variable {w : ErrorSpace T} {error : T}

theorem Fits.kktError (hw : w.Fits p) {x y : List T} (h : p.kktError x y = .ok error) :
    ∃ w', w.kktError p x y = .ok (error, w') ∧ w'.Fits p := by
  simp only [Problem.kktError, bind_eq_ok, pure_eq_ok, Except.ok.injEq] at h
  rcases h with ⟨residual, hresidual, slack, hslack, objective, hobjective, dualObjective,
    hdualObjective, rfl⟩
  rcases SparseMatrix.mulAdd_lengths hresidual with ⟨-, hrhs, hrows⟩
  rcases SparseMatrix.transposeMulAdd_lengths hslack with ⟨-, hcost, hcols⟩
  have hcopy : Vector.copyOnto w.residual p.rhs = .ok p.rhs :=
    Vector.copyOnto_eq_ok (hw.residual.trans hrhs.symm)
  have hcopy' : Vector.copyOnto w.slack p.cost = .ok p.cost :=
    Vector.copyOnto_eq_ok (hw.slack.trans hcost.symm)
  refine ⟨⟨residual, slack⟩, ?_, hrows, hcols⟩
  simp [ErrorSpace.kktError, hcopy, hcopy', hresidual, hslack, hobjective, hdualObjective]

theorem Fits.kktErrorSplit (hw : w.Fits p) {u v : List T} (h : p.kktErrorSplit u v = .ok error) :
    ∃ w', w.kktErrorSplit p u v = .ok (error, w') ∧ w'.Fits p := by
  simp only [Problem.kktErrorSplit, bind_eq_ok, pure_eq_ok, Except.ok.injEq] at h
  rcases h with ⟨residual, hresidual, rfl⟩
  rcases SparseMatrix.mulAdd_lengths hresidual with ⟨-, hrhs, hrows⟩
  have hcopy : Vector.copyOnto w.residual p.rhs = .ok p.rhs :=
    Vector.copyOnto_eq_ok (hw.residual.trans hrhs.symm)
  refine ⟨{ w with residual }, ?_, hrows, hw.slack⟩
  simp [ErrorSpace.kktErrorSplit, hcopy, hresidual]

end ErrorSpace

namespace Iterates

variable {s s' : Iterates T} {w : ErrorSpace T}

theorem kktErrorIn_eq_ok (hw : w.Fits p) {error : T} (h : s.kktError p = .ok error) :
    ∃ w', s.kktErrorIn w p = .ok (error, w') ∧ w'.Fits p := by
  unfold kktError at h
  unfold kktErrorIn
  by_cases hsplit : s.layout.isSplit
  · simp only [hsplit, if_true, bind_eq_ok] at h
    rcases h with ⟨u, hu, v, hv, herror⟩
    simpa [hsplit, hu, hv] using hw.kktErrorSplit herror
  · simp only [hsplit, Bool.false_eq_true, if_false, bind_eq_ok] at h
    rcases h with ⟨x, hx, y, hy, herror⟩
    simpa [hsplit, hx, hy] using hw.kktError herror

theorem evaluateIn_eq_ok [GapOracle ω T] (hw : w.Fits p) {settings : Settings T}
    {gap gap' : GapEvaluator ω} (h : s.evaluate p settings gap = .ok (s', gap')) :
    ∃ w', s.evaluateIn w p settings gap = .ok ((s', gap'), w') ∧ w'.Fits p := by
  simp only [evaluate, bind_eq_ok, Prod.exists] at h
  rcases h with ⟨error, herror, value, gap'', hvalue, hresult⟩
  rcases kktErrorIn_eq_ok hw herror with ⟨w', herror', hw'⟩
  refine ⟨w', ?_, hw'⟩
  simp only [evaluateIn, herror', hvalue, ok_bind, pure_eq_ok, Except.ok.injEq, Prod.mk.injEq,
    and_true]
  simpa using hresult

end Iterates

namespace EquippedSolver

/-- The buffers have the lengths that the problem asks for. -/
structure Fits (p : Problem T) (e : EquippedSolver T ω) : Prop where
  problem : e.solver.problem = p
  stepSpace : e.stepSpace.Fits p
  errorSpace : e.errorSpace.Fits p

/-- What the one computation makes of a solver, the other makes of a solver with buffers. -/
def Carries (p : Problem T) (x : Except Fault (EquippedSolver T ω))
    (y : Except Fault (Solver T ω)) : Prop :=
  ∀ s, y = .ok s → ∃ e, x = .ok e ∧ e.solver = s ∧ e.Fits p

section Carries

omit [Scalar T]

variable {e : EquippedSolver T ω}

theorem Fits.carries (h : e.Fits p) : Carries p (.ok e) (.ok e.solver) := by
  intro s hs
  exact ⟨e, rfl, Except.ok.inj hs, h⟩

theorem Carries.bind {x : Except Fault (EquippedSolver T ω)} {y : Except Fault (Solver T ω)}
    {f : EquippedSolver T ω → Except Fault (EquippedSolver T ω)}
    {g : Solver T ω → Except Fault (Solver T ω)} (h : Carries p x y)
    (hfg : ∀ e, e.Fits p → Carries p (f e) (g e.solver)) : Carries p (x >>= f) (y >>= g) := by
  intro s hs
  rcases bind_eq_ok.mp hs with ⟨s₁, hy, hs⟩
  rcases h s₁ hy with ⟨e, hx, rfl, he⟩
  rw [hx, ok_bind]
  exact hfg e he s hs

/-- Computations that begin with the same one go on from the same result. -/
theorem carries_bind {α : Type} (z : Except Fault α) {f : α → Except Fault (EquippedSolver T ω)}
    {g : α → Except Fault (Solver T ω)} (h : ∀ a, z = .ok a → Carries p (f a) (g a)) :
    Carries p (z >>= f) (z >>= g) := by
  intro s hs
  rcases bind_eq_ok.mp hs with ⟨a, hz, hs⟩
  rw [hz, ok_bind]
  exact h a hz s hs

theorem Fits.withSolver (h : e.Fits p) {s : Solver T ω} (hs : s.problem = e.solver.problem) :
    Fits p { e with solver := s } :=
  ⟨hs.trans h.problem, h.stepSpace, h.errorSpace⟩

theorem Fits.carries_with (h : e.Fits p) {s : Solver T ω} (hs : s.problem = e.solver.problem) :
    Carries p (.ok { e with solver := s }) (.ok s) :=
  (h.withSolver hs).carries

/-- What needs no buffer keeps them. -/
theorem Fits.via (h : e.Fits p) {f : Solver T ω → Except Fault (Solver T ω)}
    (hf : ∀ s, f e.solver = .ok s → s.problem = e.solver.problem) :
    Carries p (e.via f) (f e.solver) := by
  intro s hs
  refine ⟨{ e with solver := s }, ?_, rfl, h.withSolver (hf s hs)⟩
  simp [EquippedSolver.via, hs]

end Carries

variable {e : EquippedSolver T ω}

theorem Fits.takeStep (h : e.Fits p) : Carries p e.takeStep e.solver.takeStep := by
  intro s hs
  rcases bind_eq_ok.mp hs with ⟨iterates, hadvance, hs⟩
  rcases Iterates.advanceIn_eq_ok (h.problem ▸ h.stepSpace) hadvance with ⟨w, hadvance, hw⟩
  obtain rfl := Except.ok.inj hs
  exact ⟨_, bind_eq_ok.mpr ⟨(iterates, w), hadvance, rfl⟩, rfl, h.problem, h.problem ▸ hw,
    h.errorSpace⟩

variable [GapOracle ω T]

theorem Fits.evaluate (h : e.Fits p) : Carries p e.evaluate e.solver.evaluate := by
  intro s hs
  rcases bind_eq_ok.mp hs with ⟨⟨iterates, gap⟩, hevaluate, hs⟩
  rcases Iterates.evaluateIn_eq_ok (h.problem ▸ h.errorSpace) hevaluate with ⟨w, hevaluate, hw⟩
  obtain rfl := Except.ok.inj hs
  exact ⟨_, bind_eq_ok.mpr ⟨((iterates, gap), w), hevaluate, rfl⟩, rfl, h.problem, h.stepSpace,
    h.problem ▸ hw⟩

theorem Fits.observe (h : e.Fits p) : Carries p e.observe e.solver.observe := by
  refine carries_bind _ fun k _ => ?_
  refine carries_bind _ fun onRecord _ => ?_
  refine carries_bind _ fun onPrint _ => ?_
  by_cases hdue : (onRecord || onPrint) = true
  · rw [if_pos hdue, if_pos hdue]
    have hstarted : Fits p { e with solver := e.solver.startTimer "evaluate" } := h.withSolver rfl
    refine hstarted.evaluate.bind fun e₁ h₁ => ?_
    have hrecord := h₁.via (f := fun s => s.stopTimer.recordWhen onRecord) fun s hs =>
      (Solver.recordWhen_observes hs).problem
    refine hrecord.bind fun e₂ h₂ => ?_
    exact h₂.via fun s hs => (Solver.printWhen_observes hs).problem
  · rw [if_neg hdue, if_neg hdue]
    exact h.carries

theorem Fits.announceRestart (h : e.Fits p) :
    Carries p e.announceRestart e.solver.announceRestart := by
  refine carries_bind _ fun k _ => ?_
  have hnoted : Fits p { e with solver :=
    { e.solver with trajectory := e.solver.trajectory.pushRestart k } } := h.withSolver rfl
  refine hnoted.evaluate.bind fun e₁ h₁ => h₁.via fun s hs => ?_
  simp only [bind_eq_ok] at hs
  rcases hs with ⟨report, -, report', -, hs⟩
  rw [← Except.ok.inj hs]

theorem Fits.restartWhen (h : e.Fits p) (fire : Bool) :
    Carries p (e.restartWhen fire) (e.solver.restartWhen fire) := by
  cases fire with
  | false => exact h.carries
  | true =>
    refine h.announceRestart.bind fun e₁ h₁ => h₁.via fun s hs => ?_
    rcases Solver.performRestart_observes hs with ⟨iterates, -, hobserves⟩
    exact hobserves.problem

theorem Fits.considerRestart (h : e.Fits p) :
    Carries p e.considerRestart e.solver.considerRestart := by
  refine carries_bind _ ?_
  rintro ⟨fire, s⟩ hs
  have hdecided := h.withSolver (Solver.decideRestart_observes hs).problem
  exact (hdecided.restartWhen fire).bind fun e₁ h₁ => h₁.carries_with rfl

theorem Fits.pass (h : e.Fits p) : Carries p e.pass e.solver.pass :=
  h.takeStep.bind fun _ h₁ => h₁.observe.bind fun _ h₂ => h₂.considerRestart.bind fun e₃ h₃ =>
    h₃.carries_with (Solver.passNotice_observes e₃.solver).problem

theorem Fits.passes (h : e.Fits p) (allowance : ℕ) :
    Carries p (e.passes allowance) (e.solver.passes allowance) := by
  induction allowance generalizing e with
  | zero => exact h.carries
  | succ allowance ih =>
    intro s hs
    unfold Solver.passes at hs
    cases hpass : e.solver.pass with
    | error f =>
      rw [hpass] at hs
      cases hs
    | ok s₁ =>
      rcases h.pass s₁ hpass with ⟨e₁, he₁, rfl, h₁⟩
      simp only [hpass] at hs
      simp only [EquippedSolver.passes, he₁]
      cases houtcome : e₁.solver.outcome? with
      | some status =>
        simp only [houtcome] at hs
        exact h₁.carries_with (by rfl) s hs
      | none =>
        simp only [houtcome] at hs
        exact ih h₁ s hs

theorem Fits.solve (h : e.Fits p) : Carries p e.solve e.solver.solve := by
  have hprepare : Carries p (e.via Solver.prepare) e.solver.prepare := by
    refine h.via fun s hs => ?_
    rcases Solver.prepare_observes hs with ⟨fresh, hreset, hobserves⟩
    exact hobserves.problem.trans (Solver.reset_eq_ok hreset).2.2.problem
  refine hprepare.bind fun e₁ h₁ => (h₁.passes _).bind fun e₂ h₂ => h₂.via fun s hs => ?_
  exact (Solver.finish_keeps hs).1

end EquippedSolver

end PrimalDual
