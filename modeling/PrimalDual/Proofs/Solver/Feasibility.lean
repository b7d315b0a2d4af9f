import PrimalDual.Proofs.Gap.Maximum
import PrimalDual.Proofs.Solver.Queries

/-!
# Runs stay among the admissible points

In exact arithmetic a step proposes a point with nonnegative primal part, averages keep the sign,
and restarts only move points around. So each point that the iterates store at some moment of a run
is admissible, and the oracle is only asked about admissible centres.
-/
noncomputable section
namespace PrimalDual

variable {p : Problem ℝ} {η ω : ℝ}

namespace Iterates

/-- All stored points have nonnegative primal parts. -/
structure Feasible (p : Problem ℝ) (s : Iterates ℝ) : Prop extends Nonneg p s where
  proposal : 0 ≤ (p.pointOf s.proposal).1
  previousStart : ∀ previous, s.previousStart = some previous → 0 ≤ (p.pointOf previous).1

variable {s s' : Iterates ℝ}

theorem feasible_origin (p : Problem ℝ) : (origin p.primalDim p.dualDim).Feasible p where
  toNonneg := nonneg_origin p
  proposal := (nonneg_origin p).point
  previousStart _ h := by cases h

theorem Feasible.advance (hp : p.Accepted) (hfits : s.Fits p) (h : s.Feasible p)
    (hs : s.advance p η ω = .ok s') : s'.Feasible p := by
  have hnonneg := h.toNonneg.advance hp hfits hs
  obtain ⟨point, -, -, -, -, rfl⟩ := hfits.advance_eq_ok_iff.mp hs
  exact ⟨hnonneg, hnonneg.point, h.previousStart⟩

theorem Feasible.restarted (h : s.Feasible p) : s.restarted.Feasible p where
  toNonneg := h.toNonneg.restarted
  proposal := h.proposal
  previousStart previous hprevious := by
    rw [← Option.some.inj hprevious]
    exact h.epochStart

theorem Feasible.of_sameCourse (h : s.Feasible p) (hs : s.SameCourse s') : s'.Feasible p := by
  rw [hs]
  exact ⟨⟨h.point, h.average, h.epochStart⟩, h.proposal, h.previousStart⟩

end Iterates

/-- The bounds that the oracle by projection goes by admit a centre with nonnegative primal part. -/
theorem BallOracle.project_ne_infeasibleAnchor {o : BallOracle} (ho : o.Suits p) {z : List ℝ}
    (hlength : z.length = p.primalDim + p.dualDim) (hz : 0 ≤ (p.pointOf z).1) (g : List ℝ) (r : ℝ)
    (i : ℕ) :
    TrustRegion.project g (o.fit p).bounds z r ≠ .ok (.error (.infeasibleAnchor i)) := by
  rw [fit_eq ho, bounds_eq_ofFn, ← Problem.listOf_pointOf hlength, Problem.listOf_eq_ofFn]
  exact TrustRegion.project_ne_infeasibleAnchor (Problem.admits_joined.mpr hz) g r i

namespace Solver

variable {Ω : Type} [GapOracle Ω ℝ] {s₀ s e : Solver ℝ Ω} {stage : Stage} {S n : ℕ}

theorem Moment.feasible (h : Moment s₀ stage S n s) (hp : s₀.problem.Accepted) :
    s.iterates.Feasible s₀.problem :=
  h.iterates_induction (Iterates.feasible_origin _)
    (fun _ _ hfits hi hs => hi.advance hp hfits hs)
    (fun _ _ hfits hi hs => by
      obtain ⟨-, -, rfl⟩ := hfits.restart_eq_ok_iff.mp hs
      exact hi.restarted)
    fun _ _ hs hi => hi.of_sameCourse hs

theorem Evaluates.feasible (h : Evaluates s₀ e) (hp : s₀.problem.Accepted) :
    e.iterates.Feasible s₀.problem := by
  cases h with
  | observed h _ => exact h.feasible hp
  | announced h => exact h.feasible hp

/-- Every query is about an admissible point of the problem. -/
theorem Query.feasible {purpose : Purpose} {start centre : List ℝ} {radius : ℝ}
    (h : Query s₀ purpose start centre radius) (hp : s₀.problem.Accepted) :
    centre.length = s₀.problem.primalDim + s₀.problem.dualDim ∧
      0 ≤ (s₀.problem.pointOf centre).1 := by
  cases h with
  | evaluation heval _ _ _ =>
    obtain ⟨⟨hproblem, -⟩, hfits⟩ := heval.data
    rw [hproblem] at hfits
    exact ⟨hfits.average, (heval.feasible hp).average⟩
  | current hcompares _ _ =>
    have hmoment := hcompares.moment
    exact ⟨hmoment.course.fits.average, (hmoment.feasible hp).average⟩
  | previous hcompares _ _ _ _ =>
    have hmoment := hcompares.moment
    exact ⟨hmoment.course.fits.epochStart, (hmoment.feasible hp).epochStart⟩

/-- At every moment all stored points are admissible, and so are the centres of all queries: none
of them is an infeasible anchor to the oracle that projects onto a ball. -/
theorem run_feasible (hp : s₀.problem.Accepted) :
    (∀ stage S n s, Moment s₀ stage S n s → s.iterates.Feasible s₀.problem) ∧
    ∀ purpose start centre radius, Query s₀ purpose start centre radius →
      0 ≤ (s₀.problem.pointOf centre).1 ∧
      ∀ (o : BallOracle) (g : List ℝ) (i : ℕ), o.Suits s₀.problem →
        TrustRegion.project g (o.fit s₀.problem).bounds centre radius ≠
          .ok (.error (.infeasibleAnchor i)) := by
  refine ⟨fun _ _ _ _ h => h.feasible hp, fun _ _ centre radius h => ?_⟩
  obtain ⟨hlength, hcentre⟩ := h.feasible hp
  exact ⟨hcentre, fun o g i ho =>
    BallOracle.project_ne_infeasibleAnchor ho hlength hcentre g radius i⟩

theorem run_feasible_resting : ∃ (s₀ s : Solver ℝ SilentOracle) (n : ℕ),
    s₀.problem = .pinned 0 ∧ s₀.problem.Accepted ∧
    Moment s₀ .closed 1 n s ∧ s.iterates.Feasible s₀.problem ∧
    Query s₀ .decision [0, 0] [0, 0] 0 ∧ 0 ≤ (s₀.problem.pointOf [0, 0]).1 ∧
    ∀ (o : BallOracle) (g : List ℝ) (i : ℕ), o.Suits s₀.problem →
      TrustRegion.project g (o.fit s₀.problem).bounds [0, 0] 0 ≠
        .ok (.error (.infeasibleAnchor i)) := by
  obtain ⟨s₀, hrun⟩ := exists_resting
  have hp := hrun.built.accepted
  obtain ⟨n, s, hmoment, -⟩ := hrun.exists_pass (by decide)
  have hquery := hrun.exists_query
  obtain ⟨hpoints, hcentres⟩ := run_feasible hp
  obtain ⟨hcentre, hanchor⟩ := hcentres _ _ _ _ hquery
  exact ⟨s₀, s, n, hrun.problem, hp, hmoment, hpoints _ _ _ _ hmoment, hquery, hcentre, hanchor⟩

end Solver

end PrimalDual

end
