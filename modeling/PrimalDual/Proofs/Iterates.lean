import PrimalDual.Convergence
import PrimalDual.Iterates.Step
import PrimalDual.Proofs.Problem

/-!
# What the operations on iterates do

Iterates that fit a problem are laid out as its points are. A step leads from them to one point, and
a restart continues from their average. Both keep them fitting, and fail only where a counter would
leave its word.
-/
namespace PrimalDual

variable {T : Type} {p : Problem T}

namespace Iterates

/-- Every stored point is laid out as the points of the problem are. -/
structure Fits (s : Iterates T) (p : Problem T) : Prop where
  layout : s.layout = .primalDual p.primalDim p.dualDim
  point : s.point.length = p.primalDim + p.dualDim
  proposal : s.proposal.length = p.primalDim + p.dualDim
  average : s.average.length = p.primalDim + p.dualDim
  epochStart : s.epochStart.length = p.primalDim + p.dualDim
  previousStart : ∀ previous, s.previousStart = some previous →
    previous.length = p.primalDim + p.dualDim

theorem step_eq_ok {s : Iterates T} (h : s.count ≠ 0) : s.step = .ok (s.count - 1) := by
  rw [step, Counter.previous, if_neg h]

/-- The iterates after a restart. -/
def restarted (s : Iterates T) : Iterates T :=
  { s with
    point := s.average
    restarts := s.restarts + 1
    count := s.count + 1
    epochLength := 0
    epochStart := s.average
    previousStart := some s.epochStart }

namespace Fits

variable {s : Iterates T} (h : s.Fits p)
include h

theorem dualOffset_eq : s.layout.dualOffset = p.primalDim := by
  rw [h.layout, Layout.dualOffset]

theorem isSplit_eq : s.layout.isSplit = false := by
  rw [h.layout, Layout.isSplit]

theorem length_primal : (s.point.take p.primalDim).length = p.primalDim := by
  simp [h.point]

theorem length_dual : (s.point.drop p.primalDim).length = p.dualDim := by
  simp [h.point]

theorem primal_eq_ok : s.primal = .ok (s.point.take p.primalDim) := by
  have hlength := h.point
  rw [primal, h.dualOffset_eq, segment_eq_ok (Nat.zero_le _) (by omega)]
  simp [span]

theorem dual_eq_ok : s.dual = .ok (s.point.drop p.primalDim) := by
  have hlength := h.point
  rw [dual, h.dualOffset_eq, segment_eq_ok (by omega) le_rfl]
  congr 1
  exact List.take_of_length_le (by simp)

/-- Where a restart succeeds, and what it does there. -/
theorem restart_eq_ok_iff {s' : Iterates T} : s.restart = .ok s' ↔
    s.restarts + 1 < Counter.bound ∧ s.count + 1 < Counter.bound ∧ s' = s.restarted := by
  have hcopy : Vector.copyOnto s.point s.average = .ok s.average :=
    Vector.copyOnto_eq_ok (by rw [h.point, h.average])
  unfold restart
  simp only [hcopy, ok_bind, bind_eq_ok, pure_eq_ok, Counter.next_eq_ok_iff]
  constructor
  · rintro ⟨_, ⟨hrestarts, rfl⟩, _, ⟨hcount, rfl⟩, hs⟩
    exact ⟨hrestarts, hcount, (Except.ok.inj hs).symm⟩
  · rintro ⟨hrestarts, hcount, rfl⟩
    exact ⟨_, ⟨hrestarts, rfl⟩, _, ⟨hcount, rfl⟩, rfl⟩

theorem restarted : s.restarted.Fits p where
  layout := h.layout
  point := h.average
  proposal := h.proposal
  average := h.average
  epochStart := h.average
  previousStart previous hprevious := by
    rw [← Option.some.inj hprevious]
    exact h.epochStart

theorem of_restart {s' : Iterates T} (hs : s.restart = .ok s') : s'.Fits p := by
  obtain ⟨-, -, rfl⟩ := h.restart_eq_ok_iff.mp hs
  exact h.restarted

end Fits

end Iterates

variable [Scalar T]

namespace Problem

theorem exists_primalStep (hp : p.Accepted) (stepSize weight : T) {x y : List T}
    (hx : x.length = p.primalDim) (hy : y.length = p.dualDim) :
    ∃ next, p.primalStep stepSize weight x y = .ok next ∧ next.length = p.primalDim := by
  obtain ⟨slack, hslack, hlength⟩ :=
    hp.inFormat.exists_transposeMulAdd (-1) 1 hy hp.length_cost
  have hmoved := Vector.waxpby_eq_ok (w := Vector.zeros p.primalDim) 1 (-stepSize / weight)
    (x := x) (y := slack) (by simp [Vector.zeros, hx]) (by simp [Vector.zeros, hlength, primalDim])
  refine ⟨_, by rw [primalStep, hslack, ok_bind, hmoved, ok_bind, pure_eq_ok], ?_⟩
  simp [Vector.length_combine, hx, hlength, primalDim]

theorem exists_dualStep (hp : p.Accepted) (stepSize weight : T) {x next y : List T}
    (hx : x.length = p.primalDim) (hnext : next.length = p.primalDim)
    (hy : y.length = p.dualDim) :
    ∃ nextDual, p.dualStep stepSize weight x next y = .ok nextDual ∧
      nextDual.length = p.dualDim := by
  have hahead := Vector.waxpby_eq_ok (w := Vector.zeros p.primalDim) ((2 : Nat) : T) (-1)
    (x := next) (y := x) (by simp [Vector.zeros, hnext]) (by simp [Vector.zeros, hx])
  have hlength : (Vector.combine ((2 : Nat) : T) next (-1) x).length = p.matrix.cols := by
    rw [Vector.length_combine, hnext, hx, Nat.min_self, primalDim]
  obtain ⟨residual, hresidual, hrows⟩ := hp.inFormat.exists_mulAdd 1 (-1) hlength hp.length_rhs
  have hmoved := Vector.axpby_eq_ok 1 (-stepSize * weight) (x := y) (y := residual)
    (by rw [hrows, hy, dualDim])
  refine ⟨_, by rw [dualStep, hahead, ok_bind, hresidual, ok_bind, hmoved], ?_⟩
  rw [Vector.length_combine, hy, hrows, dualDim, Nat.min_self]

/-- From the parts of a point a step is always possible. -/
theorem exists_stepFrom (hp : p.Accepted) (stepSize weight : T) {x y : List T}
    (hx : x.length = p.primalDim) (hy : y.length = p.dualDim) :
    ∃ point, p.stepFrom stepSize weight x y = .ok point ∧
      point.length = p.primalDim + p.dualDim := by
  obtain ⟨next, hnext, hlength⟩ := exists_primalStep hp stepSize weight hx hy
  obtain ⟨nextDual, hdual, hdualLength⟩ := exists_dualStep hp stepSize weight hx hlength hy
  exact ⟨next ++ nextDual, by rw [stepFrom, hnext, ok_bind, hdual]; rfl,
    by rw [List.length_append, hlength, hdualLength]⟩

theorem exists_kktError (hp : p.Accepted) {x y : List T} (hx : x.length = p.primalDim)
    (hy : y.length = p.dualDim) : ∃ error, p.kktError x y = .ok error := by
  obtain ⟨residual, hresidual, -⟩ := hp.inFormat.exists_mulAdd 1 (-1) hx hp.length_rhs
  obtain ⟨slack, hslack, -⟩ := hp.inFormat.exists_transposeMulAdd 1 (-1) hy hp.length_cost
  unfold kktError
  simp only [hresidual, hslack, hp.primalObjective_eq_ok hx, hp.dualObjective_eq_ok hy, ok_bind,
    pure_eq_ok]
  exact ⟨_, rfl⟩

end Problem

namespace Iterates

variable {s s' : Iterates T} {stepSize weight : T}

theorem fits_startingAt (p : Problem T) {point : List T}
    (hpoint : point.length = p.primalDim + p.dualDim) :
    (startingAt point (.primalDual p.primalDim p.dualDim)).Fits p where
  layout := rfl
  point := hpoint
  proposal := hpoint
  average := hpoint
  epochStart := hpoint
  previousStart previous h := by cases h

theorem fits_origin (p : Problem T) : (origin p.primalDim p.dualDim).Fits p :=
  fits_startingAt p (by simp [Vector.zeros])

/-- The average after one more proposal, of then `t + 1`. -/
def averageWith (s : Iterates T) (proposal : List T) : List T :=
  let t : T := s.epochLength
  Vector.combine (Scalar.recip (t + 1)) proposal (t * Scalar.recip (t + 1)) s.average

/-- The iterates after a step to a point. -/
def movedTo (s : Iterates T) (point : List T) : Iterates T :=
  { s with
    point
    proposal := point
    average := s.averageWith point
    epochLength := s.epochLength + 1
    count := s.count + 1 }

/-- Where a step succeeds, and what it does there. -/
theorem Fits.advance_eq_ok_iff (h : s.Fits p) : s.advance p stepSize weight = .ok s' ↔
    ∃ point, p.stepFrom stepSize weight (s.point.take p.primalDim) (s.point.drop p.primalDim) =
        .ok point ∧ point.length = p.primalDim + p.dualDim ∧
      s.epochLength + 1 < Counter.bound ∧ s.count + 1 < Counter.bound ∧ s' = s.movedTo point := by
  have haverage (proposal : List T) (hproposal : proposal.length = p.primalDim + p.dualDim) :
      Vector.axpby (Scalar.recip ((s.epochLength : T) + 1)) proposal
        ((s.epochLength : T) * Scalar.recip ((s.epochLength : T) + 1)) s.average =
          .ok (s.averageWith proposal) :=
    Vector.axpby_eq_ok _ _ (by rw [h.average, hproposal])
  unfold advance update
  simp only [h.isSplit_eq, h.point, h.primal_eq_ok, h.dual_eq_ok, h.proposal, ne_eq,
    not_true_eq_false, if_false, Bool.false_eq_true, ok_bind, bind_eq_ok, pure_eq_ok,
    Vector.copyOnto_eq_ok_iff, Counter.next_eq_ok_iff]
  constructor
  · rintro ⟨point, hstep, _, ⟨hlength, rfl⟩, average, hfold, _, ⟨hepoch, rfl⟩, _, ⟨hcount, rfl⟩, hs⟩
    obtain rfl := ok_unique (haverage _ hlength.symm) hfold
    exact ⟨_, hstep, hlength.symm, hepoch, hcount, (Except.ok.inj hs).symm⟩
  · rintro ⟨point, hstep, hlength, hepoch, hcount, rfl⟩
    exact ⟨point, hstep, _, ⟨hlength.symm, rfl⟩, _, haverage _ hlength, _, ⟨hepoch, rfl⟩, _,
      ⟨hcount, rfl⟩, rfl⟩

theorem Fits.length_averageWith (h : s.Fits p) {point : List T}
    (hpoint : point.length = p.primalDim + p.dualDim) :
    (s.averageWith point).length = p.primalDim + p.dualDim := by
  rw [averageWith, Vector.length_combine, hpoint, h.average, Nat.min_self]

theorem Fits.movedTo (h : s.Fits p) {point : List T}
    (hpoint : point.length = p.primalDim + p.dualDim) : (s.movedTo point).Fits p where
  layout := h.layout
  point := hpoint
  proposal := hpoint
  average := h.length_averageWith hpoint
  epochStart := h.epochStart
  previousStart := h.previousStart

theorem Fits.of_advance (h : s.Fits p) (hs : s.advance p stepSize weight = .ok s') :
    s'.Fits p := by
  obtain ⟨point, -, hpoint, -, -, rfl⟩ := h.advance_eq_ok_iff.mp hs
  exact h.movedTo hpoint

/-- A step leads to the point. It succeeds unless a counter would leave its word. -/
structure LeadsTo (p : Problem T) (stepSize weight : T) (s : Iterates T) (point : List T) :
    Prop where
  stepFrom : p.stepFrom stepSize weight (s.point.take p.primalDim) (s.point.drop p.primalDim) =
    .ok point
  advance : ∀ s', s.advance p stepSize weight = .ok s' ↔
    s.epochLength + 1 < Counter.bound ∧ s.count + 1 < Counter.bound ∧ s' = s.movedTo point

theorem Fits.leadsTo_of_stepFrom (h : s.Fits p) {point : List T}
    (hstep : p.stepFrom stepSize weight (s.point.take p.primalDim) (s.point.drop p.primalDim) =
      .ok point) (hpoint : point.length = p.primalDim + p.dualDim) :
    s.LeadsTo p stepSize weight point where
  stepFrom := hstep
  advance s' := by
    rw [h.advance_eq_ok_iff]
    constructor
    · rintro ⟨other, hother, -, hrest⟩
      obtain rfl := ok_unique hstep hother
      exact hrest
    · exact fun hrest => ⟨point, hstep, hpoint, hrest⟩

theorem Fits.exists_leadsTo (hp : p.Accepted) (h : s.Fits p) (stepSize weight : T) :
    ∃ point, s.LeadsTo p stepSize weight point := by
  obtain ⟨point, hstep, hpoint⟩ :=
    Problem.exists_stepFrom hp stepSize weight h.length_primal h.length_dual
  exact ⟨point, h.leadsTo_of_stepFrom hstep hpoint⟩

/-- Until a counter reaches its bound there is a next step. -/
theorem Fits.exists_advance (hp : p.Accepted) (h : s.Fits p) (stepSize weight : T)
    (hepoch : s.epochLength + 1 < Counter.bound) (hcount : s.count + 1 < Counter.bound) :
    ∃ point, s.advance p stepSize weight = .ok (s.movedTo point) := by
  obtain ⟨point, hleads⟩ := h.exists_leadsTo hp stepSize weight
  exact ⟨point, (hleads.advance _).mpr ⟨hepoch, hcount, rfl⟩⟩

theorem Fits.kktError_eq (h : s.Fits p) : s.kktError p =
    p.kktError (s.point.take p.primalDim) (s.point.drop p.primalDim) := by
  unfold kktError
  simp only [h.isSplit_eq, h.primal_eq_ok, h.dual_eq_ok, ok_bind, Bool.false_eq_true, if_false]

theorem Fits.exists_kktError (hp : p.Accepted) (h : s.Fits p) :
    ∃ error, s.kktError p = .ok error := by
  rw [h.kktError_eq]
  exact Problem.exists_kktError hp h.length_primal h.length_dual

end Iterates

end PrimalDual
