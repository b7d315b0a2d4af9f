import PrimalDual.Proofs.Gap.Growth

/-!
# Queries that the oracle refuses

The radius and the centre of a query are checked by the projection. The oracle refuses a query for
either of them only if it comes that far: where the functional is the same everywhere, it has
answered before, and any radius and any centre will do.
-/
noncomputable section
namespace PrimalDual
open Matrix

namespace TrustRegion

variable {n : ℕ} {g z : Fin n → ℝ} {l : Fin n → LowerBound ℝ} {r : ℝ}

theorem project_of_nonpos (hr : r ≤ 0) :
    project (List.ofFn g) (List.ofFn l) (List.ofFn z) r = .ok (.error .nonPositiveRadius) := by
  have hradius : (!(Scalar.isFinite r && decide (0 < r))) = true := by simp [hr]
  unfold project
  simp only [List.length_ofFn, ne_eq, not_true_eq_false, or_self, if_false, hradius, if_true,
    pure_eq_ok]

/-- The first coordinate below its bound is reported. -/
theorem project_of_excluded (hr : 0 < r) {i : Fin n} (hi : ¬ (l i).Admits (z i))
    (hfirst : ∀ j < i, (l j).Admits (z j)) :
    project (List.ofFn g) (List.ofFn l) (List.ofFn z) r =
      .ok (.error (.infeasibleAnchor i)) := by
  have hradius : (!(Scalar.isFinite r && decide (0 < r))) = false := by simp [hr]
  have hindex : ((List.ofFn l).zip (List.ofFn z)).findIdx?
      (fun e => e.1.excludes e.2 || Scalar.isNaN e.2) = some i.val := by
    rw [List.zip, zipWith_ofFn, List.findIdx?_eq_some_iff_getElem]
    refine ⟨by simp, by simpa [← LowerBound.excludes_eq_false] using hi, fun j hj => ?_⟩
    simpa [LowerBound.excludes_eq_false] using hfirst ⟨j, hj.trans i.isLt⟩ hj
  unfold project
  simp only [List.length_ofFn, ne_eq, not_true_eq_false, or_self, if_false, hradius, hindex,
    Bool.false_eq_true, pure_eq_ok]

end TrustRegion

namespace Problem

/-- Around the primal value `-1` the functional of a pinned variable is the same everywhere only if
this is the value it is pinned to. -/
theorem pinned_descent (b : ℝ) : descent ((pinned b).pointOf [-1, 0]) = 0 ↔ b = -1 := by
  have hslack (j) : (descent ((pinned b).pointOf [-1, 0])).1 j = 0 := by
    obtain rfl : j = (0 : Fin 1) := Fin.eq_zero _
    change coords 1 [0] 0 - ∑ i : Fin 1, coords 1 [0] i * (pinned b).A i (0 : Fin 1) = 0
    simp [coords]
  have hresidual (i) : (descent ((pinned b).pointOf [-1, 0])).2 i = -1 - b := by
    have hrow (x) : ((pinned b).A *ᵥ x) i = ∑ j, x j := by
      simp [mulVec, dotProduct, pinned_A]
    change ((pinned b).A *ᵥ _) i - (pinned b).b i = _
    rw [hrow]
    obtain rfl : i = (0 : Fin 1) := Fin.eq_zero _
    change ∑ j : Fin 1, coords 1 [-1] j - coords 1 [b] 0 = _
    simp [coords]
  constructor
  · intro h
    have hzero := (hresidual (0 : Fin 1)).symm.trans (congrFun (congrArg Prod.snd h) (0 : Fin 1))
    exact (sub_eq_zero.mp hzero).symm
  · rintro rfl
    exact Prod.ext (funext hslack) (funext fun i => (hresidual i).trans (sub_self _))

theorem pinned_negative (b : ℝ) : ((pinned b).pointOf [-1, 0]).1 (0 : Fin 1) < 0 := by
  change coords 1 [-1] 0 < 0
  simp [coords]

end Problem

namespace BallOracle

variable {p : Problem ℝ} {o : BallOracle}

section Around

variable (hp : p.Accepted) {z : p.Point} {r : ℝ}
include hp

/-- What the projection refuses is refused as ill-posed. -/
theorem gapAround_illPosed (h : Problem.descent z ≠ 0) {e : TrustRegion.Error}
    (hproject : TrustRegion.project (List.ofFn (Problem.joined (Problem.descent z)))
      (List.ofFn p.boundsAt) (List.ofFn (Problem.joined z)) r = .ok (.error e))
    (he : e ≠ .degenerate) :
    (⟨p.primalDim, p.dualDim⟩ : BallOracle).gapAround (p.listOf z) r p =
      .ok (.error (.illPosed e.message)) := by
  refine gapAround_refused hp h ?_
  rw [maximiser, hproject, ok_bind]
  cases e with
  | degenerate => exact (he rfl).elim
  | _ => rfl

theorem gapAround_of_nonpos (h : Problem.descent z ≠ 0) (hr : r ≤ 0) :
    (⟨p.primalDim, p.dualDim⟩ : BallOracle).gapAround (p.listOf z) r p =
      .ok (.error (.illPosed TrustRegion.Error.nonPositiveRadius.message)) :=
  gapAround_illPosed hp h (TrustRegion.project_of_nonpos hr) (by simp)

theorem gapAround_of_negative (h : Problem.descent z ≠ 0) (hr : 0 < r) {i : Fin p.primalDim}
    (hi : z.1 i < 0) (hfirst : ∀ j < i, 0 ≤ z.1 j) :
    (⟨p.primalDim, p.dualDim⟩ : BallOracle).gapAround (p.listOf z) r p =
      .ok (.error (.illPosed (TrustRegion.Error.infeasibleAnchor i).message)) := by
  have hproject := TrustRegion.project_of_excluded (g := Problem.joined (Problem.descent z))
    (l := p.boundsAt) (z := Problem.joined z) hr (i := Fin.castAdd _ i)
    (by simpa [Problem.boundsAt, Problem.joined, LowerBound.Admits] using hi) fun j hj => ?_
  · exact gapAround_illPosed hp h hproject (by simp)
  · have hlt : j.val < i.val := hj
    obtain ⟨j, rfl⟩ : ∃ k, j = Fin.castAdd _ k := ⟨⟨j, hlt.trans i.isLt⟩, rfl⟩
    simpa [Problem.boundsAt, Problem.joined, LowerBound.Admits] using hfirst j hj

end Around

/-- Every query is answered or refused as ill-posed. It is refused if the centre does not have the
length of a point and, unless the functional is the same everywhere, for a radius that is not
positive and for a negative coordinate. In the excepted case the answer is zero. -/
theorem ask_refused_iff (hp : p.Accepted) (ho : o.Suits p) (z : List ℝ) (r : ℝ) :
    ∃ answer o', ask o z r p = .ok (answer, o') ∧
      ((∃ reason, answer = .error (.illPosed reason)) ↔
        z.length ≠ p.primalDim + p.dualDim ∨
          Problem.descent (p.pointOf z) ≠ 0 ∧ (r ≤ 0 ∨ ∃ i, (p.pointOf z).1 i < 0)) ∧
      ((∃ reason, answer = .error (.illPosed reason)) ∨
        ∃ v, answer = .ok v ∧ (Problem.descent (p.pointOf z) = 0 → v = 0 / r)) := by
  by_cases hlength : z.length = p.primalDim + p.dualDim
  · have hask {answer : Except GapError ℝ} (hanswer : (⟨p.primalDim, p.dualDim⟩ :
        BallOracle).gapAround (p.listOf (p.pointOf z)) r p = .ok answer) :
        ask o z r p = .ok (answer, ⟨p.primalDim, p.dualDim⟩) :=
      ask_eq_ok ho hlength (Problem.listOf_pointOf hlength ▸ hanswer)
    by_cases hdescent : Problem.descent (p.pointOf z) = 0
    · exact ⟨_, _, hask (gapAround_stationary hp hdescent (p.pointOf z)),
        by simp [hlength, hdescent],
        .inr ⟨_, rfl, fun _ => by rw [Problem.gapAt_self]⟩⟩
    by_cases hr : r ≤ 0
    · exact ⟨_, _, hask (gapAround_of_nonpos hp hdescent hr), by simp [hdescent, hr],
        .inl ⟨_, rfl⟩⟩
    by_cases hz : ∃ i, (p.pointOf z).1 i < 0
    · obtain ⟨i, hi, hfirst⟩ := wellFounded_lt.has_min {i | (p.pointOf z).1 i < 0} hz
      have hbefore : ∀ j < i, 0 ≤ (p.pointOf z).1 j := fun j hj =>
        not_lt.mp fun hneg => hfirst j hneg hj
      exact ⟨_, _, hask (gapAround_of_negative hp hdescent (not_le.mp hr) hi hbefore),
        by simp [hdescent, hz], .inl ⟨_, rfl⟩⟩
    · have hnonneg : 0 ≤ (p.pointOf z).1 := fun i => not_lt.mp fun hi => hz ⟨i, hi⟩
      obtain ⟨v, hv, -⟩ := ask_worth hp hlength hnonneg (not_le.mp hr)
      exact ⟨_, _, hv o ho, by simp [hlength, hr, hz],
        .inr ⟨v, rfl, fun h => (hdescent h).elim⟩⟩
  · exact ⟨_, _, ask_of_length_ne hlength r, by simp [hlength], .inl ⟨_, rfl⟩⟩

theorem pinned_suits (b : ℝ) : ({} : BallOracle).Suits (Problem.pinned b) :=
  suits_new one_pos

/-- A negative centre is refused where the variable is pinned to another value. -/
theorem ask_refused_iff_pinned :
    ∃ answer o', ask {} [-1, 0] 1 (Problem.pinned 0) = .ok (answer, o') ∧
      ∃ reason, answer = .error (.illPosed reason) := by
  obtain ⟨answer, o', hask, hrefused, -⟩ :=
    ask_refused_iff (Problem.pinned_accepted 0) (pinned_suits 0) [-1, 0] 1
  have hdescent : Problem.descent ((Problem.pinned 0).pointOf [-1, 0]) ≠ 0 := by
    rw [ne_eq, Problem.pinned_descent]
    norm_num
  exact ⟨answer, o', hask, hrefused.mpr (.inr ⟨hdescent, .inr ⟨_, Problem.pinned_negative 0⟩⟩)⟩

/-- Neither a negative centre nor a negative radius is refused where the variable is pinned to the
negative value. -/
theorem pinned_answers : (Problem.pinned (-1)).Accepted ∧
    (∃ i, ((Problem.pinned (-1)).pointOf [-1, 0]).1 i < 0) ∧
    ask {} [-1, 0] 1 (Problem.pinned (-1)) = .ok (.ok 0, ⟨1, 1⟩) ∧
    ask {} [-1, 0] (-1) (Problem.pinned (-1)) = .ok (.ok 0, ⟨1, 1⟩) := by
  have hp := Problem.pinned_accepted (-1)
  have hask (r : ℝ) : ask {} [-1, 0] r (Problem.pinned (-1)) = .ok (.ok 0, ⟨1, 1⟩) := by
    have hdescent := (Problem.pinned_descent (-1)).mpr rfl
    have hanswer := gapAround_stationary hp (r := r) hdescent
      ((Problem.pinned (-1)).pointOf [-1, 0])
    rw [Problem.listOf_pointOf rfl, Problem.gapAt_self, zero_div] at hanswer
    change ask {} [-1, 0] r (Problem.pinned (-1)) = .ok (.ok 0, ⟨_, _⟩)
    simp only [ask, fit_eq (pinned_suits (-1)), hanswer]
    rfl
  exact ⟨hp, ⟨_, Problem.pinned_negative (-1)⟩, hask 1, hask (-1)⟩

end BallOracle

end PrimalDual

end
