import Mathlib.Algebra.BigOperators.Fin
import PrimalDual.Proofs.Gap.Ball
import PrimalDual.Proofs.TrustRegion.Radius

/-!
# The projection maximises the gap

In exact arithmetic the oracle that projects onto the ball answers with the greatest value of the
gap functional there, divided by the radius. The three ways to its answer are a functional that is
constant, a point of the path at distance `r`, and the corner where a shorter path ends.
-/
noncomputable section
namespace PrimalDual
open Matrix

namespace BallOracle

section Best
open TrustRegion

variable {n : ℕ} {g z : Fin n → ℝ} {l : Fin n → LowerBound ℝ} {r : ℝ}

/-- Where the corner of the bounds is out of reach, the answer is an admissible point of the ball,
at which the linear function is least. -/
theorem maximiser_real (h : ∀ i, (l i).Admits (z i)) (hr : 0 < r) (hbeyond : CornerBeyond l z r) :
    ∃ best : Fin n → ℝ,
      maximiser (List.ofFn g) (List.ofFn l) (List.ofFn z) r = .ok (.ok (List.ofFn best)) ∧
      (∀ i, (l i).Admits (best i)) ∧ ∑ i, (best i - z i) ^ 2 ≤ r ^ 2 ∧
      ∀ v : Fin n → ℝ, (∀ i, (l i).Admits (v i)) → ∑ i, (v i - z i) ^ 2 ≤ r ^ 2 →
        g ⬝ᵥ best ≤ g ⬝ᵥ v := by
  have hproject := @project_eq_pointAt n g z l h r hr fun corner hc => hbeyond.lt_distance hc
  rcases @pointAt_real n g z l h r hr with ⟨t, ht, htravel, -, hpoint⟩ |
    ⟨hshort, hpoint⟩
  · refine ⟨path g l z t, ?_, admits_path g l z t, htravel.le, fun v hv hdist => ?_⟩
    · rw [maximiser, hproject, hpoint]
      rfl
    · exact path_minimises ht hv (hdist.trans_eq htravel.symm)
  · obtain ⟨t, ht, hcorner⟩ := exists_path_eq_cornerAt h hshort
    refine ⟨cornerAt g l z, ?_, ?_, ?_, fun v hv _ => cornerAt_minimises h hshort hv⟩
    · rw [maximiser, hproject, hpoint, ok_bind]
      simp only [cornerPoint, coordinates_ofFn, List.map_ofFn]
      rfl
    · rw [← hcorner]
      exact admits_path g l z t
    · rw [← hcorner]
      exact hshort t ht

end Best

end BallOracle

namespace Problem

variable {p : Problem ℝ}

/-- The coordinates of a point in one row. -/
def joined (z : p.Point) : Fin (p.primalDim + p.dualDim) → ℝ := Fin.append z.1 z.2

theorem listOf_eq_ofFn (z : p.Point) : p.listOf z = List.ofFn (joined z) :=
  (List.ofFn_fin_append z.1 z.2).symm

theorem joined_dotProduct (g u : p.Point) :
    joined g ⬝ᵥ joined u = g.1 ⬝ᵥ u.1 + g.2 ⬝ᵥ u.2 := by
  simp [joined, dotProduct, Fin.sum_univ_add]

theorem exists_joined (v : Fin (p.primalDim + p.dualDim) → ℝ) : ∃ u : p.Point, joined u = v :=
  ⟨(fun i => v (Fin.castAdd _ i), fun j => v (Fin.natAdd _ j)), Fin.append_castAdd_natAdd⟩

theorem joined_zero : joined (0 : p.Point) = 0 :=
  @Fin.append_castAdd_natAdd _ _ _ (0 : Fin (p.primalDim + p.dualDim) → ℝ)

theorem sum_sq_sub_joined (u z : p.Point) :
    ∑ i, (joined u i - joined z i) ^ 2 = (u - z).1 ⬝ᵥ (u - z).1 + (u - z).2 ⬝ᵥ (u - z).2 := by
  simp [joined, dotProduct, Fin.sum_univ_add, sq]

/-- The bounds of a problem's coordinates. -/
def boundsAt (p : Problem ℝ) : Fin (p.primalDim + p.dualDim) → LowerBound ℝ :=
  Fin.append (fun _ => .atLeast 0) fun _ => .unbounded

theorem admits_joined {u : p.Point} : (∀ i, (p.boundsAt i).Admits (joined u i)) ↔ 0 ≤ u.1 := by
  constructor
  · intro h i
    have hi := h (Fin.castAdd _ i)
    simpa [boundsAt, joined, LowerBound.Admits] using hi
  · intro h i
    induction i using Fin.addCases with
    | left i =>
      have hi : 0 ≤ u.1 i := h i
      simpa [boundsAt, joined, LowerBound.Admits] using hi
    | right j => simp [boundsAt, LowerBound.Admits]

theorem mem_ball {z u : p.Point} {r : ℝ} (hr : 0 < r) : u ∈ p.ball z r ↔
    (∀ i, (p.boundsAt i).Admits (joined u i)) ∧ ∑ i, (joined u i - joined z i) ^ 2 ≤ r ^ 2 := by
  rw [admits_joined, sum_sq_sub_joined, ← Real.sqrt_le_left hr.le]
  rfl

/-- The descent direction of the gap functional around a point. -/
def descent (z : p.Point) : p.Point := (p.c - z.2 ᵥ* p.A, p.A *ᵥ z.1 - p.b)

theorem gapAt_eq (z u : p.Point) :
    p.gapAt z u = p.c ⬝ᵥ z.1 - p.b ⬝ᵥ z.2 - joined (descent z) ⬝ᵥ joined u := by
  rw [joined_dotProduct, descent, gapAt, ← neg_sub (p.A *ᵥ z.1) p.b, ← neg_sub p.c (z.2 ᵥ* p.A),
    neg_dotProduct, neg_dotProduct]
  ring

theorem maxNorm_descent {z : p.Point} :
    Vector.maxNorm (List.ofFn (joined (descent z))) = 0 ↔ descent z = 0 := by
  rw [Vector.maxNorm_eq_zero, List.forall_mem_ofFn_iff]
  constructor
  · intro h
    refine Prod.ext (funext fun i => ?_) (funext fun j => ?_)
    · simpa [joined] using h (Fin.castAdd _ i)
    · simpa [joined] using h (Fin.natAdd _ j)
  · intro h i
    rw [h, joined_zero]
    rfl

/-- With a descent direction of zero the functional is the same everywhere. -/
theorem gapAt_of_descent {z : p.Point} (h : descent z = 0) (u : p.Point) :
    p.gapAt z u = p.c ⬝ᵥ z.1 - p.b ⬝ᵥ z.2 := by
  rw [gapAt_eq, h, joined_zero, zero_dotProduct, sub_zero]

end Problem

namespace BallOracle

variable {p : Problem ℝ} {o : BallOracle}

theorem bounds_eq_ofFn :
    (⟨p.primalDim, p.dualDim⟩ : BallOracle).bounds = List.ofFn p.boundsAt := by
  rw [bounds, Problem.boundsAt, List.ofFn_fin_append, List.ofFn_const, List.ofFn_const]

theorem gradient_real (hp : p.Accepted) (z : p.Point) :
    (⟨p.primalDim, p.dualDim⟩ : BallOracle).gradient p (List.ofFn z.1) (List.ofFn z.2) =
      .ok (List.ofFn (Problem.joined (Problem.descent z))) := by
  have hrhs : Vector.copyOnto (Vector.zeros p.dualDim) p.rhs = .ok p.rhs :=
    Vector.copyOnto_eq_ok (by simp [Vector.zeros, hp.length_rhs])
  rw [gradient, hp.slack_real, ok_bind, hrhs, ok_bind, hp.residual_real, ok_bind,
    ← Problem.listOf_eq_ofFn]
  simp [Problem.listOf, Problem.descent, sub_eq_add_neg, add_comm]

section Around

variable (hp : p.Accepted) {z : p.Point} {r : ℝ}
include hp

/-- A functional that is the same everywhere is answered for without a search. -/
theorem gapAround_stationary (h : Problem.descent z = 0) (u : p.Point) :
    (⟨p.primalDim, p.dualDim⟩ : BallOracle).gapAround (p.listOf z) r p =
      .ok (.ok (p.gapAt z u / r)) := by
  have hzero := Problem.maxNorm_descent.mpr h
  unfold gapAround
  simp only [Problem.take_listOf, Problem.drop_listOf, gradient_real hp, hp.primalObjective_real,
    hp.dualObjective_real, hzero, Problem.gapAt_of_descent h, beq_self_eq_true, if_true, ok_bind,
    pure_eq_ok]

/-- Otherwise the answer is the value at the point that the search finds. -/
theorem gapAround_found {best : p.Point}
    (h : maximiser (List.ofFn (Problem.joined (Problem.descent z))) (List.ofFn p.boundsAt)
      (List.ofFn (Problem.joined z)) r = .ok (.ok (List.ofFn (Problem.joined best)))) :
    (⟨p.primalDim, p.dualDim⟩ : BallOracle).gapAround (p.listOf z) r p =
      .ok (.ok (p.gapAt z best / r)) := by
  by_cases hdescent : Problem.descent z = 0
  · exact gapAround_stationary hp hdescent best
  · rw [← bounds_eq_ofFn, ← Problem.listOf_eq_ofFn z] at h
    unfold gapAround
    simp [gradient_real hp, hp.primalObjective_real, hp.dualObjective_real, h,
      Problem.maxNorm_descent, hdescent, Vector.dot_eq_ok, Problem.gapAt_eq]

/-- A search that fails is reported. -/
theorem gapAround_refused (hdescent : Problem.descent z ≠ 0) {e : GapError}
    (h : maximiser (List.ofFn (Problem.joined (Problem.descent z))) (List.ofFn p.boundsAt)
      (List.ofFn (Problem.joined z)) r = .ok (.error e)) :
    (⟨p.primalDim, p.dualDim⟩ : BallOracle).gapAround (p.listOf z) r p = .ok (.error e) := by
  rw [← bounds_eq_ofFn, ← Problem.listOf_eq_ofFn z] at h
  unfold gapAround
  simp [gradient_real hp, hp.primalObjective_real, hp.dualObjective_real, h,
    Problem.maxNorm_descent, hdescent]

/-- Around an admissible point the greatest value of the functional in the ball is found, as long as
the ball does not reach the corner of the bounds. -/
theorem gapAround_greatest (hz : 0 ≤ z.1) (hr : 0 < r)
    (hbeyond : TrustRegion.CornerBeyond p.boundsAt (Problem.joined z) r) :
    ∃ best ∈ p.ball z r, (∀ u ∈ p.ball z r, p.gapAt z u ≤ p.gapAt z best) ∧
      (⟨p.primalDim, p.dualDim⟩ : BallOracle).gapAround (p.listOf z) r p =
        .ok (.ok (p.gapAt z best / r)) := by
  obtain ⟨v, hanswer, hadmits, hdist, hleast⟩ := @maximiser_real _
    (Problem.joined (Problem.descent z)) (Problem.joined z) p.boundsAt r
    (Problem.admits_joined.mpr hz) hr hbeyond
  obtain ⟨best, rfl⟩ := Problem.exists_joined v
  refine ⟨best, (Problem.mem_ball hr).mpr ⟨hadmits, hdist⟩, fun u hu => ?_,
    gapAround_found hp hanswer⟩
  obtain ⟨hadmitted, hnear⟩ := (Problem.mem_ball hr).mp hu
  have hle := hleast _ hadmitted hnear
  rw [Problem.gapAt_eq, Problem.gapAt_eq]
  linarith

end Around

/-- With constraints there is a dual coordinate, so that no ball reaches a corner. -/
theorem gapAround_real (hp : p.Accepted) (hm : 0 < p.dualDim) {z : p.Point} (hz : 0 ≤ z.1) {r : ℝ}
    (hr : 0 < r) :
    ∃ best ∈ p.ball z r, (∀ u ∈ p.ball z r, p.gapAt z u ≤ p.gapAt z best) ∧
      (⟨p.primalDim, p.dualDim⟩ : BallOracle).gapAround (p.listOf z) r p =
        .ok (.ok (p.gapAt z best / r)) := by
  have hfree : p.boundsAt (Fin.natAdd _ ⟨0, hm⟩) = .unbounded := by
    rw [Problem.boundsAt, Fin.append_right]
  exact gapAround_greatest hp hz hr (TrustRegion.cornerBeyond_of_unbounded hfree r)

/-- The oracle's answer, times the radius, is the greatest value of the gap functional in the
ball. -/
theorem ask_isGreatest (hp : p.Accepted) (hm : 0 < p.dualDim) (ho : o.Suits p) {z : List ℝ}
    (hlength : z.length = p.primalDim + p.dualDim) (hz : 0 ≤ (p.pointOf z).1) {r : ℝ}
    (hr : 0 < r) :
    ∃ v, ask o z r p = .ok (.ok v, ⟨p.primalDim, p.dualDim⟩) ∧
      IsGreatest (p.gapAt (p.pointOf z) '' p.ball (p.pointOf z) r) (v * r) := by
  obtain ⟨best, hbest, hgreatest, hanswer⟩ := gapAround_real hp hm hz hr
  refine ⟨p.gapAt (p.pointOf z) best / r, ?_, ?_⟩
  · rw [Problem.listOf_pointOf hlength] at hanswer
    simp [ask, hlength, fit_eq ho, hanswer]
  · rw [div_mul_cancel₀ _ hr.ne']
    refine ⟨⟨best, hbest, rfl⟩, ?_⟩
    rintro _ ⟨u, hu, rfl⟩
    exact hgreatest u hu

theorem ask_isGreatest_reference :
    ∃ v, ask {} [4, 1, 0, 0, 0, -1, -3] 2 (Problem.reference : Problem ℝ) = .ok (.ok v, ⟨5, 2⟩) ∧
      IsGreatest (Problem.reference.gapAt (Problem.reference.pointOf [4, 1, 0, 0, 0, -1, -3]) ''
        Problem.reference.ball (Problem.reference.pointOf [4, 1, 0, 0, 0, -1, -3]) 2) (v * 2) := by
  apply ask_isGreatest Problem.reference_accepted
  · decide
  · exact suits_new (by decide)
  · rfl
  · intro i
    fin_cases i <;> simp [Problem.pointOf, coords, Problem.primalDim, Problem.reference]
  · norm_num

end BallOracle

end PrimalDual

end
