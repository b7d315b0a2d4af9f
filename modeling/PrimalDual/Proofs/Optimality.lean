import PrimalDual.Convergence
import PrimalDual.Proofs.Problem

/-!
# Solutions

In exact arithmetic the error of a point is zero exactly if the point solves the problem and its
dual: then no feasible point has a lower cost and no feasible point of the dual a higher value.
Around a point with nonnegative primal part, the gap functional is nonnegative at every solution.
-/
noncomputable section
namespace PrimalDual
open Matrix

theorem positiveSquares_cons (v : ℝ) (l : List ℝ) :
    positiveSquares (v :: l) = max v 0 ^ 2 + positiveSquares l := by
  have hsum (l : List ℝ) : positiveSquares l =
      ((l.map (Scalar.greater · 0)).map fun v => v * v).sum :=
    (foldl_add_eq_sum _ 0 _).trans (zero_add _)
  rw [hsum, hsum, List.map_cons, List.map_cons, List.sum_cons, Scalar.greater_real, sq]

theorem positiveSquares_nonneg (l : List ℝ) : 0 ≤ positiveSquares l := by
  induction l with
  | nil => exact le_rfl
  | cons v l ih =>
    rw [positiveSquares_cons]
    positivity

theorem positiveSquares_eq_zero {l : List ℝ} : positiveSquares l = 0 ↔ ∀ v ∈ l, v ≤ 0 := by
  induction l with
  | nil => simp [positiveSquares]
  | cons v l ih =>
    rw [positiveSquares_cons, add_eq_zero_iff_of_nonneg (sq_nonneg _) (positiveSquares_nonneg l),
      sq_eq_zero_iff, max_eq_right_iff, ih, List.forall_mem_cons]

theorem positiveSquares_ofFn_eq_zero {n : ℕ} {v : Fin n → ℝ} :
    positiveSquares (List.ofFn v) = 0 ↔ v ≤ 0 := by
  rw [positiveSquares_eq_zero, List.forall_mem_ofFn_iff]
  rfl

namespace Problem

variable {p : Problem ℝ}

/-- The point solves the problem and its dual. -/
structure Optimal (u : p.Point) : Prop where
  nonneg : 0 ≤ u.1
  feasible : p.A *ᵥ u.1 = p.b
  dualFeasible : u.2 ᵥ* p.A ≤ p.c
  strong : p.c ⬝ᵥ u.1 ≤ p.b ⬝ᵥ u.2

/-- No value of the dual exceeds a cost of the problem. -/
theorem rhs_le_cost {x : Fin p.primalDim → ℝ} {y : Fin p.dualDim → ℝ} (hx : 0 ≤ x)
    (hfeasible : p.A *ᵥ x = p.b) (hy : y ᵥ* p.A ≤ p.c) : p.b ⬝ᵥ y ≤ p.c ⬝ᵥ x :=
  calc p.b ⬝ᵥ y
      = y ⬝ᵥ p.A *ᵥ x := by rw [hfeasible, dotProduct_comm]
    _ = y ᵥ* p.A ⬝ᵥ x := dotProduct_mulVec y p.A x
    _ ≤ p.c ⬝ᵥ x := dotProduct_le_dotProduct_of_nonneg_right hy hx

theorem Optimal.cost_le {u : p.Point} (h : Optimal u) {x : Fin p.primalDim → ℝ} (hx : 0 ≤ x)
    (hfeasible : p.A *ᵥ x = p.b) : p.c ⬝ᵥ u.1 ≤ p.c ⬝ᵥ x :=
  h.strong.trans (rhs_le_cost hx hfeasible h.dualFeasible)

theorem Optimal.le_rhs {u : p.Point} (h : Optimal u) {y : Fin p.dualDim → ℝ}
    (hy : y ᵥ* p.A ≤ p.c) : p.b ⬝ᵥ y ≤ p.b ⬝ᵥ u.2 :=
  (rhs_le_cost h.nonneg h.feasible hy).trans h.strong

theorem kktError_real (hp : p.Accepted) (u : p.Point) :
    p.kktError (List.ofFn u.1) (List.ofFn u.2) =
      .ok √(positiveSquares (List.ofFn (-u.1)) + positiveSquares (List.ofFn (p.A *ᵥ u.1 - p.b)) +
        positiveSquares (List.ofFn (-(p.A *ᵥ u.1 - p.b))) +
        positiveSquares (List.ofFn (u.2 ᵥ* p.A - p.c)) +
        positiveSquares [p.c ⬝ᵥ u.1 - p.b ⬝ᵥ u.2]) := by
  rw [kktError, hp.residual_real, ok_bind, hp.slack_real, ok_bind, hp.primalObjective_real,
    ok_bind, hp.dualObjective_real, ok_bind]
  simp only [List.map_ofFn, one_smul, neg_one_smul, ← sub_eq_add_neg]
  rfl

/-- The error is zero at the solutions and nowhere else. -/
theorem kktError_eq_zero_iff (hp : p.Accepted) {u : p.Point} :
    p.kktError (List.ofFn u.1) (List.ofFn u.2) = .ok 0 ↔ Optimal u := by
  have h₁ := positiveSquares_nonneg (List.ofFn (-u.1))
  have h₂ := positiveSquares_nonneg (List.ofFn (p.A *ᵥ u.1 - p.b))
  have h₃ := positiveSquares_nonneg (List.ofFn (-(p.A *ᵥ u.1 - p.b)))
  have h₄ := positiveSquares_nonneg (List.ofFn (u.2 ᵥ* p.A - p.c))
  have h₅ := positiveSquares_nonneg [p.c ⬝ᵥ u.1 - p.b ⬝ᵥ u.2]
  rw [kktError_real hp, Except.ok.injEq, Real.sqrt_eq_zero (by linarith)]
  constructor
  · intro h
    have hneg : -u.1 ≤ 0 := positiveSquares_ofFn_eq_zero.mp (by linarith)
    have habove : p.A *ᵥ u.1 - p.b ≤ 0 := positiveSquares_ofFn_eq_zero.mp (by linarith)
    have hbelow : -(p.A *ᵥ u.1 - p.b) ≤ 0 := positiveSquares_ofFn_eq_zero.mp (by linarith)
    have hslack : u.2 ᵥ* p.A - p.c ≤ 0 := positiveSquares_ofFn_eq_zero.mp (by linarith)
    have hgap : p.c ⬝ᵥ u.1 - p.b ⬝ᵥ u.2 ≤ 0 :=
      positiveSquares_eq_zero.mp (by linarith) _ (List.mem_singleton_self _)
    refine ⟨fun j => ?_, ?_, fun j => ?_, sub_nonpos.mp hgap⟩
    · exact neg_nonpos.mp (hneg j)
    · funext i
      exact le_antisymm (sub_nonpos.mp (habove i)) (sub_nonneg.mp (neg_nonpos.mp (hbelow i)))
    · exact sub_nonpos.mp (hslack j)
  · intro h
    have hneg : -u.1 ≤ 0 := fun j => neg_nonpos.mpr (h.nonneg j)
    have hslack : u.2 ᵥ* p.A - p.c ≤ 0 := fun j => sub_nonpos.mpr (h.dualFeasible j)
    have hgap : positiveSquares [p.c ⬝ᵥ u.1 - p.b ⬝ᵥ u.2] = 0 :=
      positiveSquares_eq_zero.mpr (by simpa using h.strong)
    rw [hgap, h.feasible, sub_self, neg_zero, positiveSquares_ofFn_eq_zero.mpr hneg,
      positiveSquares_ofFn_eq_zero.mpr hslack, positiveSquares_ofFn_eq_zero.mpr le_rfl]
    norm_num

theorem kktError_take_drop_eq_zero_iff (hp : p.Accepted) {z : List ℝ}
    (hz : z.length = p.primalDim + p.dualDim) :
    p.kktError (z.take p.primalDim) (z.drop p.primalDim) = .ok 0 ↔ Optimal (p.pointOf z) := by
  have hprimal : List.ofFn (p.pointOf z).1 = z.take p.primalDim := ofFn_coords (by simp [hz])
  have hdual : List.ofFn (p.pointOf z).2 = z.drop p.primalDim := ofFn_coords (by simp [hz])
  rw [← kktError_eq_zero_iff hp, hprimal, hdual]

/-- The solutions of the reference instance and of its dual. -/
def referenceSolution : (reference : Problem ℝ).Point :=
  ((![4, 1, 0, 0, 0] : Fin 5 → ℝ), (![-1, -3] : Fin 2 → ℝ))

theorem reference_optimal : Optimal referenceSolution := by
  have hb : (reference : Problem ℝ).b = (![4, 5] : Fin 2 → ℝ) := by
    ext (i : Fin 2)
    fin_cases i <;> simp [b, coords, reference]
  have hc : (reference : Problem ℝ).c = (![-4, -3, 0, 0, 0] : Fin 5 → ℝ) := by
    ext (j : Fin 5)
    fin_cases j <;> simp [c, coords, reference]
  have hprimal : (!![1, 0, 1, 0, 0; 1, 1, 0, 0, 0] : Matrix (Fin 2) (Fin 5) ℝ) *ᵥ
      ![4, 1, 0, 0, 0] = ![4, 5] := by
    ext i
    fin_cases i <;> norm_num [mulVec, dotProduct, Fin.sum_univ_succ]
  have hdual : (![-1, -3] : Fin 2 → ℝ) ᵥ*
      (!![1, 0, 1, 0, 0; 1, 1, 0, 0, 0] : Matrix (Fin 2) (Fin 5) ℝ) = ![-4, -3, -1, 0, 0] := by
    ext j
    fin_cases j <;> norm_num [vecMul, dotProduct, Fin.sum_univ_two]
  refine ⟨?_, ?_, ?_, ?_⟩
  · intro (j : Fin 5)
    change (0 : ℝ) ≤ ![4, 1, 0, 0, 0] j
    fin_cases j <;> norm_num
  · rw [reference_A, hb]
    exact hprimal
  · rw [reference_A, hc]
    refine hdual.trans_le ?_
    intro (j : Fin 5)
    fin_cases j <;> norm_num
  · rw [hb, hc]
    change ![-4, -3, 0, 0, 0] ⬝ᵥ ![4, 1, 0, 0, 0] ≤ ![4, 5] ⬝ᵥ ![-1, -3]
    norm_num [dotProduct, Fin.sum_univ_succ]

theorem kktError_pinned (b x y : ℝ) : (pinned b).kktError [x] [y] =
    .ok √(max (-x) 0 ^ 2 + max (x - b) 0 ^ 2 + max (b - x) 0 ^ 2 + max y 0 ^ 2 +
      max (-(b * y)) 0 ^ 2) := by
  have hprimal : (pinned b).primalObjective [x] = .ok 0 := by
    rw [(pinned_accepted b).primalObjective_eq_ok rfl]
    simp [pinned, Vector.inner, Vector.sum_real]
  have hdual : (pinned b).dualObjective [y] = .ok (b * y) := by
    rw [(pinned_accepted b).dualObjective_eq_ok rfl]
    simp [pinned, Vector.inner, Vector.sum_real]
  have hempty : positiveSquares ([] : List ℝ) = 0 := rfl
  rw [kktError, pinned_residual, ok_bind, pinned_slack b y one_ne_zero, ok_bind, hprimal, ok_bind,
    hdual, ok_bind]
  simp [positiveSquares_cons, hempty]

/-- No solution lies below the gap functional's zero around an admissible point. -/
theorem Optimal.gapAt_nonneg {u z : p.Point} (h : Optimal u) (hz : 0 ≤ z.1) : 0 ≤ p.gapAt z u := by
  have hslack : 0 ≤ (p.c - u.2 ᵥ* p.A) ⬝ᵥ z.1 :=
    dotProduct_nonneg_of_nonneg (fun j => sub_nonneg.mpr (h.dualFeasible j)) hz
  have hstrong := h.strong
  have hgap : p.gapAt z u =
      (p.c - u.2 ᵥ* p.A) ⬝ᵥ z.1 + (p.b ⬝ᵥ u.2 - p.c ⬝ᵥ u.1) := by
    simp only [gapAt, sub_dotProduct, ← dotProduct_mulVec, h.feasible]
    rw [dotProduct_comm (p.A *ᵥ z.1) u.2, dotProduct_comm z.2 p.b]
    ring
  rw [hgap]
  linarith

end Problem

end PrimalDual

end
