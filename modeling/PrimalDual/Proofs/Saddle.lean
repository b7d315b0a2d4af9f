import PrimalDual.Proofs.Gap.Maximum
import PrimalDual.Proofs.Residuals
import PrimalDual.Tuning

/-!
# The saddle operator

In exact arithmetic the operator `F(z) = (c - Aᵀ y, A x - b)` is skew up to a constant, because the
two products that it is made of are adjoint. Its value along a point is the difference of the two
objectives there, which the error of the point and the gap functional around it compute as well.
-/
noncomputable section
namespace PrimalDual
open Matrix

namespace Problem

variable {p : Problem ℝ}

theorem inner_listOf (u v : p.Point) :
    Vector.inner (p.listOf u) (p.listOf v) = u.1 ⬝ᵥ v.1 + u.2 ⬝ᵥ v.2 := by
  rw [listOf_eq_ofFn, listOf_eq_ofFn, Vector.inner_ofFn, joined_dotProduct]

theorem sub_listOf (u v : p.Point) :
    List.zipWith (· - ·) (p.listOf u) (p.listOf v) = p.listOf (u - v) := by
  rw [listOf_eq_ofFn, listOf_eq_ofFn, listOf_eq_ofFn, zipWith_ofFn]
  congr 1
  funext i
  induction i using Fin.addCases <;> simp [joined]

/-- The two products cancel: each is the adjoint of the other. -/
theorem descent_sub_dotProduct (z z' : p.Point) :
    (descent z - descent z').1 ⬝ᵥ (z - z').1 + (descent z - descent z').2 ⬝ᵥ (z - z').2 = 0 := by
  have hprimal : (descent z - descent z').1 = -((z - z').2 ᵥ* p.A) := by
    simp [descent, sub_vecMul]
  have hdual : (descent z - descent z').2 = p.A *ᵥ (z - z').1 := by
    simp [descent, mulVec_sub]
  rw [hprimal, hdual, neg_dotProduct, ← dotProduct_mulVec, dotProduct_comm (p.A *ᵥ _),
    neg_add_cancel]

theorem descent_dotProduct (z : p.Point) :
    (descent z).1 ⬝ᵥ z.1 + (descent z).2 ⬝ᵥ z.2 = p.c ⬝ᵥ z.1 - p.b ⬝ᵥ z.2 := by
  simp only [descent, sub_dotProduct, ← dotProduct_mulVec]
  rw [dotProduct_comm (p.A *ᵥ z.1) z.2]
  ring

/-- The operator's value does not depend on what was in the output. -/
theorem Accepted.saddle_real (hp : p.Accepted) (z : p.Point) {out : List ℝ}
    (hout : out.length = p.primalDim + p.dualDim) :
    p.saddle (p.listOf z) out = .ok (p.listOf (descent z)) := by
  have hcost : Vector.copyOnto (out.take p.primalDim) p.cost = .ok p.cost :=
    Vector.copyOnto_eq_ok (by simp [hout, hp.length_cost])
  have hrhs : Vector.copyOnto (out.drop p.primalDim) p.rhs = .ok p.rhs :=
    Vector.copyOnto_eq_ok (by simp [hout, hp.length_rhs])
  have hlength : ¬ ((p.listOf z).length ≠ p.primalDim + p.dualDim ∨
      out.length ≠ p.primalDim + p.dualDim) := by simp [hout]
  unfold saddle
  simp only [if_neg hlength, take_listOf, drop_listOf, hcost, hrhs, hp.slack_real,
    hp.residual_real, ok_bind, pure_eq_ok]
  simp [listOf, descent, sub_eq_add_neg, add_comm]

/-- The last residual is the difference of the objectives. -/
theorem residuals_last {T : Type} [Scalar T] {p : Problem T} {x y : List T} {r : Residuals T}
    {primal dual : T} (hr : p.residuals x y = .ok r) (hprimal : p.primalObjective x = .ok primal)
    (hdual : p.dualObjective y = .ok dual) : r.entries.getLast? = some (primal - dual) := by
  unfold residuals at hr
  obtain ⟨residual, -, hr⟩ := bind_eq_ok.mp hr
  obtain ⟨slack, -, hr⟩ := bind_eq_ok.mp hr
  rw [hprimal, ok_bind, hdual, ok_bind] at hr
  rw [← Except.ok.inj hr, Residuals.entries, List.getLast?_concat]

end Problem

namespace BallOracle

variable {T : Type} [Scalar T]

/-- The answer to a query, given the constant of the gap functional and the vector against which it
grows. -/
def answer (o : BallOracle) (g : List T) (constant : T) (z : List T) (r : T) :
    Except Fault (Except GapError T) := do
  if Vector.maxNorm g == 0 then
    return .ok (constant / r)
  match ← maximiser g o.bounds z r with
  | .ok best => return .ok ((constant - (← Vector.dot g best)) / r)
  | .error e => return .error e

theorem gapAround_eq_answer {o : BallOracle} {p : Problem T} {z g : List T} {primal dual : T}
    (hg : o.gradient p (z.take p.primalDim) (z.drop p.primalDim) = .ok g)
    (hprimal : p.primalObjective (z.take p.primalDim) = .ok primal)
    (hdual : p.dualObjective (z.drop p.primalDim) = .ok dual) (r : T) :
    o.gapAround z r p = o.answer g (primal - dual) z r := by
  simp only [gapAround, hg, hprimal, hdual, ok_bind]
  rfl

end BallOracle

namespace Problem

variable {p : Problem ℝ}

/-- The values at two points differ by a vector orthogonal to the difference of the points. Along
its own point a value is the difference of the objectives, which is the last entry of the residuals
and the constant of the gap functional. The oracle evaluates that functional with the same operator
and the same constant. -/
theorem Accepted.saddle_gap (hp : p.Accepted) {z w : List ℝ}
    (hz : z.length = p.primalDim + p.dualDim) (hw : w.length = p.primalDim + p.dualDim) :
    ∃ F G primal dual r,
      (∀ out, out.length = p.primalDim + p.dualDim → p.saddle z out = .ok F) ∧
      (∀ out, out.length = p.primalDim + p.dualDim → p.saddle w out = .ok G) ∧
      Vector.dot (List.zipWith (· - ·) F G) (List.zipWith (· - ·) z w) = .ok 0 ∧
      p.primalObjective (z.take p.primalDim) = .ok primal ∧
      p.dualObjective (z.drop p.primalDim) = .ok dual ∧
      Vector.dot F z = .ok (primal - dual) ∧
      p.residuals (z.take p.primalDim) (z.drop p.primalDim) = .ok r ∧
      p.kktError (z.take p.primalDim) (z.drop p.primalDim) = .ok r.error ∧
      r.entries.getLast? = some (primal - dual) ∧
      (∀ u : p.Point, p.gapAt (p.pointOf z) u = primal - dual - Vector.inner F (p.listOf u)) ∧
      ∀ radius, (⟨p.primalDim, p.dualDim⟩ : BallOracle).gapAround z radius p =
        (⟨p.primalDim, p.dualDim⟩ : BallOracle).answer F (primal - dual) z radius := by
  obtain ⟨u, rfl⟩ : ∃ u, p.listOf u = z := ⟨_, listOf_pointOf hz⟩
  obtain ⟨v, rfl⟩ : ∃ v, p.listOf v = w := ⟨_, listOf_pointOf hw⟩
  obtain ⟨r, hr, herror⟩ := exists_residuals hp (x := List.ofFn u.1) (y := List.ofFn u.2)
    (by simp) (by simp)
  have hprimal := hp.primalObjective_real u.1
  have hdual := hp.dualObjective_real u.2
  simp only [take_listOf, drop_listOf, pointOf_listOf, sub_listOf]
  refine ⟨p.listOf (descent u), p.listOf (descent v), p.c ⬝ᵥ u.1, p.b ⬝ᵥ u.2, r,
    fun out => hp.saddle_real u, fun out => hp.saddle_real v, ?_, hprimal, hdual, ?_, hr, herror,
    residuals_last hr hprimal hdual, fun _ => ?_, fun _ => ?_⟩
  · rw [sub_listOf, Vector.dot_eq_ok (by simp), inner_listOf, descent_sub_dotProduct]
  · rw [Vector.dot_eq_ok (by simp), inner_listOf, descent_dotProduct]
  · rw [gapAt_eq, listOf_eq_ofFn, listOf_eq_ofFn, Vector.inner_ofFn]
  · have hgradient := BallOracle.gradient_real hp u
    rw [← listOf_eq_ofFn] at hgradient
    refine BallOracle.gapAround_eq_answer ?_ ?_ ?_ _
    · simpa only [take_listOf, drop_listOf] using hgradient
    · rwa [take_listOf]
    · rwa [drop_listOf]

theorem saddle_gap_reference :
    let p : Problem ℝ := reference
    let z : List ℝ := [4, 1, 0, 0, 0, -1, -3]
    let w : List ℝ := [0, 0, 0, 0, 0, 1, 1]
    p.Accepted ∧ z.length = p.primalDim + p.dualDim ∧ w.length = p.primalDim + p.dualDim ∧
      ∃ F G primal dual,
        (∀ out, out.length = p.primalDim + p.dualDim → p.saddle z out = .ok F) ∧
        (∀ out, out.length = p.primalDim + p.dualDim → p.saddle w out = .ok G) ∧
        Vector.dot (List.zipWith (· - ·) F G) (List.zipWith (· - ·) z w) = .ok 0 ∧
        p.primalObjective [4, 1, 0, 0, 0] = .ok primal ∧ p.dualObjective [-1, -3] = .ok dual ∧
        Vector.dot F z = .ok (primal - dual) := by
  obtain ⟨F, G, primal, dual, r, hF, hG, hskew, hprimal, hdual, hvalue, -⟩ :=
    reference_accepted.saddle_gap (z := [4, 1, 0, 0, 0, -1, -3]) (w := [0, 0, 0, 0, 0, 1, 1])
      rfl rfl
  exact ⟨reference_accepted, rfl, rfl, F, G, primal, dual, hF, hG, hskew, hprimal, hdual, hvalue⟩

end Problem

end PrimalDual

end
