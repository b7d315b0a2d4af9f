import PrimalDual.Iterates.Step
import PrimalDual.Proofs.Floating
import PrimalDual.Proofs.Problem
import PrimalDual.Convergence

/-!
# Residuals that are not numbers

The error of a point is the norm of the positive parts of its residuals. The positive part of NaN is
zero, so that the error of a point is a number whatever its residuals are: it is the error of those
residuals that are numbers.
-/
namespace PrimalDual
open Floating

variable {T : Type} [Scalar T]

/-- NaN gives way to zero. -/
def orZero (a : T) : T := if Scalar.isNaN a then 0 else a

theorem greater_orZero (a : T) : Scalar.greater (orZero a) 0 = Scalar.greater a 0 := by
  unfold orZero
  split
  · next h => simp [Scalar.greater, h]
  · rfl

/-- What is not a number does not count. -/
theorem positiveSquares_orZero (v : List T) :
    positiveSquares (v.map orZero) = positiveSquares v := by
  simp only [positiveSquares, List.map_map, Function.comp_def, greater_orZero]

namespace Floating

variable [Floating T] {v : List T} {a sum : T}

theorem greater_of_nonneg (h : 0 ≤ a) : Scalar.greater a 0 = a := by
  simp [Scalar.greater, not_lt_of_nonneg h, isNaN_of_nonneg h]

theorem greater_nonneg (a : T) : 0 ≤ Scalar.greater a 0 := by
  unfold Scalar.greater
  split_ifs with hlt hnan
  · exact zero_nonneg
  · exact zero_nonneg
  · exact nonneg_of_not_lt hlt (Bool.not_eq_true _ ▸ hnan)

theorem square_greater_eq_zero (h : Scalar.isNaN a = true ∨ a ≤ 0) :
    Scalar.greater a 0 * Scalar.greater a 0 = 0 := by
  have hzero : (0 : T) * 0 = 0 := mul_self_of_zero zero_nonneg zero_nonneg
  unfold Scalar.greater
  split_ifs with hlt hnan
  · exact hzero
  · exact hzero
  · exact mul_self_of_zero (nonneg_of_not_lt hlt (Bool.not_eq_true _ ▸ hnan))
      (h.resolve_left hnan)

/-- A sum of squares of nonnegative numbers stays nonnegative, and it is infinite as soon as one of
the numbers is. -/
theorem foldl_squares (hv : ∀ a ∈ v, 0 ≤ a) (hsum : 0 ≤ sum) :
    0 ≤ v.foldl (fun sum a => sum + a * a) sum ∧
      (IsInfinity sum ∨ (∃ a ∈ v, IsInfinity a) →
        IsInfinity (v.foldl (fun sum a => sum + a * a) sum)) := by
  induction v generalizing sum with
  | nil => exact ⟨hsum, fun h => h.resolve_right (by simp)⟩
  | cons a v ih =>
    have hsquare : 0 ≤ a * a := mul_self_nonneg (isNaN_of_nonneg (hv a List.mem_cons_self))
    obtain ⟨hnonneg, hinfinite⟩ :=
      ih (fun b hb => hv b (List.mem_cons_of_mem a hb)) (add_nonneg hsum hsquare)
    refine ⟨hnonneg, fun h => hinfinite ?_⟩
    rcases h with h | ⟨b, hb, h⟩
    · exact .inl (h.add_right hsquare)
    · rcases List.mem_cons.mp hb with rfl | hb
      · exact .inl (h.mul_self.add_left hsum)
      · exact .inr ⟨b, hb, h⟩

theorem clipped_nonneg : ∀ a ∈ v.map (Scalar.greater · 0), 0 ≤ a := by
  intro a ha
  obtain ⟨b, -, rfl⟩ := List.mem_map.mp ha
  exact greater_nonneg b

theorem positiveSquares_nonneg : 0 ≤ positiveSquares v :=
  (foldl_squares clipped_nonneg zero_nonneg).1

theorem positiveSquares_infinity (ha : a ∈ v) (h : IsInfinity a) :
    IsInfinity (positiveSquares v) :=
  (foldl_squares clipped_nonneg zero_nonneg).2
    (.inr ⟨a, List.mem_map.mpr ⟨a, ha, greater_of_nonneg h.1⟩, h⟩)

theorem positiveSquares_eq_zero (h : ∀ a ∈ v, Scalar.isNaN a = true ∨ a ≤ 0) :
    positiveSquares v = 0 := by
  induction v with
  | nil => rfl
  | cons a v ih =>
    have hrest := ih fun b hb => h b (List.mem_cons_of_mem a hb)
    unfold positiveSquares at hrest ⊢
    rw [List.map_cons, List.foldl_cons, square_greater_eq_zero (h a List.mem_cons_self),
      zero_add_zero, hrest]

end Floating

/-- The residuals `-x`, `A x - b`, `b - A x`, `Aᵀ y - c` and `c · x - b · y` of a point. -/
structure Residuals (T : Type) where
  bound : List T
  above : List T
  below : List T
  slack : List T
  gap : T

namespace Residuals

def entries (r : Residuals T) : List T := r.bound ++ r.above ++ r.below ++ r.slack ++ [r.gap]

def error (r : Residuals T) : T :=
  Scalar.sqrt (positiveSquares r.bound + positiveSquares r.above + positiveSquares r.below +
    positiveSquares r.slack + positiveSquares [r.gap])

/-- The residuals with zeros in the place of those that are not numbers. -/
def known (r : Residuals T) : Residuals T where
  bound := r.bound.map orZero
  above := r.above.map orZero
  below := r.below.map orZero
  slack := r.slack.map orZero
  gap := orZero r.gap

variable {r : Residuals T}

/-- What is not a number does not count. -/
theorem error_known : r.known.error = r.error := by
  simp only [error, known, positiveSquares_orZero, ← List.map_singleton, positiveSquares_orZero]

section

variable [Floating T]

theorem error_nonneg : 0 ≤ r.error := by
  have hsquares (v : List T) : 0 ≤ positiveSquares v := Floating.positiveSquares_nonneg
  refine sqrt_nonneg (Floating.add_nonneg (Floating.add_nonneg (Floating.add_nonneg ?_ ?_) ?_) ?_)
  · exact Floating.add_nonneg (hsquares r.bound) (hsquares r.above)
  · exact hsquares r.below
  · exact hsquares r.slack
  · exact hsquares [r.gap]

/-- An infinite residual is not lost. -/
theorem error_infinity {a : T} (ha : a ∈ r.entries) (h : IsInfinity a) : IsInfinity r.error := by
  have hsquares (v : List T) : 0 ≤ positiveSquares v := Floating.positiveSquares_nonneg
  have hfirst := Floating.add_nonneg (hsquares r.bound) (hsquares r.above)
  have hmore := Floating.add_nonneg hfirst (hsquares r.below)
  simp only [entries, List.mem_append] at ha
  refine IsInfinity.sqrt ?_
  rcases ha with (((ha | ha) | ha) | ha) | ha
  · have hpart := (Floating.positiveSquares_infinity ha h).add_right (hsquares r.above)
    exact ((hpart.add_right (hsquares _)).add_right (hsquares _)).add_right (hsquares _)
  · have hpart := (Floating.positiveSquares_infinity ha h).add_left (hsquares r.bound)
    exact ((hpart.add_right (hsquares _)).add_right (hsquares _)).add_right (hsquares _)
  · have hpart := (Floating.positiveSquares_infinity ha h).add_left hfirst
    exact (hpart.add_right (hsquares _)).add_right (hsquares _)
  · exact ((Floating.positiveSquares_infinity ha h).add_left hmore).add_right (hsquares _)
  · exact (Floating.positiveSquares_infinity ha h).add_left
      (Floating.add_nonneg hmore (hsquares r.slack))

theorem error_eq_zero (h : ∀ a ∈ r.entries, Scalar.isNaN a = true ∨ a ≤ 0) : r.error = 0 := by
  simp only [entries, List.forall_mem_append] at h
  obtain ⟨⟨⟨⟨hbound, habove⟩, hbelow⟩, hslack⟩, hgap⟩ := h
  rw [error, Floating.positiveSquares_eq_zero hbound, Floating.positiveSquares_eq_zero habove,
    Floating.positiveSquares_eq_zero hbelow, Floating.positiveSquares_eq_zero hslack,
    Floating.positiveSquares_eq_zero hgap, zero_add_zero, zero_add_zero, zero_add_zero,
    zero_add_zero, sqrt_zero]

end

end Residuals

namespace Problem

def residuals (p : Problem T) (x y : List T) : Except Fault (Residuals T) := do
  let residual ← p.matrix.mulAdd 1 x (-1) p.rhs
  let slack ← p.matrix.transposeMulAdd 1 y (-1) p.cost
  let gap := (← p.primalObjective x) - (← p.dualObjective y)
  return ⟨x.map (- ·), residual, residual.map (- ·), slack, gap⟩

variable {p : Problem T}

theorem exists_residuals (hp : p.Accepted) {x y : List T} (hx : x.length = p.primalDim)
    (hy : y.length = p.dualDim) :
    ∃ r, p.residuals x y = .ok r ∧ p.kktError x y = .ok r.error := by
  obtain ⟨residual, hresidual, -⟩ := hp.inFormat.exists_mulAdd 1 (-1) hx hp.length_rhs
  obtain ⟨slack, hslack, -⟩ := hp.inFormat.exists_transposeMulAdd 1 (-1) hy hp.length_cost
  unfold residuals kktError
  simp only [hresidual, hslack, hp.primalObjective_eq_ok hx, hp.dualObjective_eq_ok hy, ok_bind]
  exact ⟨_, rfl, rfl⟩

/-- The error of a point is a number, and residuals that are not numbers have no part in it. It is
infinite if one of the other residuals is, and zero if none of them is above zero. -/
theorem kktError_ignores_nan [Floating T] (hp : p.Accepted) {z : List T}
    (hz : z.length = p.primalDim + p.dualDim) :
    ∃ r error, p.residuals (z.take p.primalDim) (z.drop p.primalDim) = .ok r ∧
      p.kktError (z.take p.primalDim) (z.drop p.primalDim) = .ok error ∧
      error = r.known.error ∧ Scalar.isNaN error = false ∧
      ((∃ a ∈ r.entries, 0 ≤ a ∧ Scalar.isFinite a = false) → Scalar.isFinite error = false) ∧
      ((∀ a ∈ r.entries, Scalar.isNaN a = true ∨ a ≤ 0) → error = 0) := by
  obtain ⟨r, hr, herror⟩ := exists_residuals hp (x := z.take p.primalDim)
    (y := z.drop p.primalDim) (by simp [hz]) (by simp [hz])
  refine ⟨r, r.error, hr, herror, Residuals.error_known.symm, ?_, ?_, Residuals.error_eq_zero⟩
  · exact isNaN_of_nonneg Residuals.error_nonneg
  · rintro ⟨a, ha, hinfinite⟩
    exact (Residuals.error_infinity ha hinfinite).2

/-- The problem of a variable pinned to zero whose cost falls. -/
def diverging : Problem Float where
  matrix := ⟨1, 1, [0, 1], [0], [1]⟩
  rhs := [0]
  cost := [-1]
  name := none

theorem diverging_accepted : diverging.Accepted := rfl

/-- The error of a point all of whose residuals are either zero or not numbers. -/
theorem kktError_ignores_nan_diverging :
    ∃ error, diverging.kktError [0] [Scalar.nan] = .ok error ∧ Scalar.isNaN error = false := by
  obtain ⟨r, error, -, herror, -, hnumber, -⟩ :=
    kktError_ignores_nan diverging_accepted (z := [0, Scalar.nan]) rfl
  exact ⟨error, herror, hnumber⟩

/-- Two steps too long lead from the origin to a point with residuals that are not numbers. Its
error is zero, with which a run converges once the gap has been given up. -/
theorem diverging_converges : diverging.Accepted ∧
    (do let s ← (Iterates.origin 1 1).advance diverging 1e200 1
        let s ← s.advance diverging 1e200 1
        let r ← diverging.residuals (s.point.take 1) (s.point.drop 1)
        return (s.point, r.entries.any Scalar.isNaN, ← s.kktError diverging)) =
      .ok ([0, Scalar.nan], true, 0) ∧
    Scalar.isNaN (0 : Float) = false ∧ Scalar.isFinite (0 : Float) = true ∧
    Iterates.converged .default true (⟨0, none⟩ : Diagnostics Float) = true := by
  exact ⟨diverging_accepted, by decide +kernel⟩

end Problem

end PrimalDual
