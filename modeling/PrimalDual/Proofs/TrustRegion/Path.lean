import Mathlib.Algebra.BigOperators.Field
import Mathlib.Tactic.Linarith
import PrimalDual.Proofs.Exact
import PrimalDual.TrustRegion

/-!
# The path along a gradient, stopped at bounds

In exact arithmetic a point of the path is the nearest admissible point to the free descent. This
makes a point of the path at distance `r` from the anchor the best admissible point of the ball, for
the linear function with that gradient.
-/
noncomputable section
namespace PrimalDual
open Matrix

namespace LowerBound

/-- The values that a bound allows. -/
def Admits : LowerBound ℝ → ℝ → Prop
  | .unbounded, _ => True
  | .atLeast l, v => l ≤ v

theorem excludes_eq_false {l : LowerBound ℝ} {v : ℝ} : l.excludes v = false ↔ l.Admits v := by
  cases l with
  | unbounded => simp [excludes, Admits]
  | atLeast l => simp [excludes, Admits]

@[simp] theorem clamp_unbounded (v : ℝ) : (LowerBound.unbounded : LowerBound ℝ).clamp v = v := rfl

@[simp] theorem clamp_atLeast (l v : ℝ) : (LowerBound.atLeast l).clamp v = max l v :=
  Scalar.greater_real l v

theorem admits_clamp (l : LowerBound ℝ) (v : ℝ) : l.Admits (l.clamp v) := by
  cases l with
  | unbounded => trivial
  | atLeast l => simp [Admits]

theorem clamp_eq_self {l : LowerBound ℝ} {v : ℝ} (h : l.Admits v) : l.clamp v = v := by
  cases l with
  | unbounded => rfl
  | atLeast l => simpa [Admits] using h

/-- The clamped value is the admissible value nearest to the given one. -/
theorem clamp_obtuse {l : LowerBound ℝ} {v : ℝ} (h : l.Admits v) (u : ℝ) :
    0 ≤ (l.clamp u - u) * (v - l.clamp u) := by
  cases l with
  | unbounded => simp
  | atLeast l =>
    have hv : l ≤ v := h
    rw [clamp_atLeast]
    rcases le_total l u with hlu | hlu
    · simp [max_eq_right hlu]
    · rw [max_eq_left hlu]
      exact mul_nonneg (sub_nonneg.mpr hlu) (sub_nonneg.mpr hv)

/-- Bounds have a corner when all of them are numbers. -/
theorem corner?_eq_some_iff {l : List (LowerBound ℝ)} {corner : List ℝ} :
    corner? l = some corner ↔ l = corner.map .atLeast := by
  induction l generalizing corner with
  | nil =>
    cases corner with
    | nil => simp [corner?]
    | cons c corner => simp [corner?]
  | cons b l ih =>
    unfold corner? at ih ⊢
    rw [List.mapM_cons]
    cases b with
    | unbounded => cases corner <;> simp
    | atLeast v =>
      cases corner with
      | nil => simp [Option.bind_eq_some_iff]
      | cons c corner => simp [Option.bind_eq_some_iff, ih, and_comm]

/-- Bounds with a free coordinate among them have no corner. -/
theorem corner?_eq_none {l : List (LowerBound ℝ)} (h : .unbounded ∈ l) : corner? l = none := by
  rw [Option.eq_none_iff_forall_ne_some]
  intro corner hcorner
  rw [corner?_eq_some_iff.mp hcorner] at h
  simp at h

end LowerBound

namespace TrustRegion

variable {n : ℕ} (g : Fin n → ℝ) (l : Fin n → LowerBound ℝ) (z : Fin n → ℝ)

/-- The point of the path at a parameter. -/
def path (t : ℝ) : Fin n → ℝ := fun i => (l i).clamp (z i - t * g i)

/-- The squared distance from the anchor to the point of the path at a parameter. -/
def travel (t : ℝ) : ℝ := ∑ i, (path g l z t i - z i) ^ 2

theorem coordinates_ofFn : coordinates (List.ofFn g) (List.ofFn l) (List.ofFn z) =
    List.ofFn fun i => (g i, l i, z i) := by
  rw [coordinates, List.zip, List.zip, zipWith_ofFn, zipWith_ofFn]

theorem pathPoint_ofFn (t : ℝ) :
    pathPoint (List.ofFn g) (List.ofFn l) (List.ofFn z) t = List.ofFn (path g l z t) := by
  rw [pathPoint, coordinates_ofFn, List.map_ofFn]
  rfl

theorem admits_path (t : ℝ) (i : Fin n) : (l i).Admits (path g l z t i) :=
  (l i).admits_clamp _

variable {g l z}

theorem sq_le_travel (t : ℝ) (i : Fin n) : (path g l z t i - z i) ^ 2 ≤ travel g l z t :=
  Finset.single_le_sum (f := fun i => (path g l z t i - z i) ^ 2)
    (fun i _ => sq_nonneg (path g l z t i - z i)) (Finset.mem_univ i)

/-- For each admissible point the angle at the point of the path is obtuse. -/
theorem path_obtuse {v : Fin n → ℝ} (hv : ∀ i, (l i).Admits (v i)) (t : ℝ) :
    0 ≤ (path g l z t - (z - t • g)) ⬝ᵥ (v - path g l z t) :=
  Finset.sum_nonneg fun i _ => LowerBound.clamp_obtuse (hv i) (z i - t * g i)

/-- A point of the path minimises the linear function over the admissible points that are no further
from the anchor. -/
theorem path_minimises {t : ℝ} (ht : 0 < t) {v : Fin n → ℝ} (hv : ∀ i, (l i).Admits (v i))
    (hdist : ∑ i, (v i - z i) ^ 2 ≤ travel g l z t) : g ⬝ᵥ path g l z t ≤ g ⬝ᵥ v := by
  set x := path g l z t with hx
  have hobtuse : 0 ≤ (x - (z - t • g)) ⬝ᵥ (v - x) := path_obtuse hv t
  have hsplit : (x - (z - t • g)) ⬝ᵥ (v - x) =
      t * (g ⬝ᵥ v - g ⬝ᵥ x) - ∑ i, ((x i - z i) ^ 2 - (x i - z i) * (v i - z i)) := by
    simp only [dotProduct, Pi.sub_apply, Pi.smul_apply, smul_eq_mul]
    rw [← Finset.sum_sub_distrib, Finset.mul_sum, ← Finset.sum_sub_distrib]
    exact Finset.sum_congr rfl fun i _ => by ring
  have hmean : ∑ i, ((x i - z i) ^ 2 - (v i - z i) ^ 2) / 2 ≤
      ∑ i, ((x i - z i) ^ 2 - (x i - z i) * (v i - z i)) := by
    apply Finset.sum_le_sum
    intro i _
    nlinarith [sq_nonneg (x i - v i)]
  have hfar : 0 ≤ ∑ i, ((x i - z i) ^ 2 - (v i - z i) ^ 2) / 2 := by
    rw [← Finset.sum_div, Finset.sum_sub_distrib]
    have htravel : travel g l z t = ∑ i, (x i - z i) ^ 2 := rfl
    linarith
  have hprod : 0 ≤ t * (g ⬝ᵥ v - g ⬝ᵥ x) := by linarith
  exact sub_nonneg.mp (nonneg_of_mul_nonneg_right hprod ht)

end TrustRegion

end PrimalDual

end
