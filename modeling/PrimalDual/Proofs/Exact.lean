import Mathlib.Algebra.BigOperators.Fin
import Mathlib.Analysis.Complex.Exponential
import Mathlib.Analysis.Real.Sqrt
import Mathlib.LinearAlgebra.Matrix.DotProduct
import PrimalDual.Vector

/-!
# Exact arithmetic

The real numbers as scalars: under this reading every algorithm of the library is the textbook
method. A vector of `n` entries is the list of the values of a function on `Fin n`, and the vector
operations on such lists are the operations on functions.
-/
noncomputable section
namespace PrimalDual
open Matrix

/-- The real number that a bit pattern stands for; zero where it stands for none. -/
def Decoded.toReal : Decoded → ℝ
  | .finite negative mantissa exponent =>
    (if negative then -1 else 1) * (mantissa : ℝ) * (2 : ℝ) ^ exponent
  | _ => 0

/-- Every real number is finite. The fields for other values hold a number that is not used. -/
instance : Scalar ℝ where
  toZero := inferInstance
  toOne := inferInstance
  toAdd := inferInstance
  toSub := inferInstance
  toMul := inferInstance
  toDiv := inferInstance
  toNeg := inferInstance
  toNatCast := inferInstance
  toLT := inferInstance
  toLE := inferInstance
  toBEq := instBEqOfDecidableEq
  decidableLT := inferInstance
  decidableLE := inferInstance
  abs := fun a => |a|
  sqrt := Real.sqrt
  isNaN := fun _ => false
  isFinite := fun _ => true
  nan := 0
  negInfinity := 0
  ofDouble := fun x => (BinaryFormat.binary64.decode x.toBits.toNat).toReal
  ofDecimal := fun mantissa places => mantissa / 10 ^ places
  inverseE := Real.exp (-1)
  format := .binary64
  decode := fun _ => .nan

namespace Scalar

@[simp] theorem isNaN_real (a : ℝ) : isNaN a = false := rfl

@[simp] theorem isFinite_real (a : ℝ) : isFinite a = true := rfl

@[simp] theorem abs_real (a : ℝ) : Scalar.abs a = |a| := rfl

@[simp] theorem sqrt_real (a : ℝ) : Scalar.sqrt a = √a := rfl

@[simp] theorem greater_real (a b : ℝ) : greater a b = max a b := by
  unfold greater
  split
  · next h => exact (max_eq_right h.le).symm
  · next h => exact (max_eq_left (not_lt.mp h)).symm

@[simp] theorem ofDecimal_real (mantissa places : ℕ) :
    (ofDecimal mantissa places : ℝ) = mantissa / 10 ^ places := rfl

theorem ofDouble_real (x : Float) :
    ofDouble x = (BinaryFormat.binary64.decode x.toBits.toNat).toReal := rfl

theorem inverseE_real_mem : 0 < (inverseE : ℝ) ∧ (inverseE : ℝ) < 1 :=
  ⟨Real.exp_pos _, Real.exp_lt_one_iff.mpr (by norm_num)⟩

theorem recip_real (a : ℝ) : recip a = a⁻¹ := one_div a

theorem square_real (a : ℝ) : square a = a ^ 2 := (sq a).symm

end Scalar

/-- The first `n` entries of a list, with zeros after its end. -/
def coords (n : ℕ) (l : List ℝ) : Fin n → ℝ := fun i => l.getD i 0

@[simp] theorem coords_ofFn {n : ℕ} (x : Fin n → ℝ) : coords n (List.ofFn x) = x := by
  funext i
  simp [coords]

theorem ofFn_coords {n : ℕ} {l : List ℝ} (h : l.length = n) : List.ofFn (coords n l) = l := by
  subst h
  apply List.ext_getElem
  · simp
  · intro i h₁ h₂
    simp [coords, h₂]

theorem zipWith_ofFn {α β γ : Type} {n : ℕ} (f : α → β → γ) (x : Fin n → α) (y : Fin n → β) :
    List.zipWith f (List.ofFn x) (List.ofFn y) = List.ofFn fun i => f (x i) (y i) := by
  apply List.ext_getElem
  · simp
  · intro i h₁ h₂
    simp

theorem exists_eq_ofFn {α : Type} {n : ℕ} {l : List α} (h : l.length = n) :
    ∃ x : Fin n → α, l = List.ofFn x := by
  subst h
  exact ⟨l.get, (List.ofFn_get l).symm⟩

theorem forall₂_ofFn_iff {α β : Type} {n : ℕ} {R : α → β → Prop} {x : Fin n → α} {y : Fin n → β} :
    List.Forall₂ R (List.ofFn x) (List.ofFn y) ↔ ∀ i, R (x i) (y i) := by
  rw [List.forall₂_iff_get]
  constructor
  · rintro ⟨-, h⟩ i
    simpa using h i (by simp) (by simp)
  · intro h
    exact ⟨by simp, fun i hi _ => by simpa using h ⟨i, by simpa using hi⟩⟩

theorem dotProduct_self_nonneg {n : ℕ} (v : Fin n → ℝ) : 0 ≤ v ⬝ᵥ v :=
  Finset.sum_nonneg fun i _ => mul_self_nonneg (v i)

theorem foldl_add_eq_sum {α : Type} (f : α → ℝ) (v : ℝ) (l : List α) :
    l.foldl (fun v a => v + f a) v = v + (l.map f).sum := by
  induction l generalizing v with
  | nil => simp
  | cons a l ih => rw [List.foldl_cons, ih, List.map_cons, List.sum_cons, add_assoc]

namespace Vector

theorem sum_real (x : List ℝ) : sum x = x.sum := by
  rw [List.sum_eq_foldl]
  exact Pairwise.total_eq_foldl add_assoc zero_add add_zero x

@[simp] theorem inner_ofFn {n : ℕ} (x y : Fin n → ℝ) :
    inner (List.ofFn x) (List.ofFn y) = x ⬝ᵥ y := by
  rw [inner, sum_real, zipWith_ofFn, List.sum_ofFn]
  rfl

theorem combine_ofFn {n : ℕ} (a b : ℝ) (x y : Fin n → ℝ) :
    combine a (List.ofFn x) b (List.ofFn y) = List.ofFn (a • x + b • y) :=
  zipWith_ofFn _ x y

theorem distance_ofFn {n : ℕ} (x y : Fin n → ℝ) :
    distance (List.ofFn x) (List.ofFn y) = √(∑ i, (x i - y i) ^ 2) := by
  rw [distance, sum_real, zipWith_ofFn, List.sum_ofFn, Scalar.sqrt_real]
  simp only [Scalar.square_real]

/-- The inner product of two lists that stand for functions. -/
theorem inner_coords {n : ℕ} {x y : List ℝ} (hx : x.length = n) (hy : y.length = n) :
    inner x y = coords n x ⬝ᵥ coords n y := by
  rw [← inner_ofFn, ofFn_coords hx, ofFn_coords hy]

private theorem sum_squares_eq_zero {x y : List ℝ} (h : x.length = y.length) :
    0 ≤ (List.zipWith (fun a b => Scalar.square (a - b)) x y).sum ∧
      ((List.zipWith (fun a b => Scalar.square (a - b)) x y).sum = 0 ↔ x = y) := by
  induction x generalizing y with
  | nil =>
    obtain rfl := List.length_eq_zero_iff.mp h.symm
    simp
  | cons a x ih =>
    cases y with
    | nil => cases h
    | cons b y =>
      obtain ⟨hnonneg, hzero⟩ := ih (Nat.succ.inj h)
      have hsquare : 0 ≤ Scalar.square (a - b) := by
        rw [Scalar.square_real]
        positivity
      rw [List.zipWith_cons_cons, List.sum_cons]
      refine ⟨add_nonneg hsquare hnonneg, ?_⟩
      rw [add_eq_zero_iff_of_nonneg hsquare hnonneg, hzero, Scalar.square_real, sq_eq_zero_iff,
        sub_eq_zero, List.cons.injEq]

theorem distance_nonneg (x y : List ℝ) : 0 ≤ distance x y := Real.sqrt_nonneg _

/-- Only a point is at distance zero from itself. -/
theorem distance_eq_zero_iff {x y : List ℝ} (h : x.length = y.length) :
    distance x y = 0 ↔ x = y := by
  obtain ⟨hnonneg, hzero⟩ := sum_squares_eq_zero h
  rw [distance, sum_real, Scalar.sqrt_real, Real.sqrt_eq_zero hnonneg, hzero]

private theorem foldl_greatest_eq_zero {x : List ℝ} {out : ℝ} (h : 0 ≤ out) :
    x.foldl (fun out v => if out < |v| then |v| else out) out = 0 ↔ out = 0 ∧ ∀ v ∈ x, v = 0 := by
  induction x generalizing out with
  | nil => simp
  | cons v x ih =>
    rw [List.foldl_cons]
    split
    · next hv =>
      rw [ih (abs_nonneg v)]
      have hne : v ≠ 0 := abs_pos.mp (h.trans_lt hv)
      simp [hne]
    · next hv =>
      rw [ih h]
      constructor
      · rintro ⟨rfl, hx⟩
        have hv0 : v = 0 := abs_nonpos_iff.mp (not_lt.mp hv)
        simpa [hv0] using hx
      · rintro ⟨rfl, hx⟩
        exact ⟨rfl, fun u hu => hx u (List.mem_cons_of_mem v hu)⟩

theorem maxNorm_eq_zero {x : List ℝ} : maxNorm x = 0 ↔ ∀ v ∈ x, v = 0 := by
  have hnan : x.any Scalar.isNaN = false := by simp
  rw [maxNorm, hnan]
  exact (foldl_greatest_eq_zero le_rfl).trans (by simp)

end Vector

end PrimalDual

end
