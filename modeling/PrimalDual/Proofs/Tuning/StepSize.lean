import Mathlib.Tactic.FinCases
import PrimalDual.Proofs.Tuning.Norm

/-!
# The suggested step size

A step size `η` is safe at `v` if `η * ‖A v‖ < ‖v‖`. The suggestion divides nine tenths by an
estimate of the norm from below. It is safe at every iterate of power iteration, and so at all
vectors if the last of them is stretched by more than nine tenths of the norm. Power iteration can
halt much earlier than that: it does where the quotient moves little, and between two eigenvalues it
moves little from a start that is close to an eigenvector of the smaller one.
-/
noncomputable section
namespace PrimalDual.SparseMatrix
open Matrix PowerIteration

variable {A : SparseMatrix ℝ} {η : ℝ} {u v : Fin A.cols → ℝ} {k : ℕ}

/-- By how much `A` stretches a vector. -/
def stretch (A : SparseMatrix ℝ) (v : Fin A.cols → ℝ) : ℝ := √(rayleigh A.gram v)

/-- The bound `η * ‖A v‖ < ‖v‖`. -/
def SafeAt (A : SparseMatrix ℝ) (η : ℝ) (v : Fin A.cols → ℝ) : Prop :=
  η * √(A.dense *ᵥ v ⬝ᵥ A.dense *ᵥ v) < √(v ⬝ᵥ v)

theorem stretch_eq (v : Fin A.cols → ℝ) :
    A.stretch v = √(A.dense *ᵥ v ⬝ᵥ A.dense *ᵥ v) / √(v ⬝ᵥ v) := by
  rw [stretch, rayleigh, form_gram, Real.sqrt_div (dotProduct_self_nonneg _)]

theorem safeAt_iff (hv : v ≠ 0) : A.SafeAt η v ↔ η * A.stretch v < 1 := by
  rw [SafeAt, stretch_eq, ← mul_div_assoc, div_lt_one (Real.sqrt_pos.mpr (dotProduct_self_pos hv))]

theorem rayleigh_gram_of_zero (hv : A.dense *ᵥ v = 0) : rayleigh A.gram v = 0 := by
  rw [rayleigh, form_gram, hv, zero_dotProduct, zero_div]

theorem rayleigh_gram_pos (hv : A.dense *ᵥ v ≠ 0) : 0 < rayleigh A.gram v := by
  have hv₀ : v ≠ 0 := by
    rintro rfl
    exact hv (mulVec_zero _)
  rw [rayleigh, form_gram]
  exact div_pos (dotProduct_self_pos hv) (dotProduct_self_pos hv₀)

/-- Nine tenths of the reciprocal of one stretch is safe where the stretch is little greater. -/
theorem safeAt_div_stretch_iff (hu : 0 < A.stretch u) (hv : v ≠ 0) :
    A.SafeAt (9 / 10 / A.stretch u) v ↔ 9 * A.stretch v < 10 * A.stretch u := by
  rw [safeAt_iff hv, div_mul_eq_mul_div, div_lt_one hu]
  constructor <;> intro h <;> linarith

theorem stretch_lt_iff :
    9 * A.stretch v < 10 * A.stretch u ↔ 81 * rayleigh A.gram v < 100 * rayleigh A.gram u := by
  have hnonneg := rayleigh_nonneg A.gram_posSemidef
  rw [stretch, stretch, ← sq_lt_sq₀ (by positivity) (by positivity), mul_pow, mul_pow,
    Real.sq_sqrt (hnonneg v), Real.sq_sqrt (hnonneg u)]
  norm_num

namespace InFormat

variable (h : A.InFormat)
include h

/-- A start that the matrix maps to zero is all that the suggestion knows of the matrix. -/
theorem suggestStepSize_of_zero (hzero : A.dense *ᵥ A.normStart = 0) :
    A.suggestStepSize = .ok 1 := by
  obtain ⟨q, hq, hnorm⟩ := h.estimateNorm_eq_ok
  have hq₀ : q = 0 := by
    cases hq with
    | idle => rfl
    | @halted k hhalts =>
      have hk : k = 0 := by
        by_contra hk
        refine pow_mulVec_ne_zero (Nat.one_le_iff_ne_zero.mpr hk) hhalts.remains ?_
        rw [pow_one, gram_mulVec_eq_zero.mpr hzero]
      rw [hk, pow_zero, one_mulVec, rayleigh_gram_of_zero hzero]
  rw [suggestStepSize, hnorm, ok_bind, hq₀, Real.sqrt_zero, if_neg (lt_irrefl 0), pure_eq_ok]

/-- Otherwise it goes by the stretch of the last iterate. -/
theorem suggestStepSize_of_ne_zero (hmoved : A.dense *ᵥ A.normStart ≠ 0) :
    ∃ k, HaltsAt A.gram normTolerance A.normStart 1000 k ∧
      0 < A.stretch (A.gram ^ k *ᵥ A.normStart) ∧
      A.suggestStepSize = .ok (9 / 10 / A.stretch (A.gram ^ k *ᵥ A.normStart)) := by
  obtain ⟨q, hq, hnorm⟩ := h.estimateNorm_eq_ok
  cases hq with
  | idle hidle =>
    rcases hidle with hstart | hlimit
    · exact absurd (by rw [hstart, mulVec_zero]) hmoved
    · cases hlimit
  | @halted k hhalts =>
    have hpos : 0 < A.stretch (A.gram ^ k *ᵥ A.normStart) := by
      have hfirst := rayleigh_pow_mono A.gram_posSemidef k.zero_le hhalts.remains
      rw [pow_zero, one_mulVec] at hfirst
      exact Real.sqrt_pos.mpr ((rayleigh_gram_pos hmoved).trans_le hfirst)
    refine ⟨k, hhalts, hpos, ?_⟩
    rw [suggestStepSize, hnorm, ok_bind, ← stretch, if_pos hpos, Scalar.ofDecimal_real, pow_one]
    rfl

end InFormat

/-- The stretch of the iterates does not decrease. -/
theorem stretch_pow_mono {j : ℕ} (hjk : j ≤ k) (hk : A.gram ^ k *ᵥ v ≠ 0) :
    A.stretch (A.gram ^ j *ᵥ v) ≤ A.stretch (A.gram ^ k *ᵥ v) :=
  Real.sqrt_le_sqrt (rayleigh_pow_mono A.gram_posSemidef hjk hk)

/-- The suggestion is positive. It is one if the start is mapped to zero. Otherwise it is safe at
all iterates, and it is safe everywhere if and only if every vector is stretched by less than ten
ninths of the stretch of the last iterate. -/
theorem InFormat.suggestStepSize_safe_iff (h : A.InFormat) :
    ∃ η, A.suggestStepSize = .ok η ∧ 0 < η ∧
      (A.dense *ᵥ A.normStart = 0 → η = 1) ∧
      (A.dense *ᵥ A.normStart ≠ 0 → ∃ k, HaltsAt A.gram normTolerance A.normStart 1000 k ∧
        η = 9 / 10 / A.stretch (A.gram ^ k *ᵥ A.normStart) ∧
        (∀ j ≤ k, A.SafeAt η (A.gram ^ j *ᵥ A.normStart)) ∧
        ((∀ v ≠ 0, A.SafeAt η v) ↔
          ∀ v ≠ 0, 9 * A.stretch v < 10 * A.stretch (A.gram ^ k *ᵥ A.normStart))) := by
  by_cases hzero : A.dense *ᵥ A.normStart = 0
  · exact ⟨1, h.suggestStepSize_of_zero hzero, one_pos, fun _ => rfl,
      fun hmoved => absurd hzero hmoved⟩
  · obtain ⟨k, hhalts, hpos, hsuggest⟩ := h.suggestStepSize_of_ne_zero hzero
    refine ⟨_, hsuggest, by positivity, fun hstart => absurd hstart hzero,
      fun _ => ⟨k, hhalts, rfl, fun j hj => ?_, ?_⟩⟩
    · have hmono := stretch_pow_mono hj hhalts.remains
      rw [safeAt_div_stretch_iff hpos (pow_mulVec_ne_zero hj hhalts.remains)]
      linarith
    · exact forall₂_congr fun v hv => safeAt_div_stretch_iff hpos hv

/-- The matrix of the rows `(a, b)` and `(c, d)`, with all entries stored. -/
def square (a b c d : ℝ) : SparseMatrix ℝ where
  rows := 2
  cols := 2
  colStarts := [0, 2, 4]
  rowIndices := [0, 1, 0, 1]
  values := [a, c, b, d]

theorem square_inFormat (a b c d : ℝ) : (square a b c d).InFormat := rfl

theorem square_dense (a b c d : ℝ) :
    (square a b c d).dense = (!![a, b; c, d] : Matrix (Fin 2) (Fin 2) ℝ) := by
  ext (i : Fin 2) (j : Fin 2)
  change entrySum ((square a b c d).column j) i = _
  fin_cases i <;> fin_cases j <;> simp [column, entrySum, start, entries, span, square]

/-- The products of its columns. -/
def columnProducts (a b c d : ℝ) : Matrix (Fin 2) (Fin 2) ℝ :=
  !![a ^ 2 + c ^ 2, a * b + c * d; a * b + c * d, b ^ 2 + d ^ 2]

theorem square_gram (a b c d : ℝ) : (square a b c d).gram = columnProducts a b c d := by
  rw [gram, square_dense]
  change (!![a, b; c, d] : Matrix (Fin 2) (Fin 2) ℝ)ᵀ * !![a, b; c, d] = _
  ext i j
  fin_cases i <;> fin_cases j <;> simp [columnProducts, mul_apply, Fin.sum_univ_two] <;> ring

theorem rayleigh_two (a b d x y : ℝ) : rayleigh !![a, b; b, d] ![x, y] =
    (a * x ^ 2 + 2 * b * x * y + d * y ^ 2) / (x ^ 2 + y ^ 2) := by
  simp only [rayleigh, mulVec, dotProduct, Fin.sum_univ_two, of_apply, cons_val_zero, cons_val_one]
  congr 1 <;> ring

theorem rayleigh_square (a b c d x y : ℝ) :
    rayleigh (square a b c d).gram (![x, y] : Fin 2 → ℝ) =
      ((a ^ 2 + c ^ 2) * x ^ 2 + 2 * (a * b + c * d) * x * y + (b ^ 2 + d ^ 2) * y ^ 2) /
        (x ^ 2 + y ^ 2) := by
  have hquotient := rayleigh_two (a ^ 2 + c ^ 2) (a * b + c * d) (b ^ 2 + d ^ 2) x y
  rwa [← columnProducts, ← square_gram] at hquotient

/-- The random start in the plane, up to a power of two. -/
def planeStart : Fin 2 → ℝ := ![912096012889791, 2231750621735625]

theorem coords_randomVector_two :
    coords 2 (randomVector 2 ({} : PowerIteration.Settings).seed) =
      ((2 : ℝ) ^ 52)⁻¹ • planeStart := by
  have hsamples : (Generator.samples 2 (.ofSeed ({} : PowerIteration.Settings).seed)).map
      (fun x => BinaryFormat.binary64.decode x.toBits.toNat) =
        [.finite false 7296768103118328 (-55), .finite false 8927002486942500 (-54)] := by
    decide +kernel
  have hvector : (randomVector 2 ({} : PowerIteration.Settings).seed : List ℝ) =
      [7296768103118328 * 2 ^ (-55 : ℤ), 8927002486942500 * 2 ^ (-54 : ℤ)] := by
    have hmap := congrArg (List.map Decoded.toReal) hsamples
    rw [List.map_map] at hmap
    refine hmap.trans ?_
    simp [Decoded.toReal]
  rw [hvector]
  ext i
  fin_cases i <;> norm_num [coords, planeStart]

theorem normTolerance_eq : normTolerance = 4951760157141521 * (2 : ℝ) ^ (-92 : ℤ) := by
  have hbits : BinaryFormat.binary64.decode
      ({} : PowerIteration.Settings).tolerance.toBits.toNat =
        .finite false 4951760157141521 (-92) := by
    decide +kernel
  rw [normTolerance, Scalar.ofDouble_real, hbits]
  simp [Decoded.toReal]

theorem rayleigh_square_pow (a b c d : ℝ) (k : ℕ) :
    rayleigh (square a b c d).gram ((square a b c d).gram ^ k *ᵥ (square a b c d).normStart) =
      rayleigh (columnProducts a b c d) (columnProducts a b c d ^ k *ᵥ planeStart) := by
  have hscaled (G : Matrix (Fin 2) (Fin 2) ℝ) :
      rayleigh G (G ^ k *ᵥ coords 2 (randomVector 2 ({} : PowerIteration.Settings).seed)) =
        rayleigh G (G ^ k *ᵥ planeStart) := by
    rw [coords_randomVector_two, mulVec_smul, rayleigh_smul (by positivity)]
  rw [square_gram]
  exact hscaled _

/-- The start is close to the only direction that the matrix does not map to zero. -/
theorem suggestStepSize_safe_iff_row : (square 3 4 0 0).InFormat ∧
    (square 3 4 0 0).dense *ᵥ (square 3 4 0 0).normStart ≠ 0 ∧
    ∃ η, (square 3 4 0 0).suggestStepSize = .ok η ∧ 0 < η ∧
      ∀ v ≠ 0, (square 3 4 0 0).SafeAt η v := by
  have hformat := square_inFormat 3 4 0 0
  obtain ⟨η, hsuggest, hpos, -, hmoved⟩ := InFormat.suggestStepSize_safe_iff hformat
  have hfirst : 23 < rayleigh (square 3 4 0 0).gram (square 3 4 0 0).normStart := by
    have hquotient := rayleigh_square_pow 3 4 0 0 0
    rw [pow_zero, one_mulVec, pow_zero, one_mulVec] at hquotient
    rw [hquotient, columnProducts, planeStart, rayleigh_two]
    norm_num
  have hstart : (square 3 4 0 0).dense *ᵥ (square 3 4 0 0).normStart ≠ 0 := by
    intro hzero
    rw [rayleigh_gram_of_zero hzero] at hfirst
    norm_num at hfirst
  obtain ⟨k, hhalts, -, -, hsafe⟩ := hmoved hstart
  refine ⟨hformat, hstart, η, hsuggest, hpos, hsafe.mpr fun v hv => stretch_lt_iff.mpr ?_⟩
  have hlast := rayleigh_pow_mono (gram_posSemidef _) k.zero_le hhalts.remains
  have hbound := hformat.rayleigh_gram_le hv
  have hsquares : (square 3 4 0 0).sumOfSquares = 25 := by
    norm_num [sumOfSquares, square]
  rw [pow_zero, one_mulVec] at hlast
  linarith

/-- The matrix stretches two orthogonal vectors, the one twice as much as the other, and the start
is so close to the other that the quotient has settled at the second application. -/
theorem suggestion_overstretches : (square 743 1818 3636 (-1486)).InFormat ∧
    (![1818, -743] : Fin 2 → ℝ) ≠ 0 ∧ ∃ η, (square 743 1818 3636 (-1486)).suggestStepSize = .ok η ∧
      ¬ (square 743 1818 3636 (-1486)).SafeAt η (![1818, -743] : Fin 2 → ℝ) := by
  have hformat := square_inFormat 743 1818 3636 (-1486)
  set A := square 743 1818 3636 (-1486) with hA
  have hfirst : rayleigh A.gram (A.gram ^ 0 *ᵥ A.normStart) =
      2491146599560139629064035821602938405 / 645847774927422503634011796034 := by
    rw [hA, rayleigh_square_pow, pow_zero, one_mulVec, columnProducts, planeStart, rayleigh_two]
    norm_num
  have hsecond : rayleigh A.gram (A.gram ^ 1 *ᵥ A.normStart) =
      9608783402865844996553820503500901560018645 / 2491146599560173982882130382639284497 := by
    have himage : columnProducts 743 1818 3636 (-1486) *ᵥ planeStart =
        ![3518111238872275216845, 8608248598681872380298] := by
      ext i
      fin_cases i <;> norm_num [columnProducts, planeStart, mulVec, dotProduct, Fin.sum_univ_two]
    rw [hA, rayleigh_square_pow, pow_one, himage, columnProducts, rayleigh_two]
    norm_num
  have hends : EndsAt A.gram normTolerance A.normStart 1 := by
    refine .inr ⟨one_pos, ?_⟩
    rw [hsecond, hfirst, normTolerance_eq]
    norm_num [abs_of_pos]
  have hmoved : A.dense *ᵥ A.normStart ≠ 0 := by
    intro hzero
    have hvanished := rayleigh_gram_of_zero hzero
    rw [pow_zero, one_mulVec, hvanished] at hfirst
    norm_num at hfirst
  obtain ⟨k, hhalts, hpos, hsuggest⟩ := hformat.suggestStepSize_of_ne_zero hmoved
  have hk : k ≤ 1 := by
    by_contra hlate
    exact hhalts.going 1 (not_le.mp hlate) hends
  have hlast : rayleigh A.gram (A.gram ^ k *ᵥ A.normStart) ≤ 3857174 := by
    refine (rayleigh_pow_mono A.gram_posSemidef hk fun hzero => ?_).trans ?_
    · rw [hzero, rayleigh, zero_dotProduct, zero_div] at hsecond
      norm_num at hsecond
    · rw [hsecond]
      norm_num
  have hexceeds : ∀ v ≠ 0, rayleigh A.gram v = 15428692 →
      ¬ A.SafeAt (9 / 10 / A.stretch (A.gram ^ k *ᵥ A.normStart)) v := by
    intro v hv hquotient
    rw [safeAt_div_stretch_iff hpos hv, stretch_lt_iff, not_lt, hquotient]
    linarith
  have hv : (![1818, -743] : Fin 2 → ℝ) ≠ 0 := fun hzero => by simpa using congrFun hzero 0
  refine ⟨hformat, hv, _, hsuggest, hexceeds _ hv ?_⟩
  refine (rayleigh_square 743 1818 3636 (-1486) 1818 (-743)).trans ?_
  norm_num

end PrimalDual.SparseMatrix

end
