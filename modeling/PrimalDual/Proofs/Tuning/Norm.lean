import Mathlib.Algebra.Order.BigOperators.Ring.Finset
import PrimalDual.Proofs.PowerIteration.Halting
import PrimalDual.Proofs.Sparse.Adjoint
import PrimalDual.Tuning

/-!
# The estimate of a norm

The operator `Aᵀ A` of a matrix in format is positive semidefinite, so that power iteration
estimates its largest eigenvalue from below, and the more so the longer it may run. An upper bound
of that eigenvalue is the sum of the squares of the entries.
-/
noncomputable section
namespace PrimalDual
open Matrix

theorem Vector.zeros_real (n : ℕ) : (zeros n : List ℝ) = List.ofFn (0 : Fin n → ℝ) :=
  (List.ofFn_const n 0).symm

namespace SparseMatrix

variable {A : SparseMatrix ℝ}

/-- The matrix `Aᵀ A`. -/
def gram (A : SparseMatrix ℝ) : Matrix (Fin A.cols) (Fin A.cols) ℝ := A.denseᵀ * A.dense

theorem gram_posSemidef (A : SparseMatrix ℝ) : A.gram.PosSemidef := by
  have h := posSemidef_conjTranspose_mul_self A.dense
  rwa [conjTranspose_eq_transpose_of_trivial] at h

theorem gram_mulVec (x : Fin A.cols → ℝ) : A.gram *ᵥ x = (A.dense *ᵥ x) ᵥ* A.dense := by
  rw [gram, ← mulVec_mulVec, mulVec_transpose]

/-- The form of `Aᵀ A` is the squared length of the image. -/
theorem form_gram (x : Fin A.cols → ℝ) :
    x ⬝ᵥ A.gram *ᵥ x = A.dense *ᵥ x ⬝ᵥ A.dense *ᵥ x := by
  rw [gram_mulVec, dotProduct_comm, ← dotProduct_mulVec]

theorem gram_mulVec_eq_zero {x : Fin A.cols → ℝ} : A.gram *ᵥ x = 0 ↔ A.dense *ᵥ x = 0 := by
  constructor
  · intro hzero
    have hform := form_gram x
    rw [hzero, dotProduct_zero] at hform
    exact dotProduct_self_eq_zero.mp hform.symm
  · intro hzero
    rw [gram_mulVec, hzero, zero_vecMul]

/-- Where rows increase, the squares of the coefficients of a column are those of its values. -/
theorem sum_sq_entrySum {m : ℕ} {entries : List (ℕ × ℝ)}
    (hincrease : entries.Pairwise (·.1 < ·.1)) (hrows : ∀ e ∈ entries, e.1 < m) :
    ∑ i : Fin m, entrySum entries i ^ 2 = (entries.map fun e => e.2 * e.2).sum := by
  induction entries with
  | nil => simp
  | cons e entries ih =>
    obtain ⟨hfirst, hrest⟩ := List.pairwise_cons.mp hincrease
    have he : e.1 < m := hrows e List.mem_cons_self
    have habsent : entrySum entries e.1 = 0 :=
      entrySum_eq_zero fun v hv => lt_irrefl e.1 (hfirst (e.1, v) hv)
    have hsquare : ∀ i : Fin m, entrySum (e :: entries) i ^ 2 =
        (if i = ⟨e.1, he⟩ then e.2 * e.2 else 0) + entrySum entries i ^ 2 := by
      intro i
      rw [entrySum_cons]
      by_cases hi : e.1 = i
      · rw [if_pos hi, if_pos (Fin.ext hi.symm), ← hi, habsent]
        ring
      · rw [if_neg hi, if_neg fun heq => hi (congrArg Fin.val heq).symm]
        ring
    simp only [hsquare, Finset.sum_add_distrib, Finset.sum_ite_eq', Finset.mem_univ, if_true,
      List.map_cons, List.sum_cons]
    rw [ih hrest fun e' he' => hrows e' (List.mem_cons_of_mem e he')]

theorem sumOfSquares_real (A : SparseMatrix ℝ) :
    A.sumOfSquares = (A.values.map fun v => v * v).sum := by
  rw [sumOfSquares, foldl_add_eq_sum, zero_add]

theorem sum_squares_nonneg (vs : List ℝ) : 0 ≤ (vs.map fun v => v * v).sum := by
  refine List.sum_nonneg fun s hs => ?_
  obtain ⟨v, -, rfl⟩ := List.mem_map.mp hs
  exact mul_self_nonneg v

namespace InFormat

variable (h : A.InFormat)
include h

/-- What stands before the first column is squared but is no coefficient. -/
theorem sum_sq_dense_le : ∑ j, ∑ i, A.dense i j ^ 2 ≤ A.sumOfSquares := by
  have hcolumn : ∀ j : Fin A.cols, ∑ i, A.dense i j ^ 2 =
      ((A.column j).map fun e => e.2 * e.2).sum :=
    fun j => sum_sq_entrySum (h.column_pairwise j.isLt) fun e he => h.row_lt he
  have hlisted : ∑ j, ∑ i, A.dense i j ^ 2 =
      ((A.values.drop (A.start 0)).map fun v => v * v).sum := by
    rw [Finset.sum_congr rfl fun j _ => hcolumn j, ← h.map_snd_entries, ← List.map_drop,
      List.map_map, ← h.flatMap_columns, List.flatMap_def, columns_eq_ofFn, List.map_flatten,
      List.sum_flatten, List.map_ofFn, List.map_ofFn, List.sum_ofFn]
    rfl
  have hbefore := sum_squares_nonneg (A.values.take (A.start 0))
  rw [hlisted, sumOfSquares_real]
  conv_rhs => rw [← List.take_append_drop (A.start 0) A.values, List.map_append, List.sum_append]
  linarith

/-- The sum of squares bounds the growth of squared lengths. -/
theorem mulVec_dotProduct_self_le (x : Fin A.cols → ℝ) :
    A.dense *ᵥ x ⬝ᵥ A.dense *ᵥ x ≤ A.sumOfSquares * (x ⬝ᵥ x) := by
  have hrow : ∀ i, (A.dense *ᵥ x) i * (A.dense *ᵥ x) i ≤ (∑ j, A.dense i j ^ 2) * (x ⬝ᵥ x) := by
    intro i
    have hcauchy := Finset.sum_mul_sq_le_sq_mul_sq Finset.univ (A.dense i) x
    simp only [sq (x _)] at hcauchy
    rw [← sq]
    exact hcauchy
  calc A.dense *ᵥ x ⬝ᵥ A.dense *ᵥ x
      ≤ ∑ i, (∑ j, A.dense i j ^ 2) * (x ⬝ᵥ x) := Finset.sum_le_sum fun i _ => hrow i
    _ = (∑ j, ∑ i, A.dense i j ^ 2) * (x ⬝ᵥ x) := by rw [← Finset.sum_mul, Finset.sum_comm]
    _ ≤ A.sumOfSquares * (x ⬝ᵥ x) :=
      mul_le_mul_of_nonneg_right h.sum_sq_dense_le (dotProduct_self_nonneg x)

theorem rayleigh_gram_le {x : Fin A.cols → ℝ} (hx : x ≠ 0) :
    rayleigh A.gram x ≤ A.sumOfSquares := by
  rw [rayleigh, form_gram, div_le_iff₀ (dotProduct_self_pos hx)]
  exact h.mulVec_dotProduct_self_le x

theorem mulGram_applies : PowerIteration.Applies A.gram A.mulGram := by
  intro x
  rw [mulGram, Vector.zeros_real, Vector.zeros_real, h.mulAdd_real, ok_bind,
    h.transposeMulAdd_real, gram_mulVec]
  simp only [one_smul, zero_smul, add_zero]

end InFormat

/-- The random start of the estimate. -/
def normStart (A : SparseMatrix ℝ) : Fin A.cols → ℝ :=
  coords A.cols (randomVector A.cols ({} : PowerIteration.Settings).seed)

/-- The tolerance of the estimate. -/
def normTolerance : ℝ := Scalar.ofDouble ({} : PowerIteration.Settings).tolerance

namespace InFormat

variable (h : A.InFormat)
include h

/-- The estimate is the root of what power iteration finds. -/
theorem estimateNorm_eq_ok :
    ∃ q, PowerIteration.Estimates A.gram normTolerance A.normStart 1000 q ∧
      A.estimateNorm = .ok √q := by
  have hestimate : ∃ q calls,
      PowerIteration.Estimates A.gram normTolerance A.normStart 1000 q ∧
      PowerIteration.estimate A.cols A.mulGram {} = .ok ⟨q, calls⟩ := by
    by_cases hcols : A.cols = 0
    · have hempty : IsEmpty (Fin A.cols) := by
        rw [hcols]
        infer_instance
      exact ⟨0, 0, .idle (.inl (Subsingleton.elim _ _)), if_pos hcols⟩
    · rw [PowerIteration.estimate, if_neg hcols, ← ofFn_coords (length_randomVector A.cols _)]
      exact PowerIteration.estimateFrom_estimates h.mulGram_applies normTolerance A.normStart 1000
  obtain ⟨q, calls, hq, hrun⟩ := hestimate
  refine ⟨q, hq, ?_⟩
  rw [estimateNorm, hrun, ok_bind, Scalar.greater_real, max_eq_left (hq.nonneg A.gram_posSemidef)]
  rfl

theorem exists_estimateNorm : ∃ ν, A.estimateNorm = .ok ν ∧ 0 ≤ ν ∧
    PowerIteration.Estimates A.gram normTolerance A.normStart 1000 (ν ^ 2) ∧
    ν ^ 2 ≤ A.sumOfSquares := by
  obtain ⟨q, hq, hrun⟩ := h.estimateNorm_eq_ok
  refine ⟨√q, hrun, Real.sqrt_nonneg q, ?_⟩
  rw [Real.sq_sqrt (hq.nonneg A.gram_posSemidef)]
  refine ⟨hq, ?_⟩
  cases hq with
  | idle =>
    rw [sumOfSquares_real]
    exact sum_squares_nonneg A.values
  | halted hhalts => exact h.rayleigh_gram_le hhalts.remains

end InFormat

end SparseMatrix

namespace PowerIteration

/-- Power iteration on a positive semidefinite matrix estimates the greatest value of the form on
the unit sphere from below, by the quotient at the power where it halts, and no worse with a greater
limit. The estimate of a matrix's norm is at most the root of the sum of its squares. -/
theorem estimates_from_below :
    (∀ (n : ℕ) (M : Matrix (Fin n) (Fin n) ℝ) (apply : List ℝ → Except Fault (List ℝ))
      (v : Fin n → ℝ) (tolerance : ℝ), 1 ≤ n → M.PosSemidef → Applies M apply →
      ∃ (value : ℕ → ℝ) (μ : ℝ),
        (∀ limit, ∃ calls,
          estimateFrom (List.ofFn v) apply tolerance limit = .ok ⟨value limit, calls⟩) ∧
        (∀ limit, Estimates M tolerance v limit (value limit)) ∧
        IsGreatest {q | ∃ x : Fin n → ℝ, x ⬝ᵥ x = 1 ∧ x ⬝ᵥ M *ᵥ x = q} μ ∧
        (∀ limit, 0 ≤ value limit ∧ value limit ≤ μ) ∧ Monotone value) ∧
    ∀ A : SparseMatrix ℝ, A.InFormat → ∃ ν, A.estimateNorm = .ok ν ∧ 0 ≤ ν ∧
      Estimates A.gram SparseMatrix.normTolerance A.normStart 1000 (ν ^ 2) ∧
      ν ^ 2 ≤ A.sumOfSquares := by
  refine ⟨fun n M apply v tolerance hn hM happly => ?_, fun A h => h.exists_estimateNorm⟩
  obtain ⟨μ, hμ⟩ := exists_greatest_form hn M
  choose value calls hestimates hrun using estimateFrom_estimates happly tolerance v
  exact ⟨value, μ, fun limit => ⟨calls limit, hrun limit⟩, hestimates, hμ,
    fun limit => ⟨(hestimates limit).nonneg hM, (hestimates limit).le_greatest hM hμ⟩,
    fun limit limit' hle => (hestimates limit).mono hM (hestimates limit') hle⟩

/-- The matrix of the reference instance has four entries of one. -/
theorem estimates_from_below_reference :
    (∃ (value : ℕ → ℝ) (μ : ℝ), (∀ limit, ∃ calls,
        estimateFrom [1, 0, 0, 0, 0] Problem.reference.matrix.mulGram 0 limit =
          .ok ⟨value limit, calls⟩) ∧
      IsGreatest {q | ∃ x : Fin 5 → ℝ,
        x ⬝ᵥ x = 1 ∧ x ⬝ᵥ Problem.reference.matrix.gram *ᵥ x = q} μ ∧
      (∀ limit, 0 ≤ value limit ∧ value limit ≤ μ) ∧ Monotone value) ∧
    ∃ ν : ℝ, Problem.reference.matrix.estimateNorm = .ok ν ∧ 0 ≤ ν ∧ ν ^ 2 ≤ 4 := by
  have hformat : (Problem.reference : Problem ℝ).matrix.InFormat := rfl
  obtain ⟨hlower, hnorm⟩ := estimates_from_below
  obtain ⟨value, μ, hrun, -, hμ, hbounds, hmono⟩ :=
    hlower 5 _ _ ![1, 0, 0, 0, 0] 0 (by decide) (SparseMatrix.gram_posSemidef _)
      hformat.mulGram_applies
  obtain ⟨ν, hν, hnonneg, -, hsquare⟩ := hnorm _ hformat
  have hstart : List.ofFn ![1, 0, 0, 0, 0] = [(1 : ℝ), 0, 0, 0, 0] := by
    simp [List.ofFn_succ]
  have hfour : (Problem.reference : Problem ℝ).matrix.sumOfSquares = 4 := by
    norm_num [SparseMatrix.sumOfSquares, Problem.reference]
  rw [hstart] at hrun
  rw [hfour] at hsquare
  exact ⟨⟨value, μ, hrun, hμ, hbounds, hmono⟩, ν, hν, hnonneg, hsquare⟩

end PowerIteration

end PrimalDual

end
