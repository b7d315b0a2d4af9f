import Mathlib.LinearAlgebra.Matrix.Notation
import Mathlib.Tactic.FinCases
import PrimalDual.Proofs.Sparse.Lookup
import PrimalDual.Proofs.Sparse.Product

/-!
# Coefficients, products and adjoints

The dense matrix of a matrix in format consists of the coefficients that a lookup finds. One product
spreads the columns, the other one gathers them, and both skip work where a factor is zero or one.
In exact arithmetic they are the products with that dense matrix and with its transpose, for all
factors, so that each of them is the adjoint of the other.
-/
namespace PrimalDual.SparseMatrix

/-- The coefficient at a position, zero where no entry is stored. -/
def coefficient {T : Type} [Scalar T] (A : SparseMatrix T) (i j : ℕ) : Except Fault T := do
  return (← A.entry? i j).getD 0

noncomputable section
open Matrix

variable {A : SparseMatrix ℝ}

theorem entrySum_eq_zero {entries : List (ℕ × ℝ)} {i : ℕ} (h : ∀ v, (i, v) ∉ entries) :
    entrySum entries i = 0 := by
  induction entries with
  | nil => exact entrySum_nil i
  | cons e entries ih =>
    have hne : e.1 ≠ i := by
      rintro rfl
      exact h e.2 List.mem_cons_self
    rw [entrySum_cons, if_neg hne, zero_add, ih fun v hv => h v (List.mem_cons_of_mem e hv)]

/-- Where rows increase, no row is stored twice, and there is nothing to add up. -/
theorem entrySum_eq_of_mem {entries : List (ℕ × ℝ)} {i : ℕ} {v : ℝ}
    (hincrease : entries.Pairwise (·.1 < ·.1)) (hv : (i, v) ∈ entries) :
    entrySum entries i = v := by
  induction entries with
  | nil => simp at hv
  | cons e entries ih =>
    obtain ⟨hfirst, hrest⟩ := List.pairwise_cons.mp hincrease
    rw [entrySum_cons]
    rcases List.mem_cons.mp hv with rfl | hmem
    · have hnone : ∀ w, (i, w) ∉ entries := fun w hw => lt_irrefl i (hfirst _ hw)
      rw [if_pos rfl, entrySum_eq_zero hnone, add_zero]
    · have hlt : e.1 < i := hfirst _ hmem
      rw [if_neg hlt.ne, zero_add, ih hrest hmem]

namespace InFormat

variable (h : A.InFormat)
include h

theorem coefficient_eq_ok (i : Fin A.rows) (j : Fin A.cols) :
    A.coefficient i j = .ok (A.dense i j) := by
  by_cases hstored : ∃ v, ((i : ℕ), v) ∈ A.column j
  · obtain ⟨v, hv⟩ := hstored
    have hsum : A.dense i j = v := entrySum_eq_of_mem (h.column_pairwise j.isLt) hv
    rw [coefficient, h.lookup_eq_some j.isLt hv, hsum]
    rfl
  · have hnone : ∀ v, ((i : ℕ), v) ∉ A.column j := not_exists.mp hstored
    have hsum : A.dense i j = 0 := entrySum_eq_zero hnone
    rw [coefficient, h.lookup_eq_none i.isLt j.isLt hnone, hsum]
    rfl

theorem mulAdd_coords (a b : ℝ) {x y : List ℝ} (hx : x.length = A.cols) (hy : y.length = A.rows) :
    A.mulAdd a x b y = .ok (List.ofFn fun i =>
      a * ∑ j, A.dense i j * coords A.cols x j + b * coords A.rows y i) := by
  conv_lhs => rw [← ofFn_coords hx, ← ofFn_coords hy]
  exact h.mulAdd_real a b _ _

theorem transposeMulAdd_coords (a b : ℝ) {x y : List ℝ} (hx : x.length = A.rows)
    (hy : y.length = A.cols) :
    A.transposeMulAdd a x b y = .ok (List.ofFn fun j =>
      a * ∑ i, A.dense i j * coords A.rows x i + b * coords A.cols y j) := by
  conv_lhs => rw [← ofFn_coords hx, ← ofFn_coords hy]
  refine (h.transposeMulAdd_real a b _ _).trans ?_
  congr 2
  funext j
  simp [vecMul, dotProduct, mul_comm]

/-- Multiplying either vector and taking the inner product with the other gives the same, whatever
was in the outputs before. -/
theorem dot_products_eq {x y v w : List ℝ} (hx : x.length = A.cols) (hy : y.length = A.rows)
    (hv : v.length = A.rows) (hw : w.length = A.cols) :
    ∃ forward backward value, A.mulAdd 1 x 0 v = .ok forward ∧
      A.transposeMulAdd 1 y 0 w = .ok backward ∧
      Vector.dot y forward = .ok value ∧ Vector.dot backward x = .ok value := by
  have hforward := h.mulAdd_real 1 0 (coords A.cols x) (coords A.rows v)
  have hbackward := h.transposeMulAdd_real 1 0 (coords A.rows y) (coords A.cols w)
  rw [ofFn_coords hx, ofFn_coords hv, one_smul, zero_smul, add_zero] at hforward
  rw [ofFn_coords hy, ofFn_coords hw, one_smul, zero_smul, add_zero] at hbackward
  refine ⟨_, _, coords A.rows y ⬝ᵥ A.dense *ᵥ coords A.cols x, hforward, hbackward, ?_, ?_⟩
  · rw [Vector.dot_eq_ok (by simp [hy]), Vector.inner_coords hy (by simp), coords_ofFn]
  · rw [Vector.dot_eq_ok (by simp [hx]), Vector.inner_coords (by simp) hx, coords_ofFn,
      ← dotProduct_mulVec]

/-- Both products are those with the matrix of the coefficients, for all factors, and each is the
adjoint of the other. -/
theorem products_adjoint :
    (∀ (i : Fin A.rows) (j : Fin A.cols), A.coefficient i j = .ok (A.dense i j)) ∧
    (∀ (a b : ℝ) (x y : List ℝ), x.length = A.cols → y.length = A.rows →
      A.mulAdd a x b y = .ok (List.ofFn fun i =>
        a * ∑ j, A.dense i j * coords A.cols x j + b * coords A.rows y i)) ∧
    (∀ (a b : ℝ) (x y : List ℝ), x.length = A.rows → y.length = A.cols →
      A.transposeMulAdd a x b y = .ok (List.ofFn fun j =>
        a * ∑ i, A.dense i j * coords A.rows x i + b * coords A.cols y j)) ∧
    ∀ x y v w : List ℝ, x.length = A.cols → y.length = A.rows → v.length = A.rows →
      w.length = A.cols → ∃ forward backward value, A.mulAdd 1 x 0 v = .ok forward ∧
        A.transposeMulAdd 1 y 0 w = .ok backward ∧
        Vector.dot y forward = .ok value ∧ Vector.dot backward x = .ok value :=
  ⟨h.coefficient_eq_ok, fun a b _ _ => h.mulAdd_coords a b,
    fun a b _ _ => h.transposeMulAdd_coords a b, fun _ _ _ _ => h.dot_products_eq⟩

end InFormat

/-- One entry of the matrix stands before the first column, and another one is stored as zero. -/
theorem InFormat.products_adjoint_offset : offset.InFormat ∧
    offset.coefficient 0 1 = .ok (-1) ∧ offset.coefficient 0 0 = .ok 0 ∧
    offset.mulAdd 2 [1, 1] (-1) [1, 1, 1] = .ok [-3, -1, 1] ∧
    offset.transposeMulAdd 2 [1, 1, 1] 1 [0, 5] = .ok [2, 3] ∧
    ∃ forward backward value, offset.mulAdd 1 [1, 2] 0 [7, 7, 7] = .ok forward ∧
      offset.transposeMulAdd 1 [3, 4, 5] 0 [8, 8] = .ok backward ∧
      Vector.dot [3, 4, 5] forward = .ok value ∧ Vector.dot backward [1, 2] = .ok value := by
  have hformat : offset.InFormat := rfl
  set M : Matrix (Fin 3) (Fin 2) ℝ := !![0, -1; 0, 0; 1, 0] with hM
  have hdense : offset.dense = M := by
    ext (i : Fin 3) (j : Fin 2)
    change entrySum (offset.column j) i = _
    fin_cases i <;> fin_cases j <;> simp [column, entrySum, start, entries, span, offset, hM]
  obtain ⟨hcoefficient, hplain, htransposed, hadjoint⟩ := InFormat.products_adjoint hformat
  rw [hdense] at hcoefficient hplain htransposed
  refine ⟨hformat, ?_, ?_, ?_, ?_, hadjoint _ _ _ _ rfl rfl rfl rfl⟩
  · exact hcoefficient (0 : Fin 3) (1 : Fin 2)
  · exact hcoefficient (0 : Fin 3) (0 : Fin 2)
  -- Only a change of the goal makes the dimensions numerals, over which sums are written out.
  · rw [hplain 2 (-1) [1, 1] [1, 1, 1] rfl rfl]
    change Except.ok (List.ofFn fun i : Fin 3 =>
      2 * ∑ j, M i j * coords 2 [1, 1] j + -1 * coords 3 [1, 1, 1] i) = _
    norm_num [hM, coords, List.ofFn_succ, Fin.sum_univ_two]
  · rw [htransposed 2 1 [1, 1, 1] [0, 5] rfl rfl]
    change Except.ok (List.ofFn fun j : Fin 2 =>
      2 * ∑ i, M i j * coords 3 [1, 1, 1] i + 1 * coords 2 [0, 5] j) = _
    norm_num [hM, coords, List.ofFn_succ, Fin.sum_univ_succ]

end

end PrimalDual.SparseMatrix
