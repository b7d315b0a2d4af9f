import PrimalDual.Proofs.Exact
import PrimalDual.Proofs.Sparse.Columns
import PrimalDual.Sparse.Product

/-!
# Products with a matrix in format

Over any scalars the products of a matrix in format with vectors that fit it are never refused, and
the product by columns can be read row by row. In exact arithmetic they are the products with the
dense matrix of the stored coefficients and with its transpose.
-/
namespace PrimalDual.SparseMatrix
open Matrix

section Generic

variable {T : Type} [Scalar T] {A : SparseMatrix T}

theorem length_scaleOutput (b : T) (y : List T) : (scaleOutput b y).length = y.length := by
  unfold scaleOutput
  split_ifs <;> simp

/-- What a column, times `s`, adds to an entry of row `i`. -/
def rowAdd (s : T) (i : ℕ) (v : T) (entries : List (ℕ × T)) : T :=
  entries.foldl (fun v e => if e.1 = i then v + e.2 * s else v) v

/-- What the columns, times `a` and the entries of `x`, add to an entry of row `i`. -/
def rowSum (A : SparseMatrix T) (a : T) (x : List T) (i : ℕ) (v : T) : T :=
  if a == 0 then v
  else (x.zip ((List.range A.cols).map A.column)).foldl (fun v p => rowAdd (a * p.1) i v p.2) v

/-- The products of the entries of a column with those of a vector, added up. -/
def columnSum (x : List T) (entries : List (ℕ × T)) : T :=
  entries.foldl (fun sum e => sum + e.2 * x.getD e.1 0) 0

theorem addColumn_eq_ok {s : T} {y : Array T} {entries : List (ℕ × T)}
    (h : ∀ e ∈ entries, e.1 < y.size) :
    ∃ y', addColumn s y entries = .ok y' ∧ y'.size = y.size ∧
      ∀ i, y'[i]? = y[i]?.map (rowAdd s i · entries) := by
  induction entries generalizing y with
  | nil => exact ⟨y, rfl, rfl, fun i => by simp [rowAdd]⟩
  | cons e entries ih =>
    have he : e.1 < y.size := h e List.mem_cons_self
    have hrest : ∀ e' ∈ entries, e'.1 < (y.set e.1 (y[e.1] + e.2 * s)).size := by
      intro e' he'
      simpa using h e' (List.mem_cons_of_mem e he')
    obtain ⟨y', hy', hsize, hget⟩ := ih hrest
    refine ⟨y', ?_, by simpa using hsize, fun i => ?_⟩
    · simp only [addColumn, List.foldlM_cons, dif_pos he, ok_bind]
      exact hy'
    · rw [hget i, Array.getElem?_set he]
      split
      · next hi =>
        subst hi
        simp [he, rowAdd]
      · next hi => simp [rowAdd, hi]

theorem foldlM_addColumn_eq_ok {a : T} {y : Array T} {ps : List (T × List (ℕ × T))}
    (h : ∀ p ∈ ps, ∀ e ∈ p.2, e.1 < y.size) :
    ∃ y', ps.foldlM (fun y p => addColumn (a * p.1) y p.2) y = .ok y' ∧
      ∀ i, y'[i]? = y[i]?.map fun v => ps.foldl (fun v p => rowAdd (a * p.1) i v p.2) v := by
  induction ps generalizing y with
  | nil => exact ⟨y, rfl, fun i => by simp⟩
  | cons p ps ih =>
    obtain ⟨y₁, hy₁, hsize, hget₁⟩ := addColumn_eq_ok (s := a * p.1) (h p List.mem_cons_self)
    have hrest : ∀ q ∈ ps, ∀ e ∈ q.2, e.1 < y₁.size := by
      intro q hq e he
      rw [hsize]
      exact h q (List.mem_cons_of_mem p hq) e he
    obtain ⟨y', hy', hget⟩ := ih hrest
    refine ⟨y', ?_, fun i => ?_⟩
    · rw [List.foldlM_cons, hy₁, ok_bind]
      exact hy'
    · rw [hget i, hget₁ i, Option.map_map]
      rfl

theorem columnDot_eq_ok {x : List T} {entries : List (ℕ × T)}
    (h : ∀ e ∈ entries, e.1 < x.length) :
    columnDot x.toArray entries = .ok (columnSum x entries) := by
  have hfrom (sum : T) : entries.foldlM (fun sum e =>
      if h : e.1 < x.toArray.size then Except.ok (sum + e.2 * x.toArray[e.1])
      else Except.error Fault.indexOutOfRange) sum =
        .ok (entries.foldl (fun sum e => sum + e.2 * x.getD e.1 0) sum) := by
    induction entries generalizing sum with
    | nil => rfl
    | cons e entries ih =>
      have he : e.1 < x.length := h e List.mem_cons_self
      have hsize : e.1 < x.toArray.size := by simpa using he
      rw [List.foldlM_cons, dif_pos hsize, ok_bind,
        ih fun e' he' => h e' (List.mem_cons_of_mem e he')]
      simp [he]
  exact hfrom 0

theorem size_addColumn {s : T} {y y' : Array T} {entries : List (ℕ × T)}
    (h : addColumn s y entries = .ok y') : y'.size = y.size := by
  refine foldlM_keeps (P := fun y' => y'.size = y.size) ?_ rfl h
  rintro y₁ ⟨i, v⟩ y₂ hsize hset
  by_cases hi : i < y₁.size
  · simp only [dif_pos hi] at hset
    rw [← Except.ok.inj hset, Array.size_set, hsize]
  · simp only [dif_neg hi] at hset
    cases hset

theorem mulAdd_lengths {a b : T} {x y out : List T} (h : A.mulAdd a x b y = .ok out) :
    x.length = A.cols ∧ y.length = A.rows ∧ out.length = A.rows := by
  unfold mulAdd at h
  by_cases hlen : x.length ≠ A.cols ∨ y.length ≠ A.rows
  · rw [if_pos hlen] at h
    cases h
  · simp only [if_neg hlen] at h
    push Not at hlen
    refine ⟨hlen.1, hlen.2, ?_⟩
    split at h
    · rw [← Except.ok.inj h, length_scaleOutput, hlen.2]
    · obtain ⟨columns, -, h⟩ := bind_eq_ok.mp h
      obtain ⟨y', hfold, h⟩ := bind_eq_ok.mp h
      have hsize : y'.size = (scaleOutput b y).toArray.size := by
        refine foldlM_keeps (P := fun y' => y'.size = (scaleOutput b y).toArray.size) ?_ rfl hfold
        rintro y₁ ⟨xj, column⟩ y₂ hsize hadd
        rw [size_addColumn hadd, hsize]
      rw [← Except.ok.inj h, Array.length_toList, hsize, List.size_toArray, length_scaleOutput,
        hlen.2]

theorem transposeMulAdd_lengths {a b : T} {x y out : List T}
    (h : A.transposeMulAdd a x b y = .ok out) :
    x.length = A.rows ∧ y.length = A.cols ∧ out.length = A.cols := by
  unfold transposeMulAdd at h
  by_cases hlen : x.length ≠ A.rows ∨ y.length ≠ A.cols
  · rw [if_pos hlen] at h
    cases h
  · simp only [if_neg hlen] at h
    push Not at hlen
    refine ⟨hlen.1, hlen.2, ?_⟩
    split at h
    · rw [← Except.ok.inj h, length_scaleOutput, hlen.2]
    · obtain ⟨columns, hcolumns, h⟩ := bind_eq_ok.mp h
      rw [length_mapM h, List.length_zip, length_scaleOutput, length_columns hcolumns, hlen.2,
        min_self]

namespace InFormat

variable (h : A.InFormat)
include h

theorem mulAdd_eq_ok (a b : T) {x y : List T} (hx : x.length = A.cols) (hy : y.length = A.rows) :
    A.mulAdd a x b y = .ok ((scaleOutput b y).mapIdx (A.rowSum a x)) := by
  have hlen : ¬ (x.length ≠ A.cols ∨ y.length ≠ A.rows) := by simp [hx, hy]
  unfold mulAdd rowSum
  simp only [if_neg hlen]
  by_cases ha : a == 0
  · have hid : (scaleOutput b y).mapIdx (fun _ v => v) = scaleOutput b y := by
      apply List.ext_getElem?
      simp
    simp [ha, hid]
  · have hrows : ∀ p ∈ x.zip ((List.range A.cols).map A.column), ∀ e ∈ p.2,
        e.1 < (scaleOutput b y).toArray.size := by
      intro p hp e he
      obtain ⟨j, -, hj⟩ := List.mem_map.mp (List.of_mem_zip hp).2
      have hlt := h.row_lt (hj ▸ he)
      simpa [length_scaleOutput, hy] using hlt
    obtain ⟨y', hy', hget⟩ := foldlM_addColumn_eq_ok (a := a) hrows
    have hlist : y'.toList = (scaleOutput b y).mapIdx fun i v =>
        (x.zip ((List.range A.cols).map A.column)).foldl
          (fun v p => rowAdd (a * p.1) i v p.2) v := by
      apply List.ext_getElem?
      intro i
      rw [Array.getElem?_toList, hget i, List.getElem?_mapIdx]
      simp
    simp only [ha, h.columns_eq_ok, ok_bind]
    rw [hy', ok_bind]
    exact congrArg Except.ok hlist

theorem transposeMulAdd_eq_ok (a b : T) {x y : List T} (hx : x.length = A.rows)
    (hy : y.length = A.cols) :
    A.transposeMulAdd a x b y = .ok (if a == 0 then scaleOutput b y
      else List.zipWith (fun yj column => yj + a * columnSum x column) (scaleOutput b y)
        ((List.range A.cols).map A.column)) := by
  have hlen : ¬ (x.length ≠ A.rows ∨ y.length ≠ A.cols) := by simp [hx, hy]
  unfold transposeMulAdd
  simp only [if_neg hlen]
  by_cases ha : a == 0
  · simp [ha]
  · have hdot : ∀ p ∈ (scaleOutput b y).zip ((List.range A.cols).map A.column),
        (do return p.1 + a * (← columnDot x.toArray p.2) : Except Fault T) =
          .ok (p.1 + a * columnSum x p.2) := by
      intro p hp
      obtain ⟨j, -, hj⟩ := List.mem_map.mp (List.of_mem_zip hp).2
      rw [columnDot_eq_ok fun e he => hx ▸ h.row_lt (hj ▸ he)]
      rfl
    simp only [ha, h.columns_eq_ok, ok_bind]
    refine (mapM_eq_ok hdot).trans ?_
    simp only [List.zip, List.map_zipWith]
    rfl

theorem exists_mulAdd (a b : T) {x y : List T} (hx : x.length = A.cols) (hy : y.length = A.rows) :
    ∃ out, A.mulAdd a x b y = .ok out ∧ out.length = A.rows :=
  ⟨_, h.mulAdd_eq_ok a b hx hy, by simp [length_scaleOutput, hy]⟩

theorem exists_transposeMulAdd (a b : T) {x y : List T} (hx : x.length = A.rows)
    (hy : y.length = A.cols) :
    ∃ out, A.transposeMulAdd a x b y = .ok out ∧ out.length = A.cols := by
  refine ⟨_, h.transposeMulAdd_eq_ok a b hx hy, ?_⟩
  split_ifs <;> simp [length_scaleOutput, hy]

end InFormat

end Generic

noncomputable section

variable {A : SparseMatrix ℝ}

/-- The sum of the values that a column stores in row `i`. -/
def entrySum (entries : List (ℕ × ℝ)) (i : ℕ) : ℝ :=
  ((entries.filter (·.1 = i)).map (·.2)).sum

/-- The matrix of the stored coefficients. -/
def dense (A : SparseMatrix ℝ) : Matrix (Fin A.rows) (Fin A.cols) ℝ :=
  Matrix.of fun i j => entrySum (A.column j) i

@[simp] theorem entrySum_nil (i : ℕ) : entrySum [] i = 0 := rfl

theorem entrySum_cons (e : ℕ × ℝ) (entries : List (ℕ × ℝ)) (i : ℕ) :
    entrySum (e :: entries) i = (if e.1 = i then e.2 else 0) + entrySum entries i := by
  by_cases he : e.1 = i <;> simp [entrySum, he]

theorem rowAdd_real (s : ℝ) (i : ℕ) (v : ℝ) (entries : List (ℕ × ℝ)) :
    rowAdd s i v entries = v + entrySum entries i * s := by
  induction entries generalizing v with
  | nil => simp [rowAdd]
  | cons e entries ih =>
    change rowAdd s i (if e.1 = i then v + e.2 * s else v) entries = _
    rw [ih, entrySum_cons]
    split <;> ring

theorem columnSum_real {m : ℕ} (x : Fin m → ℝ) {entries : List (ℕ × ℝ)}
    (h : ∀ e ∈ entries, e.1 < m) :
    columnSum (List.ofFn x) entries = ∑ i : Fin m, entrySum entries i * x i := by
  have hsum : columnSum (List.ofFn x) entries =
      (entries.map fun e => e.2 * (List.ofFn x).getD e.1 0).sum :=
    (foldl_add_eq_sum _ 0 entries).trans (zero_add _)
  rw [hsum]
  clear hsum
  induction entries with
  | nil => simp
  | cons e entries ih =>
    have he : e.1 < m := h e List.mem_cons_self
    have hpick : ∑ i : Fin m, (if e.1 = i then e.2 else 0) * x i = e.2 * x ⟨e.1, he⟩ := by
      rw [Finset.sum_eq_single ⟨e.1, he⟩]
      · simp
      · intro i _ hi
        have hne : e.1 ≠ i := fun heq => hi (Fin.ext heq.symm)
        simp [hne]
      · simp
    simp only [entrySum_cons, add_mul, Finset.sum_add_distrib, hpick, List.map_cons, List.sum_cons]
    rw [ih fun e' he' => h e' (List.mem_cons_of_mem e he')]
    simp [he]

theorem scaleOutput_real (b : ℝ) (y : List ℝ) : scaleOutput b y = y.map (b * ·) := by
  unfold scaleOutput
  split_ifs with h₀ h₁ h₂
  · simp [eq_of_beq h₀]
  · simp [eq_of_beq h₁]
  · simp [eq_of_beq h₂]
  · simp [mul_comm]

theorem columns_eq_ofFn :
    (List.range A.cols).map A.column = List.ofFn fun j : Fin A.cols => A.column j := by
  apply List.ext_getElem
  · simp
  · intro j h₁ h₂
    simp

theorem rowSum_real (a : ℝ) (x : Fin A.cols → ℝ) (i : Fin A.rows) (v : ℝ) :
    A.rowSum a (List.ofFn x) i v = v + a * (A.dense *ᵥ x) i := by
  unfold rowSum
  split
  · next ha => simp [eq_of_beq ha]
  · simp only [rowAdd_real]
    rw [foldl_add_eq_sum, columns_eq_ofFn, List.zip, zipWith_ofFn, List.map_ofFn, List.sum_ofFn,
      mulVec, dotProduct, Finset.mul_sum]
    congr 1
    apply Finset.sum_congr rfl
    intro j _
    change entrySum (A.column j) i * (a * x j) = a * (entrySum (A.column j) i * x j)
    ring

namespace InFormat

variable (h : A.InFormat)
include h

theorem mulAdd_real (a b : ℝ) (x : Fin A.cols → ℝ) (y : Fin A.rows → ℝ) :
    A.mulAdd a (List.ofFn x) b (List.ofFn y) =
      .ok (List.ofFn (a • (A.dense *ᵥ x) + b • y)) := by
  rw [h.mulAdd_eq_ok a b (by simp) (by simp), scaleOutput_real]
  congr 1
  apply List.ext_getElem
  · simp
  · intro i h₁ h₂
    have hi : i < A.rows := by simpa using h₂
    have hrow := rowSum_real a x ⟨i, hi⟩ (b * y ⟨i, hi⟩)
    simp only [List.getElem_mapIdx, List.getElem_map, List.getElem_ofFn]
    rw [hrow]
    simp [add_comm]

theorem transposeMulAdd_real (a b : ℝ) (x : Fin A.rows → ℝ) (y : Fin A.cols → ℝ) :
    A.transposeMulAdd a (List.ofFn x) b (List.ofFn y) =
      .ok (List.ofFn (a • (x ᵥ* A.dense) + b • y)) := by
  rw [h.transposeMulAdd_eq_ok a b (by simp) (by simp), scaleOutput_real, List.map_ofFn]
  congr 1
  split
  · next ha =>
    rw [eq_of_beq ha, zero_smul, zero_add]
    rfl
  · rw [columns_eq_ofFn, zipWith_ofFn]
    congr 1
    funext j
    rw [columnSum_real x fun e he => h.row_lt he]
    simp only [Pi.add_apply, Pi.smul_apply, smul_eq_mul, vecMul, dotProduct, Function.comp_apply]
    rw [add_comm]
    congr 2
    apply Finset.sum_congr rfl
    intro i _
    exact mul_comm _ _

end InFormat

end

end PrimalDual.SparseMatrix
