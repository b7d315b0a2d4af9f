import Mathlib.Data.List.Chain
import PrimalDual.Sparse.Format

/-!
# Columns of a matrix in format

What the format check secures: the starts cut the stored entries into one block for each column, so
that a column can be read without a check, and every row in it is a row of the matrix.
-/
namespace PrimalDual.SparseMatrix

variable {T : Type} {A : SparseMatrix T}

theorem chained_iff_isChain {r : ℕ → ℕ → Bool} {xs : List ℕ} :
    chained r xs = true ↔ xs.IsChain (r · ·) := by
  induction xs with
  | nil => simp [chained]
  | cons a xs ih =>
    cases xs with
    | nil => simp [chained]
    | cons b xs => simp [chained, ih]

/-- Where column `j` starts. -/
def start (A : SparseMatrix T) (j : ℕ) : ℕ := A.colStarts.getD j 0

section Inspection

variable (hlength : A.colStarts.length = A.cols + 1)
include hlength

theorem bounds_of_length :
    A.bounds = .ok ((List.range A.cols).map fun j => (A.start j, A.start (j + 1))) := by
  have hzip : (A.colStarts.zip A.colStarts.tail).length = A.cols := by simp [hlength]
  simp only [bounds, hzip, le_refl, ite_true]
  congr 1
  apply List.ext_getElem
  · simp [hlength]
  · intro j h₁ h₂
    have hj : j < A.cols := by simpa using h₂
    have hj₀ : j < A.colStarts.length := by omega
    have hj₁ : j + 1 < A.colStarts.length := by omega
    simp [start, hj₀, hj₁]

theorem getElem?_colStarts {j : ℕ} (hj : j ≤ A.cols) : A.colStarts[j]? = some (A.start j) := by
  have hj' : j < A.colStarts.length := by omega
  simp [start, hj']

theorem start_le_start (hchain : A.colStarts.IsChain (· ≤ ·)) {i j : ℕ} (hij : i ≤ j)
    (hj : j ≤ A.cols) : A.start i ≤ A.start j := by
  have hi' : i < A.colStarts.length := by omega
  have hj' : j < A.colStarts.length := by omega
  simp only [start, List.getD_eq_getElem?_getD, List.getElem?_eq_getElem hi',
    List.getElem?_eq_getElem hj', Option.getD_some]
  rcases hij.eq_or_lt with rfl | hlt
  · exact le_rfl
  · exact List.pairwise_iff_getElem.mp hchain.pairwise i j hi' hj' hlt

/-- Once the starts are in order and end with the number of rows, every column can be cut out. -/
theorem allM_increases (hend : A.start A.cols = A.rowIndices.length)
    (hchain : A.colStarts.IsChain (· ≤ ·)) :
    ∃ sorted, (A.bounds >>= (·.allM (increases A.rowIndices.toArray))) = .ok sorted ∧
      (sorted = true ↔ ∀ j < A.cols,
        (span A.rowIndices (A.start j) (A.start (j + 1))).Pairwise (· < ·)) := by
  have hread : ∀ ends ∈ (List.range A.cols).map fun j => (A.start j, A.start (j + 1)),
      increases A.rowIndices.toArray ends =
        .ok (chained (· < ·) (span A.rowIndices ends.1 ends.2)) := by
    intro ends hends
    obtain ⟨j, hj, rfl⟩ := List.mem_map.mp hends
    have hj' : j + 1 ≤ A.cols := List.mem_range.mp hj
    have hinside := hend ▸ start_le_start hlength hchain hj' le_rfl
    rw [increases, slice_toArray,
      segment_eq_ok (start_le_start hlength hchain (Nat.le_succ j) hj') hinside]
    rfl
  refine ⟨_, by rw [bounds_of_length hlength, ok_bind, allM_eq_ok hread], ?_⟩
  simp [chained_iff_isChain, List.isChain_iff_pairwise]

end Inspection

/-- Whatever the parts are, the inspection comes to a verdict, which names the first condition that
fails. -/
theorem inspect_eq_ok (A : SparseMatrix T) : A.inspect = .ok
    (if ¬ (A.rowIndices.length = A.values.length ∧ A.colStarts.length = A.cols + 1 ∧
        A.colStarts[A.cols]? = some A.rowIndices.length) then .error .incompatibleDimension
    else if ¬ A.colStarts.IsChain (· ≤ ·) then .error .badColumnStart
    else if ¬ ((∀ j < A.cols,
        (span A.rowIndices (A.start j) (A.start (j + 1))).Pairwise (· < ·)) ∧
        ∀ i ∈ A.rowIndices, i < A.rows) then .error .badRow
    else .ok ()) := by
  unfold inspect
  by_cases hparts : A.rowIndices.length = A.values.length
  swap
  · simp [hparts]
  by_cases hlength : A.colStarts.length = A.cols + 1
  swap
  · cases hstarts : A.colStarts with
    | nil => simp [hparts]
    | cons first rest =>
      have hcols : rest.length ≠ A.cols := by simpa [hstarts] using hlength
      simp [hparts, Counter.previous_succ, hcols]
  have hempty : A.colStarts.isEmpty = false := by
    rw [List.isEmpty_eq_false_iff_exists_mem]
    exact ⟨_, List.getElem_mem (hlength ▸ Nat.succ_pos _ : 0 < A.colStarts.length)⟩
  have hlast := getElem?_colStarts hlength le_rfl
  have hcount : A.entryCount = .ok (A.start A.cols) := by rw [entryCount, entryAt, hlast]
  have hfits : (A.rowIndices.length = A.values.length ∧ A.colStarts.length = A.cols + 1 ∧
      A.colStarts[A.cols]? = some A.rowIndices.length) ↔
      A.start A.cols = A.rowIndices.length := by
    rw [hlast, Option.some_inj]
    exact ⟨fun h => h.2.2, fun h => ⟨hparts, hlength, h⟩⟩
  have hordered : chained (· ≤ ·) A.colStarts = true ↔ A.colStarts.IsChain (· ≤ ·) := by
    simpa using @chained_iff_isChain (fun a b => decide (a ≤ b)) A.colStarts
  simp only [hfits]
  rw [if_neg (not_not.mpr hparts), hempty, hlength, Counter.previous_succ, hcount]
  simp only [Bool.false_eq_true, if_false, ok_bind, ne_eq, not_true_eq_false]
  by_cases hend : A.start A.cols = A.rowIndices.length
  swap
  · simp [hend]
  by_cases hchain : A.colStarts.IsChain (· ≤ ·)
  swap
  · simp [hend, hchain, Bool.eq_false_iff.mpr (mt hordered.mp hchain)]
  obtain ⟨sorted, hsorted, hiff⟩ := allM_increases hlength hend hchain
  obtain ⟨ends, hends, hsorted⟩ := bind_eq_ok.mp hsorted
  simp only [hend, hchain, hordered.mpr hchain, hends, hsorted, ← hiff, ok_bind, pure_eq_ok]
  cases sorted with
  | false => simp
  | true =>
    by_cases hrow : ∃ i ∈ A.rowIndices, A.rows ≤ i
    · simp [hrow]
    · simp [hrow]

/-- An inspection does not end in a fault, whatever the parts of the matrix are. -/
theorem inspect_eq_check (A : SparseMatrix T) : A.inspect = .ok A.check := by
  rw [check, inspect_eq_ok]

/-- The conditions of the format check, all at once. -/
theorem inFormat_iff : A.InFormat ↔
    (A.rowIndices.length = A.values.length ∧ A.colStarts.length = A.cols + 1 ∧
      A.colStarts[A.cols]? = some A.rowIndices.length) ∧
    A.colStarts.IsChain (· ≤ ·) ∧
    (∀ j < A.cols, (span A.rowIndices (A.start j) (A.start (j + 1))).Pairwise (· < ·)) ∧
    ∀ i ∈ A.rowIndices, i < A.rows := by
  rw [InFormat, check, inspect_eq_ok]
  split_ifs <;> simp only [true_iff, false_iff] <;> tauto

/-- The entries of column `j`. -/
def column (A : SparseMatrix T) (j : ℕ) : List (ℕ × T) :=
  span A.entries (A.start j) (A.start (j + 1))

theorem length_columns {columns : List (List (ℕ × T))} (h : A.columns = .ok columns) :
    columns.length = A.cols := by
  obtain ⟨ends, hbounds, h⟩ := bind_eq_ok.mp h
  dsimp only [bounds] at hbounds
  split at hbounds
  · next hcols =>
    rw [length_mapM h, ← Except.ok.inj hbounds, List.length_take, min_eq_left hcols]
  · cases hbounds

namespace InFormat

variable (h : A.InFormat)
include h

theorem colStarts_length : A.colStarts.length = A.cols + 1 := (inFormat_iff.mp h).1.2.1

theorem entries_length : A.entries.length = A.rowIndices.length := by
  have hv := (inFormat_iff.mp h).1.1
  simp [entries, hv]

theorem start_cols : A.start A.cols = A.entries.length := by
  have hlast := (inFormat_iff.mp h).1.2.2
  rw [start, List.getD_eq_getElem?_getD, hlast, h.entries_length]
  rfl

theorem start_mono {i j : ℕ} (hij : i ≤ j) (hj : j ≤ A.cols) : A.start i ≤ A.start j :=
  start_le_start h.colStarts_length (inFormat_iff.mp h).2.1 hij hj

theorem start_le {j : ℕ} (hj : j ≤ A.cols) : A.start j ≤ A.entries.length :=
  h.start_cols ▸ h.start_mono hj le_rfl

theorem row_lt {j : ℕ} {e : ℕ × T} (he : e ∈ A.column j) : e.1 < A.rows := by
  have hmem : e ∈ A.entries := List.mem_of_mem_drop (List.mem_of_mem_take he)
  exact (inFormat_iff.mp h).2.2.2 e.1 (List.of_mem_zip hmem).1

theorem bounds_eq_ok :
    A.bounds = .ok ((List.range A.cols).map fun j => (A.start j, A.start (j + 1))) :=
  bounds_of_length h.colStarts_length

theorem entryCount_eq_ok : A.entryCount = .ok A.entries.length := by
  rw [entryCount, entryAt, (inFormat_iff.mp h).1.2.2, h.entries_length]

/-- All columns can be read. -/
theorem columns_eq_ok : A.columns = .ok ((List.range A.cols).map A.column) := by
  have hread : ∀ b ∈ (List.range A.cols).map fun j => (A.start j, A.start (j + 1)),
      (if b.2 ≤ b.1 then Except.ok [] else slice A.entries.toArray b.1 b.2 : Except Fault _) =
        .ok (span A.entries b.1 b.2) := by
    intro b hb
    obtain ⟨j, hj, rfl⟩ := List.mem_map.mp hb
    have hj' : j + 1 ≤ A.cols := List.mem_range.mp hj
    split
    · next hle => simp [span, Nat.sub_eq_zero_of_le hle]
    · next hle =>
      rw [slice_toArray, segment_eq_ok (by omega) (h.start_le hj')]
  rw [columns, h.bounds_eq_ok, ok_bind]
  exact (mapM_eq_ok hread).trans (by rw [List.map_map]; rfl)

end InFormat

end PrimalDual.SparseMatrix
