import Mathlib.Data.Prod.Lex
import PrimalDual.Proofs.Exact
import PrimalDual.Proofs.Sparse.Columns
import PrimalDual.Sparse.Entries

/-!
# The entries of a matrix in format

A matrix in format lists its entries by position, each position once, and is assembled again from
that list. The format check does not ask where the first column starts. Entries that stand before it
belong to no column: they are counted and squared, but they are not listed.
-/
namespace PrimalDual

section Spans

variable {α β : Type}

theorem map_span (f : α → β) (xs : List α) (lo hi : ℕ) :
    (span xs lo hi).map f = span (xs.map f) lo hi := by
  simp [span, List.map_take, List.map_drop]

/-- Neighbouring pieces join. -/
theorem span_append_span (xs : List α) {lo mid hi : ℕ} (h : lo ≤ mid) (h' : mid ≤ hi) :
    span xs lo mid ++ span xs mid hi = span xs lo hi := by
  have hmid : lo + (mid - lo) = mid := by omega
  have hhi : hi - lo = (mid - lo) + (hi - mid) := by omega
  rw [span, span, span, hhi, List.take_add, List.drop_drop, hmid]

end Spans

namespace Triplet

variable {T : Type}

/-- Columns come first, rows within a column next. -/
def position (t : Triplet T) : ℕ ×ₗ ℕ := toLex (t.col, t.row)

theorem position_lt_iff {s t : Triplet T} :
    s.position < t.position ↔ s.col < t.col ∨ s.col = t.col ∧ s.row < t.row :=
  Prod.Lex.toLex_lt_toLex

theorem before_of_lt {s t : Triplet T} (h : s.position < t.position) : s.before t = true := by
  rcases position_lt_iff.mp h with hcol | ⟨hcol, hrow⟩
  · simp [before, hcol]
  · simp [before, hcol, hrow.le]

theorem samePosition_of_lt {s t : Triplet T} (h : s.position < t.position) :
    s.samePosition t = false := by
  rcases position_lt_iff.mp h with hcol | ⟨hcol, hrow⟩
  · simp [samePosition, hcol.ne]
  · simp [samePosition, hrow.ne]

variable [Scalar T] {ts : List (Triplet T)}

/-- Entries at increasing positions are collected one by one, and none is absorbed. -/
theorem foldl_absorb (h : ts.Pairwise (·.position < ·.position)) :
    ts.foldl absorb [] = ts.reverse := by
  induction ts using List.reverseRecOn with
  | nil => rfl
  | append_singleton ts t ih =>
    obtain ⟨hts, -, hlast⟩ := List.pairwise_append.mp h
    rw [List.foldl_append, ih hts, List.foldl_cons, List.foldl_nil, List.reverse_append]
    cases hrev : ts.reverse with
    | nil => rfl
    | cons last rest =>
      have hmem : last ∈ ts := by
        rw [← List.mem_reverse, hrev]
        exact List.mem_cons_self
      have hlt := hlast last hmem t (List.mem_singleton_self t)
      simp [absorb, samePosition_of_lt hlt]

/-- Entries that stand in order are collected as they are. -/
theorem collect_eq_self (h : ts.Pairwise (·.position < ·.position)) : collect ts = ts := by
  have hsorted : ts.mergeSort before = ts :=
    List.mergeSort_of_pairwise (h.imp before_of_lt)
  rw [collect, hsorted, foldl_absorb h, List.reverse_reverse]

end Triplet

namespace SparseMatrix

variable {T : Type} {A : SparseMatrix T}

namespace InFormat

variable (h : A.InFormat)
include h

theorem map_fst_entries : A.entries.map Prod.fst = A.rowIndices :=
  List.map_fst_zip (inFormat_iff.mp h).1.1.le

theorem map_snd_entries : A.entries.map Prod.snd = A.values :=
  List.map_snd_zip (inFormat_iff.mp h).1.1.ge

/-- The rows of a column increase. -/
theorem column_pairwise {j : ℕ} (hj : j < A.cols) :
    (A.column j).Pairwise (·.1 < ·.1) := by
  have hrows := (inFormat_iff.mp h).2.2.1 j hj
  rw [← h.map_fst_entries, ← map_span] at hrows
  exact List.pairwise_map.mp hrows

/-- The columns up to one of them follow one another without a gap. -/
theorem flatMap_column {j : ℕ} (hj : j ≤ A.cols) :
    (List.range j).flatMap A.column = span A.entries (A.start 0) (A.start j) := by
  induction j with
  | zero => simp [span]
  | succ j ih =>
    rw [List.range_succ, List.flatMap_append, ih (by omega), List.flatMap_singleton, column,
      span_append_span _ (h.start_mono (Nat.zero_le j) (by omega))
        (h.start_mono (Nat.le_succ j) hj)]

theorem flatMap_columns :
    (List.range A.cols).flatMap A.column = A.entries.drop (A.start 0) := by
  rw [h.flatMap_column le_rfl, span, List.take_of_length_le]
  rw [List.length_drop, h.start_cols]

end InFormat

/-- The entries of column `j` with their positions. -/
def columnTriplets (A : SparseMatrix T) (j : ℕ) : List (Triplet T) :=
  (A.column j).map fun e => ⟨e.1, j, e.2⟩

/-- The entries of all columns. -/
def listed (A : SparseMatrix T) : List (Triplet T) :=
  (List.range A.cols).flatMap A.columnTriplets

theorem map_columnTriplets {β : Type} (f : ℕ × T → β) (j : ℕ) :
    (A.columnTriplets j).map (fun t => f (t.row, t.value)) = (A.column j).map f := by
  simp [columnTriplets]

theorem length_columnTriplets (j : ℕ) : (A.columnTriplets j).length = (A.column j).length :=
  List.length_map _

theorem col_of_mem_columnTriplets {j : ℕ} {t : Triplet T} (ht : t ∈ A.columnTriplets j) :
    t.col = j := by
  obtain ⟨e, -, rfl⟩ := List.mem_map.mp ht
  rfl

namespace InFormat

variable (h : A.InFormat)
include h

theorem triplets_eq_ok : A.triplets = .ok A.listed := by
  have hread : ∀ b ∈ ((List.range A.cols).map fun j => ((A.start j, A.start (j + 1)), j)),
      (do
        let column ← slice A.entries.toArray b.1.1 b.1.2
        return column.map fun e => Triplet.mk e.1 b.2 e.2 : Except Fault _) =
        .ok ((span A.entries b.1.1 b.1.2).map fun e => ⟨e.1, b.2, e.2⟩) := by
    intro b hb
    obtain ⟨j, hj, rfl⟩ := List.mem_map.mp hb
    have hj' : j + 1 ≤ A.cols := List.mem_range.mp hj
    rw [slice_toArray, segment_eq_ok (h.start_mono (Nat.le_succ j) hj') (h.start_le hj')]
    rfl
  have hindexed : ((List.range A.cols).map fun j => (A.start j, A.start (j + 1))).zipIdx =
      (List.range A.cols).map fun j => ((A.start j, A.start (j + 1)), j) := by
    apply List.ext_getElem
    · simp
    · intro j h₁ h₂
      simp
  rw [triplets, h.bounds_eq_ok, ok_bind, hindexed]
  refine bind_eq_ok.mpr ⟨_, mapM_eq_ok hread, ?_⟩
  rw [List.map_map]
  rfl

/-- What is stored from the first column on is listed, in the same order. -/
theorem map_listed {β : Type} (f : ℕ × T → β) :
    A.listed.map (fun t => f (t.row, t.value)) = (A.entries.drop (A.start 0)).map f := by
  rw [← h.flatMap_columns, listed, List.map_flatMap, List.map_flatMap]
  simp only [map_columnTriplets]

theorem map_row_listed : A.listed.map (·.row) = A.rowIndices.drop (A.start 0) := by
  rw [← h.map_fst_entries, ← List.map_drop]
  exact h.map_listed Prod.fst

theorem map_value_listed : A.listed.map (·.value) = A.values.drop (A.start 0) := by
  rw [← h.map_snd_entries, ← List.map_drop]
  exact h.map_listed Prod.snd

theorem length_listed : A.start 0 + A.listed.length = A.entries.length := by
  have hlength := congrArg List.length (h.map_listed id)
  have hstart := h.start_le (Nat.zero_le A.cols)
  simp only [List.length_map, List.length_drop] at hlength
  omega

theorem listed_pairwise : A.listed.Pairwise (·.position < ·.position) := by
  refine List.pairwise_flatMap.mpr ⟨fun j hj => ?_, ?_⟩
  · refine List.pairwise_map.mpr ((h.column_pairwise (List.mem_range.mp hj)).imp fun hrow => ?_)
    exact Triplet.position_lt_iff.mpr (.inr ⟨rfl, hrow⟩)
  · refine List.pairwise_lt_range.imp fun hlt s hs t ht => ?_
    rw [Triplet.position_lt_iff, col_of_mem_columnTriplets hs, col_of_mem_columnTriplets ht]
    exact .inl hlt

theorem listed_within {t : Triplet T} (ht : t ∈ A.listed) : t.row < A.rows ∧ t.col < A.cols := by
  obtain ⟨j, hj, ht⟩ := List.mem_flatMap.mp ht
  obtain ⟨e, he, rfl⟩ := List.mem_map.mp ht
  exact ⟨h.row_lt he, List.mem_range.mp hj⟩

/-- The entries left of a column are those from the first start up to its own. -/
theorem countP_listed {j : ℕ} (hj : j ≤ A.cols) :
    A.listed.countP (·.col < j) = A.start j - A.start 0 := by
  have hcount : ∀ k, (A.columnTriplets k).countP (·.col < j) =
      if k < j then (A.column k).length else 0 := by
    intro k
    split
    · next hk =>
      rw [← length_columnTriplets]
      refine List.countP_eq_length.mpr fun t ht => ?_
      simpa [col_of_mem_columnTriplets ht] using hk
    · next hk =>
      refine List.countP_eq_zero.mpr fun t ht => ?_
      simpa [col_of_mem_columnTriplets ht] using hk
  obtain ⟨k, hk⟩ := Nat.exists_eq_add_of_le hj
  have hleft : (List.range j).map (fun k => if k < j then (A.column k).length else 0) =
      (List.range j).map fun k => (A.column k).length :=
    List.map_congr_left fun k hk => if_pos (List.mem_range.mp hk)
  have hlength := congrArg List.length (h.flatMap_column hj)
  rw [List.length_flatMap, length_span] at hlength
  have hend := h.start_le hj
  simp [listed, List.countP_flatMap, Function.comp_def, hcount, hk, List.range_add, hleft, hlength]
  omega

end InFormat

/-- The matrix without what stands before its first column. -/
def compact (A : SparseMatrix T) : SparseMatrix T :=
  { A with
    colStarts := A.colStarts.map (· - A.start 0)
    rowIndices := A.rowIndices.drop (A.start 0)
    values := A.values.drop (A.start 0) }

theorem compact_eq_self (hstart : A.start 0 = 0) : A.compact = A := by
  simp [compact, hstart]

variable [Scalar T]

namespace InFormat

variable (h : A.InFormat)
include h

/-- A matrix is assembled again from its entries. -/
theorem ofTriplets_listed (hroom : A.colStarts.length < addressable) :
    ofTriplets A.rows A.cols A.listed = .ok A.compact := by
  have hlength := h.colStarts_length
  have hwithin : A.listed.all (fun t => t.row < A.rows && t.col < A.cols) = true := by
    rw [List.all_eq_true]
    intro t ht
    simpa using h.listed_within ht
  have hstarts : ((List.range (A.cols + 1)).map fun j => A.listed.countP (·.col < j)) =
      A.compact.colStarts := by
    apply List.ext_getElem
    · simp [compact, hlength]
    · intro j h₁ h₂
      have hj : j < A.cols + 1 := by simpa using h₁
      have hj' : j < A.colStarts.length := by omega
      simp [compact, h.countP_listed (Nat.lt_succ_iff.mp hj), start, hj']
  have hlast : A.compact.colStarts[A.cols]? = some A.compact.rowIndices.length := by
    simp [compact, (inFormat_iff.mp h).1.2.2]
  have hparts : (A.rowIndices.drop (A.start 0)).length = (A.values.drop (A.start 0)).length := by
    simp [(inFormat_iff.mp h).1.1]
  have hcols : A.compact.colStarts.length = A.cols + 1 := by simp [compact, hlength]
  unfold ofTriplets
  simp only [hwithin, Triplet.collect_eq_self h.listed_pairwise, h.map_row_listed,
    h.map_value_listed, hstarts, allocate_eq_ok (hlength ▸ hroom), ok_bind, Bool.not_true,
    Bool.false_eq_true, if_false]
  exact if_pos ⟨hparts, hcols, hlast⟩

/-- The values that are squared are those before the first column and those listed. -/
theorem sumOfSquares_eq : A.sumOfSquares =
    A.listed.foldl (fun sum t => sum + t.value * t.value)
      ((A.values.take (A.start 0)).foldl (fun sum v => sum + v * v) 0) := by
  conv_lhs => rw [sumOfSquares, ← List.take_append_drop (A.start 0) A.values]
  rw [List.foldl_append, ← h.map_value_listed, List.foldl_map]

/-- A matrix in format lists each position once, in order and within its bounds, and is assembled
again from the list. All that it stores is listed if its first column starts at zero; otherwise what
stands before the first column is counted and squared, and lost in the assembly. -/
theorem triplets_canonical (hroom : A.colStarts.length < addressable) :
    ∃ ts, A.triplets = .ok ts ∧ ts.Pairwise (·.position < ·.position) ∧
      (∀ t ∈ ts, t.row < A.rows ∧ t.col < A.cols) ∧
      A.entryCount = .ok (A.start 0 + ts.length) ∧
      A.sumOfSquares = ts.foldl (fun sum t => sum + t.value * t.value)
        ((A.values.take (A.start 0)).foldl (fun sum v => sum + v * v) 0) ∧
      ofTriplets A.rows A.cols ts = .ok A.compact ∧
      (A.start 0 = 0 → A.entryCount = .ok ts.length ∧
        A.sumOfSquares = ts.foldl (fun sum t => sum + t.value * t.value) 0 ∧
        ofTriplets A.rows A.cols ts = .ok A) := by
  have hcount : A.entryCount = .ok (A.start 0 + A.listed.length) := by
    rw [h.length_listed, h.entryCount_eq_ok]
  have hsquares := h.sumOfSquares_eq
  have hassembled := h.ofTriplets_listed hroom
  refine ⟨A.listed, h.triplets_eq_ok, h.listed_pairwise, fun t => h.listed_within, hcount, hsquares,
    hassembled, fun hstart => ?_⟩
  rw [hstart, Nat.zero_add] at hcount
  rw [hstart] at hsquares
  rw [compact_eq_self hstart] at hassembled
  exact ⟨hcount, hsquares, hassembled⟩

end InFormat

/-- Four entries, the first of which stands before the first column. -/
def offset : SparseMatrix ℝ where
  rows := 3
  cols := 2
  colStarts := [1, 2, 4]
  rowIndices := [0, 2, 0, 1]
  values := [1, 1, -1, 0]

theorem InFormat.triplets_canonical_offset :
    offset.InFormat ∧ offset.colStarts.length < addressable ∧ offset.start 0 = 1 ∧
      ∃ ts, offset.triplets = .ok ts ∧ ts.Pairwise (·.position < ·.position) ∧
        (∀ t ∈ ts, t.row < 3 ∧ t.col < 2) ∧ offset.entryCount = .ok (1 + ts.length) ∧
        offset.sumOfSquares = ts.foldl (fun sum t => sum + t.value * t.value) (0 + 1 * 1) ∧
        ofTriplets 3 2 ts = .ok ⟨3, 2, [0, 1, 3], [2, 0, 1], [1, -1, 0]⟩ := by
  have hformat : offset.InFormat := rfl
  have hroom : offset.colStarts.length < addressable := by decide
  obtain ⟨ts, htriplets, hpairwise, hwithin, hcount, hsquares, hassembled, -⟩ :=
    InFormat.triplets_canonical hformat hroom
  exact ⟨hformat, hroom, rfl, ts, htriplets, hpairwise, hwithin, hcount, hsquares, hassembled⟩

/-- Two entries at one position, the first of which stands before the only column. -/
def hidden : SparseMatrix ℝ where
  rows := 1
  cols := 1
  colStarts := [1, 2]
  rowIndices := [0, 0]
  values := [1, 1]

/-- A matrix in format need not list all its entries. -/
theorem exists_triplets_incomplete : ∃ (A : SparseMatrix ℝ) (ts : List (Triplet ℝ)),
    A.InFormat ∧ A.triplets = .ok ts ∧ A.entryCount ≠ .ok ts.length ∧
      A.sumOfSquares ≠ (ts.map (·.value ^ 2)).sum ∧ ofTriplets A.rows A.cols ts ≠ .ok A := by
  have hformat : hidden.InFormat := rfl
  refine ⟨hidden, [⟨0, 0, 1⟩], hformat, hformat.triplets_eq_ok, by decide, ?_, ?_⟩
  · norm_num [sumOfSquares, hidden]
  · have hassembled := hformat.ofTriplets_listed (by decide)
    intro hself
    have hstarts := congrArg colStarts (Except.ok.inj (hassembled.symm.trans hself))
    exact absurd hstarts (by decide)

end SparseMatrix

end PrimalDual
