import PrimalDual.Proofs.Sparse.Triplets

/-!
# Entries of a matrix in format, looked up

The rows of a column increase, so that halving the column finds a row that is stored, and shows of a
row that is not found that it is not stored.
-/
namespace PrimalDual.SparseMatrix

variable {T : Type} {A : SparseMatrix T} {i j k : ℕ}

/-- The window always holds the place of the target. -/
theorem bisect_eq {rows : List ℕ} {target base size : ℕ} (hrows : rows.Pairwise (· < ·))
    (hk : rows[k]? = some target) (hbase : base ≤ k) (hend : k < base + size)
    (hsize : base + size ≤ rows.length) : bisect rows target base size = k := by
  induction size using Nat.strong_induction_on generalizing base with
  | _ size ih =>
    rw [bisect]
    split
    · omega
    · next hmany =>
      obtain ⟨hk', rfl⟩ := List.getElem?_eq_some_iff.mp hk
      have hmid : base + size / 2 < rows.length := by omega
      have hincrease := List.pairwise_iff_getElem.mp hrows
      simp only [List.getD_eq_getElem?_getD, List.getElem?_eq_getElem hmid, Option.getD_some]
      split
      · next hlt =>
        have hleft : k < base + size / 2 := by
          by_contra hge
          rcases (not_lt.mp hge).eq_or_lt with heq | hgt
          · simp only [heq, lt_irrefl] at hlt
          · exact absurd (hincrease _ _ hmid hk' hgt) hlt.asymm
        exact ih _ (by omega) hbase (by omega) (by omega)
      · next hle =>
        have hright : base + size / 2 ≤ k := by
          by_contra hgt
          exact hle (hincrease _ _ hk' hmid (not_le.mp hgt))
        exact ih _ (by omega) hright (by omega) (by omega)

theorem position?_eq_some {rows : List ℕ} (hrows : rows.Pairwise (· < ·)) (hk : rows[k]? = some i) :
    position? rows i = some k := by
  obtain ⟨hlength, -⟩ := List.getElem?_eq_some_iff.mp hk
  have hfound := bisect_eq hrows hk (Nat.zero_le k) ((Nat.zero_add _).symm ▸ hlength)
    (Nat.zero_add _).le
  rw [position?, hfound, if_pos hk]

theorem position?_eq_none {rows : List ℕ} (hi : i ∉ rows) : position? rows i = none :=
  if_neg fun hfound => hi (List.mem_of_getElem? hfound)

/-- What stands in a piece of a list stands in the list. -/
theorem getElem?_of_span {α : Type} {xs : List α} {lo hi : ℕ} {x : α}
    (hx : (span xs lo hi)[k]? = some x) : xs[lo + k]? = some x := by
  rw [span, List.getElem?_take] at hx
  split at hx
  · rwa [List.getElem?_drop] at hx
  · cases hx

namespace InFormat

variable (h : A.InFormat)
include h

theorem map_fst_column :
    (A.column j).map Prod.fst = span A.rowIndices (A.start j) (A.start (j + 1)) := by
  rw [column, map_span, h.map_fst_entries]

/-- Looking up an entry means looking for its row in its column. -/
theorem lookup_eq (hi : i < A.rows) (hj : j < A.cols) : entry? A i j =
    match position? ((A.column j).map Prod.fst) i with
    | some k => (entryAt A.values (A.start j + k)).map some
    | none => .ok none := by
  have hlength := h.colStarts_length
  have hbounds : A.columnBounds j = .ok (A.start j, A.start (j + 1)) := by
    have hj₀ : j < A.colStarts.length := by omega
    have hj₁ : j + 1 < A.colStarts.length := by omega
    simp [columnBounds, entryAt_eq_ok hj₀, entryAt_eq_ok hj₁, start, hj₀, hj₁]
  have hend := h.start_le (j := j + 1) hj
  rw [h.entries_length] at hend
  have hrows := segment_eq_ok (h.start_mono (Nat.le_succ j) hj) hend
  rw [← h.map_fst_column] at hrows
  unfold entry?
  simp only [hi, hj, and_self, not_true_eq_false, if_false, hbounds, hrows, ok_bind, pure_eq_ok]
  rfl

/-- An entry of a column is found. -/
theorem lookup_eq_some {v : T} (hj : j < A.cols) (hmem : (i, v) ∈ A.column j) :
    entry? A i j = .ok (some v) := by
  obtain ⟨k, hk⟩ := List.getElem?_of_mem hmem
  have hrow : ((A.column j).map Prod.fst)[k]? = some i := by simp [hk]
  have hvalue : A.values[A.start j + k]? = some v := by
    rw [← h.map_snd_entries, List.getElem?_map, getElem?_of_span hk]
    rfl
  have hincrease := List.pairwise_map.mpr (h.column_pairwise hj)
  rw [h.lookup_eq (h.row_lt hmem) hj, position?_eq_some hincrease hrow]
  simp only [entryAt, hvalue, Except.map]

theorem lookup_eq_none (hi : i < A.rows) (hj : j < A.cols)
    (hmem : ∀ v, (i, v) ∉ A.column j) : entry? A i j = .ok none := by
  have hrow : i ∉ (A.column j).map Prod.fst := by
    simpa using hmem
  rw [h.lookup_eq hi hj, position?_eq_none hrow]

end InFormat

end PrimalDual.SparseMatrix
