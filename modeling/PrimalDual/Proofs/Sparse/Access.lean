import PrimalDual.Proofs.Sparse.Lookup
import PrimalDual.Proofs.Sparse.Product

/-!
# Access to a matrix that was checked

The format check cuts the rows by the starts before it knows that they belong together, and is safe
because of the order of its conditions. On a matrix that it accepts no access leaves the lists, and
a lookup finds what the list of all entries holds.
-/
namespace PrimalDual.SparseMatrix

variable {T : Type} {A : SparseMatrix T} {i j : ℕ}

theorem mem_listed {v : T} : ⟨i, j, v⟩ ∈ A.listed ↔ j < A.cols ∧ (i, v) ∈ A.column j := by
  simp only [listed, columnTriplets, List.mem_flatMap, List.mem_range, List.mem_map]
  constructor
  · rintro ⟨_, hj, e, he, heq⟩
    obtain ⟨rfl, rfl, rfl⟩ := Triplet.mk.inj heq
    exact ⟨hj, he⟩
  · rintro ⟨hj, he⟩
    exact ⟨j, hj, (i, v), he, rfl⟩

/-- A lookup inside the matrix succeeds, and finds what is listed. -/
theorem InFormat.lookup_iff (h : A.InFormat) (hi : i < A.rows) (hj : j < A.cols) :
    ∃ e, A.entry? i j = .ok e ∧ ∀ v, e = some v ↔ ⟨i, j, v⟩ ∈ A.listed := by
  by_cases hstored : ∃ v, (i, v) ∈ A.column j
  · obtain ⟨v, hv⟩ := hstored
    have hfound := h.lookup_eq_some hj hv
    refine ⟨some v, hfound, fun w => ⟨?_, fun hw => ?_⟩⟩
    · rintro ⟨⟩
      exact mem_listed.mpr ⟨hj, hv⟩
    · exact ok_unique hfound (h.lookup_eq_some hj (mem_listed.mp hw).2)
  · have hnone := not_exists.mp hstored
    refine ⟨none, h.lookup_eq_none hi hj hnone, fun w => ⟨?_, fun hw => ?_⟩⟩
    · rintro ⟨⟩
    · exact absurd (mem_listed.mp hw).2 (hnone w)

/-- Every matrix can be inspected without a fault. One that is accepted can be listed, looked up
anywhere inside and multiplied from both sides, and the lookups agree with the list. -/
theorem inspection_secures_access [Scalar T] (A : SparseMatrix T) :
    A.inspect = .ok A.check ∧
    (A.check = .ok () → ∃ ts, A.triplets = .ok ts ∧
      (∀ i < A.rows, ∀ j < A.cols,
        ∃ e, A.entry? i j = .ok e ∧ ∀ v, e = some v ↔ ⟨i, j, v⟩ ∈ ts) ∧
      (∀ (a b : T) (x y : List T), x.length = A.cols → y.length = A.rows →
        ∃ out, A.mulAdd a x b y = .ok out ∧ out.length = A.rows) ∧
      ∀ (a b : T) (x y : List T), x.length = A.rows → y.length = A.cols →
        ∃ out, A.transposeMulAdd a x b y = .ok out ∧ out.length = A.cols) := by
  refine ⟨A.inspect_eq_check, fun hcheck => ?_⟩
  have h : A.InFormat := hcheck
  exact ⟨A.listed, h.triplets_eq_ok, fun _ hi _ hj => h.lookup_iff hi hj,
    fun a b _ _ => h.exists_mulAdd a b, fun a b _ _ => h.exists_transposeMulAdd a b⟩

theorem inspection_secures_access_offset :
    offset.inspect = .ok (.ok ()) ∧ ∃ ts, offset.triplets = .ok ts ∧
      (∀ i < 3, ∀ j < 2, ∃ e, offset.entry? i j = .ok e ∧ ∀ v, e = some v ↔ ⟨i, j, v⟩ ∈ ts) ∧
      (∃ out, offset.mulAdd 2 [1, 1] 1 [1, 1, 1] = .ok out ∧ out.length = 3) ∧
      ∃ out, offset.transposeMulAdd 2 [1, 1, 1] 1 [0, 5] = .ok out ∧ out.length = 2 := by
  obtain ⟨hinspect, haccess⟩ := inspection_secures_access offset
  obtain ⟨ts, htriplets, hlookup, hplain, htransposed⟩ := haccess rfl
  exact ⟨hinspect, ts, htriplets, hlookup, hplain 2 1 _ _ rfl rfl, htransposed 2 1 _ _ rfl rfl⟩

/-- The starts of the two columns run past the rows and back, which is noticed before any column is
cut out. -/
example : (⟨1, 2, [0, 5, 1], [0], [0]⟩ : SparseMatrix ℕ).inspect =
    .ok (.error .badColumnStart) := by
  decide

end PrimalDual.SparseMatrix
