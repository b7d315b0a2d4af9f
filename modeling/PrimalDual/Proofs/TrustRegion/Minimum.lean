import PrimalDual.Proofs.TrustRegion.Projection

/-!
# The projection minimises the gradient

Where the corner of the bounds lies beyond the radius, an answer of the projection is a point of the
path at distance `r` from the anchor. It is admissible, within the radius, and no other such point
has a smaller inner product with the gradient.
-/
noncomputable section
namespace PrimalDual.TrustRegion
open Matrix

/-- The admissible points within a distance of the anchor. -/
def region (l : List (LowerBound ℝ)) (z : List ℝ) (r : ℝ) : Set (List ℝ) :=
  {v | List.Forall₂ LowerBound.Admits l v ∧ Vector.distance v z ≤ r}

section Functions

variable {n : ℕ} {g z : Fin n → ℝ} {l : Fin n → LowerBound ℝ} {r : ℝ}

theorem ofFn_mem_region_iff (hr : 0 < r) {v : Fin n → ℝ} :
    List.ofFn v ∈ region (List.ofFn l) (List.ofFn z) r ↔
      (∀ i, (l i).Admits (v i)) ∧ ∑ i, (v i - z i) ^ 2 ≤ r ^ 2 := by
  rw [region, Set.mem_ofPred_eq, forall₂_ofFn_iff, Vector.distance_ofFn, Real.sqrt_le_left hr.le]

variable (h : ∀ i, (l i).Admits (z i)) (hr : 0 < r)
  (hcorner : ∀ corner, LowerBound.corner? (List.ofFn l) = some corner →
    r < Vector.distance corner (List.ofFn z))
include h hr hcorner

/-- An answer of the projection is a point of the path at the distance asked for. -/
theorem eq_path_of_project {solution : Solution ℝ}
    (hsolution : project (List.ofFn g) (List.ofFn l) (List.ofFn z) r = .ok (.ok solution)) :
    ∃ t, 0 < t ∧ travel g l z t = r ^ 2 ∧ solution.point = List.ofFn (path g l z t) := by
  rw [project_eq_pointAt h hr hcorner] at hsolution
  rcases @pointAt_real n g z l h r hr with ⟨t, ht, htravel, -, hpoint⟩ | ⟨-, hpoint⟩
  · obtain rfl := Except.ok.inj (ok_unique hpoint hsolution)
    exact ⟨t, ht, htravel, rfl⟩
  · cases ok_unique hpoint hsolution

theorem exists_solution (hbeyond : ∃ t, 0 ≤ t ∧ r ^ 2 < travel g l z t) :
    ∃ solution, project (List.ofFn g) (List.ofFn l) (List.ofFn z) r = .ok (.ok solution) := by
  rw [project_eq_pointAt h hr hcorner]
  rcases @pointAt_real n g z l h r hr with ⟨t, -, -, -, hpoint⟩ | ⟨hshort, -⟩
  · exact ⟨_, hpoint⟩
  · obtain ⟨t, ht, hfar⟩ := hbeyond
    exact absurd (hshort t ht) hfar.not_ge

end Functions

variable {g z : List ℝ} {l : List (LowerBound ℝ)} {r : ℝ} {solution : Solution ℝ}

/-- Only lists of one length are projected. -/
theorem lengths_of_project (h : project g l z r = .ok (.ok solution)) :
    g.length = z.length ∧ l.length = z.length := by
  unfold project at h
  by_contra hne
  rw [not_and_or] at hne
  rw [if_pos hne] at h
  cases h

/-- The answer of the projection is the best point of its region. -/
theorem project_minimises (hz : List.Forall₂ LowerBound.Admits l z) (hr : 0 < r)
    (hcorner : ∀ corner, LowerBound.corner? l = some corner → r < Vector.distance corner z)
    (hsolution : project g l z r = .ok (.ok solution)) :
    solution.point ∈ region l z r ∧
      ∀ v ∈ region l z r, Vector.inner g solution.point ≤ Vector.inner g v := by
  -- All lists have one length, and so they stand for functions on it.
  obtain ⟨hg, hl⟩ := lengths_of_project hsolution
  obtain ⟨n, hn⟩ : ∃ n, z.length = n := ⟨_, rfl⟩
  obtain ⟨g, rfl⟩ := exists_eq_ofFn (hg.trans hn)
  obtain ⟨l, rfl⟩ := exists_eq_ofFn (hl.trans hn)
  obtain ⟨z, rfl⟩ := exists_eq_ofFn hn
  have hadmits := forall₂_ofFn_iff.mp hz
  obtain ⟨t, ht, htravel, hpoint⟩ := eq_path_of_project hadmits hr hcorner hsolution
  rw [hpoint]
  refine ⟨(ofFn_mem_region_iff hr).mpr ⟨admits_path g l z t, htravel.le⟩, fun v hv => ?_⟩
  obtain ⟨v, rfl⟩ := exists_eq_ofFn (hv.1.length_eq.symm.trans (List.length_ofFn))
  obtain ⟨hbounds, hdist⟩ := (ofFn_mem_region_iff hr).mp hv
  rw [Vector.inner_ofFn, Vector.inner_ofFn]
  exact path_minimises ht hbounds (hdist.trans_eq htravel.symm)

/-- One coordinate is stopped by its bound on the way, the other one goes on. -/
theorem project_minimises_stopping :
    ∃ solution, project [1, 1] [.atLeast 0, .unbounded] [1, 0] (2 : ℝ) = .ok (.ok solution) ∧
      solution.point ∈ region [.atLeast 0, .unbounded] [1, 0] 2 ∧
      Vector.inner [1, 1] solution.point ≤ Vector.inner [1, 1] [0, -1] := by
  set l : Fin 2 → LowerBound ℝ := ![.atLeast 0, .unbounded] with hl
  set z : Fin 2 → ℝ := ![1, 0] with hz
  have hadmits : ∀ i, (l i).Admits (z i) := by
    intro i
    fin_cases i <;> simp [hl, hz, LowerBound.Admits]
  have hcorner : ∀ corner, LowerBound.corner? (List.ofFn l) = some corner →
      2 < Vector.distance corner (List.ofFn z) := by
    intro corner hsome
    cases (LowerBound.corner?_eq_none (List.mem_ofFn.mpr ⟨1, rfl⟩)).symm.trans hsome
  have hfar : (2 : ℝ) ^ 2 < travel ![1, 1] l z 3 := by
    norm_num [travel, path, Fin.sum_univ_two, hl, hz]
  obtain ⟨solution, hsolution⟩ := exists_solution hadmits two_pos hcorner ⟨3, by norm_num, hfar⟩
  have hother : List.ofFn ![0, -1] ∈ region (List.ofFn l) (List.ofFn z) 2 := by
    rw [ofFn_mem_region_iff two_pos]
    constructor
    · intro i
      fin_cases i <;> simp [hl, LowerBound.Admits]
    · norm_num [Fin.sum_univ_two, hz]
  obtain ⟨hmem, hleast⟩ :=
    project_minimises (forall₂_ofFn_iff.mpr hadmits) two_pos hcorner hsolution
  exact ⟨solution, by simpa [hl, hz, List.ofFn_succ] using hsolution,
    by simpa [hl, hz, List.ofFn_succ] using hmem,
    by simpa [List.ofFn_succ] using hleast _ hother⟩

end PrimalDual.TrustRegion

end
