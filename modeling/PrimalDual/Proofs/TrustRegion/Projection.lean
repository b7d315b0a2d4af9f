import PrimalDual.Proofs.TrustRegion.Search

/-!
# What the projection answers

In exact arithmetic the projection finds the point of the path at the given distance from the
anchor, or reports that the path never gets that far.
-/
noncomputable section
namespace PrimalDual.TrustRegion
open Matrix

variable {n : ℕ} {g z : Fin n → ℝ} {l : Fin n → LowerBound ℝ}

/-- The motions of the coordinates of a path. -/
def motions (g : Fin n → ℝ) (l : Fin n → LowerBound ℝ) (z : Fin n → ℝ) : List (Motion ℝ) :=
  List.ofFn fun i => motion (g i) (l i) (z i)

theorem motions_sound (h : ∀ i, (l i).Admits (z i)) : ∀ m ∈ motions g l z, m.Sound := by
  intro m hm
  obtain ⟨i, rfl⟩ := List.mem_ofFn.mp hm
  exact motion_sound (g i) (h i)

theorem travel_eq_sum (h : ∀ i, (l i).Admits (z i)) {t : ℝ} (ht : 0 ≤ t) :
    travel g l z t = ∑ i, (motion (g i) (l i) (z i)).reachAt t :=
  Finset.sum_congr rfl fun i _ => (reachAt_motion (g i) (h i) ht).symm

theorem travel_eq_covered (h : ∀ i, (l i).Admits (z i)) {t : ℝ} (ht : 0 ≤ t) :
    travel g l z t = covered (stops (motions g l z)) (startProfile (motions g l z)) t := by
  rw [covered, ← sum_reachAt, motions, List.map_ofFn, List.sum_ofFn]
  exact travel_eq_sum h ht

theorem travel_zero (h : ∀ i, (l i).Admits (z i)) : travel g l z 0 = 0 := by
  apply Finset.sum_eq_zero
  intro i _
  have hstay : path g l z 0 i = z i := by simpa [path] using LowerBound.clamp_eq_self (h i)
  simp [hstay]

/-- The search fails in one way only. -/
theorem pointAt_error {g z : List ℝ} {l : List (LowerBound ℝ)} {r : ℝ} {e : Error}
    (h : pointAt g l z r = .ok (.error e)) : e = .degenerate := by
  obtain ⟨p, -, h⟩ := bind_eq_ok.mp h
  dsimp only at h
  split at h
  · exact (Except.error.inj (Except.ok.inj h)).symm
  · cases Except.ok.inj h

/-- What is made of the profile that the search ends with. -/
theorem pointAt_eq {r : ℝ} {p : Profile ℝ}
    (hbisect : bisect (breakpoints (motions g l z)) (r * r) (startProfile (motions g l z)) 0
      (stops (motions g l z)).length = .ok p) (hreached : p.reached ≤ r * r) :
    pointAt (List.ofFn g) (List.ofFn l) (List.ofFn z) r =
      if p.moving ≤ 0 then .ok (.error .degenerate)
      else .ok (.ok ⟨√((r * r - p.reached) / p.moving),
        List.ofFn (path g l z √((r * r - p.reached) / p.moving))⟩) := by
  have hmotions : (coordinates (List.ofFn g) (List.ofFn l) (List.ofFn z)).map
      (fun e => motion e.1 e.2.1 e.2.2) = motions g l z := by
    rw [coordinates_ofFn, List.map_ofFn]
    rfl
  have hlength : (breakpoints (motions g l z)).parameters.length =
      (stops (motions g l z)).length := by
    simp [breakpoints]
  simp only [pointAt, hmotions, hlength]
  rw [hbisect, ok_bind]
  simp [not_lt.mpr hreached, pathPoint_ofFn]

/-- The path either reaches the radius and goes on, or stays within it for ever. -/
theorem pointAt_real (h : ∀ i, (l i).Admits (z i)) {r : ℝ} (hr : 0 < r) :
    (∃ t, 0 < t ∧ travel g l z t = r ^ 2 ∧ (∃ u, 0 ≤ u ∧ r ^ 2 < travel g l z u) ∧
      pointAt (List.ofFn g) (List.ofFn l) (List.ofFn z) r =
        .ok (.ok ⟨t, List.ofFn (path g l z t)⟩)) ∨
    ((∀ t, 0 ≤ t → travel g l z t ≤ r ^ 2) ∧
      pointAt (List.ofFn g) (List.ofFn l) (List.ofFn z) r = .ok (.error .degenerate)) := by
  set S := stops (motions g l z) with hS
  set p₀ := startProfile (motions g l z) with hp₀
  have hsound := motions_sound (g := g) h
  have hstops : ∀ e ∈ S, Stop.Sound e := stops_sound hsound
  obtain ⟨hreached₀, hmoving₀⟩ : p₀.reached = 0 ∧ 0 ≤ p₀.moving := startProfile_sound hsound
  obtain ⟨p, m, hbisect, hp⟩ := bisect_located (stops_sorted (motions g l z)) hstops hmoving₀
    (@Located.start S p₀ (r * r))
  have hreached := hp.reached_le (stops_sorted _) hstops hmoving₀ hreached₀ (mul_self_nonneg r)
  have hanswer := pointAt_eq (g := g) (l := l) (z := z) (r := r) hbisect hreached
  by_cases hmoving : p.moving ≤ 0
  · refine .inr ⟨fun t ht => ?_, by rw [hanswer, if_pos hmoving]⟩
    rw [travel_eq_covered h ht, sq]
    exact (hp.covered_le hstops hmoving₀ hmoving ht).trans hreached
  · have hcovered := hp.covered_parameter (stops_sorted _) hstops (not_le.mp hmoving) hreached
    set t := √((r * r - p.reached) / p.moving) with ht
    have htravel : travel g l z t = r ^ 2 := by
      rw [travel_eq_covered h (Real.sqrt_nonneg _), hcovered, sq]
    have hpos : 0 < t := by
      refine (Real.sqrt_nonneg _).lt_of_ne fun hzero => ?_
      rw [← ht] at hzero
      rw [← hzero, travel_zero h] at htravel
      exact (pow_pos hr 2).ne htravel
    obtain ⟨u, hu, hbeyond⟩ :=
      hp.exists_beyond hstops hreached₀ (mul_self_nonneg r) (not_le.mp hmoving)
    rw [← travel_eq_covered h hu, ← sq] at hbeyond
    exact .inl ⟨t, hpos, htravel, ⟨u, hu, hbeyond⟩, by rw [hanswer, if_neg hmoving]⟩

/-- No coordinate of an admissible anchor violates its bound. -/
theorem findIdx?_eq_none (h : ∀ i, (l i).Admits (z i)) :
    ((List.ofFn l).zip (List.ofFn z)).findIdx?
      (fun e => e.1.excludes e.2 || Scalar.isNaN e.2) = none := by
  rw [List.findIdx?_eq_none_iff]
  intro e he
  rw [List.zip, zipWith_ofFn] at he
  obtain ⟨i, rfl⟩ := List.mem_ofFn.mp he
  simpa using LowerBound.excludes_eq_false.mpr (h i)

/-- An admissible anchor is projected along the path, unless all coordinates are bounded and the
corner of the bounds lies within the radius. -/
theorem project_eq_pointAt (h : ∀ i, (l i).Admits (z i)) {r : ℝ} (hr : 0 < r)
    (hcorner : ∀ corner, LowerBound.corner? (List.ofFn l) = some corner →
      r < Vector.distance corner (List.ofFn z)) :
    project (List.ofFn g) (List.ofFn l) (List.ofFn z) r =
      pointAt (List.ofFn g) (List.ofFn l) (List.ofFn z) r := by
  have hradius : (!(Scalar.isFinite r && decide (0 < r))) = false := by simp [hr]
  unfold project
  simp only [List.length_ofFn, ne_eq, not_true_eq_false, or_self, if_false,
    findIdx?_eq_none h, hradius]
  cases hc : LowerBound.corner? (List.ofFn l) with
  | none => rfl
  | some corner => simp [not_le.mpr (hcorner corner hc)]

/-- An admissible anchor is not rejected, whatever the gradient and the radius. -/
theorem project_ne_infeasibleAnchor (h : ∀ i, (l i).Admits (z i)) (g : List ℝ) (r : ℝ) (i : ℕ) :
    project g (List.ofFn l) (List.ofFn z) r ≠ .ok (.error (.infeasibleAnchor i)) := by
  intro hproject
  unfold project at hproject
  simp only [findIdx?_eq_none h] at hproject
  split at hproject
  · cases hproject
  · split at hproject
    · cases hproject
    · split at hproject
      · split at hproject
        · cases hproject
        · cases pointAt_error hproject
      · cases pointAt_error hproject

/-- The point with each coordinate that descends at its bound. -/
def cornerAt (g : Fin n → ℝ) (l : Fin n → LowerBound ℝ) (z : Fin n → ℝ) : Fin n → ℝ :=
  fun i => if 0 < g i then (l i).value else z i

/-- A coordinate that moves without end leaves every ball. -/
theorem eq_zero_of_unstopped {i : Fin n} (hi : g i ≤ 0 ∨ l i = .unbounded)
    (h : ∀ i, (l i).Admits (z i)) {radiusSquared : ℝ}
    (hbounded : ∀ t, 0 ≤ t → travel g l z t ≤ radiusSquared) : g i = 0 := by
  by_contra hne
  have hmove : ∀ t, 0 ≤ t → path g l z t i = z i - t * g i := by
    intro t ht
    have hadmits := h i
    unfold path
    rcases hi with hg | hl
    · apply LowerBound.clamp_eq_self
      cases hcase : l i with
      | unbounded => trivial
      | atLeast b =>
        rw [hcase] at hadmits
        have hb : b ≤ z i := hadmits
        change b ≤ z i - t * g i
        nlinarith
    · rw [hl, LowerBound.clamp_unbounded]
  have hsquare : 0 < g i ^ 2 := by positivity
  have hradius : 0 ≤ radiusSquared := (Finset.sum_nonneg fun i _ => sq_nonneg _).trans
    (hbounded 0 le_rfl)
  set t := √((radiusSquared + 1) / g i ^ 2) with ht
  have hfar : t ^ 2 * g i ^ 2 = radiusSquared + 1 := by
    rw [ht, Real.sq_sqrt (by positivity)]
    field_simp
  have hle := (sq_le_travel t i).trans (hbounded t (Real.sqrt_nonneg _))
  rw [hmove t (Real.sqrt_nonneg _)] at hle
  nlinarith

/-- A path that stays within a distance ends in the corner. -/
theorem exists_path_eq_cornerAt (h : ∀ i, (l i).Admits (z i)) {radiusSquared : ℝ}
    (hbounded : ∀ t, 0 ≤ t → travel g l z t ≤ radiusSquared) :
    ∃ t, 0 ≤ t ∧ path g l z t = cornerAt g l z := by
  set t := ∑ i, |(z i - (l i).value) / g i| with ht
  have hstop : ∀ i, (z i - (l i).value) / g i ≤ t := fun i =>
    (le_abs_self _).trans (Finset.single_le_sum (f := fun i => |(z i - (l i).value) / g i|)
      (fun i _ => abs_nonneg _) (Finset.mem_univ i))
  refine ⟨t, Finset.sum_nonneg fun i _ => abs_nonneg _, ?_⟩
  funext i
  unfold path cornerAt
  split_ifs with hg
  · cases hl : l i with
    | unbounded => exact absurd (eq_zero_of_unstopped (.inr hl) h hbounded) hg.ne'
    | atLeast b =>
      have hb := (div_le_iff₀ hg).mp (hstop i)
      rw [hl] at hb
      have hle : z i - t * g i ≤ b := by
        have hvalue : (LowerBound.atLeast b).value = b := rfl
        rw [hvalue] at hb
        linarith
      rw [LowerBound.clamp_atLeast, max_eq_left hle]
      rfl
  · have hzero := eq_zero_of_unstopped (.inl (not_lt.mp hg)) h hbounded
    rw [hzero, mul_zero, sub_zero, LowerBound.clamp_eq_self (h i)]

/-- In the corner of a path that stays within a distance every coordinate is as good as it can
be. -/
theorem cornerAt_minimises (h : ∀ i, (l i).Admits (z i)) {radiusSquared : ℝ}
    (hbounded : ∀ t, 0 ≤ t → travel g l z t ≤ radiusSquared) {v : Fin n → ℝ}
    (hv : ∀ i, (l i).Admits (v i)) : g ⬝ᵥ cornerAt g l z ≤ g ⬝ᵥ v := by
  apply Finset.sum_le_sum
  intro i _
  unfold cornerAt
  split_ifs with hg
  · apply mul_le_mul_of_nonneg_left _ hg.le
    cases hl : l i with
    | unbounded => exact absurd (eq_zero_of_unstopped (.inr hl) h hbounded) hg.ne'
    | atLeast b =>
      have hadmits := hv i
      rw [hl] at hadmits
      exact hadmits
  · simp [eq_zero_of_unstopped (.inl (not_lt.mp hg)) h hbounded]

end PrimalDual.TrustRegion

end
