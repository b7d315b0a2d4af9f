import PrimalDual.Proofs.TrustRegion.Projection

/-!
# Where the path meets a radius

The distance from the anchor grows along the path until all coordinates have stopped. A path that
goes beyond a radius therefore meets it exactly once, and the projection answers with that point. A
path that does not go beyond it, though it may come to rest there, is reported as degenerate.
-/
noncomputable section
namespace PrimalDual.TrustRegion

variable {n : ℕ} {g : Fin n → ℝ} {l : Fin n → LowerBound ℝ} {z : Fin n → ℝ}

section Distance

variable (h : ∀ i, (l i).Admits (z i))
include h

/-- The path gets further, or it has come to rest. -/
theorem travel_lt_or_settled {t u : ℝ} (ht : 0 ≤ t) (htu : t < u) :
    travel g l z t < travel g l z u ∨ ∀ v, t ≤ v → travel g l z v = travel g l z t := by
  have hcoordinate i := Motion.reachAt_lt_or_settled (motion_sound (g i) (h i)) ht htu
  by_cases hsettled : ∀ i v, t ≤ v →
      (motion (g i) (l i) (z i)).reachAt v = (motion (g i) (l i) (z i)).reachAt t
  · refine .inr fun v hv => ?_
    rw [travel_eq_sum h (ht.trans hv), travel_eq_sum h ht]
    exact Finset.sum_congr rfl fun i _ => hsettled i v hv
  · obtain ⟨i, hi⟩ := not_forall.mp hsettled
    have hfurther := (hcoordinate i).resolve_right hi
    rw [travel_eq_sum h ht, travel_eq_sum h (ht.trans htu.le)]
    refine .inl (Finset.sum_lt_sum (fun j _ => ?_) ⟨i, Finset.mem_univ i, hfurther⟩)
    rcases hcoordinate j with hlt | hrest
    · exact hlt.le
    · exact (hrest u htu.le).ge

theorem travel_mono {t u : ℝ} (ht : 0 ≤ t) (htu : t ≤ u) : travel g l z t ≤ travel g l z u := by
  rcases htu.eq_or_lt with rfl | hlt
  · exact le_rfl
  · rcases travel_lt_or_settled h ht hlt with hfurther | hrest
    · exact hfurther.le
    · exact (hrest u htu).ge

/-- Once the path has been at one distance twice, it never gets further. -/
theorem travel_le_of_eq {t u v : ℝ} (ht : 0 ≤ t) (htu : t < u)
    (heq : travel g l z t = travel g l z u) (hv : 0 ≤ v) : travel g l z v ≤ travel g l z t := by
  rcases le_total v t with hvt | htv
  · exact travel_mono h hv hvt
  · have hrest := (travel_lt_or_settled h ht htu).resolve_left heq.not_lt
    exact (hrest v htv).le

/-- A distance that the path goes beyond is met only once. -/
theorem eq_of_travel_eq {t u v : ℝ} (ht : 0 ≤ t) (hu : 0 ≤ u) (hv : 0 ≤ v)
    (heq : travel g l z t = travel g l z u) (hbeyond : travel g l z t < travel g l z v) :
    t = u := by
  rcases lt_trichotomy t u with hlt | htu | hlt
  · exact absurd (travel_le_of_eq h ht hlt heq hv) hbeyond.not_ge
  · exact htu
  · exact absurd (travel_le_of_eq h hu hlt heq.symm hv) (heq ▸ hbeyond).not_ge

end Distance

variable (g l z) in
/-- The distance from the anchor to the point of the path at a parameter. -/
def pathDistance (t : ℝ) : ℝ := √(travel g l z t)

variable (l z) in
/-- The corner of the bounds is further from the anchor than `r`. This is so in particular when
there is a coordinate without a bound. -/
def CornerBeyond (r : ℝ) : Prop :=
  ∀ corner : Fin n → ℝ, (∀ i, l i = .atLeast (corner i)) → r < √(∑ i, (corner i - z i) ^ 2)

theorem cornerBeyond_of_unbounded {i : Fin n} (hi : l i = .unbounded) (r : ℝ) :
    CornerBeyond l z r := by
  intro corner hcorner
  rw [hcorner i] at hi
  cases hi

theorem CornerBeyond.lt_distance {r : ℝ} (h : CornerBeyond l z r) {corner : List ℝ}
    (hcorner : LowerBound.corner? (List.ofFn l) = some corner) :
    r < Vector.distance corner (List.ofFn z) := by
  rw [LowerBound.corner?_eq_some_iff] at hcorner
  have hlength : corner.length = n := by
    have hlengths := congrArg List.length hcorner
    simpa using hlengths.symm
  rw [← ofFn_coords hlength, List.map_ofFn] at hcorner
  rw [← ofFn_coords hlength, Vector.distance_ofFn]
  exact h _ fun i => congrFun (List.ofFn_injective hcorner) i

/-- A corner within the radius is the answer, whatever the gradient. -/
theorem project_eq_corner (h : ∀ i, (l i).Admits (z i)) {r : ℝ} (hr : 0 < r) {corner : Fin n → ℝ}
    (hcorner : ∀ i, l i = .atLeast (corner i)) (hdist : √(∑ i, (corner i - z i) ^ 2) ≤ r) :
    project (List.ofFn g) (List.ofFn l) (List.ofFn z) r = .ok (.ok ⟨0, List.ofFn corner⟩) := by
  have hradius : (!(Scalar.isFinite r && decide (0 < r))) = false := by simp [hr]
  have hbounds : LowerBound.corner? (List.ofFn l) = some (List.ofFn corner) := by
    rw [LowerBound.corner?_eq_some_iff, List.map_ofFn]
    exact congrArg List.ofFn (funext hcorner)
  unfold project
  simp only [List.length_ofFn, ne_eq, not_true_eq_false, or_self, if_false,
    findIdx?_eq_none h, hradius, hbounds]
  simp [Vector.distance_ofFn, hdist]

/-- Where the path goes beyond the radius, the projection finds the one point at that distance.
Where it does not, there is no projection. -/
theorem project_spec (h : ∀ i, (l i).Admits (z i)) {r : ℝ} (hr : 0 < r)
    (hcorner : CornerBeyond l z r) :
    ((∃ t, 0 ≤ t ∧ r < pathDistance g l z t) →
      ∃ t, 0 < t ∧ project (List.ofFn g) (List.ofFn l) (List.ofFn z) r =
          .ok (.ok ⟨t, List.ofFn (path g l z t)⟩) ∧
        pathDistance g l z t = r ∧ ∀ u, 0 ≤ u → pathDistance g l z u = r → u = t) ∧
    ((∀ t, 0 ≤ t → pathDistance g l z t ≤ r) →
      project (List.ofFn g) (List.ofFn l) (List.ofFn z) r = .ok (.error .degenerate)) := by
  have hlt (t : ℝ) : r < pathDistance g l z t ↔ r ^ 2 < travel g l z t := Real.lt_sqrt hr.le
  have hle (t : ℝ) : pathDistance g l z t ≤ r ↔ travel g l z t ≤ r ^ 2 := Real.sqrt_le_left hr.le
  have heq (t : ℝ) : pathDistance g l z t = r ↔ travel g l z t = r ^ 2 :=
    Real.sqrt_eq_iff_eq_sq (Finset.sum_nonneg fun i _ => sq_nonneg _) hr.le
  rw [project_eq_pointAt h hr fun corner hc => hcorner.lt_distance hc]
  simp only [hlt, hle, heq]
  rcases @pointAt_real n g z l h r hr with ⟨t, ht, htravel, ⟨v, hv, hbeyond⟩, hpoint⟩ |
    ⟨hshort, hpoint⟩
  · refine ⟨fun _ => ⟨t, ht, hpoint, htravel, fun u hu htravel' => ?_⟩, fun hshort => ?_⟩
    · exact eq_of_travel_eq h hu ht.le hv (htravel'.trans htravel.symm) (htravel'.symm ▸ hbeyond)
    · exact absurd (hshort v hv) hbeyond.not_ge
  · refine ⟨fun ⟨t, ht, hbeyond⟩ => ?_, fun _ => hpoint⟩
    exact absurd (hshort t ht) hbeyond.not_ge

/-- With one coordinate that stops after covering distance one and another without a bound, the
radius two is met if the other one moves, and is out of reach if it does not. -/
theorem project_spec_stopping :
    project [1, 1] [.atLeast 0, .unbounded] [1, 0] (2 : ℝ) = .ok (.ok ⟨√3, [0, -√3]⟩) ∧
      project [1, 0] [.atLeast 0, .unbounded] [1, 0] (2 : ℝ) = .ok (.error .degenerate) := by
  set l : Fin 2 → LowerBound ℝ := ![.atLeast 0, .unbounded] with hl
  set z : Fin 2 → ℝ := ![1, 0] with hz
  have hadmits : ∀ i, (l i).Admits (z i) := by
    intro i
    fin_cases i <;> simp [hl, hz, LowerBound.Admits]
  have hcorner : CornerBeyond l z 2 := cornerBeyond_of_unbounded (i := 1) rfl 2
  have htravel (a b t : ℝ) : travel ![a, b] l z t = (max 0 (1 - t * a) - 1) ^ 2 + (t * b) ^ 2 := by
    simp [travel, path, Fin.sum_univ_two, hl, hz]
  constructor
  · have hfar : 2 < pathDistance ![1, 1] l z 3 := by
      rw [pathDistance, htravel, Real.lt_sqrt two_pos.le]
      norm_num
    obtain ⟨t, -, hproject, -, hunique⟩ :=
      (project_spec hadmits two_pos hcorner).1 ⟨3, by norm_num, hfar⟩
    have hroot : 1 ≤ √3 := Real.one_le_sqrt.mpr (by norm_num)
    have hstopped : max 0 (1 - √3 * 1) = 0 := max_eq_left (by linarith)
    have hmet : pathDistance ![1, 1] l z √3 = 2 := by
      have hsquare : (0 - 1) ^ 2 + 3 = (2 : ℝ) ^ 2 := by norm_num
      rw [pathDistance, htravel, hstopped, mul_one, Real.sq_sqrt (by norm_num), hsquare,
        Real.sqrt_sq two_pos.le]
    obtain rfl := hunique _ (Real.sqrt_nonneg _) hmet
    simpa [hl, hz, path, List.ofFn_succ, hroot] using hproject
  · have hshort : ∀ t, 0 ≤ t → pathDistance ![1, 0] l z t ≤ 2 := by
      intro t ht
      have hlow : -1 ≤ max 0 (1 - t * 1) - 1 := by
        have := le_max_left 0 (1 - t * 1)
        linarith
      have hhigh : max 0 (1 - t * 1) - 1 ≤ 0 := by
        have := max_le zero_le_one (show 1 - t * 1 ≤ 1 by linarith)
        linarith
      rw [pathDistance, htravel, Real.sqrt_le_left two_pos.le]
      nlinarith
    have hproject := (project_spec hadmits two_pos hcorner).2 hshort
    simpa [hl, hz, List.ofFn_succ] using hproject

end PrimalDual.TrustRegion

end
