import PrimalDual.Proofs.TrustRegion.Path

/-!
# What the coordinates of a path contribute

Each coordinate contributes to the squared distance from the anchor in one of three ways. The sum of
the contributions is split into the parts that the search starts from: what stands still, what moves
without end, and the sorted coordinates that stop.
-/
noncomputable section
namespace PrimalDual.TrustRegion

namespace Motion

/-- The squared distance that a coordinate has covered at a parameter. -/
def reachAt (t : ℝ) : Motion ℝ → ℝ
  | .free slope => t ^ 2 * slope
  | .fixed reach => reach
  | .stopping breakpoint reach slope => if breakpoint ≤ t then reach else t ^ 2 * slope

/-- The relations between the parts of a motion that starts at an admissible value. -/
def Sound : Motion ℝ → Prop
  | .free slope => 0 ≤ slope
  | .fixed reach => reach = 0
  | .stopping breakpoint reach slope =>
    0 < breakpoint ∧ 0 < slope ∧ reach = breakpoint ^ 2 * slope

end Motion

theorem motion_atLeast (g l z : ℝ) : motion g (.atLeast l) z =
    if g ≤ 0 then .free (g * g)
    else if (z - l) / g ≤ 0 then .fixed ((l - z) ^ 2)
    else .stopping ((z - l) / g) ((l - z) ^ 2) (g * g) := by
  simp [motion, Scalar.square_real]

theorem motion_sound (g : ℝ) {l : LowerBound ℝ} {z : ℝ} (h : l.Admits z) :
    (motion g l z).Sound := by
  cases l with
  | unbounded => exact mul_self_nonneg g
  | atLeast l =>
    have hl : l ≤ z := h
    rw [motion_atLeast]
    split_ifs with hg hb
    · exact mul_self_nonneg g
    · have hg' : 0 < g := not_le.mp hg
      have hz : z - l ≤ 0 := by simpa using (div_le_iff₀ hg').mp hb
      have hzl : z = l := le_antisymm (by linarith) hl
      simp [Motion.Sound, hzl]
    · have hg' : 0 < g := not_le.mp hg
      refine ⟨not_le.mp hb, mul_pos hg' hg', ?_⟩
      field_simp
      ring

theorem reachAt_motion (g : ℝ) {l : LowerBound ℝ} {z t : ℝ} (h : l.Admits z) (ht : 0 ≤ t) :
    (motion g l z).reachAt t = (l.clamp (z - t * g) - z) ^ 2 := by
  cases l with
  | unbounded =>
    change t ^ 2 * (g * g) = (z - t * g - z) ^ 2
    ring
  | atLeast l =>
    have hl : l ≤ z := h
    rw [motion_atLeast, LowerBound.clamp_atLeast]
    split_ifs with hg hb
    · have hle : l ≤ z - t * g := by nlinarith
      rw [max_eq_right hle, Motion.reachAt]
      ring
    · have hg' : 0 < g := not_le.mp hg
      have hz : z - l ≤ 0 := by simpa using (div_le_iff₀ hg').mp hb
      have hle : z - t * g ≤ l := by nlinarith
      rw [max_eq_left hle, Motion.reachAt]
    · have hg' : 0 < g := not_le.mp hg
      rw [Motion.reachAt]
      split_ifs with hbt
      · have hle : z - t * g ≤ l := by
          have := (div_le_iff₀ hg').mp hbt
          linarith
        rw [max_eq_left hle]
      · have hle : l ≤ z - t * g := by
          have := (lt_div_iff₀ hg').mp (not_le.mp hbt)
          linarith
        rw [max_eq_right hle]
        ring

/-- A breakpoint with the squared distance covered there and the squared gradient until then. -/
abbrev Stop := ℝ × ℝ × ℝ

namespace Stop

def reachAt (t : ℝ) (e : Stop) : ℝ := if e.1 ≤ t then e.2.1 else t ^ 2 * e.2.2

def Sound (e : Stop) : Prop := 0 < e.1 ∧ 0 < e.2.2 ∧ e.2.1 = e.1 ^ 2 * e.2.2

theorem reachAt_of_le {e : Stop} {t : ℝ} (h : e.1 ≤ t) : reachAt t e = e.2.1 := if_pos h

theorem reachAt_of_ge {e : Stop} (he : Sound e) {t : ℝ} (h : t ≤ e.1) :
    reachAt t e = t ^ 2 * e.2.2 := by
  unfold reachAt
  split_ifs with hle
  · rw [he.2.2, le_antisymm h hle]
  · rfl

/-- A coordinate never returns. -/
theorem reachAt_mono {e : Stop} (he : Sound e) {t u : ℝ} (ht : 0 ≤ t) (htu : t ≤ u) :
    reachAt t e ≤ reachAt u e := by
  have hslope := he.2.1
  rcases le_total u e.1 with hu | hu
  · rw [reachAt_of_ge he hu, reachAt_of_ge he (htu.trans hu)]
    have hsq : t ^ 2 ≤ u ^ 2 := pow_le_pow_left₀ ht htu 2
    exact mul_le_mul_of_nonneg_right hsq hslope.le
  · rw [reachAt_of_le hu]
    rcases le_total t e.1 with hte | hte
    · rw [reachAt_of_ge he hte, he.2.2]
      have hsq : t ^ 2 ≤ e.1 ^ 2 := pow_le_pow_left₀ ht hte 2
      exact mul_le_mul_of_nonneg_right hsq hslope.le
    · rw [reachAt_of_le hte]

theorem reachAt_nonneg {e : Stop} (he : Sound e) {t : ℝ} (ht : 0 ≤ t) : 0 ≤ reachAt t e := by
  have hzero : reachAt 0 e = 0 := by
    rw [reachAt_of_ge he he.1.le]
    ring
  exact hzero.symm.le.trans (reachAt_mono he le_rfl ht)

theorem reachAt_le {e : Stop} (he : Sound e) {t : ℝ} (ht : 0 ≤ t) : reachAt t e ≤ e.2.1 :=
  (reachAt_mono he ht (le_max_left t e.1)).trans (reachAt_of_le (le_max_right t e.1)).le

end Stop

theorem Motion.reachAt_stopping (t breakpoint reach slope : ℝ) :
    (Motion.stopping breakpoint reach slope).reachAt t =
      Stop.reachAt t (breakpoint, reach, slope) := rfl

/-- A coordinate gets further, or it has stopped for good. -/
theorem Motion.reachAt_lt_or_settled {m : Motion ℝ} (hm : m.Sound) {t u : ℝ} (ht : 0 ≤ t)
    (htu : t < u) : m.reachAt t < m.reachAt u ∨ ∀ v, t ≤ v → m.reachAt v = m.reachAt t := by
  cases m with
  | free slope =>
    have hslope : 0 ≤ slope := hm
    rcases hslope.eq_or_lt with rfl | hpos
    · exact .inr fun v _ => by simp [Motion.reachAt]
    · have hsq : t ^ 2 < u ^ 2 := pow_lt_pow_left₀ htu ht two_ne_zero
      exact .inl (mul_lt_mul_of_pos_right hsq hpos)
  | fixed reach => exact .inr fun v _ => rfl
  | stopping breakpoint reach slope =>
    simp only [Motion.reachAt_stopping]
    have he : Stop.Sound (breakpoint, reach, slope) := hm
    generalize (breakpoint, reach, slope) = e at he ⊢
    rcases le_or_gt e.1 t with hstopped | hmoving
    · refine .inr fun v hv => ?_
      rw [Stop.reachAt_of_le (hstopped.trans hv), Stop.reachAt_of_le hstopped]
    · -- Up to the breakpoint the coordinate gets further, and it keeps what it has covered.
      have hfirst : t < min u e.1 := lt_min htu hmoving
      have hsq : t ^ 2 < min u e.1 ^ 2 := pow_lt_pow_left₀ hfirst ht two_ne_zero
      have hfurther : Stop.reachAt t e < Stop.reachAt (min u e.1) e := by
        rw [Stop.reachAt_of_ge he hmoving.le, Stop.reachAt_of_ge he (min_le_right u e.1)]
        exact mul_lt_mul_of_pos_right hsq he.2.1
      exact .inl (hfurther.trans_le
        (Stop.reachAt_mono he (ht.trans hfirst.le) (min_le_left u e.1)))

theorem stops_sorted (motions : List (Motion ℝ)) :
    (stops motions).Pairwise fun a b => a.1 ≤ b.1 := by
  have hsorted := @List.pairwise_mergeSort Stop (fun a b => !(b.1 < a.1))
    (fun a b c hab hbc => by simp at hab hbc ⊢; exact hab.trans hbc)
    (fun a b => by simp [le_total])
    (motions.filterMap Motion.stop?)
  exact hsorted.imp fun h => by simpa using h

theorem stops_sound {motions : List (Motion ℝ)} (h : ∀ m ∈ motions, m.Sound) :
    ∀ e ∈ stops motions, Stop.Sound e := by
  intro e he
  obtain ⟨m, hm, hme⟩ := List.mem_filterMap.mp (List.mem_mergeSort.mp he)
  cases m with
  | free slope => simp [Motion.stop?] at hme
  | fixed reach => simp [Motion.stop?] at hme
  | stopping breakpoint reach slope =>
    obtain rfl := Option.some.inj hme
    exact h _ hm

theorem foldl_include_sound {motions : List (Motion ℝ)} (h : ∀ m ∈ motions, m.Sound)
    {p : Profile ℝ} (hp : p.reached = 0 ∧ 0 ≤ p.moving) :
    (motions.foldl Profile.include p).reached = 0 ∧
      0 ≤ (motions.foldl Profile.include p).moving := by
  induction motions generalizing p with
  | nil => exact hp
  | cons m motions ih =>
    have hm := h m List.mem_cons_self
    apply ih fun m' hm' => h m' (List.mem_cons_of_mem m hm')
    cases m with
    | free slope => exact ⟨hp.1, add_nonneg hp.2 hm⟩
    | fixed reach =>
      have hr : reach = 0 := hm
      exact ⟨by simp [Profile.include, hp.1, hr], hp.2⟩
    | stopping breakpoint reach slope => exact hp

theorem startProfile_sound {motions : List (Motion ℝ)} (h : ∀ m ∈ motions, m.Sound) :
    (startProfile motions).reached = 0 ∧ 0 ≤ (startProfile motions).moving :=
  foldl_include_sound h ⟨rfl, le_rfl⟩

theorem foldl_include_reachAt (motions : List (Motion ℝ)) (p : Profile ℝ) (t : ℝ) :
    (motions.foldl Profile.include p).reached + t ^ 2 * (motions.foldl Profile.include p).moving +
      ((motions.filterMap Motion.stop?).map (Stop.reachAt t)).sum =
    p.reached + t ^ 2 * p.moving + (motions.map (Motion.reachAt t)).sum := by
  induction motions generalizing p with
  | nil => simp
  | cons m motions ih =>
    rw [List.foldl_cons, List.map_cons, List.sum_cons]
    cases m with
    | free slope =>
      have hstep := ih (p.include (.free slope))
      simp only [Motion.stop?, List.filterMap_cons]
      rw [hstep, Profile.include, Motion.reachAt]
      ring
    | fixed reach =>
      have hstep := ih (p.include (.fixed reach))
      simp only [Motion.stop?, List.filterMap_cons]
      rw [hstep, Profile.include, Motion.reachAt]
      ring
    | stopping breakpoint reach slope =>
      have hstep := ih p
      simp only [Motion.stop?, List.filterMap_cons, List.map_cons, List.sum_cons,
        Profile.include] at hstep ⊢
      have hsame := Motion.reachAt_stopping t breakpoint reach slope
      linarith

/-- What the coordinates cover at a parameter, by kinds. -/
theorem sum_reachAt (motions : List (Motion ℝ)) (t : ℝ) :
    (motions.map (Motion.reachAt t)).sum =
      (startProfile motions).reached + t ^ 2 * (startProfile motions).moving +
        ((stops motions).map (Stop.reachAt t)).sum := by
  have hperm : ((stops motions).map (Stop.reachAt t)).sum =
      ((motions.filterMap Motion.stop?).map (Stop.reachAt t)).sum :=
    ((List.mergeSort_perm _ _).map _).sum_eq
  rw [hperm, startProfile, foldl_include_reachAt]
  simp

end PrimalDual.TrustRegion

end
