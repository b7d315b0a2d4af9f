import PrimalDual.Proofs.TrustRegion.Motion

/-!
# The search for the piece of the path

Between neighbouring breakpoints the squared distance is a constant plus a multiple of the squared
parameter. The bisection keeps a window of breakpoints: those before it lie within the radius, those
after it beyond, and the profile holds what both groups contribute.
-/
noncomputable section
namespace PrimalDual.TrustRegion

theorem entryAt_prefixSums {xs : List ℝ} {i : ℕ} (h : i ≤ xs.length) (c : ℝ) :
    entryAt (prefixSums c xs) i = .ok (c + (xs.take i).sum) := by
  induction xs generalizing c i with
  | nil =>
    have hi : i = 0 := Nat.le_zero.mp h
    simp [hi, prefixSums, entryAt]
  | cons x xs ih =>
    cases i with
    | zero => simp [prefixSums, entryAt]
    | succ i =>
      have hrest := ih (i := i) (by simpa using h) (c + x)
      simpa [prefixSums, entryAt, add_assoc] using hrest

variable (S : List Stop) (p₀ : Profile ℝ)

/-- What the first `m` coordinates cover once they have stopped. -/
def reachSum (m : ℕ) : ℝ := ((S.take m).map (·.2.1)).sum

/-- The squared gradient of the first `m` coordinates. -/
def slopeSum (m : ℕ) : ℝ := ((S.take m).map (·.2.2)).sum

/-- The squared distance covered at a parameter. -/
def covered (t : ℝ) : ℝ :=
  p₀.reached + t ^ 2 * p₀.moving + (S.map (Stop.reachAt t)).sum

variable {S p₀}

theorem slopeSum_add_drop (m : ℕ) :
    slopeSum S m + ((S.drop m).map (·.2.2)).sum = slopeSum S S.length := by
  rw [slopeSum, slopeSum, ← List.sum_append, ← List.map_append, List.take_append_drop,
    List.take_length]

theorem entryAt_reachSum {m : ℕ} (h : m ≤ S.length) :
    entryAt (prefixSums 0 (S.map (·.2.1))) m = .ok (reachSum S m) := by
  rw [entryAt_prefixSums (by simpa using h), zero_add, ← List.map_take]
  rfl

theorem entryAt_slopeSum {m : ℕ} (h : m ≤ S.length) :
    entryAt (prefixSums 0 (S.map (·.2.2))) m = .ok (slopeSum S m) := by
  rw [entryAt_prefixSums (by simpa using h), zero_add, ← List.map_take]
  rfl

theorem covered_mono (hS : ∀ e ∈ S, Stop.Sound e) (hp : 0 ≤ p₀.moving) {t u : ℝ} (ht : 0 ≤ t)
    (htu : t ≤ u) : covered S p₀ t ≤ covered S p₀ u := by
  have hsq : t ^ 2 ≤ u ^ 2 := pow_le_pow_left₀ ht htu 2
  have hfree : t ^ 2 * p₀.moving ≤ u ^ 2 * p₀.moving := mul_le_mul_of_nonneg_right hsq hp
  have hstops : (S.map (Stop.reachAt t)).sum ≤ (S.map (Stop.reachAt u)).sum :=
    List.sum_le_sum fun e he => Stop.reachAt_mono (hS e he) ht htu
  unfold covered
  linarith

/-- On the piece of the path where the first `m` coordinates have stopped and the others have not,
the squared distance is a constant plus a multiple of the squared parameter. -/
theorem covered_piece (hS : ∀ e ∈ S, Stop.Sound e) {t : ℝ} {m : ℕ}
    (hbefore : ∀ e ∈ S.take m, e.1 ≤ t) (hafter : ∀ e ∈ S.drop m, t ≤ e.1) :
    covered S p₀ t = p₀.reached + reachSum S m +
      t ^ 2 * (p₀.moving + (slopeSum S S.length - slopeSum S m)) := by
  have hstopped : (S.take m).map (Stop.reachAt t) = (S.take m).map (·.2.1) :=
    List.map_congr_left fun e he => Stop.reachAt_of_le (hbefore e he)
  have hmoving : (S.drop m).map (Stop.reachAt t) = (S.drop m).map fun e => t ^ 2 * e.2.2 :=
    List.map_congr_left fun e he =>
      Stop.reachAt_of_ge (hS e (List.mem_of_mem_drop he)) (hafter e he)
  have hsplit : (S.map (Stop.reachAt t)).sum =
      reachSum S m + t ^ 2 * ((S.drop m).map (·.2.2)).sum := by
    rw [← List.take_append_drop m S, List.map_append, List.sum_append, hstopped, hmoving,
      List.sum_map_mul_left, List.take_append_drop]
    rfl
  have hslopes := slopeSum_add_drop (S := S) m
  unfold covered
  rw [hsplit, ← hslopes]
  ring

/-- The invariant of the bisection. -/
structure Located (S : List Stop) (p₀ : Profile ℝ) (radiusSquared : ℝ) (p : Profile ℝ)
    (low high : ℕ) : Prop where
  low_le : low ≤ high
  high_le : high ≤ S.length
  reached : p.reached = p₀.reached + reachSum S low
  moving : p.moving = p₀.moving + (slopeSum S S.length - slopeSum S high)
  within : ∀ e ∈ S.take low, covered S p₀ e.1 ≤ radiusSquared
  beyond : ∀ e ∈ S.drop high, radiusSquared < covered S p₀ e.1

theorem Located.start (radiusSquared : ℝ) :
    Located S p₀ radiusSquared p₀ 0 S.length where
  low_le := Nat.zero_le _
  high_le := le_rfl
  reached := by simp [reachSum]
  moving := by simp
  within := by simp
  beyond := by simp

variable {radiusSquared : ℝ} {p : Profile ℝ} {low high : ℕ}

section Sorted

variable (hsorted : S.Pairwise fun a b => a.1 ≤ b.1) (hS : ∀ e ∈ S, Stop.Sound e)
  (hp₀ : 0 ≤ p₀.moving)
include hsorted

theorem le_of_mem_take {m : ℕ} (hm : m < S.length) : ∀ e ∈ S.take (m + 1), e.1 ≤ S[m].1 := by
  intro e he
  obtain ⟨i, hi, rfl⟩ := List.mem_take_iff_getElem.mp he
  have hi' : i < m + 1 := lt_of_lt_of_le hi (min_le_left _ _)
  rcases (Nat.lt_succ_iff.mp hi').eq_or_lt with rfl | hlt
  · exact le_rfl
  · exact List.pairwise_iff_getElem.mp hsorted i m _ hm hlt

theorem ge_of_mem_drop {m : ℕ} (hm : m < S.length) : ∀ e ∈ S.drop m, S[m].1 ≤ e.1 := by
  intro e he
  obtain ⟨i, hi, rfl⟩ := List.mem_drop_iff_getElem.mp he
  rcases Nat.eq_zero_or_pos i with rfl | hpos
  · exact le_rfl
  · exact List.pairwise_iff_getElem.mp hsorted m (m + i) hm _ (by omega)

include hS hp₀

/-- A probe within the radius leaves out the breakpoints up to it. -/
theorem Located.raise (h : Located S p₀ radiusSquared p low high) {mid : ℕ} (hmid : mid < high)
    (hm : mid < S.length) (hprobe : covered S p₀ S[mid].1 ≤ radiusSquared) :
    Located S p₀ radiusSquared
      { p with reached := p.reached + (reachSum S (mid + 1) - reachSum S low) } (mid + 1) high where
  low_le := hmid
  high_le := h.high_le
  reached := by simp [h.reached]
  moving := h.moving
  within := by
    intro e he
    have hpos := (hS e (List.mem_of_mem_take he)).1
    exact (covered_mono hS hp₀ hpos.le (le_of_mem_take hsorted hm e he)).trans hprobe
  beyond := h.beyond

/-- A probe beyond the radius leaves out the breakpoints from it on. -/
theorem Located.lower (h : Located S p₀ radiusSquared p low high) {mid : ℕ} (hle : low ≤ mid)
    (hm : mid < S.length) (hprobe : radiusSquared < covered S p₀ S[mid].1) :
    Located S p₀ radiusSquared
      { p with moving := p.moving + (slopeSum S high - slopeSum S mid) } low mid where
  low_le := hle
  high_le := hm.le
  reached := h.reached
  moving := by
    rw [h.moving]
    ring
  within := h.within
  beyond := by
    intro e he
    have hpos := (hS S[mid] (List.getElem_mem hm)).1
    exact hprobe.trans_le (covered_mono hS hp₀ hpos.le (ge_of_mem_drop hsorted hm e he))

omit hp₀ in
/-- What a probe computes is the squared distance at its breakpoint. -/
theorem Located.probe (h : Located S p₀ radiusSquared p low high) {mid : ℕ} (hm : mid < S.length) :
    covered S p₀ S[mid].1 =
      p.reached + (reachSum S (mid + 1) - reachSum S low) +
        S[mid].1 * S[mid].1 * (p.moving + (slopeSum S high - slopeSum S (mid + 1))) := by
  have hafter : ∀ e ∈ S.drop (mid + 1), S[mid].1 ≤ e.1 := by
    intro e he
    apply ge_of_mem_drop hsorted hm
    rw [List.drop_eq_getElem_cons hm]
    exact List.mem_cons_of_mem _ he
  rw [covered_piece hS (le_of_mem_take hsorted hm) hafter, h.reached, h.moving]
  ring

/-- The bisection ends at a place that separates the breakpoints within the radius from those
beyond. -/
theorem bisect_located (h : Located S p₀ radiusSquared p low high) :
    ∃ q m, bisect
        { parameters := S.map (·.1)
          reaches := prefixSums 0 (S.map (·.2.1))
          slopes := prefixSums 0 (S.map (·.2.2)) } radiusSquared p low high = .ok q ∧
      Located S p₀ radiusSquared q m m := by
  induction hd : high - low using Nat.strong_induction_on generalizing p low high with
  | _ d ih =>
    have hle := h.low_le
    have hlen := h.high_le
    by_cases hlt : low < high
    · obtain ⟨mid, hmid⟩ : ∃ mid, mid = (low + high + 1) / 2 - 1 := ⟨_, rfl⟩
      have hlow : low ≤ mid := by omega
      have hhigh : mid < high := by omega
      have hm : mid < S.length := by omega
      have hparameter : entryAt (S.map (·.1)) mid = .ok S[mid].1 := by
        rw [entryAt_eq_ok (by simpa using hm), List.getElem_map]
      have hreach : entryAt (prefixSums 0 (S.map (·.2.1))) (mid + 1) = .ok (reachSum S (mid + 1)) :=
        entryAt_reachSum hm
      have hslope : entryAt (prefixSums 0 (S.map (·.2.2))) (mid + 1) = .ok (slopeSum S (mid + 1)) :=
        entryAt_slopeSum hm
      rw [bisect, dif_pos hlt]
      simp only [← hmid, hparameter, hreach, entryAt_reachSum (hle.trans hlen),
        entryAt_slopeSum hlen, hslope, entryAt_slopeSum hm.le, ok_bind, ← h.probe hsorted hS hm]
      split
      · next hwithin => exact ih _ (by omega) (h.raise hsorted hS hp₀ hhigh hm hwithin) rfl
      · next hbeyond =>
        exact ih _ (by omega) (h.lower hsorted hS hp₀ hlow hm (not_le.mp hbeyond)) rfl
    · have heq : low = high := by omega
      subst heq
      refine ⟨p, low, ?_, h⟩
      rw [bisect, dif_neg hlt]

section Parameter

variable {m : ℕ} {t : ℝ} (h : Located S p₀ radiusSquared p m m) (hmoving : 0 < p.moving)
  (ht : 0 ≤ t) (hsq : t ^ 2 * p.moving = radiusSquared - p.reached)
include h hmoving ht hsq

omit hp₀ in
/-- The coordinates before the place found have stopped at the parameter. -/
theorem Located.le_parameter : ∀ e ∈ S.take m, e.1 ≤ t := by
  intro e he
  obtain ⟨i, hi, -⟩ := List.mem_take_iff_getElem.mp he
  obtain ⟨k, rfl⟩ : ∃ k, m = k + 1 := ⟨m - 1, by omega⟩
  have hk : k < S.length := h.high_le
  have hlast : S[k] ∈ S.take (k + 1) := List.mem_take_iff_getElem.mpr ⟨k, by omega, rfl⟩
  have hwithin := h.within S[k] hlast
  rw [h.probe hsorted hS hk] at hwithin
  have hle : S[k].1 ^ 2 * p.moving ≤ t ^ 2 * p.moving := by
    rw [hsq, sq]
    linarith
  have hroot : S[k].1 ≤ t :=
    (abs_le_of_sq_le_sq' (le_of_mul_le_mul_right hle hmoving) ht).2
  exact (le_of_mem_take hsorted hk e he).trans hroot

omit ht hp₀ in
/-- The coordinates after the place found still move at the parameter. -/
theorem Located.parameter_le : ∀ e ∈ S.drop m, t ≤ e.1 := by
  intro e he
  have hm : m < S.length := by
    obtain ⟨i, hi, -⟩ := List.mem_drop_iff_getElem.mp he
    omega
  have hfirst : S[m] ∈ S.drop m := List.mem_drop_iff_getElem.mpr ⟨0, by simpa using hm, rfl⟩
  have hstopped : ∀ e' ∈ S.take m, e'.1 ≤ S[m].1 := fun e' he' =>
    le_of_mem_take hsorted hm e' (List.take_subset_take_left S (Nat.le_succ m) he')
  have hbeyond := h.beyond S[m] hfirst
  rw [covered_piece hS hstopped (ge_of_mem_drop hsorted hm), ← h.reached, ← h.moving] at hbeyond
  have hpos := (hS S[m] (List.getElem_mem hm)).1
  have hle : t ^ 2 * p.moving ≤ S[m].1 ^ 2 * p.moving := by
    rw [hsq]
    linarith
  have hroot : t ≤ S[m].1 :=
    (abs_le_of_sq_le_sq' (le_of_mul_le_mul_right hle hmoving) hpos.le).2
  exact hroot.trans (ge_of_mem_drop hsorted hm e he)

end Parameter

omit hp₀ in
/-- Where some coordinate still moves at the place found, the path reaches the radius. -/
theorem Located.covered_parameter {m : ℕ} (h : Located S p₀ radiusSquared p m m)
    (hmoving : 0 < p.moving) (hreached : p.reached ≤ radiusSquared) :
    covered S p₀ (√((radiusSquared - p.reached) / p.moving)) = radiusSquared := by
  set t := √((radiusSquared - p.reached) / p.moving) with ht
  have hratio : 0 ≤ (radiusSquared - p.reached) / p.moving :=
    div_nonneg (sub_nonneg.mpr hreached) hmoving.le
  have hsq : t ^ 2 * p.moving = radiusSquared - p.reached := by
    rw [ht, Real.sq_sqrt hratio, div_mul_cancel₀ _ hmoving.ne']
  have hbefore := h.le_parameter hsorted hS hmoving (Real.sqrt_nonneg _) hsq
  have hafter := h.parameter_le hsorted hS hmoving hsq
  rw [covered_piece hS hbefore hafter, ← h.reached, ← h.moving, hsq]
  ring

omit hsorted in
theorem Located.moving_nonneg {m : ℕ} (h : Located S p₀ radiusSquared p m m) : 0 ≤ p.moving := by
  have hslopes : 0 ≤ ((S.drop m).map (·.2.2)).sum := by
    apply List.sum_nonneg
    intro s hs
    obtain ⟨e, he, rfl⟩ := List.mem_map.mp hs
    exact (hS e (List.mem_of_mem_drop he)).2.1.le
  have hsum := slopeSum_add_drop (S := S) m
  rw [h.moving]
  linarith

/-- What has stopped at the place found lies within the radius. -/
theorem Located.reached_le {m : ℕ} (h : Located S p₀ radiusSquared p m m)
    (hstart : p₀.reached = 0) (hradius : 0 ≤ radiusSquared) : p.reached ≤ radiusSquared := by
  cases m with
  | zero => simpa [h.reached, hstart, reachSum] using hradius
  | succ k =>
    have hk : k < S.length := h.high_le
    have hlast : S[k] ∈ S.take (k + 1) := List.mem_take_iff_getElem.mpr ⟨k, by omega, rfl⟩
    have hwithin := h.within S[k] hlast
    rw [h.probe hsorted hS hk] at hwithin
    have hmoving := h.moving_nonneg hS hp₀
    have hterm := mul_nonneg (mul_self_nonneg S[k].1) hmoving
    linarith

omit hsorted hp₀ in
/-- Where some coordinate still moves at the place found, the path goes beyond the radius. -/
theorem Located.exists_beyond {m : ℕ} (h : Located S p₀ radiusSquared p m m)
    (hstart : p₀.reached = 0) (hradius : 0 ≤ radiusSquared) (hmoving : 0 < p.moving) :
    ∃ u, 0 ≤ u ∧ radiusSquared < covered S p₀ u := by
  by_cases hdrop : S.drop m = []
  · -- Every breakpoint lies within the radius, so that a coordinate moves without end.
    have hsum := slopeSum_add_drop (S := S) m
    rw [hdrop] at hsum
    simp only [List.map_nil, List.sum_nil, add_zero] at hsum
    have hfree : 0 < p₀.moving := by
      have hmoves := h.moving
      linarith
    set u := √((radiusSquared + 1) / p₀.moving) with hu
    have hfar : u ^ 2 * p₀.moving = radiusSquared + 1 := by
      rw [hu, Real.sq_sqrt (by positivity), div_mul_cancel₀ _ hfree.ne']
    have hstops : 0 ≤ (S.map (Stop.reachAt u)).sum := by
      apply List.sum_nonneg
      intro d hd
      obtain ⟨e, he, rfl⟩ := List.mem_map.mp hd
      exact Stop.reachAt_nonneg (hS e he) (Real.sqrt_nonneg _)
    refine ⟨u, Real.sqrt_nonneg _, ?_⟩
    rw [covered, hstart, hfar]
    linarith
  · obtain ⟨e, rest, hcons⟩ := List.exists_cons_of_ne_nil hdrop
    have he : e ∈ S.drop m := hcons ▸ List.mem_cons_self
    exact ⟨e.1, (hS e (List.mem_of_mem_drop he)).1.le, h.beyond e he⟩

omit hsorted in
/-- Where no coordinate moves any more at the place found, the path never gets further. -/
theorem Located.covered_le {m : ℕ} (h : Located S p₀ radiusSquared p m m)
    (hmoving : p.moving ≤ 0) {t : ℝ} (ht : 0 ≤ t) : covered S p₀ t ≤ p.reached := by
  have hsum := slopeSum_add_drop (S := S) m
  have hdrop : S.drop m = [] := by
    by_contra hne
    obtain ⟨e, rest, hcons⟩ := List.exists_cons_of_ne_nil hne
    have hpositive : 0 < ((S.drop m).map (·.2.2)).sum := by
      apply List.sum_pos
      · intro s hs
        obtain ⟨e', he', rfl⟩ := List.mem_map.mp hs
        exact (hS e' (List.mem_of_mem_drop he')).2.1
      · simp [hcons]
    linarith [h.moving]
  have hlen : S.length ≤ m := List.drop_eq_nil_iff.mp hdrop
  have hfree : p₀.moving = 0 := by
    rw [hdrop] at hsum
    simp only [List.map_nil, List.sum_nil, add_zero] at hsum
    linarith [h.moving]
  have hstops : (S.map (Stop.reachAt t)).sum ≤ (S.map (·.2.1)).sum :=
    List.sum_le_sum fun e he => Stop.reachAt_le (hS e he) ht
  rw [covered, h.reached, hfree, reachSum, List.take_of_length_le hlen]
  linarith

end Sorted

end PrimalDual.TrustRegion

end
