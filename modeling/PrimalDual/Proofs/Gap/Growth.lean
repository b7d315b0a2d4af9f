import PrimalDual.Proofs.Gap.Maximum

/-!
# The gap in growing balls

Where the oracle finds the greatest value of the functional, the answer times the radius is
nonnegative, because the functional is zero at the centre, and does not decrease when the ball
grows. The exception are problems without constraints: a ball that reaches the origin is answered
with the origin, whatever the functional is elsewhere in the ball.
-/
noncomputable section
namespace PrimalDual
open Matrix

namespace Problem

variable {p : Problem ℝ} {z : p.Point} {r : ℝ}

/-- The origin, at which every coordinate of a problem without constraints stands at its bound, lies
in the ball. -/
def ReachesOrigin (z : p.Point) (r : ℝ) : Prop := p.dualDim = 0 ∧ p.norm z ≤ r

theorem ReachesOrigin.mono {s : ℝ} (h : ReachesOrigin z r) (hle : r ≤ s) : ReachesOrigin z s :=
  ⟨h.1, h.2.trans hle⟩

theorem boundsAt_eq_atLeast (h : p.dualDim = 0) (i : Fin (p.primalDim + p.dualDim)) :
    p.boundsAt i = .atLeast 0 := by
  induction i using Fin.addCases with
  | left i => rw [boundsAt, Fin.append_left]
  | right j => exact (Fin.cast h j).elim0

theorem norm_eq_distance (z : p.Point) :
    p.norm z = √(∑ i : Fin (p.primalDim + p.dualDim), (0 - joined z i) ^ 2) := by
  rw [norm, ← joined_dotProduct, dotProduct]
  simp [sq]

/-- The origin is the only corner that a problem's bounds can have. -/
theorem cornerBeyond_iff :
    TrustRegion.CornerBeyond p.boundsAt (joined z) r ↔ ¬ ReachesOrigin z r := by
  constructor
  · rintro hbeyond ⟨hm, hnorm⟩
    have hfar := hbeyond (fun _ => 0) fun i => boundsAt_eq_atLeast hm i
    rw [← norm_eq_distance] at hfar
    exact hfar.not_ge hnorm
  · intro hreach corner hcorner
    by_cases hm : p.dualDim = 0
    · have hzero : corner = fun _ => 0 := by
        funext i
        exact LowerBound.atLeast.inj ((hcorner i).symm.trans (boundsAt_eq_atLeast hm i))
      rw [hzero, ← norm_eq_distance]
      exact not_le.mp fun hnorm => hreach ⟨hm, hnorm⟩
    · have hfree := hcorner (Fin.natAdd _ ⟨0, Nat.pos_of_ne_zero hm⟩)
      rw [boundsAt, Fin.append_right] at hfree
      cases hfree

end Problem

namespace BallOracle

variable {p : Problem ℝ}

/-- A ball that reaches the origin is answered with the value of the functional there. -/
theorem gapAround_origin (hp : p.Accepted) {z : p.Point} (hz : 0 ≤ z.1) {r : ℝ} (hr : 0 < r)
    (hreach : Problem.ReachesOrigin z r) :
    (⟨p.primalDim, p.dualDim⟩ : BallOracle).gapAround (p.listOf z) r p =
      .ok (.ok (p.c ⬝ᵥ z.1 / r)) := by
  obtain ⟨hm, hnorm⟩ := hreach
  have hproject := TrustRegion.project_eq_corner (g := Problem.joined (Problem.descent z))
    (Problem.admits_joined.mpr hz) hr (Problem.boundsAt_eq_atLeast hm)
    ((Problem.norm_eq_distance z).symm.trans_le hnorm)
  have hmaximiser : maximiser (List.ofFn (Problem.joined (Problem.descent z)))
      (List.ofFn p.boundsAt) (List.ofFn (Problem.joined z)) r =
        .ok (.ok (List.ofFn (Problem.joined (0 : p.Point)))) := by
    rw [maximiser, hproject, Problem.joined_zero]
    rfl
  have hdual : p.b ⬝ᵥ z.2 = 0 := Finset.sum_eq_zero fun j _ => (Fin.cast hm j).elim0
  have horigin : p.gapAt z 0 = p.c ⬝ᵥ z.1 := by
    rw [Problem.gapAt_eq, Problem.joined_zero, dotProduct_zero, hdual, sub_zero, sub_zero]
  rw [gapAround_found hp hmaximiser, horigin]

/-- What the answer to a query is worth: the value of the functional at the origin where the ball
reaches it, and otherwise the greatest value in the ball. -/
theorem ask_worth (hp : p.Accepted) {z : List ℝ} (hlength : z.length = p.primalDim + p.dualDim)
    (hz : 0 ≤ (p.pointOf z).1) {r : ℝ} (hr : 0 < r) :
    ∃ v, (∀ o : BallOracle, o.Suits p →
        ask o z r p = .ok (.ok v, ⟨p.primalDim, p.dualDim⟩)) ∧
      (Problem.ReachesOrigin (p.pointOf z) r → v * r = p.c ⬝ᵥ (p.pointOf z).1) ∧
      (¬ Problem.ReachesOrigin (p.pointOf z) r →
        IsGreatest (p.gapAt (p.pointOf z) '' p.ball (p.pointOf z) r) (v * r)) := by
  have hlist := Problem.listOf_pointOf hlength
  by_cases hreach : Problem.ReachesOrigin (p.pointOf z) r
  · have hanswer := gapAround_origin hp hz hr hreach
    rw [hlist] at hanswer
    refine ⟨_, fun o ho => ask_eq_ok ho hlength hanswer, fun _ => ?_, fun h => (h hreach).elim⟩
    exact div_mul_cancel₀ _ hr.ne'
  · obtain ⟨best, hbest, hgreatest, hanswer⟩ :=
      gapAround_greatest hp hz hr (Problem.cornerBeyond_iff.mpr hreach)
    rw [hlist] at hanswer
    refine ⟨_, fun o ho => ask_eq_ok ho hlength hanswer, fun h => (hreach h).elim, fun _ => ?_⟩
    rw [div_mul_cancel₀ _ hr.ne']
    refine ⟨⟨best, hbest, rfl⟩, ?_⟩
    rintro _ ⟨u, hu, rfl⟩
    exact hgreatest u hu

/-- Around an admissible point both balls are answered. What the answers are worth is nonnegative
and ordered as the balls are, except where the larger ball reaches the origin of a problem without
constraints and the functional is below zero there or, in the smaller ball, greater somewhere
else. -/
theorem ask_grows_iff (hp : p.Accepted) {z : List ℝ}
    (hlength : z.length = p.primalDim + p.dualDim) (hz : 0 ≤ (p.pointOf z).1) {r s : ℝ}
    (hr : 0 < r) (hle : r ≤ s) :
    ∃ v w, (∀ o : BallOracle, o.Suits p →
        ask o z r p = .ok (.ok v, ⟨p.primalDim, p.dualDim⟩) ∧
        ask o z s p = .ok (.ok w, ⟨p.primalDim, p.dualDim⟩)) ∧
      (0 ≤ v * r ∧ v * r ≤ w * s ↔
        (Problem.ReachesOrigin (p.pointOf z) s → 0 ≤ p.c ⬝ᵥ (p.pointOf z).1 ∧
          (Problem.ReachesOrigin (p.pointOf z) r ∨
            ∀ u ∈ p.ball (p.pointOf z) r, p.gapAt (p.pointOf z) u ≤ p.c ⬝ᵥ (p.pointOf z).1))) := by
  have hs : 0 < s := hr.trans_le hle
  obtain ⟨v, hv, hvorigin, hvgreatest⟩ := ask_worth hp hlength hz hr
  obtain ⟨w, hw, hworigin, hwgreatest⟩ := ask_worth hp hlength hz hs
  refine ⟨v, w, fun o ho => ⟨hv o ho, hw o ho⟩, ?_⟩
  -- The functional is zero at the centre, and the centre lies in every ball.
  have hcentre {t a : ℝ} (ht : 0 < t)
      (h : IsGreatest (p.gapAt (p.pointOf z) '' p.ball (p.pointOf z) t) a) : 0 ≤ a :=
    h.2 ⟨p.pointOf z, Problem.mem_ball_self hz ht.le, Problem.gapAt_self _⟩
  by_cases hreachS : Problem.ReachesOrigin (p.pointOf z) s
  · rw [hworigin hreachS]
    by_cases hreachR : Problem.ReachesOrigin (p.pointOf z) r
    · simp [hvorigin hreachR, hreachR, hreachS]
    · have hgreatest := hvgreatest hreachR
      have hupper : v * r ≤ p.c ⬝ᵥ (p.pointOf z).1 ↔
          ∀ u ∈ p.ball (p.pointOf z) r, p.gapAt (p.pointOf z) u ≤ p.c ⬝ᵥ (p.pointOf z).1 := by
        rw [isLUB_le_iff hgreatest.isLUB, mem_upperBounds, Set.forall_mem_image]
      have hnonneg := hcentre hr hgreatest
      rw [hupper]
      constructor
      · rintro ⟨-, hbelow⟩ -
        exact ⟨hnonneg.trans (hupper.mpr hbelow), .inr hbelow⟩
      · intro h
        exact ⟨hnonneg, (h hreachS).2.resolve_left hreachR⟩
  · have hreachR : ¬ Problem.ReachesOrigin (p.pointOf z) r := fun h => hreachS (h.mono hle)
    have hgrows : v * r ≤ w * s := (hvgreatest hreachR).mono (hwgreatest hreachS)
      (Set.image_mono (Problem.ball_mono hle))
    exact ⟨fun _ h => (hreachS h).elim, fun _ => ⟨hcentre hr (hvgreatest hreachR), hgrows⟩⟩

theorem ask_grows_iff_reference :
    ∃ v w, ask {} [4, 1, 0, 0, 0, -1, -3] 1 (Problem.reference : Problem ℝ) =
        .ok (.ok v, ⟨5, 2⟩) ∧
      ask {} [4, 1, 0, 0, 0, -1, -3] 2 (Problem.reference : Problem ℝ) = .ok (.ok w, ⟨5, 2⟩) ∧
      0 ≤ v * 1 ∧ v * 1 ≤ w * 2 := by
  have hz : 0 ≤ ((Problem.reference : Problem ℝ).pointOf [4, 1, 0, 0, 0, -1, -3]).1 := by
    intro i
    fin_cases i <;> simp [Problem.pointOf, coords, Problem.primalDim, Problem.reference]
  obtain ⟨v, w, hask, hgrows⟩ := ask_grows_iff Problem.reference_accepted
    (z := [4, 1, 0, 0, 0, -1, -3]) rfl hz (r := 1) (s := 2) one_pos one_le_two
  obtain ⟨hv, hw⟩ := hask {} (suits_new (by decide))
  refine ⟨v, w, hv, hw, hgrows.mpr fun hreach => ?_⟩
  cases hreach.1

/-- The problem of one variable whose cost falls without end. -/
def falling : Problem ℝ where
  matrix := ⟨0, 1, [0, 0], [], []⟩
  rhs := []
  cost := [-1]
  name := none

theorem falling_accepted : falling.Accepted := rfl

theorem falling_reaches {r : ℝ} :
    Problem.ReachesOrigin (falling.pointOf [1]) r ↔ 1 ≤ r := by
  have hnorm : falling.norm (falling.pointOf [1]) = 1 := by
    change √((∑ i : Fin 1, coords 1 [1] i * coords 1 [1] i) + ∑ j : Fin 0, _) = 1
    simp [coords]
  rw [Problem.ReachesOrigin, hnorm]
  exact and_iff_right rfl

theorem falling_cost : falling.c ⬝ᵥ (falling.pointOf [1]).1 = -1 := by
  change ∑ i : Fin 1, coords 1 [-1] i * coords 1 [1] i = -1
  simp [coords]

/-- Around the point `1` the ball of radius `1 / 2` has a functional above zero, that of radius `2`
is answered as if the functional were below zero in all of it. -/
theorem falling_answers : falling.Accepted ∧ 0 ≤ (falling.pointOf [1]).1 ∧ ∃ v w,
    ask {} [1] (1 / 2) falling = .ok (.ok v, ⟨1, 0⟩) ∧ ask {} [1] 2 falling = .ok (.ok w, ⟨1, 0⟩) ∧
      ¬ (0 ≤ v * (1 / 2) ∧ v * (1 / 2) ≤ w * 2) ∧ 0 ≤ v * (1 / 2) ∧ w = -1 / 2 := by
  have hsuits : ({} : BallOracle).Suits falling := by
    intro h
    cases h
  have hz : 0 ≤ (falling.pointOf [1]).1 := by
    intro i
    obtain rfl : i = (0 : Fin 1) := Fin.eq_zero _
    change (0 : ℝ) ≤ coords 1 [1] 0
    simp [coords]
  obtain ⟨v, hv, -, hgreatest⟩ := ask_worth falling_accepted (z := [1]) rfl hz (r := 1 / 2)
    (by norm_num)
  obtain ⟨w, hw, hcost, -⟩ := ask_worth falling_accepted (z := [1]) rfl hz (r := 2) (by norm_num)
  have hnonneg : 0 ≤ v * (1 / 2) := by
    have hinside := hgreatest (by rw [falling_reaches]; norm_num)
    exact hinside.2 ⟨_, Problem.mem_ball_self hz (by norm_num), Problem.gapAt_self _⟩
  have hbelow : w * 2 = -1 := (hcost (falling_reaches.mpr one_le_two)).trans falling_cost
  refine ⟨falling_accepted, hz, v, w, hv {} hsuits, hw {} hsuits, ?_, hnonneg, by linarith⟩
  rintro ⟨-, hle⟩
  linarith

end BallOracle

end PrimalDual

end
