import PrimalDual.Proofs.Iterates.Ergodic
import PrimalDual.Proofs.Optimality

/-!
# Where steps stay

The points that a step leaves alone are the solutions, and so are the points without error. An
epoch that begins at one of them stays there. Conversely, the inequalities of the steps add up to
more than zero unless the first step of the epoch stayed, so that no other epoch has its average
where it began.
-/
noncomputable section
namespace PrimalDual
open Matrix

variable {p : Problem ℝ} {η ω : ℝ}

namespace Problem

/-- A number that stays when it moves against a slope and is raised to zero is complementary to the
slope. -/
theorem eq_max_sub_mul_iff {a v g : ℝ} (ha : 0 < a) :
    max (v - a * g) 0 = v ↔ 0 ≤ v ∧ 0 ≤ g ∧ v * g = 0 := by
  constructor
  · intro h
    have hv : 0 ≤ v := h ▸ le_max_right _ _
    rcases max_choice (v - a * g) 0 with hmax | hmax
    · have hg : g = 0 := by
        have hzero : a * g = 0 := by linarith
        exact (mul_eq_zero.mp hzero).resolve_left ha.ne'
      simp [hv, hg]
    · have hzero : v = 0 := by linarith
      have hg : 0 ≤ a * g := by
        have hle := le_max_left (v - a * g) 0
        linarith
      exact ⟨hv, nonneg_of_mul_nonneg_right hg ha, by rw [hzero, zero_mul]⟩
  · rintro ⟨hv, hg, hzero⟩
    rcases mul_eq_zero.mp hzero with rfl | rfl
    · have hprod := mul_nonneg ha.le hg
      rw [zero_sub, max_eq_right (by linarith)]
    · rw [mul_zero, sub_zero, max_eq_left hv]

theorem dotProduct_eq_zero_iff {n : ℕ} {v g : Fin n → ℝ} (hv : 0 ≤ v) (hg : 0 ≤ g) :
    v ⬝ᵥ g = 0 ↔ ∀ j, v j * g j = 0 := by
  rw [dotProduct, Finset.sum_eq_zero_iff_of_nonneg fun j _ => mul_nonneg (hv j) (hg j)]
  simp

/-- A step stays exactly at the solutions. -/
theorem stepPoint_eq_self_iff (hη : 0 < η) (hω : 0 < ω) {z : p.Point} :
    stepPoint η ω z = z ↔ Optimal z := by
  have hcoordinate (j : Fin p.primalDim) : nextPrimal η ω z j = z.1 j ↔
      0 ≤ z.1 j ∧ 0 ≤ (p.c - z.2 ᵥ* p.A) j ∧ z.1 j * (p.c - z.2 ᵥ* p.A) j = 0 :=
    eq_max_sub_mul_iff (div_pos hη hω)
  have hgap (hfeasible : p.A *ᵥ z.1 = p.b) :
      z.1 ⬝ᵥ (p.c - z.2 ᵥ* p.A) = p.c ⬝ᵥ z.1 - p.b ⬝ᵥ z.2 := by
    rw [dotProduct_sub, dotProduct_comm z.1 (z.2 ᵥ* p.A), ← dotProduct_mulVec, hfeasible,
      dotProduct_comm z.1 p.c, dotProduct_comm z.2 p.b]
  constructor
  · intro h
    have hprimal : nextPrimal η ω z = z.1 := congrArg Prod.fst h
    have hdual : nextDual η ω z = z.2 := congrArg Prod.snd h
    have hcomplementary j := (hcoordinate j).mp (congrFun hprimal j)
    have hfeasible : p.A *ᵥ z.1 = p.b := by
      rw [nextDual, hprimal, two_nsmul, add_sub_cancel_right, add_eq_left] at hdual
      exact (sub_eq_zero.mp ((smul_eq_zero.mp hdual).resolve_left (mul_pos hη hω).ne')).symm
    have hzero : z.1 ⬝ᵥ (p.c - z.2 ᵥ* p.A) = 0 :=
      (dotProduct_eq_zero_iff (fun j => (hcomplementary j).1) fun j => (hcomplementary j).2.1).mpr
        fun j => (hcomplementary j).2.2
    rw [hgap hfeasible] at hzero
    exact ⟨fun j => (hcomplementary j).1, hfeasible,
      fun j => sub_nonneg.mp (hcomplementary j).2.1, (sub_eq_zero.mp hzero).le⟩
  · intro h
    have hslack : 0 ≤ p.c - z.2 ᵥ* p.A := fun j => sub_nonneg.mpr (h.dualFeasible j)
    have hzero : z.1 ⬝ᵥ (p.c - z.2 ᵥ* p.A) = 0 := by
      have hnonneg := dotProduct_nonneg_of_nonneg h.nonneg hslack
      have hstrong := h.strong
      rw [hgap h.feasible] at hnonneg ⊢
      linarith
    have hprimal : nextPrimal η ω z = z.1 := funext fun j => (hcoordinate j).mpr
      ⟨h.nonneg j, hslack j, (dotProduct_eq_zero_iff h.nonneg hslack).mp hzero j⟩
    refine Prod.ext hprimal ?_
    change nextDual η ω z = z.2
    rw [nextDual, hprimal, two_nsmul, add_sub_cancel_right, h.feasible, sub_self, smul_zero,
      add_zero]

end Problem

namespace Iterates

variable {s : Iterates ℝ}

/-- The error of iterates is zero exactly where a step leads back to the point. The point then
solves the problem, and its dual. -/
theorem Fits.kktError_eq_zero_iff_stays (hp : p.Accepted) (h : s.Fits p) (hη : 0 < η)
    (hω : 0 < ω) :
    ∃ error next, s.kktError p = .ok error ∧ s.LeadsTo p η ω next ∧
      (error = 0 ↔ next = s.point) ∧
      (error = 0 → ∀ x y, p.pointOf s.point = (x, y) →
        (0 ≤ x ∧ p.A *ᵥ x = p.b ∧
          ∀ x', 0 ≤ x' → p.A *ᵥ x' = p.b → p.c ⬝ᵥ x ≤ p.c ⬝ᵥ x') ∧
        y ᵥ* p.A ≤ p.c ∧ ∀ y', y' ᵥ* p.A ≤ p.c → p.b ⬝ᵥ y' ≤ p.b ⬝ᵥ y) := by
  obtain ⟨error, herror⟩ := h.exists_kktError hp
  have hzero : error = 0 ↔ Problem.Optimal (p.pointOf s.point) := by
    rw [← Problem.kktError_take_drop_eq_zero_iff hp h.point, ← h.kktError_eq, herror,
      Except.ok.injEq]
  refine ⟨error, _, herror, h.leadsTo_stepPoint hp, ?_, fun hnone x y hpoint => ?_⟩
  · rw [hzero, Problem.listOf_eq_iff h.point, Problem.stepPoint_eq_self_iff hη hω]
  · have hoptimal := hzero.mp hnone
    rw [hpoint] at hoptimal
    exact ⟨⟨hoptimal.nonneg, hoptimal.feasible, fun _ => hoptimal.cost_le⟩,
      hoptimal.dualFeasible, fun _ => hoptimal.le_rhs⟩

theorem Fits.kktError_eq_zero_iff_stays_reference :
    ∃ s : Iterates ℝ, s.Fits .reference ∧ s.point = Problem.reference.listOf
        Problem.referenceSolution ∧
      s.kktError .reference = .ok 0 ∧ s.LeadsTo .reference (1 / 2) 1 s.point ∧
      ∀ x, 0 ≤ x → Problem.reference.A *ᵥ x = Problem.reference.b →
        Problem.reference.c ⬝ᵥ Problem.referenceSolution.1 ≤ Problem.reference.c ⬝ᵥ x := by
  set z := Problem.reference.listOf Problem.referenceSolution with hz
  have hfits : (startingAt z (.primalDual 5 2)).Fits .reference :=
    fits_startingAt .reference (Problem.length_listOf _)
  have hsolution : Problem.reference.pointOf z = Problem.referenceSolution :=
    Problem.pointOf_listOf _
  obtain ⟨error, next, herror, hnext, hstays, hsolves⟩ := hfits.kktError_eq_zero_iff_stays
    Problem.reference_accepted (η := 1 / 2) (ω := 1) (by norm_num) one_pos
  obtain rfl : error = 0 := by
    rw [hfits.kktError_eq, (Problem.kktError_take_drop_eq_zero_iff Problem.reference_accepted
      hfits.point).mpr (hsolution ▸ Problem.reference_optimal)] at herror
    exact (Except.ok.inj herror).symm
  obtain rfl := hstays.mp rfl
  exact ⟨_, hfits, rfl, herror, hnext, (hsolves rfl _ _ hsolution).1.2.2⟩

end Iterates

namespace Iterates

/-- The point and the average of an epoch that begins at a solution stay there. -/
structure Stays (p : Problem ℝ) (s : Iterates ℝ) : Prop where
  point : Problem.Optimal (p.pointOf s.epochStart) → s.point = s.epochStart
  average : Problem.Optimal (p.pointOf s.epochStart) → s.average = s.epochStart
  epochStart : ∀ previous, s.previousStart = some previous →
    Problem.Optimal (p.pointOf previous) → s.epochStart = previous

variable {s s' : Iterates ℝ}

theorem stays_origin (p : Problem ℝ) : (origin p.primalDim p.dualDim).Stays p :=
  ⟨fun _ => rfl, fun _ => rfl, fun _ h => by cases h⟩

theorem Stays.advance (hp : p.Accepted) (hη : 0 < η) (hω : 0 < ω) (hfits : s.Fits p)
    (h : s.Stays p) (hs : s.advance p η ω = .ok s') : s'.Stays p := by
  obtain ⟨point, hpoint, hlength, rfl⟩ := hfits.advance_real hp hs
  have hstay (hoptimal : Problem.Optimal (p.pointOf s.epochStart)) : point = s.epochStart := by
    rw [h.point hoptimal, (Problem.stepPoint_eq_self_iff hη hω).mpr hoptimal] at hpoint
    rw [← Problem.listOf_pointOf hlength, hpoint, Problem.listOf_pointOf hfits.epochStart]
  refine ⟨hstay, fun hoptimal => ?_, h.epochStart⟩
  have haverage : p.pointOf (s.averageWith point) = p.pointOf s.epochStart := by
    rw [hfits.pointOf_averageWith hlength, hstay hoptimal, h.average hoptimal, ← add_smul,
      weights_add_one, one_smul]
  change s.averageWith point = s.epochStart
  rw [← Problem.listOf_pointOf (hfits.length_averageWith hlength), haverage,
    Problem.listOf_pointOf hfits.epochStart]

theorem Stays.restarted (h : s.Stays p) : s.restarted.Stays p where
  point _ := rfl
  average _ := rfl
  epochStart previous hprevious hoptimal := by
    obtain rfl := Option.some.inj hprevious
    exact h.average hoptimal

/-- The points of a run have nonnegative primal parts. -/
structure Nonneg (p : Problem ℝ) (s : Iterates ℝ) : Prop where
  point : 0 ≤ (p.pointOf s.point).1
  average : 0 ≤ (p.pointOf s.average).1
  epochStart : 0 ≤ (p.pointOf s.epochStart).1

theorem nonneg_origin (p : Problem ℝ) : (origin p.primalDim p.dualDim).Nonneg p := by
  have hzero : 0 ≤ (p.pointOf (Vector.zeros (p.primalDim + p.dualDim))).1 := by
    intro j
    simp [Problem.pointOf, coords, Vector.zeros]
  exact ⟨hzero, hzero, hzero⟩

theorem Nonneg.advance (hp : p.Accepted) (hfits : s.Fits p) (h : s.Nonneg p)
    (hs : s.advance p η ω = .ok s') : s'.Nonneg p := by
  obtain ⟨point, hpoint, hlength, rfl⟩ := hfits.advance_real hp hs
  have hnonneg : 0 ≤ (p.pointOf point).1 := by
    rw [hpoint]
    exact Problem.nextPrimal_nonneg _
  have hrecip := weight_nonneg s.epochLength
  refine ⟨hnonneg, ?_, h.epochStart⟩
  change 0 ≤ (p.pointOf (s.averageWith point)).1
  rw [hfits.pointOf_averageWith hlength]
  exact fun j => add_nonneg (mul_nonneg hrecip (hnonneg j))
    (mul_nonneg (mul_nonneg (Nat.cast_nonneg _) hrecip) (h.average j))

theorem Nonneg.restarted (h : s.Nonneg p) : s.restarted.Nonneg p :=
  ⟨h.average, h.average, h.average⟩

/-- What the inequalities of the steps add up to for the start of the epoch itself, the length of
the first step included. -/
structure Travels (p : Problem ℝ) (η ω : ℝ) (s : Iterates ℝ) : Prop extends Nonneg p s where
  begins : s.epochLength = 0 → s.point = s.epochStart
  goes : s.epochLength ≠ 0 →
    2 * (s.epochLength * p.gapAt (p.pointOf s.average) (p.pointOf s.epochStart)) +
      p.metric η ω (Problem.stepPoint η ω (p.pointOf s.epochStart) - p.pointOf s.epochStart) +
      p.metric η ω (p.pointOf s.epochStart - p.pointOf s.point) ≤ 0
  previous : ∀ previous, s.previousStart = some previous → s.epochStart = previous →
    Problem.Optimal (p.pointOf previous)

theorem travels_origin (p : Problem ℝ) : (origin p.primalDim p.dualDim).Travels p η ω where
  toNonneg := nonneg_origin p
  begins _ := rfl
  goes h := (h rfl).elim
  previous _ h := by cases h

theorem Travels.advance (hp : p.Accepted) (hη : 0 < η) (hω : 0 < ω) (hbound : p.StepBound η)
    (hfits : s.Fits p) (h : s.Travels p η ω) (hs : s.advance p η ω = .ok s') :
    s'.Travels p η ω := by
  have hnonneg := h.toNonneg.advance hp hfits hs
  obtain ⟨point, hpoint, hlength, rfl⟩ := hfits.advance_real hp hs
  refine ⟨hnonneg, fun hzero => (Nat.succ_ne_zero _ hzero).elim, fun _ => ?_, h.previous⟩
  have hgap := Problem.gapAt_stepPoint_le hη hω (p.pointOf s.point) h.epochStart
  have haverage := hfits.gapAt_averageWith hlength (p.pointOf s.epochStart)
  have hstep := Problem.metric_nonneg hη hω hbound
    (Problem.stepPoint η ω (p.pointOf s.point) - p.pointOf s.point)
  simp only [movedTo, Nat.cast_add, Nat.cast_one]
  rw [haverage, hpoint]
  by_cases hbegin : s.epochLength = 0
  · have hstart : p.metric η ω (p.pointOf s.epochStart - p.pointOf s.point) = 0 := by
      rw [h.begins hbegin, sub_self, Problem.metric_zero]
    rw [hstart, h.begins hbegin] at hgap
    rw [hbegin, Nat.cast_zero, zero_mul, add_zero, h.begins hbegin]
    linarith
  · have hgoes := h.goes hbegin
    linarith

/-- An epoch whose average is where it began has not moved. -/
theorem Travels.optimal (hη : 0 < η) (hω : 0 < ω) (hbound : p.StrictStepBound η)
    (h : s.Travels p η ω) (hlength : s.epochLength ≠ 0) (haverage : s.average = s.epochStart) :
    Problem.Optimal (p.pointOf s.epochStart) := by
  have hgoes := h.goes hlength
  have hrest := Problem.metric_nonneg hη hω hbound.stepBound
    (p.pointOf s.epochStart - p.pointOf s.point)
  rw [haverage, Problem.gapAt_self] at hgoes
  have hstep := Problem.eq_zero_of_metric_nonpos hη hω hbound
    (show p.metric η ω (Problem.stepPoint η ω (p.pointOf s.epochStart) -
      p.pointOf s.epochStart) ≤ 0 by linarith)
  exact (Problem.stepPoint_eq_self_iff hη hω).mp (sub_eq_zero.mp hstep)

theorem Travels.restarted (hη : 0 < η) (hω : 0 < ω) (hbound : p.StrictStepBound η)
    (h : s.Travels p η ω) (hlength : s.epochLength ≠ 0) : s.restarted.Travels p η ω where
  toNonneg := h.toNonneg.restarted
  begins _ := rfl
  goes hzero := (hzero rfl).elim
  previous previous hprevious hback := by
    obtain rfl := Option.some.inj hprevious
    exact h.optimal hη hω hbound hlength hback

end Iterates

end PrimalDual

end
