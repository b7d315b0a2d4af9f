import PrimalDual.PowerIteration
import PrimalDual.Proofs.PowerIteration.Rayleigh

/-!
# Where power iteration halts

In exact arithmetic the iterate after `k` applications of `M` to a start `v` is the direction of
`M ^ k *ᵥ v`, and the estimate is the Rayleigh quotient there. The iteration halts at the first `k`
at which the next power vanishes or the quotient has settled, or else at the limit. A greater limit
lets it halt later only, where the quotient is no smaller.
-/
noncomputable section
namespace PrimalDual
open Matrix

namespace Vector

variable {n : ℕ} {x : Fin n → ℝ}

theorem norm_ofFn (x : Fin n → ℝ) : norm (List.ofFn x) = √(x ⬝ᵥ x) := by
  rw [norm, sumOfSquares, inner_ofFn, Scalar.sqrt_real]

theorem norm_ofFn_eq_zero : norm (List.ofFn x) = 0 ↔ x = 0 := by
  rw [norm_ofFn, Real.sqrt_eq_zero (dotProduct_self_nonneg x), dotProduct_self_eq_zero]

/-- Scaling by the reciprocal of the length leaves the direction. -/
theorem normalized_ofFn (x : Fin n → ℝ) :
    (List.ofFn x).map (· * Scalar.recip (norm (List.ofFn x))) = List.ofFn (direction x) := by
  rw [List.map_ofFn, norm_ofFn, Scalar.recip_real]
  congr 1
  funext i
  exact mul_comm _ _

end Vector

namespace PowerIteration

variable {n : ℕ} {M : Matrix (Fin n) (Fin n) ℝ} {apply : List ℝ → Except Fault (List ℝ)}
  {tolerance before q q' : ℝ} {v x : Fin n → ℝ} {k k' limit limit' remaining : ℕ}

/-- The operator is the product with `M`. -/
def Applies (M : Matrix (Fin n) (Fin n) ℝ) (apply : List ℝ → Except Fault (List ℝ)) : Prop :=
  ∀ x, apply (List.ofFn x) = .ok (List.ofFn (M *ᵥ x))

/-- Halting after `k + 1` applications: the next power vanishes, or the quotient has settled. -/
def EndsAt (M : Matrix (Fin n) (Fin n) ℝ) (tolerance : ℝ) (v : Fin n → ℝ) (k : ℕ) : Prop :=
  M ^ (k + 1) *ᵥ v = 0 ∨ 0 < k ∧
    |rayleigh M (M ^ k *ᵥ v) - rayleigh M (M ^ (k - 1) *ᵥ v)| <
      tolerance * |rayleigh M (M ^ k *ᵥ v)|

/-- The last iterate of a run within a positive limit is that of the `k`th power. -/
structure HaltsAt (M : Matrix (Fin n) (Fin n) ℝ) (tolerance : ℝ) (v : Fin n → ℝ) (limit k : ℕ) :
    Prop where
  within : k < limit
  going : ∀ j < k, ¬ EndsAt M tolerance v j
  remains : M ^ k *ᵥ v ≠ 0
  stops : k + 1 = limit ∨ EndsAt M tolerance v k

/-- The estimates that a run from `v` can return. -/
inductive Estimates (M : Matrix (Fin n) (Fin n) ℝ) (tolerance : ℝ) (v : Fin n → ℝ) (limit : ℕ) :
    ℝ → Prop
  | idle (h : v = 0 ∨ limit = 0) : Estimates M tolerance v limit 0
  | halted {k : ℕ} (h : HaltsAt M tolerance v limit k) :
    Estimates M tolerance v limit (rayleigh M (M ^ k *ᵥ v))

/-- One application at a unit vector. -/
theorem iterate_succ (h : Applies M apply) (hx : x ⬝ᵥ x = 1) :
    iterate apply tolerance k (List.ofFn x) before (remaining + 1) =
      if M *ᵥ x = 0 ∨ 0 < k ∧ |rayleigh M x - before| < tolerance * |rayleigh M x| then
        .ok ⟨rayleigh M x, k + 1⟩
      else iterate apply tolerance (k + 1) (List.ofFn (direction (M *ᵥ x))) (rayleigh M x)
        remaining := by
  have hdot := Vector.dot_eq_ok (x := List.ofFn x) (y := List.ofFn (M *ᵥ x)) (by simp)
  rw [iterate, h x, ok_bind, hdot, ok_bind, Vector.inner_ofFn, ← rayleigh_of_unit hx]
  simp only [Vector.normalized_ofFn]
  by_cases hzero : M *ᵥ x = 0
  · have hnorm := beq_iff_eq.mpr (Vector.norm_ofFn_eq_zero.mpr hzero)
    rw [hnorm, Bool.true_or, if_pos rfl, if_pos (.inl hzero), pure_eq_ok]
  · have hnorm := Vector.norm_ofFn_eq_zero.not.mpr hzero
    simp [hnorm, hzero, settled, pure_eq_ok]

open scoped Classical in
/-- One application at the direction of a power. -/
theorem iterate_power (h : Applies M apply) (hremains : M ^ k *ᵥ v ≠ 0)
    (hbefore : 0 < k → before = rayleigh M (M ^ (k - 1) *ᵥ v)) :
    iterate apply tolerance k (List.ofFn (direction (M ^ k *ᵥ v))) before (remaining + 1) =
      if EndsAt M tolerance v k then .ok ⟨rayleigh M (M ^ k *ᵥ v), k + 1⟩
      else iterate apply tolerance (k + 1) (List.ofFn (direction (M ^ (k + 1) *ᵥ v)))
        (rayleigh M (M ^ k *ᵥ v)) remaining := by
  have hends : (M *ᵥ direction (M ^ k *ᵥ v) = 0 ∨ 0 < k ∧
      |rayleigh M (M ^ k *ᵥ v) - before| < tolerance * |rayleigh M (M ^ k *ᵥ v)|) ↔
      EndsAt M tolerance v k := by
    rw [mulVec_direction_eq_zero hremains, ← pow_succ_mulVec]
    exact or_congr_right (and_congr_right fun hk => by rw [hbefore hk])
  rw [iterate_succ h (direction_unit hremains), rayleigh_direction hremains,
    direction_mulVec_direction hremains, ← pow_succ_mulVec]
  exact if_congr hends rfl rfl

/-- A run halts at the first power that ends it, or at the last one within the limit. -/
theorem iterate_haltsAt (h : Applies M apply) (hgoing : ∀ j < k, ¬ EndsAt M tolerance v j)
    (hremains : M ^ k *ᵥ v ≠ 0) (hbefore : 0 < k → before = rayleigh M (M ^ (k - 1) *ᵥ v)) :
    ∃ k', HaltsAt M tolerance v (k + remaining + 1) k' ∧
      iterate apply tolerance k (List.ofFn (direction (M ^ k *ᵥ v))) before (remaining + 1) =
        .ok ⟨rayleigh M (M ^ k' *ᵥ v), k' + 1⟩ := by
  -- The powers so far have not ended the run, so that the next one does not vanish.
  induction remaining generalizing k before with
  | zero =>
    rw [iterate_power h hremains hbefore]
    refine ⟨k, ⟨k.lt_succ_self, hgoing, hremains, .inl rfl⟩, ?_⟩
    split <;> rfl
  | succ remaining ih =>
    rw [iterate_power h hremains hbefore]
    split
    · next hends => exact ⟨k, ⟨by omega, hgoing, hremains, .inr hends⟩, rfl⟩
    · next hends =>
      have hgoing' : ∀ j < k + 1, ¬ EndsAt M tolerance v j := by
        intro j hj
        rcases Nat.lt_succ_iff_lt_or_eq.mp hj with hlt | rfl
        · exact hgoing j hlt
        · exact hends
      have hlimit : k + (remaining + 1) + 1 = k + 1 + remaining + 1 := by omega
      rw [hlimit]
      exact ih hgoing' (fun hzero => hends (.inl hzero)) (fun _ => rfl)

theorem estimateFrom_estimates (h : Applies M apply) (tolerance : ℝ) (v : Fin n → ℝ) (limit : ℕ) :
    ∃ q calls, Estimates M tolerance v limit q ∧
      estimateFrom (List.ofFn v) apply tolerance limit = .ok ⟨q, calls⟩ := by
  unfold estimateFrom
  by_cases hv : v = 0
  · have hnorm := beq_iff_eq.mpr (Vector.norm_ofFn_eq_zero.mpr hv)
    exact ⟨0, 0, .idle (.inl hv), by simp only [hnorm, if_true]⟩
  · have hnorm := beq_eq_false_iff_ne.mpr (Vector.norm_ofFn_eq_zero.not.mpr hv)
    simp only [hnorm, Bool.false_eq_true, if_false, Vector.normalized_ofFn]
    cases limit with
    | zero => exact ⟨0, 0, .idle (.inr rfl), rfl⟩
    | succ limit =>
      have hstart : M ^ 0 *ᵥ v = v := by rw [pow_zero, one_mulVec]
      obtain ⟨k, hhalts, hrun⟩ := @iterate_haltsAt n M apply tolerance 0 v 0 limit h
        (fun j hj => absurd hj j.not_lt_zero) (hstart.symm ▸ hv) (fun hk => absurd hk (lt_irrefl 0))
      rw [hstart] at hrun
      rw [Nat.zero_add] at hhalts
      exact ⟨_, k + 1, .halted hhalts, hrun⟩

theorem HaltsAt.le (h : HaltsAt M tolerance v limit k) (h' : HaltsAt M tolerance v limit' k')
    (hle : limit ≤ limit') : k ≤ k' := by
  by_contra hlt
  rcases h'.stops with hlast | hends
  · have hwithin := h.within
    omega
  · exact h.going k' (by omega) hends

namespace Estimates

theorem nonneg (hM : M.PosSemidef) (h : Estimates M tolerance v limit q) : 0 ≤ q := by
  cases h with
  | idle => exact le_rfl
  | halted => exact rayleigh_nonneg hM _

theorem le_greatest {μ : ℝ} (hM : M.PosSemidef)
    (hμ : IsGreatest {q | ∃ x : Fin n → ℝ, x ⬝ᵥ x = 1 ∧ x ⬝ᵥ M *ᵥ x = q} μ)
    (h : Estimates M tolerance v limit q) : q ≤ μ := by
  cases h with
  | idle =>
    obtain ⟨x, -, rfl⟩ := hμ.1
    exact form_nonneg hM x
  | halted hhalts => exact rayleigh_le_greatest hμ hhalts.remains

theorem mono (hM : M.PosSemidef) (h : Estimates M tolerance v limit q)
    (h' : Estimates M tolerance v limit' q') (hle : limit ≤ limit') : q ≤ q' := by
  cases h with
  | idle => exact h'.nonneg hM
  | halted hhalts =>
    cases h' with
    | idle hidle =>
      rcases hidle with rfl | rfl
      · exact absurd (mulVec_zero _) hhalts.remains
      · exact absurd hhalts.within (by omega)
    | halted hhalts' => exact rayleigh_pow_mono hM (hhalts.le hhalts' hle) hhalts'.remains

end Estimates

end PowerIteration

end PrimalDual

end
