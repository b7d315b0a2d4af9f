import PrimalDual.Gap.Ball
import PrimalDual.Proofs.Gap.Evaluator

/-!
# The oracle by projection answers every query

The search among the breakpoints stays inside their lists, whatever the arithmetic, so that the
projection always comes to an answer. So does the oracle, as long as it has room for points of the
problem's shape.
-/
namespace PrimalDual

variable {T : Type}

namespace BallOracle

variable {p : Problem T} {o : BallOracle}

/-- The oracle has no room that another problem with as many coordinates would have split
elsewhere. A new oracle suits every problem with constraints. -/
def Suits (o : BallOracle) (p : Problem T) : Prop :=
  o.primalDim + o.dualDim = p.primalDim + p.dualDim → o.primalDim = p.primalDim

theorem suits_new (h : 0 < p.dualDim) : ({} : BallOracle).Suits p := by
  intro hsum
  have hzero : 0 + 0 = p.primalDim + p.dualDim := hsum
  omega

theorem fit_eq (h : o.Suits p) : o.fit p = ⟨p.primalDim, p.dualDim⟩ := by
  unfold fit
  split_ifs with hsum
  · have hprimal : o.primalDim = p.primalDim := h hsum
    have hdual : o.dualDim = p.dualDim := by omega
    cases o
    simp_all
  · rfl

end BallOracle

namespace TrustRegion

variable {n : ℕ} {g z : List T} {l : List (LowerBound T)}

theorem length_coordinates (hg : g.length = n) (hl : l.length = n) (hz : z.length = n) :
    (coordinates g l z).length = n := by
  rw [coordinates, List.length_zip, List.length_zip, hg, hl, hz, Nat.min_self, Nat.min_self]

theorem length_corner? {corner : List T} (h : LowerBound.corner? l = some corner) :
    corner.length = l.length := by
  induction l generalizing corner with
  | nil =>
    rw [← Option.some.inj h]
    rfl
  | cons b l ih =>
    unfold LowerBound.corner? at h ih
    rw [List.mapM_cons] at h
    obtain ⟨first, -, h⟩ := Option.bind_eq_some_iff.mp h
    obtain ⟨rest, hrest, hcorner⟩ := Option.bind_eq_some_iff.mp h
    rw [← Option.some.inj hcorner, List.length_cons, List.length_cons, ih hrest]

variable [Scalar T]

theorem length_prefixSums (sum : T) (xs : List T) :
    (prefixSums sum xs).length = xs.length + 1 := by
  induction xs generalizing sum with
  | nil => rfl
  | cons x xs ih => rw [prefixSums, List.length_cons, ih, List.length_cons]

/-- A search within the breakpoints comes to an end. -/
theorem exists_bisect {b : Breakpoints T} {k : ℕ} (hparameters : b.parameters.length = k)
    (hreaches : b.reaches.length = k + 1) (hslopes : b.slopes.length = k + 1)
    (radiusSquared : T) (p : Profile T) {low high : ℕ} (hlow : low ≤ high) (hhigh : high ≤ k) :
    ∃ p', bisect b radiusSquared p low high = .ok p' := by
  induction hsize : high - low using Nat.strong_induction_on generalizing p low high with
  | h size ih =>
    by_cases hlt : low < high
    · obtain ⟨mid, hmid⟩ : ∃ mid, mid = (low + high + 1) / 2 - 1 := ⟨_, rfl⟩
      have hmidLow : low ≤ mid := by omega
      have hmidHigh : mid < high := by omega
      obtain ⟨parameter, hparameter⟩ : ∃ v, entryAt b.parameters mid = .ok v :=
        ⟨_, entryAt_eq_ok (by omega)⟩
      have hreach (i : ℕ) (hi : i ≤ k) : ∃ v, entryAt b.reaches i = .ok v :=
        ⟨_, entryAt_eq_ok (by omega)⟩
      have hslope (i : ℕ) (hi : i ≤ k) : ∃ v, entryAt b.slopes i = .ok v :=
        ⟨_, entryAt_eq_ok (by omega)⟩
      obtain ⟨reach, hreach₁⟩ := hreach (mid + 1) (by omega)
      obtain ⟨reachLow, hreach₀⟩ := hreach low (by omega)
      obtain ⟨slope, hslope₂⟩ := hslope high (by omega)
      obtain ⟨slopeNext, hslope₁⟩ := hslope (mid + 1) (by omega)
      obtain ⟨slopeMid, hslope₀⟩ := hslope mid (by omega)
      rw [bisect, dif_pos hlt]
      simp only [← hmid, hparameter, hreach₁, hreach₀, hslope₂, hslope₁, hslope₀, ok_bind]
      split
      · exact ih _ (by omega) _ (by omega) hhigh rfl
      · exact ih _ (by omega) _ hmidLow (by omega) rfl
    · refine ⟨p, ?_⟩
      rw [bisect, dif_neg hlt]

theorem exists_pointAt (hg : g.length = n) (hl : l.length = n) (hz : z.length = n) (r : T) :
    ∃ answer, pointAt g l z r = .ok answer ∧
      ∀ solution, answer = .ok solution → solution.point.length = n := by
  unfold pointAt
  generalize List.map _ (coordinates g l z) = motions
  obtain ⟨p, hbisect⟩ := exists_bisect (b := breakpoints motions) rfl
    (by simp [breakpoints, length_prefixSums]) (by simp [breakpoints, length_prefixSums]) (r * r)
    (startProfile motions) (Nat.zero_le _) le_rfl
  simp only [hbisect, ok_bind]
  split
  · exact ⟨_, rfl, fun solution h => by cases h⟩
  · refine ⟨_, rfl, fun solution h => ?_⟩
    rw [← Except.ok.inj h]
    simp [pathPoint, length_coordinates hg hl hz]

/-- The projection comes to an answer, and a point that it finds has all coordinates. -/
theorem exists_project (hg : g.length = n) (hl : l.length = n) (hz : z.length = n) (r : T) :
    ∃ answer, project g l z r = .ok answer ∧
      ∀ solution, answer = .ok solution → solution.point.length = n := by
  have hpoint := exists_pointAt hg hl hz r
  unfold project
  split
  · exact ⟨_, rfl, fun solution h => by cases h⟩
  · split
    · exact ⟨_, rfl, fun solution h => by cases h⟩
    · split
      · exact ⟨_, rfl, fun solution h => by cases h⟩
      · split
        · next corner hcorner =>
          split
          · refine ⟨_, rfl, fun solution h => ?_⟩
            rw [← Except.ok.inj h]
            exact (length_corner? hcorner).trans hl
          · exact hpoint
        · exact hpoint

end TrustRegion

variable [Scalar T]

namespace BallOracle

variable {p : Problem T} {o : BallOracle}

theorem exists_gradient (hp : p.Accepted) {x y : List T} (hx : x.length = p.primalDim)
    (hy : y.length = p.dualDim) :
    ∃ g, (⟨p.primalDim, p.dualDim⟩ : BallOracle).gradient p x y = .ok g ∧
      g.length = p.primalDim + p.dualDim := by
  obtain ⟨slack, hslack, hcols⟩ := hp.inFormat.exists_transposeMulAdd (-1) 1 hy hp.length_cost
  obtain ⟨residual, hresidual, hrows⟩ := hp.inFormat.exists_mulAdd 1 (-1) hx hp.length_rhs
  have hrhs : Vector.copyOnto (Vector.zeros p.dualDim) p.rhs = .ok p.rhs :=
    Vector.copyOnto_eq_ok (by simp [Vector.zeros, hp.length_rhs])
  refine ⟨slack ++ residual, ?_, ?_⟩
  · rw [gradient, hslack, ok_bind, hrhs, ok_bind, hresidual]
    rfl
  · rw [List.length_append, hcols, hrows, Problem.primalDim, Problem.dualDim]

theorem exists_maximiser {n : ℕ} {g z : List T} {l : List (LowerBound T)} (hg : g.length = n)
    (hl : l.length = n) (hz : z.length = n) (r : T) :
    ∃ answer, maximiser g l z r = .ok answer ∧ ∀ best, answer = .ok best → best.length = n := by
  obtain ⟨answer, hproject, hpoint⟩ := TrustRegion.exists_project hg hl hz r
  unfold maximiser
  rw [hproject, ok_bind]
  split
  · next solution =>
    refine ⟨_, rfl, fun best h => ?_⟩
    rw [← Except.ok.inj h]
    exact hpoint solution rfl
  · refine ⟨_, rfl, fun best h => ?_⟩
    rw [← Except.ok.inj h, cornerPoint, List.length_map]
    exact TrustRegion.length_coordinates hg hl hz
  · exact ⟨_, rfl, fun best h => by cases h⟩

theorem length_bounds :
    ((⟨p.primalDim, p.dualDim⟩ : BallOracle).bounds : List (LowerBound T)).length =
      p.primalDim + p.dualDim := by
  simp [bounds]

theorem exists_gapAround (hp : p.Accepted) {z : List T}
    (hz : z.length = p.primalDim + p.dualDim) (r : T) :
    ∃ answer, (⟨p.primalDim, p.dualDim⟩ : BallOracle).gapAround z r p = .ok answer := by
  have hx : (z.take p.primalDim).length = p.primalDim := by simp [hz]
  have hy : (z.drop p.primalDim).length = p.dualDim := by simp [hz]
  obtain ⟨g, hgradient, hg⟩ := exists_gradient hp hx hy
  obtain ⟨answer, hmaximiser, hbest⟩ := exists_maximiser hg length_bounds hz r
  unfold gapAround
  simp only [hgradient, hp.primalObjective_eq_ok hx, hp.dualObjective_eq_ok hy, hmaximiser,
    ok_bind]
  split
  · exact ⟨_, rfl⟩
  · cases answer with
    | error e => exact ⟨_, rfl⟩
    | ok best =>
      have hdot : Vector.dot g best = .ok (Vector.inner g best) :=
        Vector.dot_eq_ok (by rw [hg, hbest best rfl])
      simp only [hdot, ok_bind]
      exact ⟨_, rfl⟩

/-- A centre of another length is refused before anything else happens. -/
theorem ask_of_length_ne {z : List T} (h : z.length ≠ p.primalDim + p.dualDim) (r : T) :
    ask o z r p = .ok (.error (.illPosed ("center has length " ++ toString z.length ++
      " but the problem has " ++ toString (p.primalDim + p.dualDim) ++ " variables")), o) :=
  if_pos h

theorem ask_eq_ok (ho : o.Suits p) {z : List T} (hz : z.length = p.primalDim + p.dualDim) {r : T}
    {answer : Except GapError T}
    (h : (⟨p.primalDim, p.dualDim⟩ : BallOracle).gapAround z r p = .ok answer) :
    ask o z r p = .ok (answer, ⟨p.primalDim, p.dualDim⟩) := by
  simp only [ask, hz, ne_eq, not_true_eq_false, if_false, fit_eq ho, h, ok_bind, pure_eq_ok]

/-- An oracle that suits the problem has an answer to every query, which is the same whatever room
the oracle has. -/
theorem exists_ask (hp : p.Accepted) {z : List T} (hz : z.length = p.primalDim + p.dualDim)
    (r : T) :
    ∃ answer, ∀ o : BallOracle, o.Suits p →
      GapOracle.ask o z r p = .ok (answer, (⟨p.primalDim, p.dualDim⟩ : BallOracle)) := by
  obtain ⟨answer, hanswer⟩ := exists_gapAround hp hz r
  exact ⟨answer, fun o ho => ask_eq_ok ho hz hanswer⟩

/-- Room for as many coordinates that are split elsewhere does not hold the right-hand side. -/
theorem ask_of_not_suits (hp : p.Accepted) (ho : ¬ o.Suits p) {z : List T}
    (hz : z.length = p.primalDim + p.dualDim) (r : T) :
    ask o z r p = .error .lengthMismatch := by
  obtain ⟨hsum, hne⟩ := Classical.not_imp.mp ho
  have hfit : o.fit p = o := if_pos hsum
  have hy : (z.drop p.primalDim).length = p.dualDim := by simp [hz]
  obtain ⟨slack, hslack, -⟩ := hp.inFormat.exists_transposeMulAdd (-1) 1 hy hp.length_cost
  have hrhs : Vector.copyOnto (Vector.zeros o.dualDim) p.rhs = .error .lengthMismatch := by
    have hlength : o.dualDim ≠ p.rhs.length := by
      rw [hp.length_rhs]
      omega
    simp [Vector.copyOnto, Vector.sameLength, hlength]
  simp only [ask, hz, ne_eq, not_true_eq_false, if_false, hfit, gapAround, gradient, hslack, hrhs,
    ok_bind, error_bind]

/-- Every query is answered, and the oracle goes on to suit the problem. -/
theorem answers_suits (hp : p.Accepted) :
    GapOracle.Answers p fun o : BallOracle => o.Suits p := by
  intro o z r ho hz
  obtain ⟨answer, hask⟩ := exists_ask hp hz r
  exact ⟨answer, _, hask o ho, fun _ => rfl⟩

end BallOracle

end PrimalDual
