import PrimalDual.Proofs.Gap.Ball
import PrimalDual.Proofs.Iterates
import PrimalDual.Restart

/-!
# Evaluators in step

Two evaluators whose oracles answer alike give the same values to the same iterates, and lead a
policy to the same decisions. What the oracles keep to themselves makes no difference.
-/
namespace PrimalDual

section Agree

variable {ε α β α' β' : Type} {x : Except ε α} {y : Except ε β} {Q : α → β → Prop}
  {Q' : α' → β' → Prop}

/-- The results of two computations are related, if both have one. -/
def Agree (Q : α → β → Prop) (x : Except ε α) (y : Except ε β) : Prop :=
  ∀ a b, x = .ok a → y = .ok b → Q a b

theorem agree_ok {a : α} {b : β} (h : Q a b) : Agree Q (.ok a : Except ε α) (.ok b) := by
  intro a' b' ha hb
  rw [← Except.ok.inj ha, ← Except.ok.inj hb]
  exact h

theorem agree_self (x : Except ε α) : Agree Eq x x := by
  intro a b ha hb
  exact ok_unique ha hb

theorem Agree.bind {f : α → Except ε α'} {g : β → Except ε β'} (h : Agree Q x y)
    (hfg : ∀ a b, Q a b → Agree Q' (f a) (g b)) : Agree Q' (x >>= f) (y >>= g) := by
  intro a' b' ha hb
  obtain ⟨a, hx, ha⟩ := bind_eq_ok.mp ha
  obtain ⟨b, hy, hb⟩ := bind_eq_ok.mp hb
  exact hfg a b (h a b hx hy) a' b' ha hb

/-- Two computations that begin with the same one go on from the same result. -/
theorem agree_bind {γ : Type} (z : Except ε γ) {f : γ → Except ε α} {g : γ → Except ε β}
    (h : ∀ c, Agree Q (f c) (g c)) : Agree Q (z >>= f) (z >>= g) := by
  refine (agree_self z).bind fun a b hab => ?_
  rw [hab]
  exact h b

end Agree

variable {T ω₁ ω₂ : Type} {R : ω₁ → ω₂ → Prop}

theorem exists_related_right {o : ω₁} {b : Option ω₂} (h : Option.Rel R (some o) b) :
    ∃ o', R o o' := by
  cases h with
  | some h => exact ⟨_, h⟩

theorem exists_related_left {o : ω₂} {a : Option ω₁} (h : Option.Rel R a (some o)) :
    ∃ o', R o' o := by
  cases h with
  | some h => exact ⟨_, h⟩

namespace GapEvaluator

/-- Evaluators that differ at most in the states of their oracles. -/
structure InStep (R : ω₁ → ω₂ → Prop) (e₁ : GapEvaluator ω₁) (e₂ : GapEvaluator ω₂) : Prop where
  oracle : Option.Rel R e₁.oracle e₂.oracle
  consecutiveFailures : e₂.consecutiveFailures = e₁.consecutiveFailures
  failureLimit : e₂.failureLimit = e₁.failureLimit
  disabled : e₂.disabled = e₁.disabled
  justDisabled : e₂.justDisabled = e₁.justDisabled

/-- The same result, with evaluators in step. -/
def InStepWith {α : Type} (R : ω₁ → ω₂ → Prop) (x₁ : α × GapEvaluator ω₁)
    (x₂ : α × GapEvaluator ω₂) : Prop :=
  x₂.1 = x₁.1 ∧ x₁.2.InStep R x₂.2

variable {e₁ : GapEvaluator ω₁} {e₂ : GapEvaluator ω₂}

theorem InStep.oracles (h : e₁.InStep R e₂) : e₁.oracle = none ∧ e₂.oracle = none ∨
    ∃ o₁ o₂, e₁.oracle = some o₁ ∧ e₂.oracle = some o₂ ∧ R o₁ o₂ := by
  have horacle := h.oracle
  generalize e₁.oracle = a, e₂.oracle = b at horacle
  cases horacle with
  | some ho => exact .inr ⟨_, _, rfl, rfl, ho⟩
  | none => exact .inl ⟨rfl, rfl⟩

theorem InStep.takeNotice (h : e₁.InStep R e₂) : e₁.takeNotice.2.InStep R e₂.takeNotice.2 :=
  ⟨h.oracle, h.consecutiveFailures, h.failureLimit, h.disabled, rfl⟩

theorem InStep.recordFailure (h : e₁.InStep R e₂) :
    Agree (InStep R) e₁.recordFailure e₂.recordFailure := by
  unfold GapEvaluator.recordFailure
  rw [h.consecutiveFailures, h.failureLimit]
  refine agree_bind _ fun failures => ?_
  by_cases hlimit : e₁.failureLimit ≤ failures
  · rw [if_pos hlimit, if_pos hlimit]
    exact agree_ok ⟨h.oracle, rfl, rfl, rfl, rfl⟩
  · rw [if_neg hlimit, if_neg hlimit]
    exact agree_ok ⟨h.oracle, rfl, rfl, h.disabled, h.justDisabled⟩

variable [Scalar T]

/-- The same answer is taken into account in the same way. -/
theorem InStep.settle (h : e₁.InStep R e₂) (answer : Except GapError T) :
    Agree (InStepWith R) (e₁.settle answer) (e₂.settle answer) := by
  cases answer with
  | error err => exact h.recordFailure.bind fun f₁ f₂ hf => agree_ok ⟨rfl, hf⟩
  | ok gap =>
    by_cases hfinite : Scalar.isFinite gap
    · simp only [GapEvaluator.settle, hfinite, if_true]
      exact agree_ok ⟨rfl, h.oracle, rfl, h.failureLimit, h.disabled, h.justDisabled⟩
    · simp only [GapEvaluator.settle, hfinite]
      exact h.recordFailure.bind fun f₁ f₂ hf => agree_ok ⟨rfl, hf⟩

end GapEvaluator

variable [GapOracle ω₁ T] [GapOracle ω₂ T] {p : Problem T}

/-- Related oracles give the same answer to every query about a point of the problem, and stay
related. -/
def GapOracle.Alike (p : Problem T) (R : ω₁ → ω₂ → Prop) : Prop :=
  ∀ (o₁ : ω₁) (o₂ : ω₂) (z : List T) (r : T), R o₁ o₂ → z.length = p.primalDim + p.dualDim →
    ∃ answer o₁' o₂', GapOracle.ask o₁ z r p = .ok (answer, o₁') ∧
      GapOracle.ask o₂ z r p = .ok (answer, o₂') ∧ R o₁' o₂'

theorem GapOracle.Alike.answers_left (h : GapOracle.Alike p R) :
    GapOracle.Answers p fun o₁ => ∃ o₂, R o₁ o₂ := by
  rintro o₁ z r ⟨o₂, ho⟩ hz
  obtain ⟨answer, o₁', o₂', hask, -, ho'⟩ := h o₁ o₂ z r ho hz
  exact ⟨answer, o₁', hask, o₂', ho'⟩

theorem GapOracle.Alike.answers_right (h : GapOracle.Alike p R) :
    GapOracle.Answers p fun o₂ => ∃ o₁, R o₁ o₂ := by
  rintro o₂ z r ⟨o₁, ho⟩ hz
  obtain ⟨answer, o₁', o₂', -, hask, ho'⟩ := h o₁ o₂ z r ho hz
  exact ⟨answer, o₂', hask, o₁', ho'⟩

/-- In a good state the answer of an oracle depends on the query alone, and its state stays good. -/
def GapOracle.Consistent {ω : Type} [GapOracle ω T] (p : Problem T) (good : ω → Prop) : Prop :=
  ∀ (z : List T) (r : T), z.length = p.primalDim + p.dualDim →
    ∃ answer, ∀ o : ω, good o → ∃ o', GapOracle.ask o z r p = .ok (answer, o') ∧ good o'

/-- Two good states of one oracle. -/
def GapOracle.Both {ω : Type} (good : ω → Prop) (o₁ o₂ : ω) : Prop := good o₁ ∧ good o₂

/-- Consistent oracles answer alike, whatever they were asked before. -/
theorem GapOracle.Consistent.alike {ω : Type} [GapOracle ω T] {good : ω → Prop}
    (h : GapOracle.Consistent p good) : GapOracle.Alike p (GapOracle.Both good) := by
  rintro o₁ o₂ z r ⟨ho₁, ho₂⟩ hz
  obtain ⟨answer, hanswer⟩ := h z r hz
  obtain ⟨o₁', hask₁, ho₁'⟩ := hanswer o₁ ho₁
  obtain ⟨o₂', hask₂, ho₂'⟩ := hanswer o₂ ho₂
  exact ⟨answer, o₁', o₂', hask₁, hask₂, ho₁', ho₂'⟩

variable [Scalar T]

theorem BallOracle.consistent_suits (hp : p.Accepted) :
    GapOracle.Consistent p fun o : BallOracle => o.Suits p := by
  intro z r hz
  obtain ⟨answer, hask⟩ := exists_ask hp hz r
  exact ⟨answer, fun o ho => ⟨_, hask o ho, fun _ => rfl⟩⟩

namespace GapEvaluator

variable {e₁ : GapEvaluator ω₁} {e₂ : GapEvaluator ω₂}

theorem InStep.evaluate (h : e₁.InStep R e₂) (halike : GapOracle.Alike p R) {z : List T}
    (hz : z.length = p.primalDim + p.dualDim) (r : T) :
    Agree (InStepWith R) (e₁.evaluate z r p) (e₂.evaluate z r p) := by
  unfold GapEvaluator.evaluate
  by_cases hdisabled : e₁.disabled
  · rw [if_pos hdisabled, if_pos (h.disabled.trans hdisabled)]
    exact agree_ok ⟨rfl, h⟩
  · rw [if_neg hdisabled, if_neg (h.disabled ▸ hdisabled)]
    rcases h.oracles with ⟨hnone₁, hnone₂⟩ | ⟨o₁, o₂, hsome₁, hsome₂, ho⟩
    · rw [hnone₁, hnone₂]
      exact agree_ok ⟨rfl, h⟩
    · obtain ⟨answer, o₁', o₂', hask₁, hask₂, ho'⟩ := halike o₁ o₂ z r ho hz
      rw [hsome₁, hsome₂]
      simp only [hask₁, hask₂, ok_bind]
      have hasked : InStep R { e₁ with oracle := some o₁' } { e₂ with oracle := some o₂' } :=
        ⟨.some ho', h.consecutiveFailures, h.failureLimit, h.disabled, h.justDisabled⟩
      exact hasked.settle answer

end GapEvaluator

namespace Iterates

variable {s : Iterates T} {settings : Settings T} {gap₁ : GapEvaluator ω₁} {gap₂ : GapEvaluator ω₂}

theorem gapIfEnabled_inStep (hfits : s.Fits p) (halike : GapOracle.Alike p R)
    (h : gap₁.InStep R gap₂) : Agree (GapEvaluator.InStepWith R)
      (s.gapIfEnabled p settings gap₁) (s.gapIfEnabled p settings gap₂) := by
  unfold gapIfEnabled gapOfEpoch
  by_cases henabled : settings.gapEnabled
  · rw [if_pos henabled, if_pos henabled]
    refine agree_bind _ fun distance => ?_
    refine (h.evaluate halike hfits.average _).bind ?_
    rintro ⟨answer₁, gap₁'⟩ ⟨answer₂, gap₂'⟩ ⟨rfl, hgap⟩
    exact agree_ok ⟨rfl, hgap⟩
  · rw [if_neg henabled, if_neg henabled]
    exact agree_ok ⟨rfl, h⟩

theorem evaluate_inStep (hfits : s.Fits p) (halike : GapOracle.Alike p R)
    (h : gap₁.InStep R gap₂) : Agree (GapEvaluator.InStepWith R)
      (s.evaluate p settings gap₁) (s.evaluate p settings gap₂) := by
  unfold evaluate
  refine agree_bind _ fun error => ?_
  refine (gapIfEnabled_inStep hfits halike h).bind ?_
  rintro ⟨value₁, gap₁'⟩ ⟨value₂, gap₂'⟩ ⟨rfl, hgap⟩
  refine agree_ok ⟨?_, hgap⟩
  dsimp only
  rw [hgap.disabled]

end Iterates

namespace RestartPolicy

variable {s : Iterates T} {settings : Settings T} {gap₁ : GapEvaluator ω₁} {gap₂ : GapEvaluator ω₂}

theorem decayed_inStep (hfits : s.Fits p) (halike : GapOracle.Alike p R) (h : gap₁.InStep R gap₂)
    (previous : List T) : Agree (GapEvaluator.InStepWith R)
      (decayed s previous p settings gap₁) (decayed s previous p settings gap₂) := by
  unfold decayed
  refine agree_bind _ fun epochRadius => agree_bind _ fun previousRadius => ?_
  refine (h.evaluate halike hfits.average _).bind ?_
  rintro ⟨now₁, gap₁'⟩ ⟨now₂, gap₂'⟩ ⟨rfl, hgap⟩
  cases now₂ with
  | error err => exact agree_ok ⟨rfl, hgap⟩
  | ok now =>
    refine (hgap.evaluate halike hfits.epochStart _).bind ?_
    rintro ⟨before₁, gap₁''⟩ ⟨before₂, gap₂''⟩ ⟨rfl, hgap'⟩
    cases before₂ with
    | error err => exact agree_ok ⟨rfl, hgap'⟩
    | ok before => exact agree_ok ⟨rfl, hgap'⟩

theorem check_inStep (policy : RestartPolicy) (hfits : s.Fits p) (halike : GapOracle.Alike p R)
    (h : gap₁.InStep R gap₂) : Agree (GapEvaluator.InStepWith R)
      (policy.check s p settings gap₁) (policy.check s p settings gap₂) := by
  unfold check checkAdaptive checkFixed
  cases policy with
  | never => exact agree_ok ⟨rfl, h⟩
  | fixed =>
    by_cases henabled : settings.restartEnabled
    · simp only [henabled, if_true]
      exact agree_bind _ fun step => agree_bind _ fun onCadence => agree_ok ⟨rfl, h⟩
    · simp only [henabled]
      exact agree_ok ⟨rfl, h⟩
  | adaptive =>
    by_cases henabled : settings.restartEnabled
    · simp only [henabled, if_true]
      refine agree_bind _ fun step => agree_bind _ fun onCadence => ?_
      by_cases hcadence : onCadence
      · by_cases hfirst : s.restarts = 0
        · simp only [hcadence, hfirst, if_true]
          exact agree_ok ⟨rfl, h⟩
        · simp only [hcadence, hfirst]
          cases s.previousStart with
          | none => exact agree_ok ⟨rfl, h⟩
          | some previous => exact decayed_inStep hfits halike h previous
      · simp only [hcadence]
        exact agree_ok ⟨rfl, h⟩
    · simp only [henabled]
      exact agree_ok ⟨rfl, h⟩

end RestartPolicy

end PrimalDual
