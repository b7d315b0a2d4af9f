import PrimalDual.Gap.Evaluator
import PrimalDual.Proofs.Problem

/-!
# The evaluator never faults

The failures that an evaluator counts stay below its limit for as long as it asks, so that the count
never leaves its word.
-/
namespace PrimalDual

/-- In a good state the oracle answers every query about a point of the problem, and its state stays
good. -/
def GapOracle.Answers {ω T : Type} [GapOracle ω T] (p : Problem T) (good : ω → Prop) : Prop :=
  ∀ (o : ω) (z : List T) (r : T), good o → z.length = p.primalDim + p.dualDim →
    ∃ answer o', GapOracle.ask o z r p = .ok (answer, o') ∧ good o'

namespace GapEvaluator

section Ready

variable {ω : Type} {good : ω → Prop} {e : GapEvaluator ω}

/-- What an evaluator needs to go on without a fault. -/
structure Ready (good : ω → Prop) (e : GapEvaluator ω) : Prop where
  withinLimit : e.disabled = false → e.consecutiveFailures < max e.failureLimit 1
  bounded : e.failureLimit < Counter.bound
  oracle : ∀ o, e.oracle = some o → good o

theorem ready_reset (hbounded : e.failureLimit < Counter.bound)
    (horacle : ∀ o, e.oracle = some o → good o) : e.reset.Ready good where
  withinLimit _ := lt_of_lt_of_le Nat.zero_lt_one (le_max_right _ _)
  bounded := hbounded
  oracle := horacle

theorem Ready.takeNotice (h : e.Ready good) : e.takeNotice.2.Ready good :=
  ⟨h.withinLimit, h.bounded, h.oracle⟩

theorem Ready.withOracle (h : e.Ready good) {o : ω} (ho : good o) :
    { e with oracle := some o }.Ready good where
  withinLimit := h.withinLimit
  bounded := h.bounded
  oracle o' ho' := by
    rw [← Option.some.inj ho']
    exact ho

/-- An evaluator that still asks can count one more failure. -/
theorem Ready.exists_recordFailure (h : e.Ready good) (henabled : e.disabled = false) :
    ∃ e', e.recordFailure = .ok e' ∧ e'.Ready good := by
  have hcount := h.withinLimit henabled
  have hbound := h.bounded
  have hnext : Counter.next e.consecutiveFailures = .ok (e.consecutiveFailures + 1) := by
    apply Counter.next_eq_ok
    have hone : 1 < Counter.bound := by decide
    omega
  unfold recordFailure
  rw [hnext, ok_bind]
  by_cases hlimit : e.failureLimit ≤ e.consecutiveFailures + 1
  · refine ⟨_, if_pos hlimit, ?_, h.bounded, h.oracle⟩
    intro hdisabled
    cases hdisabled
  · refine ⟨_, if_neg hlimit, fun _ => ?_, h.bounded, h.oracle⟩
    exact lt_max_of_lt_left (not_le.mp hlimit)

end Ready

variable {ω T : Type} [Scalar T] {good : ω → Prop} {e : GapEvaluator ω}

theorem Ready.exists_settle (h : e.Ready good) (henabled : e.disabled = false)
    (answer : Except GapError T) :
    ∃ settled e', e.settle answer = .ok (settled, e') ∧ e'.Ready good := by
  obtain ⟨e', hrecord, hready⟩ := h.exists_recordFailure henabled
  cases answer with
  | error err => exact ⟨.error err, e', by simp [settle, hrecord], hready⟩
  | ok gap =>
    by_cases hfinite : Scalar.isFinite gap
    · refine ⟨.ok gap, { e with consecutiveFailures := 0 }, by rw [settle, if_pos hfinite], ?_⟩
      exact ⟨fun _ => lt_of_lt_of_le Nat.zero_lt_one (le_max_right _ _), h.bounded, h.oracle⟩
    · simp only [settle, if_neg hfinite, hrecord, ok_bind, pure_eq_ok]
      exact ⟨_, e', rfl, hready⟩

theorem recordFailure_keeps {e' : GapEvaluator ω} (h : e.recordFailure = .ok e') :
    e'.oracle = e.oracle ∧ e'.failureLimit = e.failureLimit := by
  unfold recordFailure at h
  obtain ⟨failures, -, h⟩ := bind_eq_ok.mp h
  split at h
  · rw [← Except.ok.inj h]
    exact ⟨rfl, rfl⟩
  · rw [← Except.ok.inj h]
    exact ⟨rfl, rfl⟩

/-- What is made of an answer leaves the oracle and the limit alone. -/
theorem settle_keeps {answer settled : Except GapError T} {e' : GapEvaluator ω}
    (h : e.settle answer = .ok (settled, e')) :
    e'.oracle = e.oracle ∧ e'.failureLimit = e.failureLimit := by
  unfold settle at h
  split at h
  · split at h
    · rw [snd_eq_of_pure h]
      exact ⟨rfl, rfl⟩
    · obtain ⟨e'', hrecord, h⟩ := bind_eq_ok.mp h
      rw [snd_eq_of_pure h]
      exact recordFailure_keeps hrecord
  · obtain ⟨e'', hrecord, h⟩ := bind_eq_ok.mp h
    rw [snd_eq_of_pure h]
    exact recordFailure_keeps hrecord

/-- A gap that is accepted is finite. -/
theorem isFinite_of_settle {answer : Except GapError T} {gap : T} {e' : GapEvaluator ω}
    (h : e.settle answer = .ok (.ok gap, e')) : Scalar.isFinite gap = true := by
  unfold settle at h
  split at h
  · split at h
    · next hfinite =>
      rwa [← Except.ok.inj (Prod.mk.inj (Except.ok.inj h)).1]
    · obtain ⟨e'', -, h⟩ := bind_eq_ok.mp h
      cases (Prod.mk.inj (Except.ok.inj h)).1
  · obtain ⟨e'', -, h⟩ := bind_eq_ok.mp h
    cases (Prod.mk.inj (Except.ok.inj h)).1

variable [GapOracle ω T] {p : Problem T}

theorem isFinite_of_evaluate {z : List T} {r gap : T} {e' : GapEvaluator ω}
    (h : e.evaluate z r p = .ok (.ok gap, e')) : Scalar.isFinite gap = true := by
  unfold evaluate at h
  split at h
  · cases (Prod.mk.inj (Except.ok.inj h)).1
  · split at h
    · cases (Prod.mk.inj (Except.ok.inj h)).1
    · obtain ⟨⟨answer, o⟩, -, h⟩ := bind_eq_ok.mp h
      exact isFinite_of_settle h

/-- No query around a point of the problem faults. -/
theorem Ready.exists_evaluate (h : e.Ready good) (hanswers : GapOracle.Answers p good) {z : List T}
    (hz : z.length = p.primalDim + p.dualDim) (r : T) :
    ∃ answer e', e.evaluate z r p = .ok (answer, e') ∧ e'.Ready good := by
  unfold evaluate
  by_cases hdisabled : e.disabled = true
  · exact ⟨_, e, if_pos hdisabled, h⟩
  · rw [if_neg hdisabled]
    cases horacle : e.oracle with
    | none => exact ⟨_, e, rfl, h⟩
    | some o =>
      obtain ⟨answer, o', hask, ho'⟩ := hanswers o z r (h.oracle o horacle) hz
      obtain ⟨settled, e', hsettle, hready⟩ :=
        (h.withOracle ho').exists_settle (Bool.not_eq_true _ ▸ hdisabled) answer
      exact ⟨settled, e', by simpa [hask] using hsettle, hready⟩

/-- No query about a problem takes a property from an evaluator that has it. -/
def Stable (p : Problem T) (P : GapEvaluator ω → Prop) : Prop :=
  ∀ (e e' : GapEvaluator ω) (z : List T) (r : T) (answer : Except GapError T),
    P e → e.evaluate z r p = .ok (answer, e') → P e'

/-- A query leaves the limit alone. -/
theorem stable_failureLimit (p : Problem T) (limit : ℕ) :
    Stable p fun e : GapEvaluator ω => e.failureLimit = limit := by
  intro e e' z r answer hlimit h
  unfold evaluate at h
  split at h
  · rw [snd_eq_of_pure h, hlimit]
  · split at h
    · rw [snd_eq_of_pure h, hlimit]
    · obtain ⟨⟨given, o⟩, -, h⟩ := bind_eq_ok.mp h
      exact (settle_keeps h).2.trans hlimit

/-- An evaluator that has no oracle, and has not given one up. -/
structure Idle (e : GapEvaluator ω) : Prop where
  missing : e.oracle = none
  enabled : e.disabled = false

/-- Without an oracle there is no gap, and nothing to fail. -/
theorem evaluate_idle (h : e.Idle) (z : List T) (r : T) (p : Problem T) :
    e.evaluate z r p = .ok (.error .unavailable, e) := by
  rw [evaluate, h.enabled, if_neg Bool.false_ne_true, h.missing]

theorem stable_idle (p : Problem T) : Stable p fun e : GapEvaluator ω => e.Idle := by
  intro e e' z r answer hidle h
  rw [evaluate_idle hidle] at h
  rw [snd_eq_of_pure h]
  exact hidle

end GapEvaluator

/-- An oracle that has no answer to any query. -/
inductive SilentOracle where
  | silent

instance {T : Type} : GapOracle SilentOracle T where
  ask o _ _ _ := .ok (.error (.subproblemFailed "no answer"), o)

namespace SilentOracle

variable {T : Type}

theorem answers (p : Problem T) : GapOracle.Answers p fun _ : SilentOracle => True :=
  fun o _ _ _ _ => ⟨_, o, rfl, trivial⟩

variable [Scalar T] {p : Problem T} {e e' : GapEvaluator SilentOracle} {z : List T} {r : T}
  {answer : Except GapError T}

/-- No gap is had from silence, and where a single failure counts the oracle is given up. -/
theorem evaluate_eq_ok (h : e.evaluate z r p = .ok (answer, e')) :
    answer.toOption = none ∧ (e.oracle.isSome → e.failureLimit ≤ 1 → e'.disabled = true) := by
  unfold GapEvaluator.evaluate at h
  split at h
  · next hdisabled =>
    obtain ⟨rfl, rfl⟩ := Prod.mk.inj (Except.ok.inj h)
    exact ⟨rfl, fun _ _ => hdisabled⟩
  · split at h
    · next hnone =>
      obtain ⟨rfl, rfl⟩ := Prod.mk.inj (Except.ok.inj h)
      exact ⟨rfl, fun hsome => by simp [hnone] at hsome⟩
    · obtain ⟨⟨given, o⟩, hask, h⟩ := bind_eq_ok.mp h
      obtain ⟨rfl, -⟩ := Prod.mk.inj (Except.ok.inj hask)
      obtain ⟨failed, hfail, h⟩ := bind_eq_ok.mp h
      obtain ⟨rfl, rfl⟩ := Prod.mk.inj (Except.ok.inj h)
      refine ⟨rfl, fun _ hlimit => ?_⟩
      obtain ⟨failures, hnext, hfail⟩ := bind_eq_ok.mp hfail
      obtain ⟨-, rfl⟩ := Counter.next_eq_ok_iff.mp hnext
      rw [if_pos (hlimit.trans (Nat.le_add_left 1 _))] at hfail
      rw [← Except.ok.inj hfail]

end SilentOracle

end PrimalDual
