import PrimalDual.Convergence
import PrimalDual.Gap.Ball
import PrimalDual.Proofs.Gap.Evaluator
import PrimalDual.Proofs.Solver.Entries

/-!
# What trajectories hold

A run appends iterates to a trajectory and pushes restart indices, in any order and also when the
trajectory is full. Whatever it does, the indices are words and the gaps are finite, because no
evaluation finds out another gap.
-/
namespace PrimalDual

variable {T : Type} [Scalar T]

/-- The diagnostics that iterates carry: none before the first evaluation, and then what the latest
one found out, with whatever oracle. -/
inductive Diagnostics.Carried : Diagnostics T → Prop
  | fresh : Carried .zero
  | evaluated {ω : Type} [GapOracle ω T] {s s' : Iterates T} {p : Problem T}
      {settings : Settings T} {gap gap' : GapEvaluator ω}
      (h : s.evaluate p settings gap = .ok (s', gap')) : Carried s'.diagnostics

theorem Diagnostics.Carried.gap_finite {d : Diagnostics T} (h : d.Carried) :
    ∀ g ∈ d.gap, Scalar.isFinite g = true := by
  cases h with
  | fresh => exact fun g hg => absurd hg (by simp [Diagnostics.zero])
  | @evaluated ω _ s s' p settings gap gap' h =>
    unfold Iterates.evaluate at h
    obtain ⟨error, -, h⟩ := bind_eq_ok.mp h
    obtain ⟨⟨value, e⟩, hgap, h⟩ := bind_eq_ok.mp h
    obtain ⟨rfl, rfl⟩ := Prod.mk.inj (Except.ok.inj h)
    intro g hg
    obtain rfl : value = some g := hg
    unfold Iterates.gapIfEnabled at hgap
    split at hgap
    · obtain ⟨radius, -, hgap⟩ := bind_eq_ok.mp hgap
      obtain ⟨⟨answer, e⟩, hanswer, hgap⟩ := bind_eq_ok.mp hgap
      cases answer with
      | error err => cases (Prod.mk.inj (Except.ok.inj hgap)).1
      | ok gap =>
        obtain rfl := Option.some.inj (Prod.mk.inj (Except.ok.inj hgap)).1
        exact GapEvaluator.isFinite_of_evaluate hanswer
    · cases (Prod.mk.inj (Except.ok.inj hgap)).1

/-- Evaluations without a gap find every error of a point. -/
theorem Diagnostics.carried_of_kktError {s : Iterates T} {p : Problem T} {error : T}
    (h : s.kktError p = .ok error) : Carried ⟨error, none⟩ := by
  let settings : Settings T := { Settings.default with gapEnabled := false }
  let gap : GapEvaluator BallOracle := .withLimit 0
  have hevaluate : s.evaluate p settings gap = .ok
      ({ s with
          diagnostics := ⟨error, none⟩
          terminate :=
            s.terminate || Iterates.converged settings gap.disabled ⟨error, none⟩ }, gap) := by
    simp [Iterates.evaluate, Iterates.gapIfEnabled, h, settings]
  exact .evaluated hevaluate

namespace Trajectory

/-- What is asked of a trajectory in the course of a run. -/
inductive Call (T : Type) where
  | append (s : Iterates T)
  | pushRestart (step : ℕ)

/-- A trajectory that refuses a record stays as it is. -/
def after (t : Trajectory T) : Call T → Except Fault (Trajectory T)
  | .append s => do
    match ← t.append s with
    | .ok t => return t
    | .error _ => return t
  | .pushRestart step => .ok (t.pushRestart step)

/-- Counters are words. -/
def Call.Possible : Call T → Prop
  | .append s => s.count < Counter.bound ∧ s.diagnostics.Carried
  | .pushRestart step => step < Counter.bound

/-- What possible calls leave in a trajectory. -/
structure Sound (t : Trajectory T) : Prop where
  step_lt : ∀ e ∈ t.entries.toList, e.step < Counter.bound
  gap_finite : ∀ e ∈ t.entries.toList, ∀ g ∈ e.diagnostics.gap, Scalar.isFinite g = true
  restart_lt : ∀ n ∈ t.restartSteps.toList, n < Counter.bound

variable {t t' : Trajectory T}

theorem forall_mem_push {α : Type} {P : α → Prop} {xs : Array α} {a : α}
    (h : ∀ x ∈ xs.toList, P x) (ha : P a) : ∀ x ∈ (xs.push a).toList, P x := by
  rw [Array.toList_push]
  exact List.forall_mem_append.mpr ⟨h, List.forall_mem_singleton.mpr ha⟩

theorem sound_withCapacity (capacity : ℕ) : (withCapacity capacity : Trajectory T).Sound where
  step_lt := by simp [withCapacity]
  gap_finite := by simp [withCapacity]
  restart_lt := by simp [withCapacity]

theorem Sound.append (ht : t.Sound) {s : Iterates T} (hs : (Call.append s).Possible)
    (h : t.append s = .ok (.ok t')) : t'.Sound := by
  obtain ⟨k, hstep, rfl⟩ := append_push h
  obtain ⟨hcount, hcarried⟩ := hs
  have hk : k < Counter.bound := by
    have := Counter.previous_eq_ok_iff.mp hstep
    omega
  exact ⟨forall_mem_push ht.step_lt hk, forall_mem_push ht.gap_finite hcarried.gap_finite,
    ht.restart_lt⟩

/-- One call. -/
theorem Sound.after (ht : t.Sound) {call : Call T} (hcall : call.Possible)
    (h : t.after call = .ok t') : t'.Sound := by
  cases call with
  | append s =>
    obtain ⟨answer, happend, h⟩ := bind_eq_ok.mp h
    cases answer with
    | error e =>
      obtain rfl := Except.ok.inj h
      exact ht
    | ok t'' =>
      obtain rfl := Except.ok.inj h
      exact ht.append hcall happend
  | pushRestart step =>
    obtain rfl := Except.ok.inj h
    exact ⟨ht.step_lt, ht.gap_finite, forall_mem_push ht.restart_lt hcall⟩

/-- All calls of a run. -/
theorem Sound.foldlM (ht : t.Sound) {calls : List (Call T)} (hcalls : ∀ c ∈ calls, c.Possible)
    (h : calls.foldlM Trajectory.after t = .ok t') : t'.Sound := by
  induction calls generalizing t with
  | nil =>
    obtain rfl := Except.ok.inj h
    exact ht
  | cons c calls ih =>
    rw [List.foldlM_cons] at h
    obtain ⟨next, hnext, h⟩ := bind_eq_ok.mp h
    exact ih (ht.after (hcalls c List.mem_cons_self) hnext)
      (fun d hd => hcalls d (List.mem_cons_of_mem c hd)) h

end Trajectory

end PrimalDual
