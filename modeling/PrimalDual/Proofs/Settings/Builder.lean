import PrimalDual.Scalar.Binary
import PrimalDual.Settings.Builder

/-!
# Built settings are valid settings

A builder checks the fields that it was given, settings are checked in all of their fields. Both
sequences apply the same checks in the same order, and the defaults pass theirs. So a builder is
refused exactly when the settings that it stands for are invalid, with the text of their first
error.
-/
namespace PrimalDual.Settings.Builder

variable {T : Type} [Scalar T] {s : Settings T}

/-- A check that the default passes comes to the same on a field with or without its default. -/
theorem whenGiven_eq {α : Type} (check : α → Except SettingsError Unit) {d : α}
    (hd : check d = .ok ()) (o : Option α) : whenGiven check o = check (o.getD d) := by
  cases o with
  | none => exact hd.symm
  | some a => rfl

/-- Over valid settings, checking the given fields is checking all fields. -/
theorem validate_eq (hs : s.validate = .ok ()) (b : Builder T) :
    b.validate = (b.onto s).validate := by
  unfold Settings.validate at hs
  simp only [bind_eq_ok] at hs
  obtain ⟨_, hstep, _, hweight, _, hgap, _, hkkt, _, hdecay, _, hmethod, _, hrestart, _, hevaluate,
    _, hrecord, hprint⟩ := hs
  unfold Builder.validate Settings.validate
  rw [whenGiven_eq (checkPositive · "eta") hstep,
    whenGiven_eq (checkPositive · "w") hweight,
    whenGiven_eq (checkPositive · "tol") hgap,
    whenGiven_eq (checkPositive · "tol_kkt") hkkt, whenGiven_eq checkDecay hdecay,
    whenGiven_eq checkRestartMethod hmethod,
    whenGiven_eq (checkCadence · "restart_length") hrestart,
    whenGiven_eq (checkCadence · "evaluate_every") hevaluate,
    whenGiven_eq (checkCadence · "record_every") hrecord,
    whenGiven_eq (checkCadence · "print_every") hprint]
  rfl

/-- What a builder answers is what validation says of the given fields with defaults for the
others. -/
structure Agrees (b : Builder T) : Prop where
  ok_iff (s : Settings T) :
    b.build = .ok s ↔ (b.onto default).validate = .ok () ∧ s = b.onto default
  error_iff (e : ValidationError) :
    b.build = .error e ↔
      ∃ cause, (b.onto default).validate = .error cause ∧ e.message = cause.message

theorem agrees_of_default (h : (default : Settings T).validate = .ok ()) (b : Builder T) :
    b.Agrees := by
  have hvalidate := validate_eq h b
  cases hverdict : (b.onto default).validate with
  | ok _ =>
    have hbuild : b.build = .ok (b.onto default) := by
      rw [build, hvalidate, hverdict]
      rfl
    exact ⟨fun s => by simp [hbuild, hverdict, eq_comm], fun e => by simp [hbuild, hverdict]⟩
  | error cause =>
    have hbuild : b.build = .error (.ofCause cause) := by
      rw [build, hvalidate, hverdict]
      rfl
    refine ⟨fun s => by simp [hbuild, hverdict], fun e => ?_⟩
    cases e
    simp [hbuild, hverdict, ValidationError.ofCause, eq_comm]

/-- Of several fields that are out of range the first one is reported. -/
example : ({ primalWeight := some 0, stepSize := some (-1) } : Builder Float).build =
    .error ⟨"Bad value for field \"eta\""⟩ := rfl

theorem validate_default_double : (default : Settings Float).validate = .ok () := rfl

theorem validate_default_single : (default : Settings Float32).validate = .ok () := rfl

/-- In both precisions, whatever fields are given and whatever they hold, a builder answers what
validation says. -/
theorem build_agrees : (∀ b : Builder Float, b.Agrees) ∧ ∀ b : Builder Float32, b.Agrees :=
  ⟨agrees_of_default validate_default_double, agrees_of_default validate_default_single⟩

end PrimalDual.Settings.Builder
