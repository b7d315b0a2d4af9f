import PrimalDual.Proofs.Json.Scalars
import PrimalDual.Proofs.Residuals
import PrimalDual.Proofs.Text.Utf8
import PrimalDual.Proofs.Trajectory.Filling
import PrimalDual.Trajectory.Json

/-!
# Trajectories read back from JSON

A trajectory that was filled by a run is read back from its file: the same records and the same
restart indices, as long as every error in it is finite. An error that is not finite is written as
null, which the reader takes for a missing gap but not for an error.
-/
namespace PrimalDual

variable {T : Type}

namespace History

section Documents

variable [Json.Number T] {r : HistoryRecord T} {h : History T}

/-- The document that the text of a record is read as. -/
def recordDoc (r : HistoryRecord T) : Json :=
  .object [(some "step".toList, Json.natDoc r.step),
    (some "kkt_error".toList, Json.scalarDoc r.diagnostics.kktError),
    (some "normalized_duality_gap".toList, (r.diagnostics.gap.map Json.scalarDoc).getD .null)] none

/-- The document that the text of a history is read as. -/
def doc (h : History T) : Json :=
  .object [(some "records".toList, .array (h.records.map recordDoc) none),
    (some "restart_idx".toList, .array (h.restartSteps.map Json.natDoc) none)] none

/-- A record that can be written and read: its step is a word, its gap is finite if there is one,
and its finite scalars read back. -/
structure Legible (r : HistoryRecord T) : Prop where
  step_lt : r.step < Counter.bound
  gap_finite : ∀ g ∈ r.diagnostics.gap, Scalar.isFinite g = true
  kktError_reads : Scalar.isFinite r.diagnostics.kktError = true →
    Json.ReadsBack r.diagnostics.kktError
  gap_reads : ∀ g ∈ r.diagnostics.gap, Json.ReadsBack g

theorem scans_recordText [Json.NullsNonfinite T] (hr : Legible r) :
    Json.Scans (recordText r) (recordDoc r) := by
  have hgap : Json.Scans (Json.optionText Json.numberText r.diagnostics.gap)
      ((r.diagnostics.gap.map Json.scalarDoc).getD .null) := by
    cases hg : r.diagnostics.gap with
    | none => exact Json.scans_null
    | some g => exact Json.scans_numberText fun _ => hr.gap_reads g hg
  refine Json.scans_recordText [("step", Json.natText r.step, Json.natDoc r.step),
    ("kkt_error", Json.numberText r.diagnostics.kktError, Json.scalarDoc r.diagnostics.kktError),
    ("normalized_duality_gap", Json.optionText Json.numberText r.diagnostics.gap,
      (r.diagnostics.gap.map Json.scalarDoc).getD .null)] ?_
  simp only [List.forall_mem_cons, List.not_mem_nil, false_imp_iff, implies_true, and_true]
  exact ⟨Json.scans_natText _, Json.scans_numberText hr.kktError_reads, hgap⟩

theorem scans_jsonText [Json.NullsNonfinite T] (h : History T) (hr : ∀ r ∈ h.records, Legible r) :
    Json.Scans h.jsonText h.doc := by
  refine Json.scans_recordText [("records", Json.listText recordText h.records,
      .array (h.records.map recordDoc) none),
    ("restart_idx", Json.listText Json.natText h.restartSteps,
      .array (h.restartSteps.map Json.natDoc) none)] ?_
  simp only [List.forall_mem_cons, List.not_mem_nil, false_imp_iff, implies_true, and_true]
  exact ⟨Json.scans_listText fun r hmem => scans_recordText (hr r hmem),
    Json.scans_listText fun n _ => Json.scans_natText n⟩

theorem heldScalar_scalarDoc {x : T} (h : Scalar.isFinite x = true → Json.ReadsBack x) :
    heldScalar (Json.scalarDoc x) = if Scalar.isFinite x then .ok x else .error .mismatched := by
  cases hfinite : Scalar.isFinite x with
  | false =>
    rw [Json.scalarDoc_of_not_finite hfinite]
    rfl
  | true =>
    obtain ⟨n, hdoc, -, -, hheld⟩ := Json.scalarDoc_of_readsBack hfinite (h hfinite)
    rw [hdoc, heldScalar, hheld]
    rfl

theorem heldOptional_gapDoc (hr : Legible r) :
    heldOptional (some ((r.diagnostics.gap.map Json.scalarDoc).getD .null)) =
      .ok r.diagnostics.gap := by
  cases hg : r.diagnostics.gap with
  | none => rfl
  | some g =>
    obtain ⟨n, hdoc, -, -, hheld⟩ :=
      Json.scalarDoc_of_readsBack (hr.gap_finite g hg) (hr.gap_reads g hg)
    rw [Option.map_some, Option.getD_some, hdoc]
    simp [heldOptional, heldScalar, hheld]

theorem hold_gapDoc (hr : Legible r) (depth : ℕ) :
    Json.hold depth ((r.diagnostics.gap.map Json.scalarDoc).getD .null) = .ok () := by
  cases hg : r.diagnostics.gap with
  | none => rfl
  | some g => exact Json.hold_scalarDoc (fun _ => hr.gap_reads g hg) depth

/-- Null stands for a gap but not for an error. -/
theorem readRecord_recordDoc (hr : Legible r) : readRecord (recordDoc r) =
    if Scalar.isFinite r.diagnostics.kktError then .ok r else .error .mismatched := by
  have hstep : readStep (Json.natDoc r.step) = .ok r.step := Json.readNat_natDoc hr.step_lt
  have herror := Json.hold_scalarDoc hr.kktError_reads heldDepth
  have hgap := hold_gapDoc hr heldDepth
  have hheld := heldScalar_scalarDoc hr.kktError_reads
  have hoptional := heldOptional_gapDoc hr
  cases hfinite : Scalar.isFinite r.diagnostics.kktError <;> rw [hfinite] at hheld <;>
    simp [readRecord, recordDoc, holdField, Held.find?, Json.closed, Json.required, hstep, herror,
      hgap, hheld, hoptional]

theorem readJson_doc (h : History T) (hr : ∀ r ∈ h.records, Legible r)
    (hsteps : ∀ n ∈ h.restartSteps, n < Counter.bound) : readJson h.doc =
    if h.records.all (Scalar.isFinite ·.diagnostics.kktError) then .ok h
    else .error .mismatched := by
  have hrecords : (h.records.map recordDoc).mapM readRecord =
      if h.records.all (Scalar.isFinite ·.diagnostics.kktError) then .ok h.records
      else .error .mismatched := by
    have hread := mapM_eq_ite (f := readRecord ∘ recordDoc) (g := id) fun r hmem =>
      readRecord_recordDoc (hr r hmem)
    rw [List.mapM_map, hread, List.map_id]
  have hrestarts : (h.restartSteps.map Json.natDoc).mapM readStep = .ok h.restartSteps := by
    have hread := mapM_eq_ok (f := readStep ∘ Json.natDoc) (g := id) fun n hmem =>
      Json.readNat_natDoc (hsteps n hmem)
    rw [List.mapM_map, hread, List.map_id]
  cases hall : h.records.all (Scalar.isFinite ·.diagnostics.kktError) <;>
    rw [hall] at hrecords <;>
    simp [readJson, doc, Json.readRecord, readField, Json.readList, Json.closed, Json.required,
      hrecords, hrestarts]

/-- A history is read back from its file if all errors in it are finite, and refused otherwise. -/
theorem ofBytes_jsonText [Json.NullsNonfinite T] (h : History T) (hr : ∀ r ∈ h.records, Legible r)
    (hsteps : ∀ n ∈ h.restartSteps, n < Counter.bound) :
    ofBytes (Utf8.encode (String.ofList h.jsonText)) =
      if h.records.all (Scalar.isFinite ·.diagnostics.kktError) then .ok h
      else .error .invalidData := by
  have hdecode := readJson_doc h hr hsteps
  rw [ofBytes, Utf8.decode?_encode]
  simp only [Json.decodeText, (scans_jsonText h hr).ofText_eq, hdecode]
  cases h.records.all (Scalar.isFinite ·.diagnostics.kktError) <;> rfl

end Documents

end History

namespace Trajectory

variable [Json.Number T]

/-- What the file of a trajectory is read as. -/
def reread (t : Trajectory T) : Except History.FileError (History T) :=
  History.ofBytes (Utf8.encode (String.ofList t.history.jsonText))

/-- A trajectory that calls have filled is read back from its file, record by record and restart by
restart, if every error in it is finite. One infinite error is enough for the reader to refuse the
file. -/
theorem reread_filled [Json.NullsNonfinite T] {capacity : ℕ} {calls : List (Call T)}
    {t : Trajectory T} (hcalls : ∀ c ∈ calls, c.Possible)
    (hfilled : calls.foldlM after (withCapacity capacity) = .ok t)
    (hreads : ∀ e ∈ t.entries.toList, ∀ x ∈ e.diagnostics.kktError :: e.diagnostics.gap.toList,
      Scalar.isFinite x = true → Json.ReadsBack x) :
    t.reread =
      if t.entries.toList.all (Scalar.isFinite ·.diagnostics.kktError) then .ok t.history
      else .error .invalidData := by
  have hsound := (sound_withCapacity capacity).foldlM hcalls hfilled
  have hlegible : ∀ r ∈ t.history.records, History.Legible r := by
    intro r hr
    obtain ⟨e, he, rfl⟩ := List.mem_map.mp hr
    exact
      { step_lt := hsound.step_lt e he
        gap_finite := hsound.gap_finite e he
        kktError_reads := hreads e he _ List.mem_cons_self
        gap_reads := fun g hg => hreads e he g
          (List.mem_cons_of_mem _ (Option.mem_toList.mpr hg)) (hsound.gap_finite e he g hg) }
  have hread := History.ofBytes_jsonText t.history hlegible hsound.restart_lt
  rwa [history, List.all_map] at hread

/-- Iterates at a point of the problem whose cost falls, with what an evaluation found out. -/
def assessed (x : Float) (d : Diagnostics Float) : Iterates Float :=
  { Iterates.startingAt [x, 0] (.primalDual 1 1) with diagnostics := d, count := 32 }

/-- What an evaluation finds out one step away from the origin, with a gap. -/
def nearby : Diagnostics Float := ⟨1.4142135623730951, some 1.41421356225635⟩

theorem nearby_carried : nearby.Carried := by
  let s : Iterates Float := Iterates.startingAt [1, 0] (.primalDual 1 1)
  let settings : Settings Float := { Settings.default with gapEnabled := true }
  let gap : GapEvaluator BallOracle := (GapEvaluator.withLimit 3).setOracle {}
  have hevaluate : (s.evaluate Problem.diverging settings gap).map
      (fun found => (found.1.diagnostics.kktError, found.1.diagnostics.gap)) =
      .ok (nearby.kktError, nearby.gap) := by decide +kernel
  obtain ⟨⟨s', gap'⟩, hfound, hd⟩ := map_eq_ok.mp hevaluate
  obtain ⟨herror, hgap⟩ := Prod.mk.inj hd
  have hcarried := Diagnostics.Carried.evaluated hfound
  have heq : s'.diagnostics = nearby := by
    cases hs' : s'.diagnostics
    simp_all
  rwa [heq] at hcarried

/-- Two records and a restart, after which the trajectory is full and refuses a third record. -/
theorem reread_filled_nearby :
    let calls := [.append (.origin 1 1), .pushRestart 30, .append (assessed 1 nearby),
      .append (assessed 1 nearby)]
    ∃ t : Trajectory Float, (∀ c ∈ calls, c.Possible) ∧
      calls.foldlM after (withCapacity 2) = .ok t ∧
      t.reread = .ok ⟨[⟨0, .zero⟩, ⟨31, nearby⟩], [30]⟩ := by
  intro calls
  let t : Trajectory Float :=
    ⟨#[⟨0, .origin 1 1, .zero⟩, ⟨31, assessed 1 nearby, nearby⟩], 2, #[30]⟩
  have hpossible : (Call.append (assessed 1 nearby)).Possible := ⟨by decide, nearby_carried⟩
  have hcalls : ∀ c ∈ calls, c.Possible := by
    simp only [calls, List.forall_mem_cons, List.not_mem_nil, false_imp_iff, implies_true, and_true]
    exact ⟨⟨by decide, .fresh⟩, (by decide : 30 < Counter.bound), hpossible, hpossible⟩
  have hfilled : calls.foldlM after (withCapacity 2) = .ok t := rfl
  have hreads : ∀ e ∈ t.entries.toList, ∀ x ∈ e.diagnostics.kktError :: e.diagnostics.gap.toList,
      Scalar.isFinite x = true → Json.ReadsBack x := by
    have hzero : Json.ReadsBack (0 : Float) :=
      ⟨⟨false, 0, -1, false⟩, by decide +kernel⟩
    have herror : Json.ReadsBack nearby.kktError :=
      ⟨⟨false, 14142135623730951, -16, false⟩, by decide +kernel⟩
    have hgap : Json.ReadsBack (1.41421356225635 : Float) :=
      ⟨⟨false, 141421356225635, -14, false⟩, by decide +kernel⟩
    simp only [t, Diagnostics.zero, nearby, Option.toList, List.forall_mem_cons, List.not_mem_nil,
      false_imp_iff, implies_true, and_true]
    exact ⟨fun _ => hzero, fun _ => herror, fun _ => hgap⟩
  have hfinite : t.entries.toList.all (Scalar.isFinite ·.diagnostics.kktError) = true := by
    decide +kernel
  exact ⟨t, hcalls, hfilled, (reread_filled hcalls hfilled hreads).trans (if_pos hfinite)⟩

/-- An evaluation far away finds an infinite error. A trajectory that records it, and holds no other
number, cannot be read back. -/
theorem reread_diverged :
    let far : Diagnostics Float := ⟨1 / 0, none⟩
    let t : Trajectory Float := ⟨#[⟨31, assessed 1e200 far, far⟩], 1, #[]⟩
    (Call.append (assessed 1e200 far)).Possible ∧
      [.append (assessed 1e200 far)].foldlM after (withCapacity 1) = .ok t ∧
      (∀ e ∈ t.entries.toList, ∀ x ∈ e.diagnostics.kktError :: e.diagnostics.gap.toList,
        Scalar.isFinite x = true → Json.ReadsBack x) ∧
      t.reread = .error .invalidData := by
  intro far t
  have herror : (Iterates.startingAt [1e200, 0] (.primalDual 1 1)).kktError Problem.diverging =
      .ok far.kktError := by decide +kernel
  have hinfinite : Scalar.isFinite far.kktError = false := by decide +kernel
  have hlegible : ∀ r ∈ t.history.records, History.Legible r := by
    intro r hr
    obtain rfl : r = ⟨31, far⟩ := List.mem_singleton.mp hr
    refine ⟨by decide, fun g hg => ?_, fun h => ?_, fun g hg => ?_⟩
    · cases hg
    · rw [hinfinite] at h
      cases h
    · cases hg
  have hread := History.ofBytes_jsonText t.history hlegible (by simp [history, t])
  refine ⟨⟨by decide, Diagnostics.carried_of_kktError herror⟩, rfl, ?_, ?_⟩
  · simp [t, far, hinfinite]
  · exact hread.trans (if_neg (by simp [history, t, hinfinite]))

end Trajectory

end PrimalDual
