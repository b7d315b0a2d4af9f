import PrimalDual.Proofs.Json.Scalars
import PrimalDual.Settings.Json

/-!
# Settings read back from JSON

The text of settings is a record that names every field once, so that nothing is left to a default
when it is read: the settings come back as they were. A scalar that is not finite is written as
null, which no field takes.
-/
namespace PrimalDual

namespace Json

section Records

variable {D ι : Type} {names : List String} {field : String → Json → D → Except Error D}
  {name : ι → String}

/-- An object that names each of its fields once is read field by field. -/
theorem readRecord_object {fields : List ι} (hnames : ∀ f ∈ fields, name f ∈ names)
    (hnodup : (fields.map name).Nodup) (value : ι → Json) (draft : D) :
    readRecord names field draft
        (.object (fields.map fun f => (some (name f).toList, value f)) none) =
      fields.foldlM (fun d f => field (name f) (value f) d) draft := by
  -- No name has been seen before it comes.
  obtain ⟨seen, hseen, hfresh⟩ : ∃ seen, ([] : List String) = seen ∧ ∀ f ∈ fields, name f ∉ seen :=
    ⟨[], rfl, fun f _ => List.not_mem_nil⟩
  rw [readRecord, hseen]
  clear hseen
  induction fields generalizing draft seen with
  | nil => rfl
  | cons f fields ih =>
    rw [List.forall_mem_cons] at hnames hfresh
    rw [List.map_cons, List.nodup_cons] at hnodup
    have hrest (d : D) := ih hnames.2 hnodup.2 d (name f :: seen) fun g hg => by
      rw [List.mem_cons, not_or]
      exact ⟨fun heq => hnodup.1 (heq ▸ List.mem_map_of_mem hg), hfresh.2 g hg⟩
    rw [List.map_cons, List.foldlM_cons, List.foldlM_cons, bind_assoc]
    simp only [← hrest, Option.map_some, String.ofList_toList, List.contains_iff_mem, hnames.1,
      hfresh.1, if_true, if_false, bind_assoc, pure_bind]

end Records

section Scalars

variable {T : Type} [Number T] {x : T}

/-- The text of the scalar is one number, which is read as the scalar where it stands. -/
def ReadsInPlace (x : T) : Prop :=
  ∃ n : Literal, signedNumber (numberText x) = .ok (n, []) ∧ readScalar (.number n) = .ok x

theorem readScalar_scalarDoc (h : Scalar.isFinite x = true → ReadsInPlace x) :
    readScalar (scalarDoc x) = if Scalar.isFinite x then .ok x else .error .mismatched := by
  cases hfinite : Scalar.isFinite x with
  | false =>
    rw [scalarDoc_of_not_finite hfinite]
    rfl
  | true =>
    obtain ⟨n, hread, hscalar⟩ := h hfinite
    rw [scalarDoc_of_finite hfinite hread]
    exact hscalar

end Scalars

end Json

namespace Settings

variable {T : Type} [Json.Number T] {s : Settings T}

def scalars (s : Settings T) : List T :=
  [s.stepSize, s.primalWeight, s.gapTolerance, s.kktTolerance, s.decay]

def counts (s : Settings T) : List ℕ :=
  [s.maxIterations, s.restartLength, s.evaluateEvery, s.recordEvery, s.printEvery,
    s.firstEpochLength, s.gapFailureLimit, s.datasetIndex]

/-- Settings whose counts are words and whose finite scalars are read as they are written. -/
structure Legible (s : Settings T) : Prop where
  counts_lt : ∀ n ∈ s.counts, n < Counter.bound
  reads : ∀ x ∈ s.scalars, Scalar.isFinite x = true → Json.ReadsInPlace x

/-- The fields of settings, each with its text and the document that it is read as. -/
def members (s : Settings T) : List (String × List Char × Json) :=
  [("eta", Json.numberText s.stepSize, Json.scalarDoc s.stepSize),
    ("w", Json.numberText s.primalWeight, Json.scalarDoc s.primalWeight),
    ("tol", Json.numberText s.gapTolerance, Json.scalarDoc s.gapTolerance),
    ("tol_kkt", Json.numberText s.kktTolerance, Json.scalarDoc s.kktTolerance),
    ("max_iter", Json.natText s.maxIterations, Json.natDoc s.maxIterations),
    ("restart_enable", Json.boolText s.restartEnabled, .bool s.restartEnabled),
    ("restart_method", Json.stringText s.restartMethod, .string (some s.restartMethod.toList)),
    ("restart_length", Json.natText s.restartLength, Json.natDoc s.restartLength),
    ("evaluate_every", Json.natText s.evaluateEvery, Json.natDoc s.evaluateEvery),
    ("record_every", Json.natText s.recordEvery, Json.natDoc s.recordEvery),
    ("print_every", Json.natText s.printEvery, Json.natDoc s.printEvery),
    ("tau0", Json.natText s.firstEpochLength, Json.natDoc s.firstEpochLength),
    ("beta", Json.numberText s.decay, Json.scalarDoc s.decay),
    ("verbose", Json.boolText s.verbose, .bool s.verbose),
    ("gap_enable", Json.boolText s.gapEnabled, .bool s.gapEnabled),
    ("gap_failure_limit", Json.natText s.gapFailureLimit, Json.natDoc s.gapFailureLimit),
    ("dataset_idx", Json.natText s.datasetIndex, Json.natDoc s.datasetIndex)]

/-- The document that the text of settings is read as. -/
def doc (s : Settings T) : Json :=
  .object (s.members.map fun m => (some m.1.toList, m.2.2)) none

theorem scans_jsonText [Json.NullsNonfinite T] (h : s.Legible) : Json.Scans s.jsonText s.doc := by
  have hscalars : ∀ x ∈ s.scalars, Json.Scans (Json.numberText x) (Json.scalarDoc x) := by
    intro x hx
    refine Json.scans_scalarDoc fun hfinite => ?_
    obtain ⟨n, hread, -⟩ := h.reads x hx hfinite
    exact ⟨n, hread⟩
  simp only [scalars, List.forall_mem_cons, List.not_mem_nil, false_imp_iff, implies_true,
    and_true] at hscalars
  obtain ⟨hstep, hweight, hgap, hkkt, hdecay⟩ := hscalars
  refine Json.scans_recordText s.members ?_
  simp only [members, List.forall_mem_cons, List.not_mem_nil, false_imp_iff, implies_true,
    and_true]
  exact ⟨hstep, hweight, hgap, hkkt, Json.scans_natText _, Json.scans_bool _,
    Json.scans_stringText _, Json.scans_natText _, Json.scans_natText _, Json.scans_natText _,
    Json.scans_natText _, Json.scans_natText _, hdecay, Json.scans_bool _, Json.scans_bool _,
    Json.scans_natText _, Json.scans_natText _⟩

/-- The builder that is given every field. -/
def Builder.allOf (s : Settings T) : Builder T where
  stepSize := some s.stepSize
  primalWeight := some s.primalWeight
  gapTolerance := some s.gapTolerance
  kktTolerance := some s.kktTolerance
  maxIterations := some s.maxIterations
  restartEnabled := some s.restartEnabled
  restartMethod := some s.restartMethod
  restartLength := some s.restartLength
  evaluateEvery := some s.evaluateEvery
  recordEvery := some s.recordEvery
  printEvery := some s.printEvery
  firstEpochLength := some s.firstEpochLength
  decay := some s.decay
  verbose := some s.verbose
  gapEnabled := some s.gapEnabled
  gapFailureLimit := some s.gapFailureLimit
  datasetIndex := some s.datasetIndex

theorem foldlM_members (h : s.Legible) :
    s.members.foldlM (fun b m => readField m.1 m.2.2 b) ({} : Builder T) =
      if s.scalars.all Scalar.isFinite then .ok (.allOf s) else .error .mismatched := by
  have hscalars : ∀ x ∈ s.scalars, Json.readScalar (Json.scalarDoc x) =
      if Scalar.isFinite x then .ok x else .error .mismatched :=
    fun x hx => Json.readScalar_scalarDoc (h.reads x hx)
  have hcounts : ∀ n ∈ s.counts, readCount (Json.natDoc n) = .ok n :=
    fun n hn => Json.readNat_natDoc (h.counts_lt n hn)
  -- The first scalar that is refused ends the reading.
  have hgate {α β : Type} (p : Bool) (a : α) (f : α → Except Json.Error β) :
      (if p then .ok a else .error .mismatched : Except Json.Error α) >>= f =
        if p then f a else .error .mismatched := by
    cases p <;> rfl
  simp only [scalars, counts, List.forall_mem_cons, List.not_mem_nil, false_imp_iff, implies_true,
    and_true] at hscalars hcounts
  simp only [members, List.foldlM_cons, List.foldlM_nil, readField, hscalars, hcounts, hgate,
    Json.readBool, Json.readText, String.ofList_toList, ok_bind, pure_eq_ok, scalars,
    List.all_cons, List.all_nil, Bool.and_true, Bool.and_eq_true, ite_and, Builder.allOf]

theorem readJson_doc (h : s.Legible) : readJson s.doc =
    if s.scalars.all Scalar.isFinite then .ok s else .error .mismatched := by
  have hnames : ∀ m ∈ s.members, m.1 ∈ fieldNames := by simp [members, fieldNames]
  have hnodup : (s.members.map (·.1)).Nodup := by simp [members]
  rw [readJson, doc, Json.readRecord_object hnames hnodup, foldlM_members h]
  cases s.scalars.all Scalar.isFinite <;> rfl

/-- Settings come back from their text, field by field, if all their scalars are finite. One that is
not is enough for the text to be refused. -/
theorem decodeText_jsonText [Json.NullsNonfinite T] (h : s.Legible) :
    Json.decodeText readJson s.jsonText =
      if s.scalars.all Scalar.isFinite then .ok s else .error .mismatched := by
  rw [Json.decodeText, (scans_jsonText h).ofText_eq]
  simp only [readJson_doc h]
  cases s.scalars.all Scalar.isFinite <;> rfl

theorem legible_default : (default : Settings Float).Legible where
  counts_lt := by decide
  reads := by
    have hstep : Json.ReadsInPlace (default : Settings Float).stepSize :=
      ⟨⟨false, 1, -1, false⟩, by decide +kernel⟩
    have hweight : Json.ReadsInPlace (default : Settings Float).primalWeight :=
      ⟨⟨false, 10, -1, false⟩, by decide +kernel⟩
    have htolerance : Json.ReadsInPlace (default : Settings Float).gapTolerance :=
      ⟨⟨false, 1, -7, false⟩, by decide +kernel⟩
    have hdecay : Json.ReadsInPlace (default : Settings Float).decay :=
      ⟨⟨false, 36787944117144233, -17, false⟩, by decide +kernel⟩
    simp only [scalars, List.forall_mem_cons, List.not_mem_nil, false_imp_iff, implies_true,
      and_true]
    exact ⟨fun _ => hstep, fun _ => hweight, fun _ => htolerance, fun _ => htolerance,
      fun _ => hdecay⟩

theorem decodeText_default :
    Json.decodeText readJson (default : Settings Float).jsonText =
      .ok (default : Settings Float) := by
  have hfinite : (default : Settings Float).scalars.all Scalar.isFinite = true := by
    decide +kernel
  exact (decodeText_jsonText legible_default).trans (if_pos hfinite)

end Settings

end PrimalDual
