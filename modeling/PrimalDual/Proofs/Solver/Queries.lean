import PrimalDual.Proofs.Iterates.Rest
import PrimalDual.Proofs.Solver.Pinned

/-!
# The queries of a run

A run asks its oracle for a gap at two places. An evaluation keeps its radius away from zero. The
adaptive policy takes the distances that the current and the previous epoch have covered as they
are, and these are zero for an epoch that begins at a solution.
-/
noncomputable section
namespace PrimalDual

/-- What a query is made for. -/
inductive Purpose where
  | evaluation
  | decision
  deriving DecidableEq

namespace Solver

section Queries

variable {T ω : Type} [Scalar T] [GapOracle ω T]

/-- The states in which the adaptive policy of the run from `s₀` compares the gap of the current
epoch with that of the previous one. -/
structure Compares (s₀ : Solver T ω) (S n : ℕ) (s : Solver T ω) (previous : List T) : Prop where
  moment : Moment s₀ .observed S n s
  policy : s₀.policy = .adaptive
  enabled : s₀.settings.restartEnabled = true
  onCadence : (S + n) % s₀.settings.evaluateEvery = 0
  restarted : n ≠ 0
  previous : s.iterates.previousStart = some previous

/-- The queries that the run from `s₀` makes: what for, the start of the epoch that they are about,
their centre and their radius. -/
inductive Query (s₀ : Solver T ω) : Purpose → List T → List T → T → Prop
  | evaluation {e : Solver T ω} {distance : T} :
    Evaluates s₀ e → s₀.settings.gapEnabled = true → e.gap.isAvailable = true →
      Vector.dist e.iterates.point e.iterates.epochStart = .ok distance →
        Query s₀ .evaluation e.iterates.epochStart e.iterates.average
          (distance + Iterates.radiusShift)
  | current {S n : ℕ} {s : Solver T ω} {previous : List T} {radius : T} :
    Compares s₀ S n s previous → s.gap.isAvailable = true →
      Vector.dist s.iterates.average s.iterates.epochStart = .ok radius →
        Query s₀ .decision s.iterates.epochStart s.iterates.average radius
  | previous {S n : ℕ} {s : Solver T ω} {previous : List T} {epochRadius now radius : T}
    {gap : GapEvaluator ω} :
    Compares s₀ S n s previous →
      Vector.dist s.iterates.average s.iterates.epochStart = .ok epochRadius →
        s.gap.evaluate s.iterates.average epochRadius s₀.problem = .ok (.ok now, gap) →
          gap.isAvailable = true → Vector.dist s.iterates.epochStart previous = .ok radius →
            Query s₀ .decision previous s.iterates.epochStart radius

end Queries

variable {ω : Type} [GapOracle ω ℝ] {s₀ s : Solver ℝ ω} {stage : Stage} {S n : ℕ}

theorem Moment.stays (h : Moment s₀ stage S n s) (hp : s₀.problem.Accepted)
    (hη : 0 < s₀.settings.stepSize) (hω : 0 < s₀.settings.primalWeight) :
    s.iterates.Stays s₀.problem :=
  h.evaluation_induction (Iterates.stays_origin _)
    (fun _ _ hfits _ hi hs => hi.advance hp hη hω hfits hs) (fun _ _ _ hi => hi.restarted)
    fun _ _ _ he hi => by
      rw [(evaluate_observes he).course]
      exact ⟨hi.point, hi.average, hi.epochStart⟩

theorem Moment.travels (h : Moment s₀ stage S n s) (hp : s₀.problem.Accepted)
    (hη : 0 < s₀.settings.stepSize) (hω : 0 < s₀.settings.primalWeight)
    (hbound : s₀.problem.StrictStepBound s₀.settings.stepSize) :
    s.iterates.Travels s₀.problem s₀.settings.stepSize s₀.settings.primalWeight :=
  h.evaluation_induction (Iterates.travels_origin _)
    (fun _ _ hfits _ hi hs => hi.advance hp hη hω hbound.stepBound hfits hs)
    (fun _ _ hlength hi => hi.restarted hη hω hbound hlength)
    fun _ _ _ he hi => by
      rw [(evaluate_observes he).course]
      exact ⟨⟨hi.point, hi.average, hi.epochStart⟩, hi.begins, hi.goes, hi.previous⟩

section Resting

/-- A run with restarts as soon as they are possible, and without gaps of its own. -/
def restingSettings : Settings ℝ :=
  { Settings.brief 1 Scalar.inverseE with
    maxIterations := 3
    gapEnabled := false }

/-- A solver that makes this run where the origin is a solution. -/
abbrev Resting (s₀ : Solver ℝ SilentOracle) : Prop :=
  Pinned 0 restingSettings .adaptive s₀

theorem exists_resting : ∃ s₀, Resting s₀ :=
  exists_pinned 0 ⟨rfl, rfl, rfl, rfl, rfl, by decide, by decide, by decide, by decide⟩
    (by decide) rfl rfl (by decide) (by decide)

variable {s₀ s s' : Solver ℝ SilentOracle} {stage : Stage} {S n : ℕ}

/-- The run never leaves the origin. -/
theorem Resting.origin (hrun : Resting s₀) (h : Moment s₀ stage S n s) :
    s.iterates.point = [0, 0] ∧ s.iterates.average = [0, 0] ∧ s.iterates.epochStart = [0, 0] := by
  refine h.iterates_induction
    (P := fun i => i.point = [0, 0] ∧ i.average = [0, 0] ∧ i.epochStart = [0, 0]) ?_ ?_ ?_ ?_
  · rw [hrun.problem]
    exact ⟨rfl, rfl, rfl⟩
  · rintro i i' hfits ⟨hpoint, haverage, hstart⟩ hs
    rw [hrun.problem, hrun.settings] at hs
    obtain rfl := Problem.advance_pinned (hrun.problem ▸ hfits) hpoint hs
    simp [Iterates.movedTo, Iterates.averageWith, Vector.combine, haverage, hstart]
  · rintro i i' hfits ⟨-, haverage, -⟩ hs
    obtain ⟨-, -, rfl⟩ := hfits.restart_eq_ok_iff.mp hs
    exact ⟨haverage, haverage, haverage⟩
  · intro i i' hs hi
    rw [hs]
    exact hi

/-- The oracle can be asked, and the run goes on. -/
structure Fresh (s : Solver ℝ SilentOracle) : Prop where
  available : s.gap.isAvailable = true
  going : s.iterates.terminate = false

theorem Fresh.disabled (h : Fresh s) : s.gap.disabled = false := by
  have havailable := h.available
  rw [GapEvaluator.isAvailable, Bool.and_eq_true, Bool.not_eq_true'] at havailable
  exact havailable.2

theorem Fresh.of_eq (h : Fresh s)
    (hs : s'.gap = s.gap ∧ s'.iterates.terminate = s.iterates.terminate) : Fresh s' :=
  ⟨by rw [hs.1]; exact h.available, by rw [hs.2]; exact h.going⟩

theorem Resting.fresh_observe (hrun : Resting s₀) (h : Moment s₀ .stepped S n s) (hfresh : Fresh s)
    (hs : s.observe = .ok s') : Fresh s' := by
  have hsettings : s.settings = restingSettings := h.course.frame.settings.trans hrun.settings
  exact hfresh.of_eq (observe_off hs (by rw [hsettings]; rfl) hfresh.disabled)

theorem Resting.observed_one (hrun : Resting s₀) (h : Moment s₀ .observed 1 n s) :
    n = 0 ∧ Fresh s := by
  cases h with
  | observe h hs =>
    obtain ⟨rfl, hiterates, hgap⟩ := hrun.stepped_one h
    exact ⟨rfl, hrun.fresh_observe h ⟨by rw [hgap]; rfl, by rw [hiterates]; rfl⟩ hs⟩

/-- The first epoch ends after one step. -/
theorem Resting.decided_one {fire : Bool} (hrun : Resting s₀)
    (h : Moment s₀ (.decided fire) 1 n s) :
    fire = true ∧ n = 0 ∧ Fresh s := by
  cases h with
  | @decide _ _ observed _ _ h hs =>
    obtain ⟨rfl, hfresh⟩ := hrun.observed_one h
    obtain ⟨hgap, hfire⟩ :=
      h.decideRestart_first hrun.policy (by rw [hrun.settings]; rfl) hs
    have hlength : 1 ≤ observed.iterates.epochLength :=
      Nat.one_le_iff_ne_zero.mpr (h.standing.epochLength rfl)
    obtain ⟨gap, timers, -, rfl⟩ := decideRestart_eq_ok hs
    refine ⟨?_, rfl, hfresh.of_eq ⟨hgap, rfl⟩⟩
    rw [hfire, hrun.settings]
    exact decide_eq_true hlength

theorem Resting.closed_one (hrun : Resting s₀) (h : Moment s₀ .closed 1 n s) :
    n = 1 ∧ Fresh s := by
  obtain ⟨settled, hiterates, hclosed, hkept | ⟨n', announced, rfl, h, hs⟩⟩ := h.closed_cases
  · cases (hrun.decided_one hkept).1
  · have hrestarted := h.restart_iterates hs
    have hgap := performRestart_gap hs
    cases h with
    | @announce _ _ decided _ h hannounce =>
      obtain ⟨-, rfl, hfresh⟩ := hrun.decided_one h
      have hsettings : decided.settings = restingSettings :=
        h.course.frame.settings.trans hrun.settings
      have hannounced := hfresh.of_eq
        (announceRestart_off hannounce (by rw [hsettings]; rfl) hfresh.disabled)
      refine ⟨rfl, ?_, ?_⟩
      · rw [hclosed, hgap]
        exact hannounced.available
      · rw [hiterates, hrestarted]
        exact hannounced.going

/-- In the second pass the policy compares gaps. -/
theorem Resting.exists_compares (hrun : Resting s₀) :
    ∃ s previous, Compares s₀ 2 1 s previous ∧ s.gap.isAvailable = true := by
  obtain ⟨n, closed, hclosed, hready⟩ := hrun.exists_pass (by decide)
  obtain ⟨rfl, hfresh⟩ := hrun.closed_one hclosed
  have hcourse := hclosed.course
  have hgoes : closed.outcome? = none := by
    have hsettings : closed.settings = restingSettings :=
      hcourse.frame.settings.trans hrun.settings
    rw [outcome?, hfresh.going, hcourse.count, hsettings]
    rfl
  have hhead := hclosed.again hgoes
  obtain ⟨stepped, hstep, hready⟩ := hready.exists_takeStep
    (by have := hcourse.epochLength; unfold Counter.bound; omega)
    (by rw [hcourse.count]; decide)
  obtain ⟨observed, hobserve, -⟩ := hready.exists_observe
  have hstepped := hhead.step hstep
  have hobserved := hstepped.observe hobserve
  obtain ⟨hiterates, hgap⟩ := hrun.step hhead hstep (hrun.origin hhead).1
  have hgoing := hfresh.of_eq ⟨hgap, by rw [hiterates]; rfl⟩
  obtain ⟨previous, hprevious⟩ := hobserved.exists_previousStart one_ne_zero
  exact ⟨observed, previous, ⟨hobserved, hrun.policy, by rw [hrun.settings]; rfl,
    by rw [hrun.settings]; rfl, one_ne_zero, hprevious⟩,
    (hrun.fresh_observe hstepped hgoing hobserve).available⟩

/-- It asks for the gap around the origin over radius zero. -/
theorem Resting.exists_query (hrun : Resting s₀) : Query s₀ .decision [0, 0] [0, 0] 0 := by
  obtain ⟨s, previous, hcompares, havailable⟩ := hrun.exists_compares
  obtain ⟨-, haverage, hstart⟩ := hrun.origin hcompares.moment
  have hdist : Vector.dist s.iterates.average s.iterates.epochStart = .ok 0 := by
    rw [haverage, hstart, Vector.dist_eq_ok rfl, (Vector.distance_eq_zero_iff rfl).mpr rfl]
  have hquery := Query.current hcompares havailable hdist
  rwa [haverage, hstart] at hquery

end Resting

theorem radiusShift_pos : (0 : ℝ) < Iterates.radiusShift := by
  norm_num [Iterates.radiusShift]

/-- The radius of a comparison is zero around the solutions, and around nothing else if the step
size is small enough. -/
structure Vanishes (s₀ : Solver ℝ ω) (start : List ℝ) (radius : ℝ) : Prop where
  nonneg : 0 ≤ radius
  at_solution : s₀.problem.kktError (start.take s₀.problem.primalDim)
    (start.drop s₀.problem.primalDim) = .ok 0 → radius = 0
  solution : s₀.problem.StrictStepBound s₀.settings.stepSize → radius = 0 →
    s₀.problem.kktError (start.take s₀.problem.primalDim) (start.drop s₀.problem.primalDim) = .ok 0

omit [GapOracle ω ℝ] in
theorem vanishes_of_dist (hp : s₀.problem.Accepted) {start centre : List ℝ} {radius : ℝ}
    (hstart : start.length = s₀.problem.primalDim + s₀.problem.dualDim)
    (hcentre : centre.length = s₀.problem.primalDim + s₀.problem.dualDim)
    (hdist : Vector.dist centre start = .ok radius)
    (hstays : Problem.Optimal (s₀.problem.pointOf start) → centre = start)
    (hleaves : s₀.problem.StrictStepBound s₀.settings.stepSize → centre = start →
      Problem.Optimal (s₀.problem.pointOf start)) : Vanishes s₀ start radius := by
  have hlength : centre.length = start.length := hcentre.trans hstart.symm
  rw [Vector.dist_eq_ok hlength] at hdist
  obtain rfl := Except.ok.inj hdist
  have hzero := Vector.distance_eq_zero_iff hlength
  have hsolution := Problem.kktError_take_drop_eq_zero_iff hp hstart
  exact ⟨Vector.distance_nonneg _ _, fun h => hzero.mpr (hstays (hsolution.mp h)),
    fun hbound h => hsolution.mpr (hleaves hbound (hzero.mp h))⟩

/-- An evaluation asks for a positive radius. A comparison asks for radius zero at the solutions. -/
theorem Query.radius_spec {purpose : Purpose} {start centre : List ℝ} {radius : ℝ}
    (h : Query s₀ purpose start centre radius) (hp : s₀.problem.Accepted)
    (hη : 0 < s₀.settings.stepSize) (hω : 0 < s₀.settings.primalWeight) :
    (purpose = .evaluation → 0 < radius) ∧ (purpose = .decision → Vanishes s₀ start radius) := by
  cases h with
  | @evaluation e distance heval _ _ hdist =>
    have hfits := heval.data.2
    rw [Vector.dist_eq_ok (hfits.point.trans hfits.epochStart.symm)] at hdist
    obtain rfl := Except.ok.inj hdist
    exact ⟨fun _ => add_pos_of_nonneg_of_pos (Vector.distance_nonneg _ _) radiusShift_pos, nofun⟩
  | @current S n s previous radius hcompares _ hdist =>
    have hmoment := hcompares.moment
    have hfits := hmoment.course.fits
    refine ⟨nofun, fun _ => ?_⟩
    refine vanishes_of_dist hp hfits.epochStart hfits.average hdist
      (hmoment.stays hp hη hω).average fun hbound hback => ?_
    exact (hmoment.travels hp hη hω hbound).optimal hη hω hbound
      (hmoment.standing.epochLength rfl) hback
  | @previous S n s previous _ _ radius _ hcompares _ _ _ hdist =>
    have hmoment := hcompares.moment
    have hfits := hmoment.course.fits
    have hprevious := hcompares.previous
    refine ⟨nofun, fun _ => ?_⟩
    exact vanishes_of_dist hp (hfits.previousStart _ hprevious) hfits.epochStart hdist
      ((hmoment.stays hp hη hω).epochStart _ hprevious)
      fun hbound => (hmoment.travels hp hη hω hbound).previous _ hprevious

theorem Query.radius_spec_resting : ∃ s₀ : Solver ℝ SilentOracle, s₀.problem = .pinned 0 ∧
    Query s₀ .decision [0, 0] [0, 0] 0 ∧ (Purpose.decision = .evaluation → (0 : ℝ) < 0) ∧
    (Purpose.decision = .decision → Vanishes s₀ [0, 0] 0) := by
  obtain ⟨s₀, hrun⟩ := exists_resting
  have hquery := hrun.exists_query
  have hpositive : (0 : ℝ) < restingSettings.stepSize ∧ 0 < restingSettings.primalWeight :=
    ⟨one_pos, one_pos⟩
  rw [← hrun.settings] at hpositive
  exact ⟨s₀, hrun.problem, hquery,
    Query.radius_spec hquery hrun.built.accepted hpositive.1 hpositive.2⟩

/-- A run that asks its oracle for a gap over radius zero. -/
theorem exists_query_radius_zero : ∃ s₀ : Solver ℝ SilentOracle, s₀.Built ∧
    s₀.problem = .pinned 0 ∧ s₀.settings = restingSettings ∧
      Query s₀ .decision [0, 0] [0, 0] 0 := by
  obtain ⟨s₀, hrun⟩ := exists_resting
  exact ⟨s₀, hrun.built, hrun.problem, hrun.settings, hrun.exists_query⟩

end Solver

end PrimalDual

end
