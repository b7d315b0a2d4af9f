import PrimalDual.Proofs.Floating.Order
import PrimalDual.Proofs.Settings.Builder
import PrimalDual.Proofs.Solver.Completion
import PrimalDual.Proofs.Solver.Lockstep
import PrimalDual.Tuning

/-!
# Sweeps

A sweep runs a fresh solver for each of its candidates, up to the first candidate that is rejected.
If there is none, the winner is the earliest trial of least error. Errors that are not numbers do
not take part, so that one of them wins only where there are no others, and then by its place.
-/
namespace PrimalDual

variable {T P : Type} [Scalar T] {p : Problem T} {settings : Settings T}

/-- Construction comes to an answer, be it a solver or an error. -/
theorem Solver.exists_new_result {ω : Type} (p : Problem T) (settings : Settings T) :
    ∃ result : Except SolverError (Solver T ω), new p settings = .ok result := by
  unfold new
  split
  · exact ⟨_, rfl⟩
  · next hvalidate =>
    have hvalid : settings.validate = .ok () := by
      cases hresult : settings.validate with
      | error e => exact (hvalidate e hresult).elim
      | ok _ => rfl
    have hrecord := (Settings.paced_of_validate hvalid).recordEvery
    rw [Settings.recordCapacity, if_neg hrecord, ok_bind]
    split
    · exact ⟨_, rfl⟩
    · split
      · exact ⟨_, rfl⟩
      · exact ⟨_, rfl⟩

namespace Sweep

/-- There is a solver for the settings. -/
def Admits (p : Problem T) (settings : Settings T) : Prop :=
  ∃ solver : Solver T BallOracle, Solver.new p settings = .ok (.ok solver)

/-- A run of a fresh solver ends with the error. -/
def EndsWith (p : Problem T) (settings : Settings T) (kktError : T) : Prop :=
  ∃ solver s : Solver T BallOracle, Solver.new p settings = .ok (.ok solver) ∧
    solver.solve = .ok s ∧ s.solution.diagnostics.kktError = kktError

/-- What a sweep needs of the settings that it configures: their counts and limits are words, and
the limit of iterations leaves room for those of the last pass. -/
structure Within (settings : Settings T) : Prop where
  failureLimit : settings.gapFailureLimit < Counter.bound
  iterations : settings.maxIterations + 2 < Counter.bound

theorem exists_trial (hp : p.Accepted) (hwithin : Within settings) (h : Admits p settings) :
    ∃ kktError, trial p settings = .ok (.ok kktError) ∧ EndsWith p settings kktError := by
  obtain ⟨solver, hnew⟩ := h
  have hbuilt := Solver.built_of_new hp hwithin.failureLimit hnew
  obtain ⟨hproblem, hsettings, hgap, -⟩ := Solver.new_eq_ok hnew
  have hanswers : GapOracle.Answers solver.problem (fun _ : BallOracle => False) :=
    fun _ _ _ hgood => hgood.elim
  obtain ⟨s, hsolve⟩ := hbuilt.exists_solve (by rw [hsettings]; exact hwithin.iterations) hanswers
    (by simp [hgap, GapEvaluator.withLimit])
  refine ⟨s.solution.diagnostics.kktError, ?_, solver, s, hnew, hsolve, rfl⟩
  rw [trial, hnew]
  simp only [ok_bind, hsolve]
  rfl

theorem trial_rejected {e : SolverError}
    (h : Solver.new p settings = .ok (.error e : Except SolverError (Solver T BallOracle))) :
    trial p settings = .ok (.error e) := by
  rw [trial, h]
  rfl

variable {configure : P → Settings T} {candidates : List P}

/-- Where every candidate is admitted, each has its trial. -/
theorem exists_trials (hp : p.Accepted) (hwithin : ∀ c ∈ candidates, Within (configure c))
    (h : ∀ c ∈ candidates, Admits p (configure c)) :
    ∃ ts, trials p configure candidates = .ok (.ok ts) ∧
      List.Forall₂ (fun c t => t.1 = c ∧ EndsWith p (configure c) t.2) candidates ts := by
  induction candidates with
  | nil => exact ⟨[], rfl, .nil⟩
  | cons c rest ih =>
    obtain ⟨kktError, htrial, hends⟩ :=
      exists_trial hp (hwithin c List.mem_cons_self) (h c List.mem_cons_self)
    obtain ⟨ts, htrials, hall⟩ := ih (fun d hd => hwithin d (List.mem_cons_of_mem c hd))
      fun d hd => h d (List.mem_cons_of_mem c hd)
    refine ⟨(c, kktError) :: ts, ?_, .cons ⟨rfl, hends⟩ hall⟩
    simp only [trials, htrial, htrials, ok_bind, pure_eq_ok]

/-- The first candidate that is not admitted settles the trials. -/
theorem exists_rejected (hp : p.Accepted) (hwithin : ∀ c ∈ candidates, Within (configure c))
    (h : ¬ ∀ c ∈ candidates, Admits p (configure c)) :
    ∃ before c after e, candidates = before ++ c :: after ∧
      (∀ d ∈ before, Admits p (configure d)) ∧
      Solver.new p (configure c) = .ok (.error e : Except SolverError (Solver T BallOracle)) ∧
      trials p configure candidates = .ok (.error e) := by
  induction candidates with
  | nil => simp at h
  | cons c rest ih =>
    obtain ⟨result, hnew⟩ := Solver.exists_new_result (ω := BallOracle) p (configure c)
    cases result with
    | error e =>
      refine ⟨[], c, rest, e, rfl, by simp, hnew, ?_⟩
      simp only [trials, trial_rejected hnew, ok_bind, pure_eq_ok]
    | ok solver =>
      have hadmits : Admits p (configure c) := ⟨solver, hnew⟩
      have hrest : ¬ ∀ d ∈ rest, Admits p (configure d) := by
        intro hall
        exact h (List.forall_mem_cons.mpr ⟨hadmits, hall⟩)
      obtain ⟨before, d, after, e, rfl, hbefore, hrejected, htrials⟩ :=
        ih (fun d hd => hwithin d (List.mem_cons_of_mem c hd)) hrest
      obtain ⟨kktError, htrial, -⟩ := exists_trial hp (hwithin c List.mem_cons_self) hadmits
      refine ⟨c :: before, d, after, e, rfl, List.forall_mem_cons.mpr ⟨hadmits, hbefore⟩, hrejected,
        ?_⟩
      simp only [trials, htrial, htrials, ok_bind, pure_eq_ok]

/-- A trial with a numeric error that no other numeric error is below. -/
def Least (ts : List (P × T)) (t : P × T) : Prop :=
  Scalar.isNaN t.2 = false ∧ ∀ u ∈ ts, Scalar.isNaN u.2 = false → t.2 ≤ u.2

/-- The earliest of the least trials, or the first trial if no error is numeric. -/
def Wins (ts : List (P × T)) (w : P × T) : Prop :=
  (∃ before after, ts = before ++ w :: after ∧ Least ts w ∧ ∀ t ∈ before, ¬ Least ts t) ∨
    (∀ t ∈ ts, Scalar.isNaN t.2 = true) ∧ ts.head? = some w

section Order

variable [Floating T] {t w : P × T} {rest ts : List (P × T)}

open Unpacked (rank)
open Floating (unpack)

/-- The place of a trial by its error. -/
def place (t : P × T) : ℤ ×ₗ ℤ ×ₗ ℤ := rank (unpack t.2)

/-- The best of numeric trials so far: none before it is as good, and none is better. -/
structure Best (ts : List (P × T)) (w : P × T) : Prop where
  place_le : ∀ t ∈ ts, place w ≤ place t
  earliest : ∃ before after, ts = before ++ w :: after ∧ ∀ t ∈ before, place w < place t

theorem Best.singleton (t : P × T) : Best [t] t where
  place_le u hu := by rw [List.mem_singleton.mp hu]
  earliest := ⟨[], [], rfl, by simp⟩

/-- A trial that is worse makes no difference in front. -/
theorem Best.cons (h : Best ts w) (hworse : place w < place t) : Best (t :: ts) w where
  place_le := List.forall_mem_cons.mpr ⟨hworse.le, h.place_le⟩
  earliest := by
    obtain ⟨before, after, rfl, hbefore⟩ := h.earliest
    exact ⟨t :: before, after, rfl, List.forall_mem_cons.mpr ⟨hworse, hbefore⟩⟩

/-- A trial that is no better than the one in front makes no difference behind it. -/
theorem Best.insert {u : P × T} (h : Best (t :: ts) w) (hworse : place t ≤ place u) :
    Best (t :: u :: ts) w where
  place_le := by
    obtain ⟨hhead, htail⟩ := List.forall_mem_cons.mp h.place_le
    exact List.forall_mem_cons.mpr ⟨hhead, List.forall_mem_cons.mpr ⟨hhead.trans hworse, htail⟩⟩
  earliest := by
    obtain ⟨before, after, hts, hbefore⟩ := h.earliest
    cases before with
    | nil =>
      obtain ⟨rfl, rfl⟩ := List.cons.inj hts
      exact ⟨[], u :: ts, rfl, by simp⟩
    | cons first before =>
      obtain ⟨rfl, rfl⟩ := List.cons.inj hts
      obtain ⟨hfirst, hbefore⟩ := List.forall_mem_cons.mp hbefore
      exact ⟨t :: u :: before, after, rfl, List.forall_mem_cons.mpr
        ⟨hfirst, List.forall_mem_cons.mpr ⟨hfirst.trans_le hworse, hbefore⟩⟩⟩

/-- The fold keeps the best of the numeric trials that it has seen. -/
theorem best_foldl (h : ∀ u ∈ t :: rest, Scalar.isNaN u.2 = false) :
    Best (t :: rest) (rest.foldl better t) := by
  induction rest generalizing t with
  | nil => exact .singleton t
  | cons u rest ih =>
    obtain ⟨ht, hu, hrest⟩ : Scalar.isNaN t.2 = false ∧ Scalar.isNaN u.2 = false ∧
        ∀ v ∈ rest, Scalar.isNaN v.2 = false := by simpa using h
    rw [List.foldl_cons, better]
    split
    · next hlt =>
      have hbest := ih (List.forall_mem_cons.mpr ⟨hu, hrest⟩)
      have hplace : place u < place t := (Floating.lt_iff_rank hu ht).mp hlt
      exact hbest.cons ((hbest.place_le u List.mem_cons_self).trans_lt hplace)
    · next hlt =>
      have hplace : place t ≤ place u :=
        not_lt.mp fun hplace => hlt ((Floating.lt_iff_rank hu ht).mpr hplace)
      exact (ih (List.forall_mem_cons.mpr ⟨ht, hrest⟩)).insert hplace

/-- The best of the numeric trials wins among all trials. -/
theorem Best.wins (h : Best (ts.filter fun t => !Scalar.isNaN t.2) w) : Wins ts w := by
  obtain ⟨numeric, after, hfilter, hbefore⟩ := h.earliest
  obtain ⟨front, back, rfl, rfl, hback⟩ := List.filter_eq_append_iff.mp hfilter
  obtain ⟨skipped, back, rfl, hskipped, hw, -⟩ := List.filter_eq_cons_iff.mp hback
  have hnumeric : Scalar.isNaN w.2 = false := by simpa using hw
  refine .inl ⟨front ++ skipped, back, by simp, ⟨hnumeric, fun u hu hnum => ?_⟩, fun t ht => ?_⟩
  · exact (Floating.le_iff_rank hnumeric hnum).mpr
      (h.place_le u (List.mem_filter.mpr ⟨hu, by simp [hnum]⟩))
  · rintro ⟨hnum, hleast⟩
    rcases List.mem_append.mp ht with ht | ht
    · have hplace : place w < place t := hbefore t (List.mem_filter.mpr ⟨ht, by simp [hnum]⟩)
      exact hplace.not_ge ((Floating.le_iff_rank hnum hnumeric).mp (hleast w (by simp) hnumeric))
    · exact hskipped t ht (by simp [hnum])

/-- There is a winner among any trials. -/
theorem exists_winner (hne : ts ≠ []) : ∃ w, winner? ts = some w ∧ Wins ts w := by
  unfold winner?
  split
  · next hnone =>
    obtain ⟨first, rest, rfl⟩ := List.exists_cons_of_ne_nil hne
    refine ⟨first, rfl, .inr ⟨fun t ht => ?_, rfl⟩⟩
    simpa using List.filter_eq_nil_iff.mp hnone t ht
  · next t rest hsome =>
    refine ⟨rest.foldl better t, rfl, Best.wins ?_⟩
    rw [hsome]
    refine best_foldl fun u hu => ?_
    rw [← hsome] at hu
    simpa using (List.mem_filter.mp hu).2

/-- A sweep over candidates that are all admitted has a trial of each, as in a run of its own, and
the winner of these trials. Otherwise it has the error of the first candidate that is not. -/
theorem run_spec {configure : P → Settings T} {candidates : List P} (hp : p.Accepted)
    (hne : candidates ≠ []) (hwithin : ∀ c ∈ candidates, Within (configure c)) :
    ((∀ c ∈ candidates, Admits p (configure c)) → ∃ result,
      run p configure candidates = .ok (.ok result) ∧
      List.Forall₂ (fun c t => t.1 = c ∧ EndsWith p (configure c) t.2) candidates result.trials ∧
      Wins result.trials (result.best, result.kktError)) ∧
    ((¬ ∀ c ∈ candidates, Admits p (configure c)) → ∃ before c after e,
      candidates = before ++ c :: after ∧ (∀ d ∈ before, Admits p (configure d)) ∧
      Solver.new p (configure c) = .ok (.error e : Except SolverError (Solver T BallOracle)) ∧
      run p configure candidates = .ok (.error e)) := by
  constructor
  · intro hadmits
    obtain ⟨ts, htrials, hall⟩ := exists_trials hp hwithin hadmits
    have hsome : ts ≠ [] := by
      rintro rfl
      exact hne (List.forall₂_nil_right_iff.mp hall)
    obtain ⟨w, hwinner, hwins⟩ := exists_winner hsome
    refine ⟨⟨w.1, w.2, ts⟩, ?_, hall, hwins⟩
    simp only [run, htrials, ok_bind, hwinner]
    rfl
  · intro hrefused
    obtain ⟨before, c, after, e, hcandidates, hbefore, hnew, htrials⟩ :=
      exists_rejected hp hwithin hrefused
    refine ⟨before, c, after, e, hcandidates, hbefore, hnew, ?_⟩
    simp only [run, htrials, ok_bind]
    rfl

end Order

section Weights

/-- Runs of two iterations that differ in the primal weight. -/
def weighted (w : Float) : Settings Float :=
  { (Settings.default : Settings Float) with primalWeight := w, maxIterations := 2 }

theorem within_weighted (w : Float) : Within (weighted w) :=
  ⟨show 3 < Counter.bound by decide, show 2 + 2 < Counter.bound by decide⟩

theorem admits_weighted {w : Float} (h : (weighted w).validate = .ok ()) :
    Admits .reference (weighted w) := by
  have hcapacity : (weighted w).recordCapacity = .ok 1 := by
    simp [Settings.recordCapacity, weighted, Settings.default]
  obtain ⟨solver, hnew, -⟩ := @Solver.exists_new Float BallOracle _ .reference (weighted w) .never 1
    h hcapacity (by decide) rfl
  exact ⟨solver, hnew⟩

theorem new_weighted_zero : Solver.new .reference (weighted 0) =
    .ok (.error (.settings (.badField "w")) : Except SolverError (Solver Float BallOracle)) := rfl

/-- Two weights that are admitted, and one that is not. -/
theorem run_spec_weights :
    (∃ result, run .reference weighted [1, 4] = .ok (.ok result) ∧
      List.Forall₂ (fun w t => t.1 = w ∧ EndsWith .reference (weighted w) t.2) [1, 4]
        result.trials ∧
      Wins result.trials (result.best, result.kktError)) ∧
    run .reference weighted [1, 0, 4] = .ok (.error (.settings (.badField "w"))) := by
  have hp : (Problem.reference : Problem Float).Accepted := rfl
  have hone : Admits .reference (weighted 1) := admits_weighted rfl
  have hfour : Admits .reference (weighted 4) := admits_weighted rfl
  have hzero : ¬ Admits .reference (weighted 0) := by
    rintro ⟨solver, hnew⟩
    rw [new_weighted_zero] at hnew
    cases hnew
  constructor
  · exact (run_spec hp (by simp) fun w _ => within_weighted w).1 (by simp [hone, hfour])
  · obtain ⟨before, c, after, e, hcandidates, hbefore, hnew, hrun⟩ :=
      (run_spec hp (by simp : ([1, 0, 4] : List Float) ≠ []) fun w _ => within_weighted w).2
        (by simp [hzero])
    rw [hrun]
    cases before with
    | nil =>
      obtain ⟨rfl, -⟩ := List.cons.inj hcandidates
      obtain ⟨solver, hadmitted⟩ := hone
      rw [hadmitted] at hnew
      cases hnew
    | cons first before =>
      obtain ⟨-, hcandidates⟩ := List.cons.inj hcandidates
      cases before with
      | nil =>
        obtain ⟨rfl, -⟩ := List.cons.inj hcandidates
        rw [new_weighted_zero] at hnew
        rw [(Except.error.inj (Except.ok.inj hnew)).symm]
      | cons second before =>
        obtain ⟨rfl, -⟩ := List.cons.inj hcandidates
        exact (hzero (hbefore 0 (by simp))).elim

end Weights

end Sweep

end PrimalDual
