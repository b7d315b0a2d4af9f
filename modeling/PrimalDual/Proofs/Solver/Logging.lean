import PrimalDual.Proofs.Solver.Queries

/-!
# A log of the queries

An oracle that keeps a log tells all the queries that were made of it. After a run the log holds
nothing but queries of that run.
-/
namespace PrimalDual

/-- An oracle with a log of the centres and the radii that it was asked for. -/
structure LoggedOracle (ω T : Type) where
  oracle : ω
  log : List (List T × T)

instance {ω T : Type} [GapOracle ω T] : GapOracle (LoggedOracle ω T) T where
  ask o z r p := do
    let (answer, oracle) ← GapOracle.ask o.oracle z r p
    return (answer, ⟨oracle, (z, r) :: o.log⟩)

variable {ω T : Type} [Scalar T] [GapOracle ω T]

namespace GapEvaluator

/-- The log of an evaluator's oracle holds only queries of one kind. -/
def Asked (query : List T → T → Prop) (e : GapEvaluator (LoggedOracle ω T)) : Prop :=
  ∀ o, e.oracle = some o → ∀ q ∈ o.log, query q.1 q.2

variable {query : List T → T → Prop} {e e' : GapEvaluator (LoggedOracle ω T)} {p : Problem T}
  {z : List T} {r : T} {answer : Except GapError T}

/-- Only an evaluator that is available makes its query. -/
theorem Asked.evaluate (h : e.Asked query) (hquery : e.isAvailable = true → query z r)
    (hs : e.evaluate z r p = .ok (answer, e')) : e'.Asked query := by
  unfold GapEvaluator.evaluate at hs
  split at hs
  · rw [snd_eq_of_pure hs]
    exact h
  · next hdisabled =>
    split at hs
    · rw [snd_eq_of_pure hs]
      exact h
    · next o horacle =>
      obtain ⟨⟨given, o'⟩, hask, hs⟩ := bind_eq_ok.mp hs
      obtain ⟨⟨given', oracle⟩, -, hask⟩ := bind_eq_ok.mp hask
      obtain ⟨rfl, rfl⟩ := Prod.mk.inj (Except.ok.inj hask)
      intro o ho
      rw [(settle_keeps hs).1] at ho
      obtain rfl := Option.some.inj ho
      refine List.forall_mem_cons.mpr ⟨hquery ?_, h _ horacle⟩
      simp [isAvailable, horacle, hdisabled]

end GapEvaluator

namespace Solver

variable {s₀ s s' e : Solver T (LoggedOracle ω T)} {stage : Stage} {S n : ℕ}

/-- The queries of a run by centre and radius. -/
def Queries (s₀ : Solver T (LoggedOracle ω T)) (centre : List T) (radius : T) : Prop :=
  ∃ purpose start, Query s₀ purpose start centre radius

theorem Evaluates.asked (h : Evaluates s₀ e) (hasked : e.gap.Asked (Queries s₀))
    (hs : e.evaluate = .ok s') : s'.gap.Asked (Queries s₀) := by
  obtain ⟨⟨hproblem, hsettings⟩, -⟩ := h.data
  obtain ⟨iterates, gap, hevaluate, rfl⟩ := evaluate_eq_ok hs
  obtain ⟨error, -, hevaluate⟩ := bind_eq_ok.mp hevaluate
  obtain ⟨⟨value, gap⟩, hvalue, hevaluate⟩ := bind_eq_ok.mp hevaluate
  obtain ⟨-, rfl⟩ := Prod.mk.inj (Except.ok.inj hevaluate)
  unfold Iterates.gapIfEnabled at hvalue
  split at hvalue
  · next henabled =>
    rw [hsettings] at henabled
    obtain ⟨distance, hdist, hvalue⟩ := bind_eq_ok.mp hvalue
    obtain ⟨⟨answer, gap⟩, hask, hvalue⟩ := bind_eq_ok.mp hvalue
    obtain ⟨-, rfl⟩ := Prod.mk.inj (Except.ok.inj hvalue)
    exact hasked.evaluate
      (fun havailable => ⟨_, _, .evaluation h henabled havailable hdist⟩) hask
  · obtain ⟨-, rfl⟩ := Prod.mk.inj (Except.ok.inj hvalue)
    exact hasked

/-- A comparison makes the query around the average, and on an answer the one around the start. -/
theorem Compares.asked {previous : List T} {fire : Bool}
    {gap : GapEvaluator (LoggedOracle ω T)} (h : Compares s₀ S n s previous)
    (hasked : s.gap.Asked (Queries s₀))
    (hs : RestartPolicy.decayed s.iterates previous s₀.problem s₀.settings s.gap =
      .ok (fire, gap)) : gap.Asked (Queries s₀) := by
  obtain ⟨epochRadius, hepoch, hs⟩ := bind_eq_ok.mp hs
  obtain ⟨previousRadius, hprevious, hs⟩ := bind_eq_ok.mp hs
  obtain ⟨⟨now, first⟩, hnow, hs⟩ := bind_eq_ok.mp hs
  have hfirst : first.Asked (Queries s₀) :=
    hasked.evaluate (fun havailable => ⟨_, _, .current h havailable hepoch⟩) hnow
  cases now with
  | error err =>
    rw [snd_eq_of_pure hs]
    exact hfirst
  | ok now =>
    obtain ⟨⟨before, second⟩, hbefore, hs⟩ := bind_eq_ok.mp hs
    have hsecond : second.Asked (Queries s₀) :=
      hfirst.evaluate (fun havailable => ⟨_, _, .previous h hepoch hnow havailable hprevious⟩)
        hbefore
    cases before with
    | error err | ok before =>
      rw [snd_eq_of_pure hs]
      exact hsecond

theorem Moment.asked_decide {fire : Bool} (h : Moment s₀ .observed S n s)
    (hasked : s.gap.Asked (Queries s₀)) (hs : s.decideRestart = .ok (fire, s')) :
    s'.gap.Asked (Queries s₀) := by
  obtain ⟨gap, timers, hcheck, rfl⟩ := decideRestart_eq_ok hs
  have hpolicy : s.policy = s₀.policy := h.course.frame.policy
  by_cases hadaptive : s.policy = .adaptive
  · rw [hadaptive, h.course.frame.problem, h.course.frame.settings] at hcheck
    dsimp only [RestartPolicy.check] at hcheck
    split at hcheck
    · next henabled =>
      obtain ⟨k, hk, hcheck⟩ := bind_eq_ok.mp hcheck
      obtain rfl := ok_unique h.step_eq hk
      obtain ⟨onCadence, hcadence, hcheck⟩ := bind_eq_ok.mp hcheck
      obtain ⟨-, rfl⟩ := Counter.onCadence_eq_ok_iff.mp hcadence
      split at hcheck
      · rw [snd_eq_of_pure hcheck]
        exact hasked
      · next hon =>
        split at hcheck
        · rw [snd_eq_of_pure hcheck]
          exact hasked
        · next hrestarted =>
          rw [h.course.restarts] at hrestarted
          split at hcheck
          · rw [snd_eq_of_pure hcheck]
            exact hasked
          · next previous hprevious =>
            have hcompares : Compares s₀ S n s previous :=
              ⟨h, hpolicy.symm.trans hadaptive, henabled, by simpa using hon, hrestarted, hprevious⟩
            exact hcompares.asked hasked hcheck
    · rw [snd_eq_of_pure hcheck]
      exact hasked
  · rw [RestartPolicy.check_gap hadaptive hcheck]
    exact hasked

/-- All that a run asks for is logged as its queries. -/
theorem Moment.asked (h : Moment s₀ stage S n s) (hasked : s₀.gap.Asked (Queries s₀)) :
    s.gap.Asked (Queries s₀) := by
  induction h with
  | begin hs =>
    obtain ⟨capacity, report, timers, -, rfl⟩ := prepare_eq_ok hs
    exact hasked
  | step _ hs ih =>
    obtain ⟨iterates, timers, -, rfl⟩ := takeStep_eq_ok hs
    exact ih
  | @observe S n s s' h hs ih =>
    obtain ⟨k, hk, -, -, ⟨-, rfl⟩ | ⟨hon, evaluated, recorded, hevaluate, hrecord, hprint⟩⟩ :=
      Solver.observe_eq_ok hs
    · exact ih
    · obtain rfl := ok_unique h.step_eq hk
      rw [h.course.frame.settings] at hon
      obtain ⟨trajectory, report, rfl⟩ := recordWhen_eq_ok hrecord
      obtain ⟨report, timers, rfl⟩ := printWhen_eq_ok hprint
      have hevaluated := (Evaluates.observed h hon).asked ih hevaluate
      exact hevaluated
  | decide h hs ih => exact h.asked_decide ih hs
  | announce h hs ih =>
    obtain ⟨k, evaluated, report, hk, hevaluate, rfl⟩ := announceRestart_eq_ok hs
    obtain rfl := ok_unique h.step_eq hk
    have hevaluated := (Evaluates.announced h).asked ih hevaluate
    exact hevaluated
  | restart _ hs ih =>
    rw [performRestart_gap hs]
    exact ih
  | keep _ ih => exact ih
  | close _ ih =>
    rw [passNotice_gap]
    exact ih
  | again _ _ ih => exact ih
  | stop _ _ ih => exact ih

/-- After a run that began with an empty log, each entry is a query of the run. -/
theorem solve_asked (h : s₀.solve = .ok s) (hempty : ∀ o, s₀.gap.oracle = some o → o.log = []) :
    ∀ o, s.gap.oracle = some o → ∀ q ∈ o.log, Queries s₀ q.1 q.2 := by
  have hasked : s₀.gap.Asked (Queries s₀) := by
    intro o ho q hq
    rw [hempty o ho] at hq
    cases hq
  obtain ⟨S, n, ended, hended, hfinish⟩ := exists_moment h
  have hgap := (finish_keeps hfinish).2.2.2.2.1
  intro o ho
  rw [hgap] at ho
  exact hended.asked hasked o ho

end Solver

end PrimalDual
