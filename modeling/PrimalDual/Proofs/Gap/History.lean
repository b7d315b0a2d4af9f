import Mathlib.Data.List.TakeWhile
import PrimalDual.Proofs.Exact
import PrimalDual.Proofs.Gap.Evaluator

/-!
# The history of an evaluator

An evaluator is used through four requests in any order: an oracle is attached, the failures are
forgotten, a gap is asked for, the notice is taken. What it does next is a matter of the history
alone, which tells for each evaluation what the oracle answered, if it was asked at all.
-/
namespace PrimalDual

section Failures

variable {T : Type} [Scalar T] {m : ℕ} {answers : List (Except GapError T)}

/-- An answer fails when it is an error or a value that is not finite. -/
def failed : Except GapError T → Bool
  | .ok gap => !Scalar.isFinite gap
  | .error _ => true

/-- Among the answers, the latest first, there are `m` failures with no other answer in between. -/
def InARow (m : ℕ) (answers : List (Except GapError T)) : Prop :=
  ∃ failures, failures <:+: answers ∧ failures.length = m ∧ ∀ a ∈ failures, failed a = true

/-- The failures at the end, which no finite answer followed. -/
def streak (answers : List (Except GapError T)) : ℕ := (answers.takeWhile failed).length

@[simp] theorem streak_nil : streak ([] : List (Except GapError T)) = 0 := rfl

theorem streak_cons (a : Except GapError T) :
    streak (a :: answers) = if failed a then streak answers + 1 else 0 := by
  by_cases h : failed a
  · simp [streak, h]
  · simp [streak, h]

theorem exists_prefix_iff_le_streak :
    (∃ failures, failures <+: answers ∧ failures.length = m ∧ ∀ a ∈ failures, failed a = true) ↔
      m ≤ streak answers := by
  constructor
  · rintro ⟨failures, ⟨rest, rfl⟩, rfl, hfailed⟩
    simp [streak, List.takeWhile_append_of_pos hfailed]
  · intro h
    refine ⟨(answers.takeWhile failed).take m, ?_, by simpa [streak] using h, fun a ha => ?_⟩
    · exact (List.take_prefix _ _).trans (List.takeWhile_prefix _)
    · exact List.mem_takeWhile_imp (List.mem_of_mem_take ha)

/-- The next answer completes a row exactly when the streak it ends is long enough. -/
theorem inARow_cons (a : Except GapError T) :
    InARow m (a :: answers) ↔ m ≤ streak (a :: answers) ∨ InARow m answers := by
  rw [← exists_prefix_iff_le_streak]
  simp only [InARow, List.infix_cons_iff, or_and_right, exists_or]

theorem InARow.append (h : InARow m answers) (later : List (Except GapError T)) :
    InARow m (later ++ answers) := by
  obtain ⟨failures, hinfix, hfailed⟩ := h
  exact ⟨failures, hinfix.trans (List.suffix_append later answers).isInfix, hfailed⟩

theorem streak_lt (h : ¬ InARow m answers) : streak answers < m := by
  by_contra hle
  obtain ⟨failures, hprefix, hfailed⟩ := exists_prefix_iff_le_streak.mpr (not_lt.mp hle)
  exact h ⟨failures, hprefix.isInfix, hfailed⟩

theorem not_inARow_nil (hm : 0 < m) : ¬ InARow m ([] : List (Except GapError T)) := by
  rintro ⟨failures, hinfix, rfl, -⟩
  simp [List.infix_nil.mp hinfix] at hm

end Failures

/-- An oracle that keeps account of its answers, the latest first. -/
structure AccountedOracle (ω T : Type) where
  oracle : ω
  answers : List (Except GapError T)

instance {ω T : Type} [GapOracle ω T] : GapOracle (AccountedOracle ω T) T where
  ask o z r p := do
    let (answer, oracle) ← GapOracle.ask o.oracle z r p
    return (answer, ⟨oracle, answer :: o.answers⟩)

namespace GapEvaluator

section Account

variable {ω T : Type}

/-- All the answers of the attached oracle. -/
def account (e : GapEvaluator (AccountedOracle ω T)) : List (Except GapError T) :=
  (e.oracle.map (·.answers)).getD []

/-- The evaluator without the account. -/
def bare (e : GapEvaluator (AccountedOracle ω T)) : GapEvaluator ω :=
  { e with oracle := e.oracle.map (·.oracle) }

theorem recordFailure_bare (e : GapEvaluator (AccountedOracle ω T)) :
    e.bare.recordFailure = e.recordFailure.map bare := by
  simp only [recordFailure, bare]
  cases Counter.next e.consecutiveFailures with
  | error err => rfl
  | ok failures =>
    by_cases hlimit : e.failureLimit ≤ failures
    · simp [hlimit, Except.map, bare]
    · simp [hlimit, Except.map, bare]

variable [Scalar T]

theorem settle_bare (e : GapEvaluator (AccountedOracle ω T)) (answer : Except GapError T) :
    e.bare.settle answer = (e.settle answer).map (Prod.map id bare) := by
  cases answer with
  | error err =>
    simp only [settle, recordFailure_bare]
    cases e.recordFailure <;> rfl
  | ok gap =>
    simp only [settle, recordFailure_bare]
    split
    · rfl
    · cases e.recordFailure <;> rfl

/-- To keep account changes nothing in what an evaluator does. -/
theorem evaluate_bare [GapOracle ω T] (e : GapEvaluator (AccountedOracle ω T)) (z : List T) (r : T)
    (p : Problem T) : e.bare.evaluate z r p = (e.evaluate z r p).map (Prod.map id bare) := by
  by_cases hdisabled : e.disabled
  · simp [evaluate, bare, hdisabled, Except.map]
  · cases horacle : e.oracle with
    | none => simp [evaluate, bare, hdisabled, horacle, Except.map]
    | some o =>
      have hbare : e.bare.oracle = some o.oracle := by simp [bare, horacle]
      have henabled : ¬ e.bare.disabled = true := hdisabled
      rw [evaluate, evaluate, if_neg henabled, if_neg hdisabled, horacle, hbare]
      cases hask : GapOracle.ask o.oracle z r p with
      | error fault => simp [GapOracle.ask, hask, Except.map]
      | ok given =>
        simp only [GapOracle.ask, hask, ok_bind]
        exact settle_bare { e with oracle := some ⟨given.2, given.1 :: o.answers⟩ } given.1

end Account

inductive Request (ω T : Type) where
  | attach (o : ω)
  | reset
  | evaluate (z : List T) (r : T) (p : Problem T)
  | takeNotice

/-- What became of a request. An evaluation has the answers that the oracle gave during it, and the
reply to the caller. -/
inductive Event (T : Type) where
  | attached
  | reset
  | evaluated (answers : List (Except GapError T)) (reply : Except GapError T)
  | noticed (given : Bool)

variable {ω T : Type}

/-- The answers by which one account is ahead of another. -/
def answersSince (before after : List (Except GapError T)) : List (Except GapError T) :=
  after.take (after.length - before.length)

variable [Scalar T]

def serve [GapOracle ω T] (e : GapEvaluator (AccountedOracle ω T)) :
    Request ω T → Except Fault (Event T × GapEvaluator (AccountedOracle ω T))
  | .attach o => return (.attached, e.setOracle ⟨o, []⟩)
  | .reset => return (.reset, e.reset)
  | .evaluate z r p => do
    let (reply, e') ← e.evaluate z r p
    return (.evaluated (answersSince e.account e'.account) reply, e')
  | .takeNotice => return (.noticed e.takeNotice.1, e.takeNotice.2)

/-- Serves one request after another. The history has the latest event first. -/
def serveAll [GapOracle ω T] (history : List (Event T)) (e : GapEvaluator (AccountedOracle ω T)) :
    List (Request ω T) → Except Fault (List (Event T) × GapEvaluator (AccountedOracle ω T))
  | [] => return (history, e)
  | request :: requests => do
    let (event, e) ← e.serve request
    serveAll (event :: history) e requests

variable {m limit : ℕ}

/-- The answers since the oracle was attached or its failures were forgotten. -/
def counted : List (Event T) → List (Except GapError T)
  | [] | .attached :: _ | .reset :: _ => []
  | .evaluated answers _ :: h => answers ++ counted h
  | .noticed _ :: h => counted h

/-- There is an oracle, and it has not failed `m` times in a row since it was attached or reset. -/
def InUse (m : ℕ) (h : List (Event T)) : Prop := Event.attached ∈ h ∧ ¬ InARow m (counted h)

/-- These answers are the ones that give up the oracle. -/
def Disables (m : ℕ) (answers : List (Except GapError T)) (h : List (Event T)) : Prop :=
  ¬ InARow m (counted h) ∧ InARow m (answers ++ counted h)

/-- The oracle was given up, and nothing but evaluations has happened since. -/
def Due (m : ℕ) : List (Event T) → Prop
  | [] | .attached :: _ | .reset :: _ | .noticed _ :: _ => False
  | .evaluated answers _ :: h => Disables m answers h ∨ Due m h

/-- How often the oracle was given up. -/
noncomputable def disablings (m : ℕ) : List (Event T) → ℕ
  | [] => 0
  | .evaluated answers _ :: h =>
    disablings m h + open Classical in if Disables m answers h then 1 else 0
  | .attached :: h | .reset :: h | .noticed _ :: h => disablings m h

/-- How often the notice was given. -/
def notices : List (Event T) → ℕ
  | [] => 0
  | .noticed given :: h => notices h + given.toNat
  | .attached :: h | .reset :: h | .evaluated _ _ :: h => notices h

open Classical in
/-- The notices that are due, of which there is never more than one. -/
noncomputable def owed (m : ℕ) (h : List (Event T)) : ℕ := if Due m h then 1 else 0

/-- How often a notice was due when the failures were forgotten. -/
noncomputable def forgotten (m : ℕ) : List (Event T) → ℕ
  | [] => 0
  | .attached :: h | .reset :: h => forgotten m h + owed m h
  | .evaluated _ _ :: h | .noticed _ :: h => forgotten m h

/-- What an event has to be after the history before it. -/
def Event.Follows (m : ℕ) (h : List (Event T)) : Event T → Prop
  | .attached | .reset => True
  | .evaluated answers reply =>
    (InUse m h ∧ ∃ a, answers = [a] ∧ reply.toOption = if failed a then none else a.toOption) ∨
    (¬ InUse m h ∧ answers = [] ∧ reply = .error .unavailable)
  | .noticed given => given = true ↔ Due m h

/-- Each event follows from the ones before it. -/
def Orderly (m : ℕ) : List (Event T) → Prop
  | [] => True
  | event :: h => event.Follows m h ∧ Orderly m h

section Settle

variable {ω : Type} {e : GapEvaluator ω}

/-- The answer is a failure that reaches the limit. -/
def reaches (e : GapEvaluator ω) (answer : Except GapError T) : Bool :=
  failed answer && decide (e.failureLimit ≤ e.consecutiveFailures + 1)

/-- The evaluator with an answer taken into account. -/
def counting (e : GapEvaluator ω) (answer : Except GapError T) : GapEvaluator ω where
  oracle := e.oracle
  consecutiveFailures := if failed answer then e.consecutiveFailures + 1 else 0
  failureLimit := e.failureLimit
  disabled := e.disabled || e.reaches answer
  justDisabled := e.justDisabled || e.reaches answer

theorem recordFailure_eq_ok {answer : Except GapError T} (hfailed : failed answer = true)
    (hcount : e.consecutiveFailures + 1 < Counter.bound) :
    e.recordFailure = .ok (e.counting answer) := by
  rw [recordFailure, Counter.next_eq_ok hcount, ok_bind]
  by_cases hlimit : e.failureLimit ≤ e.consecutiveFailures + 1
  · simp [counting, reaches, hfailed, hlimit]
  · simp [counting, reaches, hfailed, hlimit]

/-- The caller gets the finite answers, and an error for the others. -/
theorem exists_settle_eq (hcount : e.consecutiveFailures + 1 < Counter.bound)
    (answer : Except GapError T) :
    ∃ reply, e.settle answer = .ok (reply, e.counting answer) ∧
      reply.toOption = if failed answer then none else answer.toOption := by
  cases answer with
  | error err =>
    have hfailed : failed (.error err : Except GapError T) = true := rfl
    exact ⟨.error err, by simp [settle, recordFailure_eq_ok hfailed hcount], rfl⟩
  | ok gap =>
    by_cases hfinite : Scalar.isFinite gap
    · exact ⟨.ok gap, by simp [settle, counting, reaches, failed, hfinite],
        by simp [failed, hfinite]⟩
    · have hfailed : failed (.ok gap) = true := by simpa [failed] using hfinite
      rw [settle, if_neg hfinite, recordFailure_eq_ok hfailed hcount, if_pos hfailed]
      exact ⟨_, rfl, rfl⟩

end Settle

/-- The state of an evaluator is what its history amounts to. -/
structure Tracks (m : ℕ) (good : ω → Prop) (h : List (Event T))
    (e : GapEvaluator (AccountedOracle ω T)) : Prop where
  threshold : max e.failureLimit 1 = m
  bounded : e.failureLimit < Counter.bound
  good : ∀ o, e.oracle = some o → good o.oracle
  attached : e.oracle.isSome = true ↔ Event.attached ∈ h
  failures : e.consecutiveFailures = streak (counted h)
  disabled : e.disabled = true ↔ InARow m (counted h)
  notice : e.justDisabled = true ↔ Due m h

section Tracks

variable {good : ω → Prop} {h : List (Event T)} {e : GapEvaluator (AccountedOracle ω T)}

theorem Tracks.pos (ht : Tracks m good h e) : 0 < m := by
  rw [← ht.threshold]
  exact lt_of_lt_of_le Nat.zero_lt_one (le_max_right _ _)

theorem tracks_withLimit {limit : ℕ} (hlimit : limit < Counter.bound) :
    Tracks (max limit 1) good [] (withLimit limit : GapEvaluator (AccountedOracle ω T)) where
  threshold := rfl
  bounded := hlimit
  good := by simp [withLimit]
  attached := by simp [withLimit]
  failures := rfl
  disabled := by simp [withLimit, counted, not_inARow_nil]
  notice := by simp [withLimit, Due]

theorem Tracks.attach (ht : Tracks m good h e) {o : ω} (ho : good o) :
    Tracks m good (.attached :: h) (e.setOracle ⟨o, []⟩) where
  threshold := ht.threshold
  bounded := ht.bounded
  good := by simp [setOracle, GapEvaluator.reset, ho]
  attached := by simp [setOracle, GapEvaluator.reset]
  failures := rfl
  disabled := by simp [setOracle, GapEvaluator.reset, counted, not_inARow_nil ht.pos]
  notice := by simp [setOracle, GapEvaluator.reset, Due]

theorem Tracks.reset (ht : Tracks m good h e) : Tracks m good (.reset :: h) e.reset where
  threshold := ht.threshold
  bounded := ht.bounded
  good := ht.good
  attached := by simp [GapEvaluator.reset, ht.attached]
  failures := rfl
  disabled := by simp [GapEvaluator.reset, counted, not_inARow_nil ht.pos]
  notice := by simp [GapEvaluator.reset, Due]

theorem Tracks.takeNotice (ht : Tracks m good h e) (given : Bool) :
    Tracks m good (.noticed given :: h) e.takeNotice.2 where
  threshold := ht.threshold
  bounded := ht.bounded
  good := ht.good
  attached := by simp [GapEvaluator.takeNotice, ht.attached]
  failures := ht.failures
  disabled := ht.disabled
  notice := by simp [GapEvaluator.takeNotice, Due]

/-- An evaluator that is not in use neither asks nor changes. -/
theorem Tracks.evaluate_unused [GapOracle ω T] (ht : Tracks m good h e) (hunused : ¬ InUse m h)
    (z : List T) (r : T) (p : Problem T) :
    e.evaluate z r p = .ok (.error .unavailable, e) := by
  by_cases hdisabled : e.disabled = true
  · rw [evaluate, if_pos hdisabled]
  · refine evaluate_idle ⟨?_, by simpa using hdisabled⟩ z r p
    by_contra hsome
    exact hunused ⟨ht.attached.mp (Option.isSome_iff_ne_none.mpr hsome),
      mt ht.disabled.mpr hdisabled⟩

theorem Tracks.unused (ht : Tracks m good h e) (reply : Except GapError T) :
    Tracks m good (.evaluated [] reply :: h) e where
  threshold := ht.threshold
  bounded := ht.bounded
  good := ht.good
  attached := by simp [ht.attached]
  failures := ht.failures
  disabled := ht.disabled
  notice := by simp [Due, Disables, ht.notice]

/-- The answer that reaches the limit is the one that completes a row. -/
theorem Tracks.reaches_iff (ht : Tracks m good h e) (hrow : ¬ InARow m (counted h))
    (answer : Except GapError T) :
    e.reaches answer = true ↔ InARow m (answer :: counted h) := by
  have hpos := ht.pos
  have hlimit : e.failureLimit ≤ streak (counted h) + 1 ↔ m ≤ streak (counted h) + 1 := by
    simp [← ht.threshold]
  rw [inARow_cons, streak_cons, reaches, ht.failures]
  by_cases hfailed : failed answer
  · simp [hfailed, hrow, hlimit]
  · simp [hfailed, hrow, hpos.ne']

theorem Tracks.withOracle (ht : Tracks m good h e) (huse : InUse m h) {o : AccountedOracle ω T}
    (ho : good o.oracle) : Tracks m good h { e with oracle := some o } where
  threshold := ht.threshold
  bounded := ht.bounded
  good := by simp [ho]
  attached := by simp [huse.1]
  failures := ht.failures
  disabled := ht.disabled
  notice := ht.notice

/-- An answer is counted by the evaluator as it is by the history. -/
theorem Tracks.used (ht : Tracks m good h e) (huse : InUse m h) (answer reply : Except GapError T) :
    Tracks m good (.evaluated [answer] reply :: h) (e.counting answer) where
  threshold := ht.threshold
  bounded := ht.bounded
  good := ht.good
  attached := by simp [counting, ht.attached]
  failures := by simp [counting, counted, streak_cons, ht.failures]
  disabled := by
    have hdisabled : e.disabled = false := by simpa [huse.2] using ht.disabled
    simpa [counting, counted, hdisabled] using ht.reaches_iff huse.2 answer
  notice := by
    have hreaches := ht.reaches_iff huse.2 answer
    simp [counting, Due, Disables, ht.notice, hreaches, huse.2, or_comm]

theorem Tracks.exists_settle (ht : Tracks m good h e) (huse : InUse m h)
    (answer : Except GapError T) :
    ∃ reply, e.settle answer = .ok (reply, e.counting answer) ∧
      reply.toOption = if failed answer then none else answer.toOption := by
  apply exists_settle_eq
  have hone : 1 < Counter.bound := by decide
  have hbounded := ht.bounded
  have hthreshold := ht.threshold
  have hstreak := streak_lt huse.2
  rw [ht.failures]
  omega

theorem Tracks.evaluate_used [GapOracle ω T] (ht : Tracks m good h e) (huse : InUse m h)
    {z : List T} {r : T} {p : Problem T}
    (hask : ∀ o, good o → ∃ answer o', GapOracle.ask o z r p = .ok (answer, o') ∧ good o') :
    ∃ answer reply e', e.evaluate z r p = .ok (reply, e') ∧
      answersSince e.account e'.account = [answer] ∧
      reply.toOption = (if failed answer then none else answer.toOption) ∧
      Tracks m good (.evaluated [answer] reply :: h) e' := by
  obtain ⟨o, ho⟩ := Option.isSome_iff_exists.mp (ht.attached.mpr huse.1)
  obtain ⟨answer, o', hanswer, hgood⟩ := hask o.oracle (ht.good o ho)
  have haccounted : GapOracle.ask o z r p = .ok (answer, ⟨o', answer :: o.answers⟩) := by
    simp [GapOracle.ask, hanswer]
  have htracks := ht.withOracle huse (o := ⟨o', answer :: o.answers⟩) hgood
  obtain ⟨reply, hsettle, hreply⟩ := htracks.exists_settle huse answer
  refine ⟨answer, reply, _, ?_, ?_, hreply, htracks.used huse answer reply⟩
  · rw [evaluate, if_neg (mt ht.disabled.mp huse.2), ho]
    simpa [haccounted] using hsettle
  · simp [account, counting, ho, answersSince]

/-- Whatever oracle is attached gives answers, finite or not, and errors, and never faults. -/
def Request.Answerable [GapOracle ω T] (good : ω → Prop) : Request ω T → Prop
  | .attach o => good o
  | .evaluate z r p =>
    ∀ o, good o → ∃ answer o', GapOracle.ask o z r p = .ok (answer, o') ∧ good o'
  | .reset | .takeNotice => True

variable [GapOracle ω T]

/-- One more request adds an event that follows from the history. -/
theorem Tracks.exists_serve (ht : Tracks m good h e) {request : Request ω T}
    (hanswerable : request.Answerable good) :
    ∃ event e', e.serve request = .ok (event, e') ∧ event.Follows m h ∧
      Tracks m good (event :: h) e' := by
  cases request with
  | attach o => exact ⟨_, _, rfl, trivial, ht.attach hanswerable⟩
  | reset => exact ⟨_, _, rfl, trivial, ht.reset⟩
  | takeNotice => exact ⟨_, _, rfl, ht.notice, ht.takeNotice _⟩
  | evaluate z r p =>
    by_cases huse : InUse m h
    · obtain ⟨answer, reply, e', hevaluate, hanswers, hreply, htracks⟩ :=
        ht.evaluate_used huse hanswerable
      refine ⟨.evaluated [answer] reply, e', by simp [serve, hevaluate, hanswers], ?_, htracks⟩
      exact .inl ⟨huse, answer, rfl, hreply⟩
    · refine ⟨.evaluated [] (.error .unavailable), e, ?_, ?_, ht.unused _⟩
      · simp [serve, ht.evaluate_unused huse, answersSince]
      · exact .inr ⟨huse, rfl, rfl⟩

theorem Tracks.exists_serveAll (ht : Tracks m good h e) (horderly : Orderly m h)
    {requests : List (Request ω T)} (hanswerable : ∀ request ∈ requests, request.Answerable good) :
    ∃ h' e', serveAll h e requests = .ok (h', e') ∧ Orderly m h' ∧ Tracks m good h' e' := by
  induction requests generalizing h e with
  | nil => exact ⟨h, e, rfl, horderly, ht⟩
  | cons request requests ih =>
    obtain ⟨hfirst, hrest⟩ := List.forall_mem_cons.mp hanswerable
    obtain ⟨event, e', hserve, hfollows, htracks⟩ := ht.exists_serve hfirst
    obtain ⟨h', e'', hserveAll, hdone⟩ := ih htracks ⟨hfollows, horderly⟩ hrest
    exact ⟨h', e'', by simpa [serveAll, hserve] using hserveAll, hdone⟩

omit [GapOracle ω T] in
theorem Due.inARow (hdue : Due m h) : InARow m (counted h) := by
  induction h with
  | nil => exact hdue.elim
  | cons event h ih =>
    cases event with
    | attached | reset | noticed => exact hdue.elim
    | evaluated answers reply =>
      rcases hdue with hdisables | hdue
      · exact hdisables.2
      · exact (ih hdue).append answers

omit [GapOracle ω T] in
/-- For each time that the oracle was given up the notice was given, or forgotten, or is due. -/
theorem Orderly.disablings_eq (horderly : Orderly m h) :
    disablings m h = notices h + forgotten m h + owed m h := by
  induction h with
  | nil => simp [disablings, notices, forgotten, owed, Due]
  | cons event h ih =>
    obtain ⟨hfollows, hrest⟩ := horderly
    have hcount := ih hrest
    cases event with
    | attached | reset => simp [disablings, hcount, notices, forgotten, owed, Due, add_assoc]
    | noticed given =>
      have hgiven : given.toNat = owed m h := by
        by_cases hdue : Due m h
        · simp [owed, hdue, hfollows.mpr hdue]
        · simp [owed, hdue, mt hfollows.mp hdue]
      have howed : owed m (.noticed given :: h) = 0 := by simp [owed, Due]
      rw [disablings, hcount, notices, forgotten, hgiven, howed]
      omega
    | evaluated answers reply =>
      by_cases hdisables : Disables m answers h
      · have hdue : ¬ Due m h := fun hdue => hdisables.1 hdue.inARow
        simp [disablings, hcount, notices, forgotten, owed, Due, hdisables, hdue]
      · have howed : owed m (.evaluated answers reply :: h) = owed m h := by
          classical exact if_congr (or_iff_right hdisables) rfl rfl
        simp [disablings, hcount, notices, forgotten, howed, hdisables]

end Tracks

section Main

variable [GapOracle ω T] {limit : ℕ} {good : ω → Prop} {requests : List (Request ω T)}

/-- Whatever is requested of a new evaluator in whatever order, its oracle is given up exactly when
it failed often enough in a row. From then on it is not asked until it is attached anew or reset,
nothing changes by an evaluation, and the notice is given once. -/
theorem serveAll_spec (hlimit : limit < Counter.bound)
    (hanswerable : ∀ request ∈ requests, request.Answerable good) :
    ∃ h e, serveAll [] (withLimit limit) requests = .ok (h, e) ∧ Orderly (max limit 1) h ∧
      (e.disabled = true ↔ InARow (max limit 1) (counted h)) ∧
      (e.isAvailable = true ↔ InUse (max limit 1) h) ∧
      (¬ InUse (max limit 1) h →
        ∀ z r (p : Problem T), e.evaluate z r p = .ok (.error .unavailable, e)) ∧
      (e.takeNotice.1 = true ↔ Due (max limit 1) h) ∧
      disablings (max limit 1) h =
        notices h + forgotten (max limit 1) h + owed (max limit 1) h := by
  obtain ⟨h, e, hserve, horderly, htracks⟩ :=
    (tracks_withLimit hlimit).exists_serveAll trivial hanswerable
  have havailable : e.isAvailable = true ↔ InUse (max limit 1) h := by
    simp [isAvailable, InUse, htracks.attached, ← htracks.disabled]
  exact ⟨h, e, hserve, horderly, htracks.disabled, havailable, htracks.evaluate_unused,
    htracks.notice, horderly.disablings_eq⟩

/-- An oracle without answers is given up at the second failure, and asked again after a reset. -/
noncomputable def silentRequests : List (Request SilentOracle ℝ) :=
  .attach .silent :: List.replicate 3 (.evaluate [] 1 Problem.reference) ++
    [.takeNotice, .takeNotice, .reset, .evaluate [] 1 Problem.reference]

theorem serveAll_spec_silent :
    2 < Counter.bound ∧ (∀ request ∈ silentRequests, request.Answerable fun _ => True) ∧
      ∃ h e, serveAll [] (withLimit 2) silentRequests = .ok (h, e) ∧
        (h.map fun | .evaluated answers _ => answers.length | _ => 0) = [1, 0, 0, 0, 0, 1, 1, 0] ∧
        notices h = 1 ∧ e.disabled = false ∧ ¬ InARow 2 (counted h) := by
  have hanswerable : ∀ request ∈ silentRequests, request.Answerable fun _ => True := by
    have hask : (Request.evaluate [] 1 Problem.reference : Request SilentOracle ℝ).Answerable
        fun _ => True := fun o _ => ⟨_, o, rfl, trivial⟩
    simp only [silentRequests, List.replicate, List.cons_append, List.nil_append,
      List.forall_mem_cons]
    exact ⟨trivial, hask, hask, hask, trivial, trivial, trivial, hask, by simp⟩
  have hlimit : 2 < Counter.bound := by decide
  obtain ⟨h, e, hserve, -, hdisabled, -⟩ := serveAll_spec hlimit hanswerable
  obtain ⟨rfl, rfl⟩ := Prod.mk.inj (Except.ok.inj hserve)
  refine ⟨hlimit, hanswerable, _, _, hserve, rfl, rfl, rfl, ?_⟩
  exact mt hdisabled.mpr Bool.false_ne_true

end Main

end GapEvaluator

end PrimalDual
