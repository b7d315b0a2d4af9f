import PrimalDual.Proofs.Iterates.Ergodic

/-!
# The past of iterates

Whatever is stored in iterates, and in whatever order proposals are folded in and epochs are begun,
the iterates keep account of it. The counters count, the average of an epoch is the mean of what was
folded in since its start, and the points at which the current epoch and the one before it began are
kept. The average is never cleared: the first proposal of an epoch gives what was there before the
weight zero.
-/
noncomputable section
namespace PrimalDual

/-- The mean of the vectors of a list, coordinate by coordinate. -/
def Vector.meanOf (n : ℕ) (vs : List (List ℝ)) : List ℝ :=
  List.ofFn fun i : Fin n => (vs.map (coords n · i)).sum / vs.length

namespace Iterates

/-- What was done to iterates since they were made. -/
inductive Past (T : Type) where
  | start
  /-- A point took the place of the current one. -/
  | moved (before : Past T) (point : List T)
  /-- A proposal was stored and folded into the average. -/
  | folded (before : Past T) (proposal : List T)
  | restarted (before : Past T)

namespace Past

variable {T : Type}

/-- The number of proposals folded in. -/
def updates : Past T → ℕ
  | start => 0
  | moved before _ => before.updates
  | folded before _ => before.updates + 1
  | restarted before => before.updates

def restarts : Past T → ℕ
  | start => 0
  | moved before _ => before.restarts
  | folded before _ => before.restarts
  | restarted before => before.restarts + 1

/-- The proposals folded in since the last restart. -/
def epoch : Past T → List (List T)
  | start => []
  | moved before _ => before.epoch
  | folded before proposal => before.epoch ++ [proposal]
  | restarted _ => []

/-- What came before the last restart, if there was one. -/
def earlier? : Past T → Option (Past T)
  | start => none
  | moved before _ => before.earlier?
  | folded before _ => before.earlier?
  | restarted before => some before

/-- What was done until the current epoch began. -/
def begun (past : Past T) : Past T :=
  match past.earlier? with
  | none => start
  | some earlier => restarted earlier

/-- All that was stored has the same length. -/
def Sized (n : ℕ) : Past T → Prop
  | start => True
  | moved before point => before.Sized n ∧ point.length = n
  | folded before proposal => before.Sized n ∧ proposal.length = n
  | restarted before => before.Sized n

theorem length_epoch_le (past : Past T) : past.epoch.length ≤ past.updates := by
  induction past with
  | start => exact le_rfl
  | moved before point ih => exact ih
  | folded before proposal ih => simpa [epoch, updates] using ih
  | restarted before _ => exact Nat.zero_le _

variable [Scalar T]

/-- The iterates that a past makes of others. -/
def replay (s₀ : Iterates T) : Past T → Except Fault (Iterates T)
  | start => .ok s₀
  | moved before point => do
    let s ← replay s₀ before
    return { s with point }
  | folded before proposal => do
    let s ← replay s₀ before
    { s with proposal }.update
  | restarted before => do
    let s ← replay s₀ before
    s.restart

end Past

section Operations

variable {T : Type} {s : Iterates T}

theorem restart_eq_ok (hlength : s.point.length = s.average.length)
    (hrestarts : s.restarts + 1 < Counter.bound) (hcount : s.count + 1 < Counter.bound) :
    s.restart = .ok s.restarted := by
  rw [restart, Counter.next_eq_ok hrestarts, ok_bind, Counter.next_eq_ok hcount, ok_bind,
    Vector.copyOnto_eq_ok hlength]
  rfl

variable [Scalar T]

theorem update_eq_ok (hlength : s.average.length = s.proposal.length)
    (hepoch : s.epochLength + 1 < Counter.bound) (hcount : s.count + 1 < Counter.bound) :
    s.update = .ok { s with
      average := s.averageWith s.proposal
      epochLength := s.epochLength + 1
      count := s.count + 1 } := by
  have haverage := Vector.axpby_eq_ok (Scalar.recip ((s.epochLength : T) + 1))
    ((s.epochLength : T) * Scalar.recip ((s.epochLength : T) + 1)) hlength
  simp only [update, haverage, Counter.next_eq_ok hepoch, Counter.next_eq_ok hcount, ok_bind,
    pure_eq_ok, averageWith]

end Operations

section Kept

variable {T : Type} [Scalar T] {s₀ s : Iterates T} {past : Past T}

/-- What iterates keep of their past, in any arithmetic. -/
structure Kept (s₀ : Iterates T) (past : Past T) (s : Iterates T) : Prop where
  count : s.count = 1 + past.updates + past.restarts
  restarts : s.restarts = past.restarts
  epochLength : s.epochLength = past.epoch.length
  /-- The epoch began at the point that was the current one then. -/
  epochStart : ∃ b, past.begun.replay s₀ = .ok b ∧ s.epochStart = b.point
  /-- A restart begins its epoch at the average. -/
  epochStart_average : ∀ earlier, past.earlier? = some earlier →
    ∃ a, earlier.replay s₀ = .ok a ∧ s.epochStart = a.average
  /-- The epoch before the last restart began likewise. -/
  previousStart : ∀ earlier, past.earlier? = some earlier →
    ∃ b, earlier.begun.replay s₀ = .ok b ∧ s.previousStart = some b.point
  previousStart_eq_none : s.previousStart = none ↔ past.restarts = 0
  length_point : s.point.length = s₀.point.length
  length_average : s.average.length = s₀.point.length

theorem kept_startingAt (point : List T) (layout : Layout) :
    Kept (startingAt point layout) .start (startingAt point layout) where
  count := rfl
  restarts := rfl
  epochLength := rfl
  epochStart := ⟨_, rfl, rfl⟩
  epochStart_average := nofun
  previousStart := nofun
  previousStart_eq_none := ⟨fun _ => rfl, fun _ => rfl⟩
  length_point := rfl
  length_average := rfl

theorem Kept.moved (h : Kept s₀ past s) {point : List T} (hpoint : point.length = s₀.point.length) :
    Kept s₀ (past.moved point) { s with point } :=
  ⟨h.count, h.restarts, h.epochLength, h.epochStart, h.epochStart_average, h.previousStart,
    h.previousStart_eq_none, hpoint, h.length_average⟩

theorem Kept.folded (h : Kept s₀ past s) {proposal : List T}
    (hproposal : proposal.length = s₀.point.length)
    (hcount : past.updates + past.restarts + 2 < Counter.bound) :
    ∃ s', { s with proposal }.update = .ok s' ∧ s'.average = s.averageWith proposal ∧
      Kept s₀ (past.folded proposal) s' := by
  have hepoch := past.length_epoch_le
  have hlength := h.epochLength
  have htotal := h.count
  have hupdate := update_eq_ok (s := { s with proposal })
    (h.length_average.trans hproposal.symm) (by change s.epochLength + 1 < _; omega)
    (by change s.count + 1 < _; omega)
  refine ⟨_, hupdate, rfl, ?_⟩
  exact
    { count := by
        change s.count + 1 = 1 + (past.updates + 1) + past.restarts
        omega
      restarts := h.restarts
      epochLength := by
        change s.epochLength + 1 = (past.epoch ++ [proposal]).length
        rw [hlength, List.length_append, List.length_singleton]
      epochStart := h.epochStart
      epochStart_average := h.epochStart_average
      previousStart := h.previousStart
      previousStart_eq_none := h.previousStart_eq_none
      length_point := h.length_point
      length_average := by
        change (s.averageWith proposal).length = _
        rw [averageWith, Vector.length_combine, hproposal, h.length_average, Nat.min_self] }

theorem Kept.restarted (h : Kept s₀ past s) (hs : past.replay s₀ = .ok s)
    (hcount : past.updates + past.restarts + 2 < Counter.bound) :
    s.restart = .ok s.restarted ∧ Kept s₀ past.restarted s.restarted := by
  have hrestarts := h.restarts
  have htotal := h.count
  have hrestart : s.restart = .ok s.restarted :=
    restart_eq_ok (h.length_point.trans h.length_average.symm) (by omega) (by omega)
  have hreplay : past.restarted.replay s₀ = .ok s.restarted := by
    rw [Past.replay, hs, ok_bind, hrestart]
  refine ⟨hrestart, ?_⟩
  exact
    { count := by
        change s.count + 1 = 1 + past.updates + (past.restarts + 1)
        omega
      restarts := congrArg (· + 1) hrestarts
      epochLength := rfl
      epochStart := ⟨_, hreplay, rfl⟩
      epochStart_average := by
        intro earlier hearlier
        obtain rfl := Option.some.inj hearlier
        exact ⟨s, hs, rfl⟩
      previousStart := by
        intro earlier hearlier
        obtain rfl := Option.some.inj hearlier
        obtain ⟨b, hb, hstart⟩ := h.epochStart
        exact ⟨b, hb, congrArg some hstart⟩
      previousStart_eq_none := ⟨nofun, nofun⟩
      length_point := h.length_average
      length_average := h.length_average }

end Kept

variable {s : Iterates ℝ} {n : ℕ}

/-- The average, times the length of the epoch, is the sum of the epoch. -/
def Totals (n : ℕ) (epoch : List (List ℝ)) (s : Iterates ℝ) : Prop :=
  ∀ i : Fin n, (s.epochLength : ℝ) * coords n s.average i = (epoch.map (coords n · i)).sum

theorem Totals.averageWith {epoch : List (List ℝ)} (h : Totals n epoch s)
    (haverage : s.average.length = n) {proposal : List ℝ} (hproposal : proposal.length = n)
    (i : Fin n) : ((s.epochLength : ℝ) + 1) * coords n (s.averageWith proposal) i =
      ((epoch ++ [proposal]).map (coords n · i)).sum := by
  have hcombine : s.averageWith proposal =
      List.ofFn (Scalar.recip ((s.epochLength : ℝ) + 1) • coords n proposal +
        ((s.epochLength : ℝ) * Scalar.recip ((s.epochLength : ℝ) + 1)) • coords n s.average) := by
    rw [← Vector.combine_ofFn, ofFn_coords hproposal, ofFn_coords haverage]
    rfl
  have hpos : ((s.epochLength : ℝ) + 1) ≠ 0 := by positivity
  rw [List.map_append, List.sum_append, List.map_singleton, List.sum_singleton, ← h i, hcombine,
    coords_ofFn, Pi.add_apply, Pi.smul_apply, Pi.smul_apply, smul_eq_mul, smul_eq_mul,
    Scalar.recip_real]
  field_simp
  ring

/-- Once there was an update, the average is the mean. -/
theorem Totals.average_eq {epoch : List (List ℝ)} (h : Totals n epoch s)
    (haverage : s.average.length = n) (hlength : s.epochLength = epoch.length)
    (ht : 1 ≤ s.epochLength) : s.average = Vector.meanOf n epoch := by
  rw [← ofFn_coords haverage, Vector.meanOf]
  congr 1
  funext i
  have hpos : (0 : ℝ) < s.epochLength := by exact_mod_cast ht
  rw [← h i, ← hlength]
  field_simp

theorem Past.exists_replay {point : List ℝ} {layout : Layout} {past : Past ℝ}
    (hsized : past.Sized point.length)
    (hcount : past.updates + past.restarts + 1 < Counter.bound) :
    ∃ s, past.replay (startingAt point layout) = .ok s ∧
      Kept (startingAt point layout) past s ∧ Totals point.length past.epoch s := by
  induction past with
  | start => exact ⟨_, rfl, kept_startingAt point layout, fun i => by simp [startingAt, epoch]⟩
  | moved before moved ih =>
    obtain ⟨s, hs, hkept, htotals⟩ := ih hsized.1 hcount
    exact ⟨{ s with point := moved }, by rw [replay, hs]; rfl, hkept.moved hsized.2, htotals⟩
  | folded before proposal ih =>
    simp only [updates, restarts] at hcount
    obtain ⟨s, hs, hkept, htotals⟩ := ih hsized.1 (by omega)
    obtain ⟨s', hs', haverage, hkept'⟩ := hkept.folded hsized.2 (by omega)
    refine ⟨s', by rw [replay, hs, ok_bind, hs'], hkept', fun i => ?_⟩
    have hlength : s'.epochLength = s.epochLength + 1 := by
      rw [hkept'.epochLength, hkept.epochLength, epoch, List.length_append, List.length_singleton]
    rw [haverage, hlength, Nat.cast_add, Nat.cast_one]
    exact htotals.averageWith hkept.length_average hsized.2 i
  | restarted before ih =>
    simp only [updates, restarts] at hcount
    obtain ⟨s, hs, hkept, -⟩ := ih hsized (by omega)
    obtain ⟨hs', hkept'⟩ := hkept.restarted hs (by omega)
    exact ⟨s.restarted, by rw [replay, hs, ok_bind, hs'], hkept',
      fun i => by simp [Iterates.restarted, epoch]⟩

/-- Every past is kept account of, and the average of its epoch is the mean of what was folded
in. -/
theorem Past.replay_kept {point : List ℝ} {layout : Layout} {past : Past ℝ}
    (hsized : past.Sized point.length)
    (hcount : past.updates + past.restarts + 1 < Counter.bound) :
    ∃ s, past.replay (startingAt point layout) = .ok s ∧
      Kept (startingAt point layout) past s ∧
      (1 ≤ s.epochLength → s.average = Vector.meanOf point.length past.epoch) := by
  obtain ⟨s, hs, hkept, htotals⟩ := @exists_replay point layout past hsized hcount
  exact ⟨s, hs, hkept, htotals.average_eq hkept.length_average hkept.epochLength⟩

/-- Two restarts in a row, the second of which ends an epoch without a proposal, and two proposals
after them. -/
def Past.twiceRestarted : Past ℝ :=
  (((start.folded [1, 1, 0]).restarted.restarted.folded [1, 0, 0]).moved [1, 1, 1]).folded [0, 1, 0]

theorem Past.replay_kept_twiceRestarted :
    twiceRestarted.Sized 3 ∧ twiceRestarted.updates = 3 ∧ twiceRestarted.restarts = 2 ∧
      ∃ s, twiceRestarted.replay (origin 2 1) = .ok s ∧ Kept (origin 2 1) twiceRestarted s ∧
        (1 ≤ s.epochLength → s.average = Vector.meanOf 3 [[1, 0, 0], [0, 1, 0]]) := by
  have hsized : twiceRestarted.Sized 3 := by simp [twiceRestarted, Sized]
  exact ⟨hsized, rfl, rfl,
    @Past.replay_kept (Vector.zeros 3) (.primalDual 2 1) twiceRestarted hsized (by decide)⟩

end Iterates

end PrimalDual

end
