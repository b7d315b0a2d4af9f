import PrimalDual.Gap.Workspace
import PrimalDual.Proofs.Gap.Ball
import PrimalDual.Scalar.Binary

/-!
# What the oracle in place remembers

Every buffer is overwritten before it is read, so that an answer depends on earlier queries only
through the room that they left. The room is made anew when the number of coordinates changes, and
does not fit a problem that has as many coordinates, but splits them elsewhere.
-/
namespace PrimalDual

variable {T : Type} [Scalar T] {p : Problem T}

namespace BallSpace

variable {s : BallSpace T} {n m : ℕ}

/-- The buffers are those for points of one shape, whatever is in them. -/
structure HasRoom (s : BallSpace T) (n m : ℕ) : Prop where
  gradient : s.gradient.length = n + m
  bounds : s.bounds = (⟨n, m⟩ : BallOracle).bounds
  residual : s.residual.length = m

theorem hasRoom_new : ({} : BallSpace T).HasRoom 0 0 := ⟨rfl, rfl, rfl⟩

namespace HasRoom

theorem fit (h : s.HasRoom n m)
    (hshape : n + m = p.primalDim + p.dualDim → n = p.primalDim) :
    (s.fit p).HasRoom p.primalDim p.dualDim := by
  unfold BallSpace.fit
  split_ifs with hsum
  · rw [h.gradient] at hsum
    obtain rfl : n = p.primalDim := hshape hsum
    obtain rfl : m = p.dualDim := by omega
    exact h
  · exact ⟨by simp, rfl, by simp⟩

/-- The descent direction does not depend on what the buffers held. -/
theorem descend (h : s.HasRoom p.primalDim p.dualDim) {x y g : List T}
    (hg : (⟨p.primalDim, p.dualDim⟩ : BallOracle).gradient p x y = .ok g) :
    ∃ s', s.descend p x y = .ok s' ∧ s'.gradient = g ∧ s'.HasRoom p.primalDim p.dualDim := by
  simp only [BallOracle.gradient, bind_eq_ok, pure_eq_ok, Except.ok.injEq,
    Vector.copyOnto_eq_ok_iff] at hg
  obtain ⟨primal, hprimal, _, ⟨hrhs, rfl⟩, dual, hdual, rfl⟩ := hg
  obtain ⟨-, hcost, hcols⟩ := SparseMatrix.transposeMulAdd_lengths hprimal
  obtain ⟨-, -, hrows⟩ := SparseMatrix.mulAdd_lengths hdual
  have htake : Vector.copyOnto (s.gradient.take p.primalDim) p.cost = .ok p.cost :=
    Vector.copyOnto_eq_ok (by simp [h.gradient, hcost, Problem.primalDim])
  have hresidual : Vector.copyOnto s.residual p.rhs = .ok p.rhs :=
    Vector.copyOnto_eq_ok (by rw [h.residual, ← hrhs, Vector.length_zeros])
  have hdrop : Vector.copyOnto (s.gradient.drop p.primalDim) dual = .ok dual :=
    Vector.copyOnto_eq_ok (by simp [h.gradient, hrows, Problem.dualDim])
  refine ⟨{ s with gradient := primal ++ dual, residual := dual }, ?_, rfl, ?_, h.bounds, hrows⟩
  · simp only [BallSpace.descend, htake, hprimal, hresidual, hdual, hdrop, ok_bind, pure_eq_ok]
  · simp [hcols, hrows, Problem.primalDim, Problem.dualDim]

/-- Neither does the answer. -/
theorem gapAround (h : s.HasRoom p.primalDim p.dualDim) {z : List T} {r : T}
    {answer : Except GapError T}
    (hanswer : (⟨p.primalDim, p.dualDim⟩ : BallOracle).gapAround z r p = .ok answer) :
    ∃ s', s.gapAround z r p = .ok (answer, s') ∧ s'.HasRoom p.primalDim p.dualDim := by
  simp only [BallOracle.gapAround, bind_eq_ok] at hanswer
  obtain ⟨g, hg, objective, hobjective, dualObjective, hdualObjective, hanswer⟩ := hanswer
  obtain ⟨s', hdescend, rfl, hroom⟩ := h.descend hg
  refine ⟨s', ?_, hroom⟩
  simp only [BallSpace.gapAround, hdescend, hobjective, hdualObjective, hroom.bounds, ok_bind]
  split at hanswer
  · next hzero =>
    rw [← Except.ok.inj hanswer, if_pos hzero]
    rfl
  · next hnonzero =>
    rw [if_neg hnonzero]
    obtain ⟨outcome, houtcome, hanswer⟩ := bind_eq_ok.mp hanswer
    rw [houtcome, ok_bind]
    cases outcome with
    | error e =>
      rw [← Except.ok.inj hanswer]
      rfl
    | ok best =>
      obtain ⟨value, hvalue, hanswer⟩ := bind_eq_ok.mp hanswer
      rw [← Except.ok.inj hanswer]
      simp only [hvalue, ok_bind, pure_eq_ok]

end HasRoom

theorem ask_of_length_ne {z : List T} (h : z.length ≠ p.primalDim + p.dualDim) (r : T) :
    s.ask z r p = .ok (.error (.illPosed ("center has length " ++ toString z.length ++
      " but the problem has " ++ toString (p.primalDim + p.dualDim) ++ " variables")), s) :=
  if_pos h

variable (hp : p.Accepted) {z : List T} (hz : z.length = p.primalDim + p.dualDim)
include hp hz

/-- With room that fits, or is made anew, every query is answered. -/
theorem exists_ask (r : T) : ∃ answer, ∀ {s : BallSpace T} {n m : ℕ}, s.HasRoom n m →
    (n + m = p.primalDim + p.dualDim → n = p.primalDim) →
    ∃ s', s.ask z r p = .ok (answer, s') ∧ s'.HasRoom p.primalDim p.dualDim := by
  obtain ⟨answer, hanswer⟩ := BallOracle.exists_gapAround hp hz r
  refine ⟨answer, fun h hshape => ?_⟩
  obtain ⟨s', hs', hroom⟩ := (h.fit hshape).gapAround hanswer
  exact ⟨s', by simp only [ask, hz, ne_eq, not_true_eq_false, if_false, hs'], hroom⟩

/-- Room for as many coordinates that are split elsewhere does not hold the residual. -/
theorem HasRoom.ask_clash (h : s.HasRoom n m) (hsum : n + m = p.primalDim + p.dualDim)
    (hne : n ≠ p.primalDim) (r : T) : s.ask z r p = .error .lengthMismatch := by
  have hfit : s.fit p = s := if_pos (h.gradient.trans hsum)
  have hy : (z.drop p.primalDim).length = p.dualDim := by simp [hz]
  obtain ⟨slack, hslack, -⟩ := hp.inFormat.exists_transposeMulAdd (-1) 1 hy hp.length_cost
  have htake : Vector.copyOnto (s.gradient.take p.primalDim) p.cost = .ok p.cost :=
    Vector.copyOnto_eq_ok (by simp [h.gradient, hsum, hp.length_cost])
  have hresidual : Vector.copyOnto s.residual p.rhs = .error .lengthMismatch := by
    have hlength : s.residual.length ≠ p.rhs.length := by
      rw [h.residual, hp.length_rhs]
      omega
    simp [Vector.copyOnto, Vector.sameLength, hlength]
  simp only [ask, hz, ne_eq, not_true_eq_false, if_false, hfit, BallSpace.gapAround,
    BallSpace.descend, htake, hslack, hresidual, ok_bind, error_bind]

omit hz in
/-- An oracle with buffers does what the oracle does that knows no more than their shape. -/
theorem HasRoom.ask_eq {o : BallOracle} (h : s.HasRoom o.primalDim o.dualDim) (z : List T) (r : T) :
    (∃ answer s' o', s.ask z r p = .ok (answer, s') ∧ o.ask z r p = .ok (answer, o') ∧
      s'.HasRoom o'.primalDim o'.dualDim) ∨
    s.ask z r p = .error .lengthMismatch ∧ o.ask z r p = .error .lengthMismatch := by
  by_cases hz : z.length = p.primalDim + p.dualDim
  · by_cases hsuits : o.Suits p
    · obtain ⟨answer, hanswer⟩ := BallOracle.exists_gapAround hp hz r
      obtain ⟨s', hs', hroom⟩ := (h.fit hsuits).gapAround hanswer
      refine .inl ⟨answer, s', _, ?_, BallOracle.ask_eq_ok hsuits hz hanswer, hroom⟩
      simp only [ask, hz, ne_eq, not_true_eq_false, if_false, hs']
    · obtain ⟨hsum, hne⟩ := Classical.not_imp.mp hsuits
      exact .inr ⟨h.ask_clash hp hz hsum hne r, BallOracle.ask_of_not_suits hp hsuits hz r⟩
  · exact .inl ⟨_, s, o, ask_of_length_ne hz r, BallOracle.ask_of_length_ne hz r, h⟩

end BallSpace

namespace GapQuery

def shape (q : GapQuery T) : ℕ × ℕ := (q.problem.primalDim, q.problem.dualDim)

/-- The centre has the length of a point of the problem. -/
def Sized (q : GapQuery T) : Prop := q.centre.length = q.problem.primalDim + q.problem.dualDim

instance (q : GapQuery T) : Decidable q.Sized := inferInstanceAs (Decidable (_ = _))

/-- Two shapes with as many coordinates are the same. -/
def Distinguishable (a b : ℕ × ℕ) : Prop := a.1 + a.2 = b.1 + b.2 → a = b

/-- The shapes of the problems that the oracle makes room for, one after the other. -/
def shapes (qs : List (GapQuery T)) : List (ℕ × ℕ) := (qs.filter (·.Sized)).map shape

/-- No query is about a problem that has as many coordinates as the one before, but splits them
elsewhere. -/
def Steady (qs : List (GapQuery T)) : Prop := (shapes qs).IsChain Distinguishable

omit [Scalar T] in
theorem shapes_cons_of_sized {q : GapQuery T} (h : q.Sized) (qs : List (GapQuery T)) :
    shapes (q :: qs) = q.shape :: shapes qs := by
  simp [shapes, h]

omit [Scalar T] in
theorem shapes_cons_of_not_sized {q : GapQuery T} (h : ¬ q.Sized) (qs : List (GapQuery T)) :
    shapes (q :: qs) = shapes qs := by
  simp [shapes, h]

/-- The shape of a new oracle is mistaken for no other one. -/
theorem isChain_zero_cons {l : List (ℕ × ℕ)} :
    ((0, 0) :: l).IsChain Distinguishable ↔ l.IsChain Distinguishable := by
  cases l with
  | nil => simp
  | cons a l =>
    rw [List.isChain_cons_cons]
    refine and_iff_right fun h => ?_
    have hzero : 0 + 0 = a.1 + a.2 := h
    exact Prod.ext (by omega) (by omega)

end GapQuery

namespace BallSpace
open GapQuery

variable {s next : BallSpace T} {n m : ℕ} {q : GapQuery T} {qs : List (GapQuery T)}
  {answer : Except GapError T}

/-- A new oracle gives this answer to the query. -/
def AnswersAlone (q : GapQuery T) (answer : Except GapError T) : Prop :=
  ∃ s', ({} : BallSpace T).ask q.centre q.radius q.problem = .ok (answer, s')

theorem askAll_cons (h : s.ask q.centre q.radius q.problem = .ok (answer, next)) :
    GapOracle.askAll s (q :: qs) = (do
      let (answers, s') ← GapOracle.askAll next qs
      return (answer :: answers, s')) := by
  have hask : GapOracle.ask s q.centre q.radius q.problem = .ok (answer, next) := h
  rw [GapOracle.askAll, hask, ok_bind]

/-- The queries are answered one by one as by new oracles, unless one of them finds room for as many
coordinates split elsewhere. -/
theorem HasRoom.askAll (h : s.HasRoom n m) (hqs : ∀ q ∈ qs, q.problem.Accepted) :
    ∃ answers, List.Forall₂ AnswersAlone qs answers ∧
      (((n, m) :: shapes qs).IsChain Distinguishable →
        ∃ s', GapOracle.askAll s qs = .ok (answers, s')) ∧
      (¬ ((n, m) :: shapes qs).IsChain Distinguishable →
        GapOracle.askAll s qs = .error .lengthMismatch) := by
  induction qs generalizing s n m with
  | nil => exact ⟨[], .nil, fun _ => ⟨s, rfl⟩, fun h => (h (by simp [shapes])).elim⟩
  | cons q qs ih =>
    have hp := hqs q List.mem_cons_self
    have hrest : ∀ q ∈ qs, q.problem.Accepted := fun q hq => hqs q (List.mem_cons_of_mem _ hq)
    by_cases hsized : q.Sized
    · rw [shapes_cons_of_sized hsized, List.isChain_cons_cons]
      obtain ⟨answer, hanswer⟩ := exists_ask hp hsized q.radius
      obtain ⟨alone, halone, hroom⟩ := hanswer hasRoom_new (by omega)
      by_cases hshape : Distinguishable (n, m) q.shape
      · obtain ⟨next, hnext, hroom⟩ := hanswer h fun hsum => congrArg Prod.fst (hshape hsum)
        obtain ⟨answers, hanswers, hsteady, hclash⟩ := ih hroom hrest
        refine ⟨answer :: answers, .cons ⟨alone, halone⟩ hanswers, fun hchain => ?_,
          fun hchain => ?_⟩
        · obtain ⟨s', hs'⟩ := hsteady hchain.2
          exact ⟨s', by rw [askAll_cons hnext, hs']; rfl⟩
        · rw [askAll_cons hnext, hclash fun hrest => hchain ⟨hshape, hrest⟩]
          rfl
      · obtain ⟨hsum, hne⟩ := Classical.not_imp.mp hshape
        have hsplit : n ≠ q.problem.primalDim := fun hn =>
          hne (Prod.ext hn (by simp only [shape] at hsum ⊢; omega))
        have hfault : GapOracle.ask s q.centre q.radius q.problem = .error .lengthMismatch :=
          h.ask_clash hp hsized hsum hsplit q.radius
        obtain ⟨answers, hanswers, -⟩ := ih hroom hrest
        refine ⟨answer :: answers, .cons ⟨alone, halone⟩ hanswers,
          fun hchain => (hshape hchain.1).elim, fun _ => ?_⟩
        rw [GapOracle.askAll, hfault, error_bind]
    · rw [shapes_cons_of_not_sized hsized]
      have hrefused (s : BallSpace T) := s.ask_of_length_ne hsized q.radius
      obtain ⟨answers, hanswers, hsteady, hclash⟩ := ih h hrest
      refine ⟨_ :: answers, .cons ⟨_, hrefused {}⟩ hanswers, fun hchain => ?_, fun hchain => ?_⟩
      · obtain ⟨s', hs'⟩ := hsteady hchain
        exact ⟨s', by rw [askAll_cons (hrefused s), hs']; rfl⟩
      · rw [askAll_cons (hrefused s), hclash hchain]
        rfl

/-- A new oracle that keeps its buffers answers each of the queries as if it were the first,
provided that no query is about a problem with as many coordinates as the one before, split
elsewhere. Such a query ends in a fault, although it would have been answered on its own. -/
theorem askAll_new (qs : List (GapQuery T)) (hqs : ∀ q ∈ qs, q.problem.Accepted) :
    ∃ answers, List.Forall₂ AnswersAlone qs answers ∧
      (Steady qs → ∃ s', GapOracle.askAll ({} : BallSpace T) qs = .ok (answers, s')) ∧
      (¬ Steady qs → GapOracle.askAll ({} : BallSpace T) qs = .error .lengthMismatch) := by
  obtain ⟨answers, hanswers, hsteady, hclash⟩ := hasRoom_new.askAll hqs
  rw [isChain_zero_cons] at hsteady hclash
  exact ⟨answers, hanswers, hsteady, hclash⟩

/-- Two variables that cost nothing and have to add up to one. -/
def wide : Problem Float where
  matrix := ⟨1, 2, [0, 1, 2], [0, 0], [1, 1]⟩
  rhs := [1]
  cost := [0, 0]
  name := none

/-- One variable that has to meet two equal constraints. -/
def tall : Problem Float where
  matrix := ⟨2, 1, [0, 2], [0, 1], [1, 1]⟩
  rhs := [1, 1]
  cost := [0]
  name := none

theorem wide_accepted : wide.Accepted := rfl

theorem tall_accepted : tall.Accepted := rfl

/-- A query that is refused for its length leaves the room alone. -/
theorem askAll_new_wide : ∃ answers s',
    GapOracle.askAll ({} : BallSpace Float)
      [⟨[0, 0, 0], 1, wide⟩, ⟨[0], 1, tall⟩, ⟨[1, 0, 0], 2, wide⟩] = .ok (answers, s') := by
  obtain ⟨answers, -, hsteady, -⟩ := askAll_new
    [⟨[0, 0, 0], 1, wide⟩, ⟨[0], 1, tall⟩, ⟨[1, 0, 0], 2, wide⟩] (by
      intro q hq
      simp only [List.mem_cons, List.not_mem_nil, or_false] at hq
      rcases hq with rfl | rfl | rfl
      · exact wide_accepted
      · exact tall_accepted
      · exact wide_accepted)
  have hshapes : shapes [(⟨[0, 0, 0], 1, wide⟩ : GapQuery Float), ⟨[0], 1, tall⟩,
      ⟨[1, 0, 0], 2, wide⟩] = [(2, 1), (2, 1)] := rfl
  obtain ⟨s', hs'⟩ := hsteady (by
    rw [Steady, hshapes]
    exact List.isChain_pair.mpr fun _ => rfl)
  exact ⟨answers, s', hs'⟩

/-- Each of the two problems can be asked about, but not one after the other. -/
theorem tall_after_wide : wide.Accepted ∧ tall.Accepted ∧
    (GapOracle.askAll ({} : BallSpace Float) [⟨[0, 0, 0], 1, wide⟩]).map Prod.fst =
      .ok [.ok 1] ∧
    (GapOracle.askAll ({} : BallSpace Float) [⟨[1, 0, 0], 1, tall⟩]).map Prod.fst =
      .ok [.ok 0] ∧
    (GapOracle.askAll ({} : BallSpace Float) [⟨[0, 0, 0], 1, wide⟩, ⟨[1, 0, 0], 1, tall⟩]).map
      Prod.fst = .error .lengthMismatch :=
  ⟨wide_accepted, tall_accepted, by decide +kernel⟩

end BallSpace

end PrimalDual
