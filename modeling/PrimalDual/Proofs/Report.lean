import PrimalDual.Proofs.Iterates
import PrimalDual.Report

/-!
# The texts of a run

Every text that a run may print can be made, of an accepted problem and iterates that fit it.
-/
namespace PrimalDual.Report

variable {T : Type} {p : Problem T} {s : Iterates T}

theorem exists_printRestart (r : Report T) (settings : Settings T) (hcount : s.count ≠ 0)
    (hrestarts : s.restarts + 1 < Counter.bound) : ∃ r', r.printRestart settings s = .ok r' := by
  unfold printRestart
  split
  · simp only [restartText, Counter.next_eq_ok hrestarts, Iterates.step_eq_ok hcount, ok_bind,
      pure_eq_ok]
    exact ⟨_, rfl⟩
  · exact ⟨r, rfl⟩

theorem finalize_eq_ok (r : Report T) (hcount : s.count ≠ 0) (time : ℕ) :
    r.finalize s time = .ok { r with
      iterations := s.count - 1
      restarts := s.restarts
      last := s.diagnostics
      solveTime := time } := by
  rw [finalize, Iterates.step_eq_ok hcount]
  rfl

variable [Scalar T]

theorem exists_lagrangian (hp : p.Accepted) {x y : List T} (hx : x.length = p.primalDim)
    (hy : y.length = p.dualDim) : ∃ value, lagrangian p x y = .ok value := by
  have hzeros : (Vector.zeros p.dualDim : List T).length = p.matrix.rows := by
    simp [Vector.zeros, Problem.dualDim]
  obtain ⟨product, hproduct, hrows⟩ := hp.inFormat.exists_mulAdd 1 0 hx hzeros
  have hdot : Vector.dot y product = .ok (Vector.inner y product) :=
    Vector.dot_eq_ok (by rw [hy, hrows, Problem.dualDim])
  unfold lagrangian
  simp only [hproduct, hp.primalObjective_eq_ok hx, hp.dualObjective_eq_ok hy, hdot, ok_bind,
    pure_eq_ok]
  exact ⟨_, rfl⟩

theorem exists_statusTail (hp : p.Accepted) (h : s.Fits p) (lap : ℕ) :
    ∃ text, statusTail s p lap = .ok text := by
  obtain ⟨value, hvalue⟩ := exists_lagrangian hp h.length_primal h.length_dual
  unfold statusTail
  simp only [h.isSplit_eq, h.primal_eq_ok, h.dual_eq_ok, ok_bind, hvalue, pure_eq_ok,
    Bool.false_eq_true, if_false]
  exact ⟨_, rfl⟩

theorem exists_statusText (hp : p.Accepted) (h : s.Fits p) (hcount : s.count ≠ 0) (lap : ℕ) :
    ∃ text, statusText s p lap = .ok text := by
  obtain ⟨tail, htail⟩ := exists_statusTail hp h lap
  unfold statusText
  simp only [Iterates.step_eq_ok hcount, htail, ok_bind, pure_eq_ok]
  exact ⟨_, rfl⟩

theorem exists_printStatus (r : Report T) (settings : Settings T) (hp : p.Accepted) (h : s.Fits p)
    (hcount : s.count ≠ 0) (now : ℕ) : ∃ r', r.printStatus settings s p now = .ok r' := by
  unfold printStatus
  split
  · obtain ⟨text, htext⟩ :=
      exists_statusText hp h hcount ((r.lastReport.map (now - ·)).getD 0)
    simp only [htext, ok_bind, pure_eq_ok]
    exact ⟨_, rfl⟩
  · exact ⟨r, rfl⟩

theorem exists_printConfiguration (r : Report T) (settings : Settings T) (hp : p.Accepted)
    (policy : RestartPolicy) : ∃ r', r.printConfiguration settings p policy = .ok r' := by
  unfold printConfiguration
  split
  · simp only [configurationText, hp.inFormat.entryCount_eq_ok, ok_bind, pure_eq_ok]
    exact ⟨_, rfl⟩
  · exact ⟨r, rfl⟩

end PrimalDual.Report
