import Mathlib.Data.List.Chain
import Mathlib.Tactic.Common

/-!
# Lines of a text

Texts that end all of their lines are joined line by line. In a text in which the letter `w` never
follows the end of a line, no line but the first begins with that letter.
-/
namespace PrimalDual.Text

variable {cs cs' start : List Char}

/-- The lines of a text that begin in one way. -/
def linesWith (start cs : List Char) : List (List Char) :=
  (cs.splitOn '\n').filter (start.isPrefixOf ·)

/-- The lines before and after the end of one. -/
theorem linesWith_append_cons (start cs cs' : List Char) :
    linesWith start (cs ++ '\n' :: cs') = linesWith start cs ++ linesWith start cs' := by
  unfold linesWith List.splitOn
  rw [List.splitOnP_append_cons cs cs' (by simp), List.filter_append]

theorem splitOn_of_notMem (h : '\n' ∉ cs) : cs.splitOn '\n' = [cs] := by
  refine List.splitOnP_eq_singleton fun c hc => ?_
  have hne : c ≠ '\n' := fun heq => h (heq.subst hc)
  simp [hne]

theorem linesWith_of_notMem (h : '\n' ∉ cs) :
    linesWith start cs = if start.isPrefixOf cs then [cs] else [] := by
  rw [linesWith, splitOn_of_notMem h]
  simp [List.filter_cons]

/-- A line that begins with another character. -/
theorem linesWith_of_head?_ne (h : '\n' ∉ cs) (hstart : start ≠ [])
    (hhead : cs.head? ≠ start.head?) : linesWith start cs = [] := by
  rw [linesWith_of_notMem h, if_neg]
  intro hprefix
  obtain ⟨rest, rfl⟩ := List.isPrefixOf_iff_prefix.mp hprefix
  obtain ⟨c, start, rfl⟩ := List.exists_cons_of_ne_nil hstart
  exact hhead rfl

theorem linesWith_nil (hstart : start ≠ []) : linesWith start [] = [] := by
  obtain ⟨c, start, rfl⟩ := List.exists_cons_of_ne_nil hstart
  exact linesWith_of_head?_ne List.not_mem_nil hstart (by simp)

/-- What begins the first line of a text leaves the other lines as they are. -/
theorem linesWith_append_of_notMem (h : '\n' ∉ cs) (hcs : cs ≠ []) (hstart : start ≠ [])
    (hhead : cs.head? ≠ start.head?) (cs' : List Char) :
    linesWith start (cs ++ cs') = (cs'.splitOn '\n').tail.filter (start.isPrefixOf ·) := by
  have hfirst {line : List Char} (hline : '\n' ∉ line) : linesWith start (cs ++ line) = [] := by
    refine linesWith_of_head?_ne (by simp [h, hline]) hstart ?_
    obtain ⟨c, cs, rfl⟩ := List.exists_cons_of_ne_nil hcs
    exact hhead
  by_cases hnewline : '\n' ∈ cs'
  · obtain ⟨line, rest, rfl, hline⟩ := List.eq_append_cons_of_mem hnewline
    rw [← List.append_assoc, linesWith_append_cons, hfirst hline, List.splitOn,
      List.splitOnP_append_cons line rest (by simp), ← List.splitOn, splitOn_of_notMem hline]
    rfl
  · rw [hfirst hnewline, splitOn_of_notMem hnewline]
    rfl

/-- The last line of a text is ended. -/
def Ended (cs : List Char) : Prop := ∀ c ∈ cs.getLast?, c = '\n'

instance : DecidablePred Ended := fun cs => Option.decidableForallMem cs.getLast?

theorem ended_nil : Ended [] := by simp [Ended]

theorem Ended.append (h : Ended cs) (h' : Ended cs') : Ended (cs ++ cs') := by
  intro c hc
  rw [List.getLast?_append, Option.mem_def, Option.or_eq_some_iff] at hc
  rcases hc with hc | ⟨-, hc⟩
  · exact h' c hc
  · exact h c hc

theorem ended_append (cs : List Char) (h : Ended cs') (hne : cs' ≠ []) : Ended (cs ++ cs') := by
  intro c hc
  rw [List.getLast?_append_of_ne_nil _ hne] at hc
  exact h c hc

/-- What follows a text that is ended begins a line of its own. -/
theorem Ended.linesWith_append (h : Ended cs) (hstart : start ≠ []) (cs' : List Char) :
    linesWith start (cs ++ cs') = linesWith start cs ++ linesWith start cs' := by
  rcases List.eq_nil_or_concat cs with rfl | ⟨line, c, rfl⟩
  · rw [linesWith_nil hstart, List.nil_append, List.nil_append]
  · obtain rfl : c = '\n' := h c (by simp)
    rw [List.concat_eq_append, List.append_assoc, List.singleton_append, linesWith_append_cons,
      linesWith_append_cons, linesWith_nil hstart, List.append_nil]

/-- No line begins with a `w`. The start of the text counts as the end of a line before it. -/
def Calm (cs : List Char) : Prop := ('\n' :: cs).IsChain fun c c' => c = '\n' → c' ≠ 'w'

instance : DecidablePred Calm := fun _ => inferInstanceAs (Decidable (List.IsChain _ _))

theorem Calm.append (h : Calm cs) (h' : Calm cs') : Calm (cs ++ cs') := by
  obtain ⟨hhead, htail⟩ := List.isChain_cons.mp h'
  exact List.isChain_append.mpr ⟨h, htail, fun _ _ c hc _ => hhead c hc rfl⟩

/-- A text without the end of a line and without a `w`. -/
theorem calm_of_forall (h : ∀ c ∈ cs, c ≠ '\n' ∧ c ≠ 'w') : Calm cs := by
  refine List.isChain_cons.mpr ⟨fun c hc _ => (h c (List.mem_of_mem_head? hc)).2, ?_⟩
  induction cs with
  | nil => exact .nil
  | cons c cs ih =>
    refine List.isChain_cons.mpr ⟨fun _ _ heq => ((h c List.mem_cons_self).1 heq).elim, ?_⟩
    exact ih fun c hc => h c (List.mem_cons_of_mem _ hc)

/-- Nothing in a calm text begins as a warning does. -/
theorem Calm.linesWith_eq_nil (h : Calm cs) (hstart : start.head? = some 'w') :
    linesWith start cs = [] := by
  have hne : start ≠ [] := by
    rintro rfl
    cases hstart
  -- The length bounds the number of lines, of which the first is split off.
  generalize hlength : cs.length = n
  induction n using Nat.strong_induction_on generalizing cs with
  | _ n ih =>
    have hhead : cs.head? ≠ start.head? := by
      rw [hstart]
      exact fun heq => (List.isChain_cons.mp h).1 'w' heq rfl rfl
    by_cases hnewline : '\n' ∈ cs
    · obtain ⟨line, rest, rfl, hline⟩ := List.eq_append_cons_of_mem hnewline
      obtain ⟨-, hrest, -⟩ := List.isChain_append.mp (List.isChain_cons.mp h).2
      have hfirst : line.head? ≠ start.head? := by
        rw [hstart] at hhead ⊢
        exact fun heq => hhead (by rw [List.head?_append, heq, Option.some_or])
      have hshorter : rest.length < n := by
        rw [← hlength, List.length_append, List.length_cons]
        omega
      rw [linesWith_append_cons, linesWith_of_head?_ne hline hne hfirst, ih _ hshorter hrest rfl,
        List.append_nil]
    · exact linesWith_of_head?_ne hnewline hne hhead

/-- Calm lines that follow add nothing. -/
theorem Calm.linesWith_append (h : Calm cs') (hnewline : cs'.head? = some '\n')
    (hstart : start.head? = some 'w') (cs : List Char) :
    linesWith start (cs ++ cs') = linesWith start cs := by
  obtain ⟨rest, rfl⟩ := List.head?_eq_some_iff.mp hnewline
  have hrest : Calm rest := (List.isChain_cons.mp h).2
  rw [linesWith_append_cons, hrest.linesWith_eq_nil hstart, List.append_nil]

end PrimalDual.Text
