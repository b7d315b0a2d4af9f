import PrimalDual.Proofs.Decimal
import PrimalDual.Proofs.Output
import PrimalDual.Report
import PrimalDual.Trajectory

/-!
# Notices among the texts of a run

Of all the texts of a run, only the warning that the gap was given up has lines that begin as it
does, and the configuration has them if the name of the problem brings them along.
-/
namespace PrimalDual

/-- How the notice begins that the gap was given up. -/
def noticeStart : List Char := "warning: duality gap disabled after ".toList

/-- The notices that the name of a problem brings along, which is printed behind a caption. -/
def Problem.namedNotices {T : Type} (p : Problem T) : List (List Char) :=
  (p.label.toList.splitOn '\n').tail.filter (noticeStart.isPrefixOf ·)

namespace Report
open Text

/-- A text of whole lines, none of which begins as a warning does. -/
structure Orderly (text : String) : Prop where
  calm : Calm text.toList
  last : text.toList.getLast? = some '\n'

variable {T : Type} {s : Iterates T} {p : Problem T} {text front : String}

theorem calm_append {text text' : String} (h : Calm text.toList) (h' : Calm text'.toList) :
    Calm (text ++ text').toList := by
  rw [String.toList_append]
  exact h.append h'

theorem Orderly.prepend (hfront : Calm front.toList) (h : Orderly text) :
    Orderly (front ++ text) := by
  refine ⟨calm_append hfront h.calm, ?_⟩
  rw [String.toList_append, List.getLast?_append, h.last, Option.some_or]

theorem Orderly.ended (h : Orderly text) : Ended text.toList := by
  intro c hc
  rw [h.last] at hc
  exact (Option.some.inj hc).symm

theorem Orderly.linesWith_eq_nil (h : Orderly text) : linesWith noticeStart text.toList = [] :=
  h.calm.linesWith_eq_nil rfl

theorem calm_ofList {cs : List Char} (h : Decimal.Numeric cs) : Calm (String.ofList cs).toList := by
  rw [String.toList_ofList]
  exact h.calm

theorem calm_toString (n : ℕ) : Calm (toString n).toList := calm_ofList (Decimal.numeric_digits n)

theorem notMem_toString (n : ℕ) : '\n' ∉ (toString n).toList := by
  have hdigits : (toString n).toList = Decimal.digits n := by simp [Decimal.digits]
  rw [hdigits]
  intro hmem
  exact absurd (Decimal.numeric_digits n _ hmem) (by decide)

theorem calm_spanText (span : ℕ) : Calm (Timers.spanText span).toList :=
  calm_append (calm_toString span) (by decide)

theorem calm_secondsText (span : ℕ) : Calm (secondsText span).toList :=
  calm_append (calm_ofList ((Decimal.numeric_digits _).insertPoint 2)) (by decide)

theorem calm_scientificText [Scalar T] (places : ℕ) (x : T) :
    Calm (scientificText places x).toList :=
  calm_ofList (Decimal.numeric_scientific _ places x)

theorem calm_alignedText [Scalar T] (width places : ℕ) (x : T) :
    Calm (alignedText width places x).toList :=
  calm_ofList (Decimal.numeric_aligned _ width places x)

theorem calm_onOff (b : Bool) : Calm (onOff b).toList := by cases b <;> decide

theorem calm_policy (policy : RestartPolicy) : Calm policy.name.toList := by
  cases policy <;> decide

theorem calm_status (status : SolverStatus) : Calm status.text.toList := by
  cases status <;> decide

theorem calm_methodText [Scalar T] (settings : Settings T) (policy : RestartPolicy) :
    Calm (methodText settings policy).toList := by
  unfold methodText
  split
  · decide
  · repeat' with_reducible apply calm_append
    all_goals with_reducible first
      | decide | apply calm_toString | exact calm_ofList (Decimal.numeric_fixed _ _)
  · repeat' with_reducible apply calm_append
    all_goals with_reducible first | decide | apply calm_toString

theorem orderly_rule : Orderly rule := ⟨by decide, by decide⟩

theorem orderly_banner : Orderly bannerText :=
  .prepend (calm_append orderly_rule.calm (by decide)) orderly_rule

theorem orderly_header : Orderly headerText := .prepend (by decide) orderly_rule

theorem orderly_restart (h : restartText s = .ok text) : Orderly text := by
  obtain ⟨number, -, h⟩ := bind_eq_ok.mp h
  obtain ⟨step, -, h⟩ := bind_eq_ok.mp h
  rw [← Except.ok.inj h]
  refine .prepend ?_ ⟨by decide, by decide⟩
  -- The parts are literals and numbers, and stay closed: no literal is unfolded to be matched.
  repeat' with_reducible apply calm_append
  all_goals with_reducible first | decide | apply calm_toString

/-- The first line of a name stands behind a caption; its later lines are lines of the text. -/
theorem linesWith_caption (p : Problem T) (h : Orderly text)
    (hnewline : text.toList.head? = some '\n') :
    linesWith noticeStart ("\nproblem: " ++ (p.label ++ text)).toList = p.namedNotices := by
  have hcaption : "\nproblem: ".toList = [] ++ '\n' :: "problem: ".toList := by decide
  simp only [String.toList_append]
  rw [← List.append_assoc, h.calm.linesWith_append hnewline rfl, hcaption, List.append_assoc,
    List.cons_append, linesWith_append_cons, linesWith_nil (by decide), List.nil_append,
    linesWith_append_of_notMem (by decide) (by decide) (by decide) (by decide)]
  rfl

/-- A warning of one line. -/
theorem linesWith_warning {message : String} (hline : '\n' ∉ message.toList) :
    linesWith noticeStart (warningText message).toList =
      if noticeStart.isPrefixOf ("warning: " ++ message).toList then
        [("warning: " ++ message).toList] else [] := by
  have hend : (warningText message).toList = ("warning: " ++ message).toList ++ '\n' :: [] := by
    unfold warningText
    rw [String.toList_append]
    rfl
  rw [hend, linesWith_append_cons, linesWith_nil (by decide), List.append_nil]
  refine linesWith_of_notMem ?_
  rw [String.toList_append]
  exact List.not_mem_append (by decide) hline

theorem ended_warning (message : String) : Ended (warningText message).toList := by
  unfold warningText
  rw [String.toList_append]
  exact ended_append _ (by decide) (by decide)

/-- What does not fit into the record leaves a warning that is no notice. -/
theorem linesWith_recordWarning (e : RecordError) :
    linesWith noticeStart (warningText e.message).toList = [] := by
  have hstart : noticeStart = "warning: ".toList ++ "duality gap disabled after ".toList := by
    decide
  have hline : '\n' ∉ e.message.toList ∧ e.message.toList.head? ≠ some 'd' := by
    unfold RecordError.message
    cases e with
    | capacityExceeded capacity =>
      rw [String.toList_append, String.toList_append, List.append_assoc,
        List.mem_append, List.mem_append, not_or, not_or,
        List.head?_append_of_ne_nil _ (by decide)]
      exact ⟨⟨by decide, notMem_toString capacity, by decide⟩, by decide⟩
    | indexOutOfRange index length =>
      rw [String.toList_append, String.toList_append, String.toList_append,
        List.append_assoc, List.append_assoc, List.mem_append, List.mem_append, List.mem_append,
        not_or, not_or, not_or, List.head?_append_of_ne_nil _ (by decide)]
      exact ⟨⟨by decide, notMem_toString index, by decide, notMem_toString length⟩, by decide⟩
  rw [linesWith_warning hline.1, if_neg]
  rw [String.toList_append, hstart, List.isPrefixOf_iff_prefix, List.prefix_append_right_inj]
  rintro ⟨rest, hrest⟩
  exact hline.2 (by rw [← hrest]; rfl)

/-- Nothing but lines that are no notices leads from one report to the other. -/
def Quiet (r r' : Report T) : Prop := r.target.Adds noticeStart [] r'.target

variable {r r' r'' : Report T} {settings : Settings T} {verbose : Bool}

theorem Quiet.refl (r : Report T) : Quiet r r :=
  PrintTarget.Adds.refl (by decide) r.target

theorem Quiet.trans (h : Quiet r r') (h' : Quiet r' r'') : Quiet r r'' :=
  PrintTarget.Adds.trans (by decide) h h'

theorem Orderly.quiet (h : Orderly text) (verbose : Bool) (r : Report T) :
    Quiet r (if verbose then r.print text else r) := by
  cases verbose with
  | false => exact .refl r
  | true =>
    have hprinted := PrintTarget.adds_print h.ended noticeStart r.target
    rwa [h.linesWith_eq_nil] at hprinted

/-- A text is made and printed where verbosity is asked for. -/
theorem quiet_of_ite {x : Except Fault (Report T)} (hx : ∀ r', x = .ok r' → Quiet r r')
    (h : (if verbose then x else pure r) = .ok r') : Quiet r r' := by
  cases verbose with
  | false => exact Except.ok.inj h ▸ .refl r
  | true => exact hx r' h

theorem printRestart_quiet (h : r.printRestart settings s = .ok r') : Quiet r r' := by
  refine quiet_of_ite (fun r' h => ?_) h
  obtain ⟨text, htext, h⟩ := bind_eq_ok.mp h
  rw [← Except.ok.inj h]
  exact (orderly_restart htext).quiet true r

theorem recordWarning_quiet (r : Report T) (settings : Settings T) (e : RecordError) :
    Quiet r (r.printWarning settings e.message) := by
  unfold printWarning
  split
  · have hprinted := PrintTarget.adds_print (ended_warning e.message) noticeStart r.target
    rwa [linesWith_recordWarning] at hprinted
  · exact .refl r

variable [Scalar T]

theorem orderly_footer (r : Report T) : Orderly r.footerText := by
  refine .prepend ?_ ⟨by decide, by decide⟩
  repeat' with_reducible apply calm_append
  all_goals with_reducible first
    | decide | apply calm_toString | apply calm_alignedText | apply calm_spanText
    | apply calm_status

theorem orderly_statusTail {lap : ℕ} (h : statusTail s p lap = .ok text) : Orderly text := by
  have hsigned (x : T) : Calm (String.ofList (Decimal.aligned .always 8 4 x)).toList :=
    calm_ofList (Decimal.numeric_aligned _ _ _ x)
  unfold statusTail at h
  split at h
  · simp only [bind_eq_ok] at h
    obtain ⟨u, -, v, -, y, -, objective, -, distance, -, h⟩ := h
    rw [← Except.ok.inj h]
    refine .prepend ?_ ⟨by decide, by decide⟩
    repeat' with_reducible apply calm_append
    all_goals with_reducible first
      | decide | apply hsigned | apply calm_secondsText | apply calm_alignedText
  · simp only [bind_eq_ok] at h
    obtain ⟨x, -, y, -, objective, -, h⟩ := h
    rw [← Except.ok.inj h]
    refine .prepend ?_ ⟨by decide, by decide⟩
    repeat' with_reducible apply calm_append
    all_goals with_reducible first | decide | apply hsigned | apply calm_secondsText

theorem orderly_status {lap : ℕ} (h : statusText s p lap = .ok text) : Orderly text := by
  obtain ⟨step, -, h⟩ := bind_eq_ok.mp h
  obtain ⟨tail, htail, h⟩ := bind_eq_ok.mp h
  rw [← Except.ok.inj h]
  refine .prepend (calm_append ?_ ?_) (orderly_statusTail htail)
  · repeat' with_reducible apply calm_append
    all_goals with_reducible first
      | decide | apply calm_alignedText
      | exact calm_ofList ((Decimal.numeric_digits step).padLeft 8)
  · split
    · exact calm_append (calm_alignedText 6 2 _) (by decide)
    · decide

theorem configuration_lines {settings : Settings T} {policy : RestartPolicy}
    (h : configurationText settings p policy = .ok text) :
    Ended text.toList ∧ linesWith noticeStart text.toList = p.namedNotices := by
  obtain ⟨count, -, h⟩ := bind_eq_ok.mp h
  rw [← Except.ok.inj h]
  refine ⟨?_, ?_⟩
  · rw [String.toList_append]
    exact ended_append _ (by decide) (by decide)
  · simp only [String.append_assoc]
    refine linesWith_caption p ?_ (by rw [String.toList_append]; rfl)
    repeat' with_reducible apply Orderly.prepend
    all_goals with_reducible first
      | decide | apply calm_toString | apply calm_scientificText | apply calm_onOff
      | apply calm_policy | apply calm_methodText | exact ⟨by decide, by decide⟩

theorem printStatus_quiet {now : ℕ} (h : r.printStatus settings s p now = .ok r') :
    Quiet r r' := by
  refine quiet_of_ite (fun r' h => ?_) h
  obtain ⟨text, htext, h⟩ := bind_eq_ok.mp h
  rw [← Except.ok.inj h]
  exact (orderly_status htext).quiet true { r with lastReport := some now }

theorem printConfiguration_adds {policy : RestartPolicy} (hverbose : settings.verbose = true)
    (h : r.printConfiguration settings p policy = .ok r') :
    r.target.Adds noticeStart p.namedNotices r'.target := by
  rw [printConfiguration, if_pos hverbose] at h
  obtain ⟨text, htext, h⟩ := bind_eq_ok.mp h
  obtain ⟨hended, hlines⟩ := configuration_lines htext
  rw [← Except.ok.inj h, ← hlines]
  exact PrintTarget.adds_print hended noticeStart r.target

end Report

end PrimalDual
