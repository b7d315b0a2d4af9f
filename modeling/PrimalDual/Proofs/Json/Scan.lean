import Mathlib.Data.List.Basic
import Mathlib.Tactic.IntervalCases
import PrimalDual.Json.Reader
import PrimalDual.Json.Writer

/-!
# Documents read back from their text

What the writer puts out is read as the document that it stands for, in one pass and with the fuel
that the reader gives itself. The texts of lists and records are read back if those of their parts
are.
-/
namespace PrimalDual.Json

/-- What may follow a value: nothing, a comma or a closing bracket. -/
def Ends (rest : List Char) : Prop := ∀ c cs, rest = c :: cs → c = ',' ∨ c = ']' ∨ c = '\x7d'

/-- The text is read as the document, whatever ends it. Twice its length is fuel enough. -/
structure Scans (text : List Char) (doc : Json) : Prop where
  opens : ∃ c cs, text = c :: cs ∧ isBlank c = false ∧ c ≠ ']'
  scan : ∀ {fuel : ℕ} {rest : List Char}, 2 * text.length ≤ fuel → Ends rest →
    scanValue (fuel + 1) (text ++ rest) = (doc, some rest)

variable {text : List Char} {doc : Json} {c : Char}

theorem skipBlanks_cons (h : isBlank c = false) (cs : List Char) :
    skipBlanks (c :: cs) = c :: cs :=
  List.dropWhile_cons_of_neg (by simp [h])

theorem ends_nil : Ends [] := fun _ _ h => by cases h

theorem ends_cons (h : c = ',' ∨ c = ']' ∨ c = '\x7d') (cs : List Char) : Ends (c :: cs) :=
  fun _ _ heq => (List.cons.inj heq).1 ▸ h

/-- A text by itself. -/
theorem Scans.ofText_eq (h : Scans text doc) : ofText text = (doc, false) := by
  have hscan := h.scan le_rfl ends_nil
  rw [List.append_nil] at hscan
  rw [ofText, hscan]
  rfl

theorem scans_null : Scans "null".toList .null where
  opens := ⟨'n', _, rfl, by decide, by decide⟩
  scan _ _ := rfl

theorem scans_bool (b : Bool) : Scans (boolText b) (.bool b) := by
  cases b with
  | false => exact ⟨⟨'f', _, rfl, by decide, by decide⟩, fun _ _ => rfl⟩
  | true => exact ⟨⟨'t', _, rfl, by decide, by decide⟩, fun _ _ => rfl⟩

/-- A written character is read as one piece. -/
theorem pieces_escapeChar (c : Char) (done : List Piece) (rest : List Char) :
    ∃ p, pieces done (escapeChar c ++ rest) = pieces (p :: done) rest ∧
      (p = .char c ∨ p = .unit c.toNat ∧ c.toNat < 0x20) := by
  unfold escapeChar
  split
  iterate 7 exact ⟨_, rfl, .inl rfl⟩
  next hquote hslash _ _ _ _ _ =>
    split
    · next hsmall =>
      refine ⟨.unit c.toNat, ?_, .inr ⟨rfl, hsmall⟩⟩
      generalize c.toNat = n at hsmall ⊢
      interval_cases n <;> rfl
    · next hplain =>
      refine ⟨.char c, ?_, .inl rfl⟩
      rw [List.singleton_append, pieces, if_neg hplain]
      · exact hquote
      · exact fun h _ => hslash h
      · exact fun _ h _ => hslash h
      · exact fun _ _ h _ => hslash h

theorem joinPieces_cons {p : Piece} {ps : List Piece} {cs : List Char}
    (hp : p = .char c ∨ p = .unit c.toNat ∧ c.toNat < 0x20) (h : joinPieces none ps = .ok cs) :
    joinPieces none (p :: ps) = .ok (c :: cs) := by
  obtain rfl | ⟨rfl, hsmall⟩ := hp
  · rw [joinPieces, h]
    rfl
  · unfold joinPieces
    rw [if_neg (by omega), if_neg (by omega), h, Char.ofNat_toNat]
    rfl

theorem pieces_flatMap (s : List Char) (done : List Piece) (rest : List Char) :
    ∃ ps, pieces done (s.flatMap escapeChar ++ '"' :: rest) = (ps.reverse ++ done, .ok rest) ∧
      joinPieces none ps = .ok s := by
  induction s generalizing done with
  | nil => exact ⟨[], by simp [pieces], by rw [joinPieces]⟩
  | cons c s ih =>
    obtain ⟨p, hpiece, hp⟩ := pieces_escapeChar c done (s.flatMap escapeChar ++ '"' :: rest)
    obtain ⟨ps, hpieces, hjoin⟩ := ih (p :: done)
    refine ⟨p :: ps, ?_, joinPieces_cons hp hjoin⟩
    rw [List.flatMap_cons, List.append_assoc, hpiece, hpieces]
    simp

/-- A string is read back up to its closing quote, whatever characters it holds. -/
theorem scanString_flatMap (s rest : List Char) :
    scanString (s.flatMap escapeChar ++ '"' :: rest) = .ok (some s, rest) := by
  obtain ⟨ps, hpieces, hjoin⟩ := pieces_flatMap s [] rest
  rw [scanString, hpieces]
  simp [hjoin, Except.toOption]

theorem scans_stringText (s : String) : Scans (stringText s) (.string (some s.toList)) where
  opens := ⟨'"', _, rfl, by decide, by decide⟩
  scan {fuel rest} _ _ := by
    rw [stringText, List.append_assoc, List.cons_append, scanValue, skipBlanks_cons (by decide)]
    simp only [List.singleton_append, scanString_flatMap]

theorem separated_cons_cons (t u : List Char) (ts : List (List Char)) :
    separated (t :: u :: ts) = t ++ ',' :: separated (u :: ts) := by
  simp [separated, List.intercalate]

theorem separated_singleton (t : List Char) : separated [t] = t := by
  simp [separated, List.intercalate]

theorem exists_separated_cons (t : List Char) (ts : List (List Char)) :
    ∃ others, separated (t :: ts) = t ++ others := by
  cases ts with
  | nil => exact ⟨[], by rw [separated_singleton, List.append_nil]⟩
  | cons u ts => exact ⟨_, separated_cons_cons t u ts⟩

section Lists

variable {α : Type} {text : α → List Char} {doc : α → Json} {x : α} {xs : List α}

theorem scanElements_separated (fuel : ℕ) (rest : List Char)
    (h : ∀ y ∈ x :: xs, Scans (text y) (doc y))
    (hfuel : 2 * (separated ((x :: xs).map text)).length + 2 ≤ fuel) :
    scanElements fuel (separated ((x :: xs).map text) ++ ']' :: rest) =
      ((x :: xs).map doc, none, some rest) := by
  induction xs generalizing x fuel with
  | nil =>
    have hx := h x List.mem_cons_self
    simp only [List.map_cons, List.map_nil, separated_singleton] at hfuel ⊢
    obtain ⟨fuel, rfl⟩ : ∃ n, fuel = n + 2 := ⟨fuel - 2, by omega⟩
    rw [scanElements, hx.scan (by omega) (ends_cons (by simp) _)]
    rfl
  | cons y xs ih =>
    have hx := h x List.mem_cons_self
    simp only [List.map_cons, separated_cons_cons, List.length_append, List.length_cons] at hfuel ⊢
    obtain ⟨fuel, rfl⟩ : ∃ n, fuel = n + 2 := ⟨fuel - 2, by omega⟩
    have hrest := ih (x := y) (fuel + 1) (fun z hz => h z (List.mem_cons_of_mem _ hz))
      (by simp only [List.map_cons]; omega)
    simp only [List.map_cons] at hrest
    rw [List.append_assoc, List.cons_append, scanElements,
      hx.scan (by omega) (ends_cons (by simp) _)]
    simp only [skipBlanks_cons (c := ',') (by decide), hrest]

/-- A list is read back item by item. -/
theorem scans_listText (h : ∀ y ∈ xs, Scans (text y) (doc y)) :
    Scans (listText text xs) (.array (xs.map doc) none) where
  opens := ⟨'[', _, rfl, by decide, by decide⟩
  scan {fuel rest} hfuel _ := by
    rw [listText] at hfuel ⊢
    rw [List.append_assoc, List.cons_append, List.singleton_append, scanValue,
      skipBlanks_cons (by decide)]
    cases xs with
    | nil => rfl
    | cons x xs =>
      have hscan := scanElements_separated fuel rest h (by
        simp only [List.length_append, List.length_cons, List.length_nil] at hfuel
        omega)
      obtain ⟨c, cs, htext, hblank, hbracket⟩ := (h x List.mem_cons_self).opens
      obtain ⟨others, hothers⟩ := exists_separated_cons (text x) (xs.map text)
      rw [List.map_cons, hothers, htext] at hscan ⊢
      simp only [List.cons_append, skipBlanks_cons hblank] at hscan ⊢
      split
      · next heq => exact (hbracket (List.cons.inj heq).1).elim
      · next heq => cases heq
      · simp only [hscan, List.map_cons]

end Lists

/-- The text of a field, given its name, the text of its value and the value. -/
def memberText (m : String × List Char × Json) : List Char := stringText m.1 ++ ':' :: m.2.1

section Records

variable {m : String × List Char × Json} {ms : List (String × List Char × Json)}

theorem memberText_append (m : String × List Char × Json) (rest : List Char) :
    memberText m ++ rest =
      '"' :: (m.1.toList.flatMap escapeChar ++ '"' :: ':' :: (m.2.1 ++ rest)) := by
  simp [memberText, stringText]

theorem recordText_eq (ms : List (String × List Char × Json)) :
    recordText (ms.map fun n => (n.1, n.2.1)) =
      '\x7b' :: separated (ms.map memberText) ++ ['\x7d'] := by
  rw [recordText, List.map_map]
  rfl

theorem length_memberText (m : String × List Char × Json) :
    m.2.1.length + 3 ≤ (memberText m).length := by
  have hlength := congrArg List.length (memberText_append m [])
  simp only [List.append_nil, List.length_append, List.length_cons] at hlength
  omega

theorem scanMembers_separated (fuel : ℕ) (rest : List Char)
    (h : ∀ n ∈ m :: ms, Scans n.2.1 n.2.2)
    (hfuel : 2 * (separated ((m :: ms).map memberText)).length ≤ fuel) :
    scanMembers fuel (separated ((m :: ms).map memberText) ++ '\x7d' :: rest) =
      ((m :: ms).map fun n => (some n.1.toList, n.2.2), none, some rest) := by
  induction ms generalizing m fuel with
  | nil =>
    have hm := h m List.mem_cons_self
    have hlength := length_memberText m
    simp only [List.map_cons, List.map_nil, separated_singleton] at hfuel ⊢
    obtain ⟨fuel, rfl⟩ : ∃ n, fuel = n + 2 := ⟨fuel - 2, by omega⟩
    rw [memberText_append, scanMembers, skipBlanks_cons (by decide)]
    simp only [scanString_flatMap, skipBlanks_cons (c := ':') (by decide),
      hm.scan (by omega : 2 * m.2.1.length ≤ fuel) (ends_cons (c := '\x7d') (by simp) _),
      skipBlanks_cons (c := '\x7d') (by decide)]
  | cons n ms ih =>
    have hm := h m List.mem_cons_self
    have hlength := length_memberText m
    simp only [List.map_cons, separated_cons_cons, List.length_append, List.length_cons] at hfuel ⊢
    obtain ⟨fuel, rfl⟩ : ∃ n, fuel = n + 2 := ⟨fuel - 2, by omega⟩
    have hrest := ih (m := n) (fuel + 1) (fun k hk => h k (List.mem_cons_of_mem _ hk))
      (by simp only [List.map_cons]; omega)
    simp only [List.map_cons] at hrest
    rw [List.append_assoc, memberText_append, List.cons_append, scanMembers,
      skipBlanks_cons (by decide)]
    simp only [scanString_flatMap, skipBlanks_cons (c := ':') (by decide),
      hm.scan (by omega : 2 * m.2.1.length ≤ fuel) (ends_cons (c := ',') (by simp) _),
      skipBlanks_cons (c := ',') (by decide), hrest]

/-- A record is read back as an object that lists its fields in the order written. -/
theorem scans_recordText (ms : List (String × List Char × Json))
    (h : ∀ n ∈ ms, Scans n.2.1 n.2.2) :
    Scans (recordText (ms.map fun n => (n.1, n.2.1)))
      (.object (ms.map fun n => (some n.1.toList, n.2.2)) none) where
  opens := ⟨'\x7b', _, rfl, by decide, by decide⟩
  scan {fuel rest} hfuel _ := by
    rw [recordText_eq] at hfuel ⊢
    rw [List.append_assoc, List.cons_append, List.singleton_append, scanValue,
      skipBlanks_cons (by decide)]
    cases ms with
    | nil => rfl
    | cons m ms =>
      have hscan := scanMembers_separated fuel rest h (by
        simp only [List.length_append, List.length_cons, List.length_nil] at hfuel
        omega)
      obtain ⟨others, hothers⟩ := exists_separated_cons (memberText m) (ms.map memberText)
      rw [List.map_cons, hothers, List.append_assoc, memberText_append] at hscan ⊢
      simp only [skipBlanks_cons (c := '"') (by decide)]
      split
      · next heq => cases heq
      · simp only [hscan]

end Records

end PrimalDual.Json
