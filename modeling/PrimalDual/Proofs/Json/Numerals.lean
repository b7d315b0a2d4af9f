import Mathlib.Data.List.TakeWhile
import PrimalDual.Fault
import PrimalDual.Json.Number
import PrimalDual.Proofs.Json.Scan

/-!
# Numbers read back from their text

A literal ends where a list or a record goes on, so that a number that is read from a text of its
own is read inside a longer text as well.
-/
namespace PrimalDual.Json

section Literals

variable {text rest cs : List Char} {c : Char} {n : Literal}

theorem isDigit_of_ends (h : Ends (c :: cs)) : isDigit c = false := by
  rcases h c cs rfl with rfl | rfl | rfl <;> rfl

theorem takeWhile_of_ends (h : Ends rest) : rest.takeWhile isDigit = [] := by
  cases rest with
  | nil => rfl
  | cons c cs => exact List.takeWhile_cons_of_neg (by simp [isDigit_of_ends h])

theorem dropWhile_of_ends (h : Ends rest) : rest.dropWhile isDigit = rest := by
  cases rest with
  | nil => rfl
  | cons c cs => exact List.dropWhile_cons_of_neg (by simp [isDigit_of_ends h])

/-- What ends a value leaves what is read before it as it is. -/
def Stable {α : Type} (read : List Char → Except Break (α × List Char)) : Prop :=
  ∀ ⦃cs a r rest⦄, Ends rest → read cs = .ok (a, r) → read (cs ++ rest) = .ok (a, r ++ rest)

theorem stable_someDigits : Stable someDigits := by
  intro cs ds r rest hrest h
  have htake : (cs ++ rest).takeWhile isDigit = cs.takeWhile isDigit := by
    rw [List.takeWhile_append]
    split
    · next hall =>
      rw [takeWhile_of_ends hrest, List.append_nil, (List.takeWhile_sublist _).eq_of_length hall]
    · rfl
  have hdrop : (cs ++ rest).dropWhile isDigit = cs.dropWhile isDigit ++ rest := by
    rw [List.dropWhile_append]
    split
    · next hall => rw [dropWhile_of_ends hrest, List.isEmpty_iff.mp hall, List.nil_append]
    · rfl
  unfold someDigits at h ⊢
  rw [htake, hdrop]
  cases hds : cs.takeWhile isDigit with
  | nil => simp [hds] at h
  | cons d ds' =>
    rw [hds] at h
    obtain ⟨rfl, rfl⟩ := Prod.mk.inj (Except.ok.inj h)
    rfl

theorem stable_wholePart : Stable wholePart := by
  intro cs ds r rest hrest h
  unfold wholePart at h
  split at h
  · next c cs' =>
    cases hc : isDigit c with
    | true => simp [hc] at h
    | false =>
      simp only [hc, Bool.false_eq_true, if_false, Except.ok.injEq, Prod.mk.injEq] at h
      obtain ⟨rfl, rfl⟩ := h
      simp [wholePart, hc]
  · next hzero =>
    unfold wholePart
    split
    · next c cs' heq =>
      -- Only a zero by itself can have become a zero with something behind it.
      rcases cs with _ | ⟨d, _ | ⟨e, l⟩⟩
      · cases h
      · obtain ⟨rfl, rfl⟩ := List.cons.inj heq
        obtain ⟨rfl, rfl⟩ : ['0'] = ds ∧ [] = r := Prod.mk.inj (Except.ok.inj h)
        simp [isDigit_of_ends hrest]
      · exact (hzero e l (by rw [(List.cons.inj heq).1])).elim
    · exact stable_someDigits hrest h

theorem stable_fractionPart : Stable fractionPart := by
  intro cs ds r rest hrest h
  rcases cs with _ | ⟨d, l⟩
  · obtain ⟨rfl, rfl⟩ := Prod.mk.inj (Except.ok.inj h)
    rcases rest with _ | ⟨c, cs⟩
    · rfl
    · rcases hrest c cs rfl with rfl | rfl | rfl <;> rfl
  · by_cases hd : d = '.'
    · subst hd
      exact stable_someDigits hrest h
    · have hnone (l : List Char) : fractionPart (d :: l) = .ok ([], d :: l) := by
        simp [fractionPart, hd]
      rw [hnone] at h
      obtain ⟨rfl, rfl⟩ := Prod.mk.inj (Except.ok.inj h)
      exact hnone _

theorem stable_signedPower (sign : ℤ) : Stable (signedPower sign) := by
  intro cs power r rest hrest h
  obtain ⟨⟨ds, r'⟩, hds, h⟩ := bind_eq_ok.mp h
  obtain ⟨rfl, rfl⟩ := Prod.mk.inj (Except.ok.inj h)
  rw [signedPower, stable_someDigits hrest hds]
  rfl

theorem stable_exponentPart : Stable exponentPart := by
  intro cs power r rest hrest h
  rcases cs with _ | ⟨e, l⟩
  · obtain ⟨rfl, rfl⟩ := Prod.mk.inj (Except.ok.inj h)
    rcases rest with _ | ⟨c, cs⟩
    · rfl
    · rcases hrest c cs rfl with rfl | rfl | rfl <;> rfl
  · by_cases he : (e == 'e' || e == 'E') = true
    · rcases l with _ | ⟨d, l⟩
      · simp [exponentPart, he, signedPower, someDigits] at h
      · by_cases hplus : d = '+'
        · subst hplus
          have hread (l : List Char) : exponentPart (e :: '+' :: l) = signedPower 1 l := by
            simp [exponentPart, he]
          exact (hread _).trans (stable_signedPower 1 hrest ((hread l).symm.trans h))
        · by_cases hminus : d = '-'
          · subst hminus
            have hread (l : List Char) : exponentPart (e :: '-' :: l) = signedPower (-1) l := by
              simp [exponentPart, he]
            exact (hread _).trans (stable_signedPower (-1) hrest ((hread l).symm.trans h))
          · have hread (l : List Char) : exponentPart (e :: d :: l) = signedPower 1 (d :: l) := by
              simp [exponentPart, he, hplus, hminus]
            exact (hread _).trans (stable_signedPower 1 hrest ((hread l).symm.trans h))
    · have hnone (l : List Char) : exponentPart (e :: l) = .ok (none, e :: l) := by
        simp [exponentPart, he]
      rw [hnone] at h
      obtain ⟨rfl, rfl⟩ := Prod.mk.inj (Except.ok.inj h)
      exact hnone _

theorem stable_unsignedNumber (negative : Bool) : Stable (unsignedNumber negative) := by
  intro cs n r rest hrest h
  obtain ⟨⟨whole, r₁⟩, hwhole, h⟩ := bind_eq_ok.mp h
  obtain ⟨⟨places, r₂⟩, hplaces, h⟩ := bind_eq_ok.mp h
  obtain ⟨⟨power, r₃⟩, hpower, h⟩ := bind_eq_ok.mp h
  obtain ⟨rfl, rfl⟩ := Prod.mk.inj (Except.ok.inj h)
  rw [unsignedNumber, stable_wholePart hrest hwhole]
  simp only [ok_bind]
  rw [stable_fractionPart hrest hplaces]
  simp only [ok_bind]
  rw [stable_exponentPart hrest hpower]
  rfl

theorem signedNumber_of_ne (hc : c ≠ '-') (cs : List Char) :
    signedNumber (c :: cs) = unsignedNumber false (c :: cs) := by
  simp [signedNumber, hc]

theorem stable_signedNumber : Stable signedNumber := by
  intro cs n r rest hrest h
  rcases cs with _ | ⟨d, l⟩
  · cases h
  · by_cases hd : d = '-'
    · subst hd
      exact stable_unsignedNumber true hrest h
    · rw [signedNumber_of_ne hd] at h
      exact (signedNumber_of_ne hd _).trans (stable_unsignedNumber false hrest h)

theorem isDigit_of_wholePart {ds r : List Char} (h : wholePart (c :: cs) = .ok (ds, r)) :
    isDigit c = true := by
  by_contra hc
  have hzero : c ≠ '0' := by
    rintro rfl
    exact hc rfl
  simp [wholePart, someDigits, hzero, hc] at h

/-- A number starts with a digit or a sign. -/
theorem signedNumber_opens {r : List Char} (h : signedNumber text = .ok (n, r)) :
    ∃ c cs, text = c :: cs ∧ (c == '-' || isDigit c) = true := by
  rcases text with _ | ⟨c, cs⟩
  · cases h
  · refine ⟨c, cs, rfl, ?_⟩
    by_cases hc : c = '-'
    · simp [hc]
    · rw [signedNumber_of_ne hc] at h
      obtain ⟨⟨ds, _⟩, hwhole, -⟩ := bind_eq_ok.mp h
      simp [isDigit_of_wholePart hwhole]

theorem isBlank_of_number (hc : (c == '-' || isDigit c) = true) : isBlank c = false := by
  by_contra hblank
  simp only [isBlank, Bool.not_eq_false, Bool.or_eq_true, beq_iff_eq] at hblank
  rcases hblank with ((rfl | rfl) | rfl) | rfl <;> exact absurd hc (by decide)

theorem scanValue_number (hc : (c == '-' || isDigit c) = true) (fuel : ℕ) (cs : List Char) :
    scanValue (fuel + 1) (c :: cs) = scanNumber (c :: cs) := by
  rw [scanValue, skipBlanks_cons (isBlank_of_number hc)]
  -- No other value starts like a number.
  split
  · next heq => cases heq
  iterate 6
    next heq =>
      obtain ⟨rfl, -⟩ := List.cons.inj heq
      exact absurd hc (by decide)
  · next heq =>
    obtain ⟨rfl, rfl⟩ := List.cons.inj heq
    exact if_pos hc

/-- A text that is one number is read as that number. -/
theorem scans_number (h : signedNumber text = .ok (n, [])) : Scans text (.number n) where
  opens := by
    obtain ⟨c, cs, htext, hc⟩ := signedNumber_opens h
    refine ⟨c, cs, htext, isBlank_of_number hc, ?_⟩
    rintro rfl
    exact absurd hc (by decide)
  scan {fuel rest} _ hrest := by
    obtain ⟨c, cs, htext, hc⟩ := signedNumber_opens h
    have hread := stable_signedNumber hrest h
    rw [htext, List.cons_append] at hread ⊢
    rw [scanValue_number hc, scanNumber, hread]
    rfl

end Literals

section Naturals

variable {c : Char} {n : ℕ}

theorem isDigit_of_mem_digits (h : c ∈ Decimal.digits n) : isDigit c = true :=
  Nat.isDigit_of_mem_toDigits (by decide) (by decide) h

theorem numeral_digits (n : ℕ) : numeral (Decimal.digits n) = n :=
  Nat.ofDigitChars_toDigits (by decide) (by decide)

/-- No digits start with a zero unless it is the only one. -/
theorem digits_head (hn : n ≠ 0) : (Decimal.digits n).head? ≠ some '0' := by
  unfold Decimal.digits
  induction n using Nat.base_induction 10 (by decide) with
  | single m hm => simpa [Nat.toDigits_of_lt_base hm] using hn
  | digit m k hk hm ih =>
    rw [← Nat.toDigits_append_toDigits (by decide) hm hk,
      List.head?_append_of_ne_nil _ Nat.toDigits_ne_nil]
    exact ih hm.ne'

theorem someDigits_digits (n : ℕ) : someDigits (Decimal.digits n) = .ok (Decimal.digits n, []) := by
  have hall : ∀ c ∈ Decimal.digits n, isDigit c = true := fun c => isDigit_of_mem_digits
  have htake := List.takeWhile_eq_self_iff.mpr hall
  have hdrop := List.dropWhile_eq_nil_iff.mpr hall
  unfold someDigits
  rw [htake, hdrop]
  cases hds : Decimal.digits n with
  | nil => exact (Nat.toDigits_ne_nil hds).elim
  | cons d ds => rfl

theorem wholePart_digits (n : ℕ) : wholePart (Decimal.digits n) = .ok (Decimal.digits n, []) := by
  rw [← someDigits_digits]
  unfold wholePart
  split
  · next c cs heq =>
    rcases eq_or_ne n 0 with rfl | hn
    · cases heq
    · exact (digits_head hn (by rw [heq]; rfl)).elim
  · rfl

theorem signedNumber_digits (n : ℕ) :
    signedNumber (Decimal.digits n) = .ok (⟨false, n, 0, true⟩, []) := by
  have hunsigned : unsignedNumber false (Decimal.digits n) = .ok (⟨false, n, 0, true⟩, []) := by
    rw [unsignedNumber, wholePart_digits]
    simp [fractionPart, exponentPart, numeral_digits]
  cases hds : Decimal.digits n with
  | nil => exact (Nat.toDigits_ne_nil hds).elim
  | cons d ds =>
    have hd : d ≠ '-' := by
      rintro rfl
      exact absurd (isDigit_of_mem_digits (hds ▸ List.mem_cons_self)) (by decide)
    rw [signedNumber_of_ne hd, ← hds, hunsigned]

/-- The document that the text of a natural number is read as. -/
def natDoc (n : ℕ) : Json := .number ⟨false, n, 0, true⟩

theorem scans_natText (n : ℕ) : Scans (natText n) (natDoc n) :=
  scans_number (signedNumber_digits n)

end Naturals

end PrimalDual.Json
