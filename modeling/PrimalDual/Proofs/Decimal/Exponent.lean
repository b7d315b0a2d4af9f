import Mathlib.Data.List.TakeWhile
import PrimalDual.Proofs.Decimal
import PrimalDual.Proofs.Text.Utf8

/-!
# Widening keeps the number

What stands before the letter is left alone, whatever it is, and the exponent after it keeps its
value: it gets a sign if it has none, and a zero if it has a single digit. That the bytes are looked
at by their places, and the digits only counted, makes no difference.
-/
namespace PrimalDual.Decimal

variable {s ds : List Char}

theorem bne_letter (hs : 'e' ∉ s) : ∀ c ∈ s, (c != 'e') = true := by
  rintro c hc
  rw [bne_iff_ne]
  rintro rfl
  exact hs hc

theorem widenExponent_of_notMem (hs : 'e' ∉ s) : widenExponent s = s := by
  have hnone : s.dropWhile (· != 'e') = [] := List.dropWhile_eq_nil_iff.mpr (bne_letter hs)
  simp only [widenExponent, hnone]

theorem takeWhile_letter (hs : 'e' ∉ s) (ds : List Char) :
    (s ++ 'e' :: ds).takeWhile (· != 'e') = s := by
  rw [List.takeWhile_append_of_pos (bne_letter hs)]
  simp

theorem dropWhile_letter (hs : 'e' ∉ s) (ds : List Char) :
    (s ++ 'e' :: ds).dropWhile (· != 'e') = 'e' :: ds := by
  rw [List.dropWhile_append_of_pos (bne_letter hs)]
  simp

theorem widenExponent_minus (hs : 'e' ∉ s) (ds : List Char) :
    widenExponent (s ++ 'e' :: '-' :: ds) = s ++ 'e' :: '-' :: twoDigits ds := by
  simp only [widenExponent, takeWhile_letter hs, dropWhile_letter hs]

theorem widenExponent_plus (hs : 'e' ∉ s) (hds : ds.head? ≠ some '-') :
    widenExponent (s ++ 'e' :: ds) = s ++ 'e' :: '+' :: twoDigits ds := by
  simp only [widenExponent, takeWhile_letter hs, dropWhile_letter hs]
  split
  · next heq => cases heq
  · next heq =>
    obtain ⟨-, rfl⟩ := List.cons.inj heq
    exact absurd rfl hds
  · next heq =>
    obtain ⟨rfl, rfl⟩ := List.cons.inj heq
    rfl

section Bytes

open Utf8

theorem ascii_letter : Ascii 'e' := by decide

theorem ascii_minus : Ascii '-' := by decide

theorem findIdx?_of_notMem (hs : 'e' ∉ s) :
    (encode (String.ofList s)).findIdx? (· == 'e'.toUInt8) = none := by
  rw [List.findIdx?_eq_none_iff]
  intro b hb
  rw [beq_eq_false_iff_ne]
  rintro rfl
  exact hs ((toUInt8_mem_encode_iff ascii_letter).mp hb)

/-- The letter stands where the bytes before it end. -/
theorem findIdx?_letter (hs : 'e' ∉ s) (bytes : List UInt8) :
    (encode (String.ofList s) ++ 'e'.toUInt8 :: bytes).findIdx? (· == 'e'.toUInt8) =
      some (encode (String.ofList s)).length := by
  rw [List.findIdx?_append, findIdx?_of_notMem hs, List.findIdx?_cons, beq_self_eq_true,
    if_pos rfl]
  simp

theorem widenBytes_of_notMem (hs : 'e' ∉ s) :
    widenBytes (encode (String.ofList s)) = .ok (encode (String.ofList s)) := by
  rw [widenBytes, findIdx?_of_notMem hs]

/-- What is put in behind a sign makes up for a missing digit. -/
theorem encode_missing (ds : List Char) :
    encode (missing true (ds.length == 1)) ++ encode (String.ofList ds) =
      encode (String.ofList (twoDigits ds)) := by
  rw [twoDigits]
  split
  · next hone =>
    rw [hone, beq_self_eq_true]
    exact (encode_append ['0'] ds).symm
  · next hmore =>
    rw [beq_eq_false_iff_ne.mpr hmore]
    exact (encode_append [] ds).symm

/-- What is put in where there is no sign begins with one. -/
theorem encode_missing_sign (ds : List Char) :
    encode (missing false (ds.length == 1)) ++ encode (String.ofList ds) =
      encode (String.ofList ('+' :: twoDigits ds)) := by
  rw [twoDigits]
  split
  · next hone =>
    rw [hone, beq_self_eq_true]
    exact (encode_append ['+', '0'] ds).symm
  · next hmore =>
    rw [beq_eq_false_iff_ne.mpr hmore]
    exact (encode_append ['+'] ds).symm

/-- Counting the bytes from the letter on counts the digits. -/
theorem length_beq (hds : ∀ c ∈ ds, Ascii c) (bytes : List UInt8) :
    ((bytes ++ encode (String.ofList ds)).length == bytes.length + 1) = (ds.length == 1) := by
  rw [List.length_append, encode_ascii hds, List.length_map, Bool.eq_iff_iff, beq_iff_eq,
    beq_iff_eq]
  omega

theorem widenBytes_minus (hs : 'e' ∉ s) (hds : ∀ c ∈ ds, Ascii c) :
    widenBytes (encode (String.ofList (s ++ 'e' :: '-' :: ds))) =
      .ok (encode (String.ofList (s ++ 'e' :: '-' :: twoDigits ds))) := by
  have hfind := findIdx?_letter hs (encode (String.ofList ('-' :: ds)))
  have hcut := cutFrom_append (encode (String.ofList s) ++ ['e'.toUInt8]) ('-' :: ds)
  have hshort := length_beq hds (encode (String.ofList s) ++ ['e'.toUInt8, '-'.toUInt8])
  have hinsert := insertAt_append (encode (String.ofList s) ++ ['e'.toUInt8, '-'.toUInt8])
    (encode (missing true (ds.length == 1))) ds
  rw [List.append_assoc _ (encode (missing true _)), encode_missing] at hinsert
  rw [encode_append, encode_append, encode_cons ascii_letter, encode_cons ascii_letter]
  simp only [List.append_assoc, List.cons_append, List.nil_append, List.length_append,
    List.length_cons, List.length_nil, Nat.zero_add, Nat.reduceAdd, Nat.add_assoc,
    encode_cons ascii_minus] at hfind hcut hshort hinsert ⊢
  simp only [widenBytes, hfind, hcut, ok_bind, List.head?_cons, beq_self_eq_true, if_true,
    List.length_append, List.length_cons, Nat.add_assoc, Nat.reduceAdd, hshort, hinsert]

/-- Of what is not a minus sign no byte is taken for one. -/
theorem head?_beq_minus (hds : ds.head? ≠ some '-') :
    ((encode (String.ofList ds)).head? == some '-'.toUInt8) = false := by
  rw [beq_eq_false_iff_ne]
  cases ds with
  | nil => decide
  | cons c ds =>
    obtain ⟨b, bits, rs, rest, hbytes, -⟩ := exists_lead c
    rw [encode_ofList, List.flatMap_cons, hbytes, List.cons_append, List.head?_cons]
    intro heq
    have hmem : '-'.toUInt8 ∈ String.utf8EncodeChar c := by
      rw [hbytes, ← Option.some.inj heq]
      exact List.mem_cons_self
    exact hds (congrArg some (eq_of_mem_encodeChar ascii_minus hmem))

theorem widenBytes_plus (hs : 'e' ∉ s) (hds : ∀ c ∈ ds, Ascii c) (hhead : ds.head? ≠ some '-') :
    widenBytes (encode (String.ofList (s ++ 'e' :: ds))) =
      .ok (encode (String.ofList (s ++ 'e' :: '+' :: twoDigits ds))) := by
  have hfind := findIdx?_letter hs (encode (String.ofList ds))
  have hcut := cutFrom_append (encode (String.ofList s) ++ ['e'.toUInt8]) ds
  have hshort := length_beq hds (encode (String.ofList s) ++ ['e'.toUInt8])
  have hinsert := insertAt_append (encode (String.ofList s) ++ ['e'.toUInt8])
    (encode (missing false (ds.length == 1))) ds
  rw [List.append_assoc _ (encode (missing false _)), encode_missing_sign] at hinsert
  rw [encode_append, encode_append, encode_cons ascii_letter, encode_cons ascii_letter]
  simp only [List.append_assoc, List.cons_append, List.nil_append, List.length_append,
    List.length_cons, List.length_nil, Nat.zero_add, Nat.reduceAdd, Nat.add_assoc]
    at hfind hcut hshort hinsert ⊢
  simp only [widenBytes, hfind, hcut, ok_bind, head?_beq_minus hhead, Bool.false_eq_true, if_false,
    List.length_append, List.length_cons, hshort, hinsert]

theorem Numeric.ascii (h : Numeric s) : ∀ c ∈ s, Ascii c := by
  intro c hc
  rcases h c hc with hdigit | hmark
  · have hnine : c.toNat ≤ 57 := (Char.isDigit_iff_toNat.mp hdigit).2
    unfold Ascii
    omega
  · have hmarks : marks.Forall Ascii := by decide
    exact List.forall_iff_forall_mem.mp hmarks c hmark

/-- On the texts of numbers, going by the bytes comes to the same. -/
theorem widenBytes_eq (h : Numeric s) :
    widenBytes (encode (String.ofList s)) = .ok (encode (String.ofList (widenExponent s))) := by
  by_cases hletter : 'e' ∈ s
  · obtain ⟨s, ds, rfl, hs⟩ := List.eq_append_cons_of_mem hletter
    have hds := fun c hc => h.ascii c (List.mem_append_right s (List.mem_cons_of_mem 'e' hc))
    by_cases hhead : ds.head? = some '-'
    · obtain ⟨ds, rfl⟩ := List.head?_eq_some_iff.mp hhead
      rw [widenExponent_minus hs, widenBytes_minus hs fun c hc => hds c (List.mem_cons_of_mem _ hc)]
    · rw [widenExponent_plus hs hhead, widenBytes_plus hs hds hhead]
  · rw [widenExponent_of_notMem hletter, widenBytes_of_notMem hletter]

end Bytes

variable {power : ℤ}

/-- The text of an exponent with its sign and at least two digits. -/
def signedExponent (power : ℤ) : List Char :=
  (if 0 ≤ power then '+' else '-') :: (digits power.natAbs).leftpad 2 '0'

theorem twoDigits_digits (n : ℕ) : twoDigits (digits n) = (digits n).leftpad 2 '0' := by
  have hpos : 0 < (digits n).length := Nat.length_toDigits_pos
  rw [twoDigits, List.leftpad]
  split
  · next hone =>
    rw [hone]
    rfl
  · next hmore =>
    have hzero : 2 - (digits n).length = 0 := by omega
    rw [hzero]
    rfl

/-- The exponent of a number is written like any other integer. -/
theorem exponentText_eq (power : ℤ) : exponentText power = (toString power).toList := by
  cases power with
  | ofNat n => exact Nat.toList_repr.symm
  | negSucc n =>
    have htext : (toString (Int.negSucc n)).toList = '-' :: digits (n + 1) := by
      change ("-" ++ Nat.repr (n + 1)).toList = _
      rw [String.toList_append, Nat.toList_repr]
      rfl
    rw [htext, exponentText, if_neg (Int.negSucc_lt_zero n).not_ge]
    rfl

theorem notMem_digits {c : Char} (hc : c.isDigit = false) (n : ℕ) : c ∉ digits n := by
  intro hmem
  have hdigit : c.isDigit = true := Nat.isDigit_of_mem_toDigits (by decide) (by decide) hmem
  rw [hc] at hdigit
  cases hdigit

theorem head?_digits (n : ℕ) : (digits n).head? ≠ some '-' :=
  fun hminus => notMem_digits rfl n (List.mem_of_mem_head? hminus)

theorem widenExponent_exponentText (hs : 'e' ∉ s) (power : ℤ) :
    widenExponent (s ++ 'e' :: exponentText power) = s ++ 'e' :: signedExponent power := by
  unfold exponentText signedExponent
  split
  · next hpower =>
    have hvalue : power.toNat = power.natAbs := by omega
    rw [widenExponent_plus hs (head?_digits _), twoDigits_digits, hvalue]
  · next hpower =>
    have hvalue : (-power).toNat = power.natAbs := by omega
    rw [widenExponent_minus hs, twoDigits_digits, hvalue]

theorem widenBytes_exponentText (hs : 'e' ∉ s) (power : ℤ) :
    widenBytes (Utf8.encode (String.ofList (s ++ 'e' :: exponentText power))) =
      .ok (Utf8.encode (String.ofList (s ++ 'e' :: signedExponent power))) := by
  rw [← widenExponent_exponentText hs]
  unfold exponentText
  split
  · next hpower =>
    have hds := (numeric_digits power.toNat).ascii
    rw [widenExponent_plus hs (head?_digits _), widenBytes_plus hs hds (head?_digits _)]
  · next hpower =>
    have hds := (numeric_digits (-power).toNat).ascii
    rw [widenExponent_minus hs, widenBytes_minus hs hds]

/-- Whatever stands before the letter stays, and the exponent is written with its sign and at least
two digits. A text without the letter is left alone. -/
theorem widenExponent_spec :
    (∀ (s : List Char) (power : ℤ), 'e' ∉ s →
      widenExponent (s ++ 'e' :: (toString power).toList) = s ++ 'e' :: signedExponent power ∧
      widenBytes (Utf8.encode (String.ofList (s ++ 'e' :: (toString power).toList))) =
        .ok (Utf8.encode (String.ofList (s ++ 'e' :: signedExponent power)))) ∧
    ∀ s : List Char, 'e' ∉ s →
      widenExponent s = s ∧
      widenBytes (Utf8.encode (String.ofList s)) = .ok (Utf8.encode (String.ofList s)) := by
  refine ⟨fun s power hs => ?_, fun s hs => ?_⟩
  · rw [← exponentText_eq]
    exact ⟨widenExponent_exponentText hs power, widenBytes_exponentText hs power⟩
  · exact ⟨widenExponent_of_notMem hs, widenBytes_of_notMem hs⟩

/-- A single digit with its sign, many digits without one behind a character of two bytes, and a
number that has no exponent. -/
theorem widenExponent_spec_signed :
    widenExponent " -1.50e-3".toList = " -1.50e-03".toList ∧
      widenBytes (Utf8.encode "µ7e1234") = .ok (Utf8.encode "µ7e+1234") ∧
      widenBytes (Utf8.encode "-inf") = .ok (Utf8.encode "-inf") := by
  obtain ⟨hexponent, hplain⟩ := widenExponent_spec
  have hshort : " -1.50e-3".toList = " -1.50".toList ++ 'e' :: (toString (-3 : ℤ)).toList := by
    decide
  have hlong : "µ7e1234" = String.ofList ("µ7".toList ++ 'e' :: (toString (1234 : ℤ)).toList) := by
    decide
  rw [hshort, hlong]
  exact ⟨(hexponent _ _ (by decide)).1, (hexponent _ _ (by decide)).2,
    (hplain "-inf".toList (by decide)).2⟩

theorem notMem_insertPoint (hs : 'e' ∉ s) (places : ℕ) : 'e' ∉ insertPoint places s := by
  have hpadded : 'e' ∉ List.replicate (places + 1 - s.length) '0' ++ s := by
    rw [List.mem_append, List.mem_replicate]
    rintro (⟨-, hzero⟩ | hmem)
    · exact absurd hzero (by decide)
    · exact hs hmem
  unfold insertPoint
  dsimp only
  split
  · exact fun hmem => hpadded (List.mem_of_mem_take hmem)
  · rw [List.mem_append, List.mem_cons]
    rintro (hmem | hpoint | hmem)
    · exact hpadded (List.mem_of_mem_take hmem)
    · exact absurd hpoint (by decide)
    · exact hpadded (List.mem_of_mem_drop hmem)

/-- A finite number in its column has one letter, and the exponent behind it is the one that is
widened. -/
theorem aligned_of_finite {T : Type} [Scalar T] {x : T} {negative : Bool} {mantissa : ℕ}
    {exponent : ℤ} (hfinite : Scalar.isFinite x = true)
    (hdecode : Scalar.decode x = .finite negative mantissa exponent) (style : SignStyle)
    (width places : ℕ) :
    ∃ s power, 'e' ∉ s ∧
      padLeft width (scientific style places x) = s ++ 'e' :: exponentText power ∧
      aligned style width places x = s ++ 'e' :: signedExponent power := by
  obtain ⟨s, power, hs, htext⟩ : ∃ s power, 'e' ∉ s ∧
      padLeft width (scientific style places x) = s ++ 'e' :: exponentText power := by
    obtain ⟨n, power, hmagnitude⟩ : ∃ n power, scientificMagnitude places mantissa exponent =
        insertPoint places (digits n) ++ 'e' :: exponentText power := ⟨_, _, rfl⟩
    rw [scientific, hdecode, render, hmagnitude, padLeft]
    refine ⟨_, power, ?_, by rw [List.append_assoc, List.append_assoc]⟩
    have hpoint := notMem_insertPoint (notMem_digits rfl n) places
    have hsign : 'e' ∉ signText style negative := by
      cases negative <;> cases style <;> decide
    simp [hsign, hpoint]
  refine ⟨s, power, hs, htext, ?_⟩
  rw [aligned, if_pos hfinite, htext, widenExponent_exponentText hs]

end PrimalDual.Decimal
