import PrimalDual.Decimal.Exponent
import PrimalDual.Proofs.Text.Lines

/-!
# The characters of numbers

However a number is written, its text stays on its line and has no letters but those of an exponent
and of what is not finite.
-/
namespace PrimalDual.Decimal

/-- What stands in the text of a number besides digits. -/
def marks : List Char := " +-.eNainf".toList

/-- A text that consists of the characters of numbers. -/
def Numeric (cs : List Char) : Prop := ∀ c ∈ cs, c.isDigit = true ∨ c ∈ marks

variable {cs cs' : List Char} {c : Char}

theorem Numeric.append (h : Numeric cs) (h' : Numeric cs') : Numeric (cs ++ cs') :=
  List.forall_mem_append.mpr ⟨h, h'⟩

theorem numeric_cons : Numeric (c :: cs) ↔ (c.isDigit = true ∨ c ∈ marks) ∧ Numeric cs :=
  List.forall_mem_cons

theorem Numeric.mark (hc : c ∈ marks) (h : Numeric cs) : Numeric (c :: cs) :=
  numeric_cons.mpr ⟨.inr hc, h⟩

theorem Numeric.of_subset (h : Numeric cs) (hsubset : cs' ⊆ cs) : Numeric cs' :=
  fun c hc => h c (hsubset hc)

theorem numeric_of_subset (h : cs ⊆ marks) : Numeric cs := fun _ hc => .inr (h hc)

theorem numeric_replicate (n : ℕ) (hc : c.isDigit = true ∨ c ∈ marks) :
    Numeric (List.replicate n c) := by
  intro d hd
  rwa [List.eq_of_mem_replicate hd]

/-- A numeric text is part of one line, and no warning. -/
theorem Numeric.calm (h : Numeric cs) : Text.Calm cs := by
  refine Text.calm_of_forall fun c hc => ?_
  rcases h c hc with hdigit | hmark
  · constructor <;> (rintro rfl; exact absurd hdigit (by decide))
  · constructor <;> (rintro rfl; exact absurd hmark (by decide))

theorem numeric_digits (n : ℕ) : Numeric (digits n) :=
  fun _ hc => .inl (Nat.isDigit_of_mem_toDigits (by decide) (by decide) hc)

theorem Numeric.insertPoint (h : Numeric cs) (places : ℕ) : Numeric (insertPoint places cs) := by
  have hpadded : Numeric (List.replicate (places + 1 - cs.length) '0' ++ cs) :=
    (numeric_replicate _ (.inl (by decide))).append h
  unfold Decimal.insertPoint
  dsimp only
  split
  · exact hpadded.of_subset (List.take_subset _ _)
  · exact (hpadded.of_subset (List.take_subset _ _)).append
      ((hpadded.of_subset (List.drop_subset _ _)).mark (by decide))

theorem numeric_fixedMagnitude (places mantissa : ℕ) (exponent : ℤ) :
    Numeric (fixedMagnitude places mantissa exponent) :=
  (numeric_digits _).insertPoint places

theorem numeric_exponentText (power : ℤ) : Numeric (exponentText power) := by
  unfold exponentText
  split
  · exact numeric_digits _
  · exact (numeric_digits _).mark (by decide)

theorem numeric_scientificMagnitude (places mantissa : ℕ) (exponent : ℤ) :
    Numeric (scientificMagnitude places mantissa exponent) :=
  ((numeric_digits _).insertPoint places).append ((numeric_exponentText _).mark (by decide))

theorem numeric_signText (style : SignStyle) (negative : Bool) :
    Numeric (signText style negative) := by
  cases negative <;> cases style <;> exact numeric_of_subset (by decide)

theorem numeric_render {magnitude : ℕ → ℤ → List Char}
    (h : ∀ mantissa exponent, Numeric (magnitude mantissa exponent)) (style : SignStyle)
    (d : Decoded) : Numeric (render style magnitude d) := by
  cases d with
  | nan =>
    change Numeric "NaN".toList
    exact numeric_of_subset (by decide)
  | infinite negative =>
    exact (numeric_signText style negative).append (numeric_of_subset (by decide))
  | finite negative mantissa exponent =>
    exact (numeric_signText style negative).append (h mantissa exponent)

theorem Numeric.padLeft (h : Numeric cs) (width : ℕ) : Numeric (padLeft width cs) :=
  (numeric_replicate _ (.inr (by decide))).append h

theorem Numeric.twoDigits (h : Numeric cs) : Numeric (twoDigits cs) := by
  unfold Decimal.twoDigits
  split
  · exact numeric_cons.mpr ⟨.inl (by decide), h⟩
  · exact h

theorem Numeric.widenExponent (h : Numeric cs) : Numeric (widenExponent cs) := by
  have hmantissa : Numeric (cs.takeWhile (· != 'e')) :=
    h.of_subset (List.takeWhile_prefix _).subset
  have hexponent : Numeric (cs.dropWhile (· != 'e')) :=
    h.of_subset (List.dropWhile_suffix _).subset
  unfold Decimal.widenExponent
  dsimp only
  split
  · exact h
  · next e ds heq =>
    rw [heq] at hexponent
    obtain ⟨he, hrest⟩ := numeric_cons.mp hexponent
    obtain ⟨hminus, hds⟩ := numeric_cons.mp hrest
    exact hmantissa.append (numeric_cons.mpr ⟨he, numeric_cons.mpr ⟨hminus, hds.twoDigits⟩⟩)
  · next e ds _ heq =>
    rw [heq] at hexponent
    obtain ⟨he, hds⟩ := numeric_cons.mp hexponent
    exact hmantissa.append (numeric_cons.mpr ⟨he, hds.twoDigits.mark (by decide)⟩)

variable {T : Type} [Scalar T]

theorem numeric_fixed (places : ℕ) (x : T) : Numeric (fixed places x) :=
  numeric_render (numeric_fixedMagnitude places) _ _

theorem numeric_scientific (style : SignStyle) (places : ℕ) (x : T) :
    Numeric (scientific style places x) :=
  numeric_render (numeric_scientificMagnitude places) _ _

theorem numeric_aligned (style : SignStyle) (width places : ℕ) (x : T) :
    Numeric (aligned style width places x) := by
  have hcolumn := (numeric_scientific style places x).padLeft width
  unfold aligned
  dsimp only
  split
  · exact hcolumn.widenExponent
  · exact hcolumn

end PrimalDual.Decimal
