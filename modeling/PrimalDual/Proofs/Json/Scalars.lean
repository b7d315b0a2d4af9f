import PrimalDual.Json.Decoder
import PrimalDual.Proofs.Floating
import PrimalDual.Proofs.Json.Numerals

/-!
# Scalars in JSON documents

A scalar that is not finite is written as null, in both precisions. A finite one is written as a
number; that the number stands for the same scalar is a property of the one text, which is asked for
where it is needed.
-/
namespace PrimalDual
open Float.Model (Format UnpackedFloat)

/-- The exponent field of what is not finite is full. -/
theorem exponent_of_not_finite (spec : Format) {bits : BitVec spec.numBits}
    (h : (UnpackedFloat.unpack spec bits).isFinite = false) :
    bits.toNat / 2 ^ spec.mantissaBitsWithoutImplicit % 2 ^ spec.exponentBits + 1 =
      2 ^ spec.exponentBits := by
  have hfull : UnpackedFloat.unpackExponent bits = -1#_ := by
    by_contra hne
    simp only [UnpackedFloat.unpack, if_neg hne] at h
    split_ifs at h <;> cases h
  have hwidth : spec.mantissaBitsWithoutImplicit + spec.exponentBits - 1 -
      spec.mantissaBitsWithoutImplicit + 1 = spec.exponentBits := by
    have := spec.he
    omega
  have hvalue := congrArg BitVec.toNat hfull
  simp only [UnpackedFloat.unpackExponent, BitVec.toNat_cast, BitVec.extractLsb_toNat,
    Nat.shiftRight_eq_div_pow, hwidth, BitVec.neg_one_eq_allOnes, BitVec.toNat_allOnes] at hvalue
  rw [hvalue, Nat.sub_add_cancel Nat.one_le_two_pow]

theorem BinaryFormat.decode_of_exponent {f : BinaryFormat} {bits : ℕ}
    (h : bits / 2 ^ f.mantissaBits % 2 ^ f.exponentBits + 1 = 2 ^ f.exponentBits) :
    f.decode bits = .nan ∨ ∃ negative, f.decode bits = .infinite negative := by
  simp only [BinaryFormat.decode, Nat.pow_eq, if_pos h]
  split_ifs
  · exact .inr ⟨_, rfl⟩
  · exact .inl rfl

namespace Json

theorem numberText_eq_null {T : Type} [Number T] {x : T}
    (h : Scalar.decode x = .nan ∨ ∃ negative, Scalar.decode x = .infinite negative) :
    numberText x = "null".toList := by
  unfold numberText
  obtain hnan | ⟨negative, hinfinite⟩ := h
  · rw [hnan]
  · rw [hinfinite]

/-- The scalars of which all that are not finite are written as null. -/
class NullsNonfinite (T : Type) [Number T] : Prop where
  numberText_eq : ∀ x : T, Scalar.isFinite x = false → numberText x = "null".toList

instance : NullsNonfinite Float where
  numberText_eq _ hx :=
    numberText_eq_null (BinaryFormat.decode_of_exponent (exponent_of_not_finite .binary64 hx))

instance : NullsNonfinite Float32 where
  numberText_eq _ hx :=
    numberText_eq_null (BinaryFormat.decode_of_exponent (exponent_of_not_finite .binary32 hx))

variable {T : Type} [Number T] {x : T}

/-- The text of the scalar is one number, which can be held and stands for the scalar. -/
def ReadsBack (x : T) : Prop :=
  ∃ n : Literal, signedNumber (numberText x) = .ok (n, []) ∧ n.inRange = true ∧ n.heldScalar = x

/-- The document that the text of a scalar is read as. -/
def scalarDoc (x : T) : Json :=
  if Scalar.isFinite x then (scanNumber (numberText x)).1 else .null

theorem scalarDoc_of_finite {n : Literal} (hfinite : Scalar.isFinite x = true)
    (hread : signedNumber (numberText x) = .ok (n, [])) : scalarDoc x = .number n := by
  rw [scalarDoc, if_pos hfinite, scanNumber, hread]

theorem scalarDoc_of_readsBack (hfinite : Scalar.isFinite x = true) (h : ReadsBack x) :
    ∃ n : Literal, scalarDoc x = .number n ∧ signedNumber (numberText x) = .ok (n, []) ∧
      n.inRange = true ∧ n.heldScalar = x := by
  obtain ⟨n, hread, hrange, hheld⟩ := h
  exact ⟨n, scalarDoc_of_finite hfinite hread, hread, hrange, hheld⟩

theorem scalarDoc_of_not_finite (hfinite : Scalar.isFinite x = false) : scalarDoc x = .null := by
  simp [scalarDoc, hfinite]

/-- The text of a scalar is one number if the scalar is finite, and null if it is not. -/
theorem scans_scalarDoc [NullsNonfinite T]
    (h : Scalar.isFinite x = true → ∃ n, signedNumber (numberText x) = .ok (n, [])) :
    Scans (numberText x) (scalarDoc x) := by
  cases hfinite : Scalar.isFinite x with
  | false =>
    rw [scalarDoc_of_not_finite hfinite, NullsNonfinite.numberText_eq x hfinite]
    exact scans_null
  | true =>
    obtain ⟨n, hread⟩ := h hfinite
    rw [scalarDoc_of_finite hfinite hread]
    exact scans_number hread

theorem scans_numberText [NullsNonfinite T] (h : Scalar.isFinite x = true → ReadsBack x) :
    Scans (numberText x) (scalarDoc x) := by
  refine scans_scalarDoc fun hfinite => ?_
  obtain ⟨n, hread, -⟩ := h hfinite
  exact ⟨n, hread⟩

theorem readNat_natDoc {bound n : ℕ} (h : n < bound) : readNat bound (natDoc n) = .ok n := by
  simp [readNat, natDoc, h]

theorem hold_scalarDoc (h : Scalar.isFinite x = true → ReadsBack x) (depth : ℕ) :
    hold depth (scalarDoc x) = .ok () := by
  cases hfinite : Scalar.isFinite x with
  | false =>
    rw [scalarDoc_of_not_finite hfinite]
    rfl
  | true =>
    obtain ⟨n, hdoc, -, hrange, -⟩ := scalarDoc_of_readsBack hfinite (h hfinite)
    rw [hdoc, hold, if_pos hrange]

end Json

end PrimalDual
