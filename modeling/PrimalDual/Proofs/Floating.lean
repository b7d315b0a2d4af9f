import Mathlib
import PrimalDual.Scalar.Binary

/-!
# Special values of binary floating-point numbers

Nonnegative numbers, infinity among them, stay nonnegative under the operations that build a norm,
and NaN does not arise from them. Infinity stays infinite. None of this depends on how results are
rounded, nor on the widths of the format.
-/
namespace PrimalDual
open Float.Model (Format UnpackedFloat)
open Float.Model.UnpackedFloat

namespace Unpacked

variable {spec : Format}

/-- No finite number is packed with the exponent of the special values. -/
theorem exponent_ne {n : ℕ} (h : n + 1 < 2 ^ spec.exponentBits) :
    BitVec.ofNat spec.exponentBits n ≠ -1#_ := by
  intro heq
  have hvalue := congrArg BitVec.toNat heq
  rw [BitVec.toNat_ofNat, Nat.mod_eq_of_lt (by omega), BitVec.neg_one_eq_allOnes,
    BitVec.toNat_allOnes] at hvalue
  omega

theorem zero_ne_exponent : (0#_ : BitVec spec.exponentBits) ≠ -1#_ := by
  simpa using spec.he.ne'

theorem unpack_packedInfinity (s : Sign) : unpack spec (packedInfinity spec s) = .infinity s := by
  simp [unpack, packedInfinity]

/-- Numbers that are not below zero. -/
def Nonneg : UnpackedFloat → Prop
  | .infinity s => s = .positive
  | .notANumber => False
  | .zero _ => True
  | .finite s .. => s = .positive

theorem nonneg_unpack_packComponents {e : BitVec spec.exponentBits} (he : e ≠ -1#_)
    (m : BitVec spec.mantissaBitsWithoutImplicit) :
    Nonneg (unpack spec (packComponents spec .positive e m)) := by
  simp only [unpack, unpackExponent_packComponents, unpackMantissa_packComponents,
    unpackSign_packComponents, Sign.ofBitVec_toBitVec, if_neg he]
  split_ifs <;> trivial

/-- Packing may overflow, but it keeps the sign. -/
theorem nonneg_unpack_pack {u : UnpackedFloat} (h : Nonneg u) :
    Nonneg (unpack spec (pack spec u)) := by
  cases u with
  | infinity s => rwa [pack, unpack_packedInfinity]
  | notANumber => exact h.elim
  | zero s => rw [pack, unpack_packedZero]; trivial
  | finite s m e hm =>
    obtain rfl : s = .positive := h
    simp only [pack]
    split_ifs with hbig hnormal
    · rw [unpack_packedInfinity]
      rfl
    · exact nonneg_unpack_packComponents (exponent_ne (not_le.mp hbig)) _
    · exact nonneg_unpack_packComponents zero_ne_exponent _

theorem zero_le_iff {s : Sign} {u : UnpackedFloat} :
    (UnpackedFloat.zero s).le u = true ↔ Nonneg u := by
  cases u with
  | infinity t => cases t <;> simp [UnpackedFloat.le, UnpackedFloat.compare, Nonneg]
  | notANumber => simp [UnpackedFloat.le, UnpackedFloat.compare, Nonneg]
  | zero t => simp [UnpackedFloat.le, UnpackedFloat.compare, Nonneg]
  | finite t m e hm => cases t <;> simp [UnpackedFloat.le, UnpackedFloat.compare, Nonneg]

theorem nonneg_of_not_lt {s : Sign} {u : UnpackedFloat} (hlt : u.lt (.zero s) = false)
    (hnan : u.isNaN = false) : Nonneg u := by
  cases u with
  | infinity t => cases t <;> simp_all [UnpackedFloat.lt, UnpackedFloat.compare, Nonneg]
  | notANumber => simp [UnpackedFloat.isNaN] at hnan
  | zero t => trivial
  | finite t m e hm => cases t <;> simp_all [UnpackedFloat.lt, UnpackedFloat.compare, Nonneg]

theorem not_lt_of_nonneg {s : Sign} {u : UnpackedFloat} (h : Nonneg u) :
    u.lt (.zero s) = false := by
  cases u with
  | infinity t =>
    obtain rfl : t = .positive := h
    rfl
  | notANumber => exact h.elim
  | zero t => rfl
  | finite t m e hm =>
    obtain rfl : t = .positive := h
    rfl

theorem eq_zero {s : Sign} {u : UnpackedFloat} (h : Nonneg u) (hle : u.le (.zero s) = true) :
    ∃ t, u = .zero t := by
  cases u with
  | infinity t =>
    obtain rfl : t = .positive := h
    cases hle
  | notANumber => exact h.elim
  | zero t => exact ⟨t, rfl⟩
  | finite t m e hm =>
    obtain rfl : t = .positive := h
    cases hle

theorem nonneg_roundWithAccuracy (m : ℕ) (e : ℤ) (a : Accuracy) :
    Nonneg (roundWithAccuracy spec .positive m e a) := by
  unfold roundWithAccuracy
  dsimp only
  split_ifs <;> trivial

theorem nonneg_round (m : ℕ) (e : ℤ) : Nonneg (UnpackedFloat.round spec .positive m e) := by
  unfold UnpackedFloat.round
  exact nonneg_roundWithAccuracy _ _ _

theorem nonneg_normalize {m : ℤ} (hm : 0 ≤ m) (e : ℤ) :
    Nonneg (UnpackedFloat.normalize spec m e .positive) := by
  unfold UnpackedFloat.normalize
  split
  · next h =>
    rw [Int.compare_eq_lt] at h
    omega
  · trivial
  · exact nonneg_round _ _

theorem nonneg_add {u v : UnpackedFloat} (hu : Nonneg u) (hv : Nonneg v) :
    Nonneg (add spec u v) := by
  cases u with
  | infinity s =>
    obtain rfl : s = .positive := hu
    cases v with
    | infinity t =>
      obtain rfl : t = .positive := hv
      rfl
    | notANumber => exact hv.elim
    | zero t => rfl
    | finite t m e hm => rfl
  | notANumber => exact hu.elim
  | zero s =>
    cases v with
    | infinity t => exact hv
    | notANumber => exact hv.elim
    | zero t => cases s <;> cases t <;> trivial
    | finite t m e hm => exact hv
  | finite s m e hm =>
    obtain rfl : s = .positive := hu
    cases v with
    | infinity t => exact hv
    | notANumber => exact hv.elim
    | zero t => rfl
    | finite t n d hn =>
      obtain rfl : t = .positive := hv
      exact nonneg_normalize (Int.add_nonneg (Int.natCast_nonneg _) (Int.natCast_nonneg _)) _

theorem nonneg_mul_self {u : UnpackedFloat} (h : u.isNaN = false) : Nonneg (mul spec u u) := by
  cases u with
  | infinity s => cases s <;> rfl
  | notANumber => cases h
  | zero s => trivial
  | finite s m e hm => cases s <;> exact nonneg_roundWithAccuracy _ _ _

theorem nonneg_sqrt {u : UnpackedFloat} (h : Nonneg u) : Nonneg (sqrt spec u) := by
  cases u with
  | infinity s =>
    obtain rfl : s = .positive := h
    rfl
  | notANumber => exact h.elim
  | zero s => trivial
  | finite s m e hm =>
    obtain rfl : s = .positive := h
    exact nonneg_roundWithAccuracy _ _ _

theorem eq_infinity {u : UnpackedFloat} (h : Nonneg u) (hfinite : u.isFinite = false) :
    u = .infinity .positive := by
  cases u with
  | infinity s => exact congrArg _ h
  | notANumber => exact h.elim
  | zero s => cases hfinite
  | finite s m e hm => cases hfinite

theorem infinity_add {u : UnpackedFloat} (h : Nonneg u) :
    add spec (.infinity .positive) u = .infinity .positive := by
  cases u with
  | infinity s =>
    obtain rfl : s = .positive := h
    rfl
  | notANumber => exact h.elim
  | zero s => rfl
  | finite s m e hm => rfl

theorem add_infinity {u : UnpackedFloat} (h : Nonneg u) :
    add spec u (.infinity .positive) = .infinity .positive := by
  cases u with
  | infinity s =>
    obtain rfl : s = .positive := h
    rfl
  | notANumber => exact h.elim
  | zero s => rfl
  | finite s m e hm => rfl

end Unpacked

/-- Scalars that are the numbers of a binary format: every operation is that of the unpacked
numbers, packed again. -/
class Floating (T : Type) [Scalar T] where
  spec : Format
  unpack : T → UnpackedFloat
  pack : UnpackedFloat → T
  unpack_pack : ∀ u, unpack (pack u) = UnpackedFloat.unpack spec (UnpackedFloat.pack spec u)
  zero_eq : (0 : T) = pack (.zero .positive)
  add_eq : ∀ a b : T, a + b = pack (add spec (unpack a) (unpack b))
  mul_eq : ∀ a b : T, a * b = pack (mul spec (unpack a) (unpack b))
  sqrt_eq : ∀ a : T, Scalar.sqrt a = pack (sqrt spec (unpack a))
  lt_iff : ∀ a b : T, a < b ↔ (unpack a).lt (unpack b) = true
  le_iff : ∀ a b : T, a ≤ b ↔ (unpack a).le (unpack b) = true
  isNaN_eq : ∀ a : T, Scalar.isNaN a = (unpack a).isNaN
  isFinite_eq : ∀ a : T, Scalar.isFinite a = (unpack a).isFinite

instance : Floating Float where
  spec := .binary64
  unpack a := a.toModel.unpack
  pack u := ⟨Float.Model.pack u⟩
  unpack_pack _ := rfl
  zero_eq := rfl
  add_eq _ _ := rfl
  mul_eq _ _ := rfl
  sqrt_eq _ := rfl
  lt_iff _ _ := decide_eq_true_iff
  le_iff _ _ := decide_eq_true_iff
  isNaN_eq _ := rfl
  isFinite_eq _ := rfl

instance : Floating Float32 where
  spec := .binary32
  unpack a := a.toModel.unpack
  pack u := ⟨Float32.Model.pack u⟩
  unpack_pack _ := rfl
  zero_eq := rfl
  add_eq _ _ := rfl
  mul_eq _ _ := rfl
  sqrt_eq _ := rfl
  lt_iff _ _ := decide_eq_true_iff
  le_iff _ _ := decide_eq_true_iff
  isNaN_eq _ := rfl
  isFinite_eq _ := rfl

namespace Floating

variable {T : Type} [Scalar T] [Floating T] {a b : T}

theorem unpack_zero : unpack (0 : T) = .zero .positive := by
  rw [zero_eq, unpack_pack]
  exact unpack_packedZero

theorem nonneg_iff : 0 ≤ a ↔ Unpacked.Nonneg (unpack a) := by
  rw [le_iff, unpack_zero, Unpacked.zero_le_iff]

theorem nonneg_pack {u : UnpackedFloat} (h : Unpacked.Nonneg u) : (0 : T) ≤ pack u := by
  rw [nonneg_iff, unpack_pack]
  exact Unpacked.nonneg_unpack_pack h

theorem zero_nonneg : (0 : T) ≤ 0 := by
  rw [nonneg_iff, unpack_zero]
  trivial

theorem nonneg_of_not_lt (hlt : ¬ a < 0) (hnan : Scalar.isNaN a = false) : 0 ≤ a := by
  rw [lt_iff, unpack_zero, Bool.not_eq_true] at hlt
  rw [isNaN_eq] at hnan
  exact nonneg_iff.mpr (Unpacked.nonneg_of_not_lt hlt hnan)

theorem not_lt_of_nonneg (h : 0 ≤ a) : ¬ a < 0 := by
  rw [lt_iff, unpack_zero, Unpacked.not_lt_of_nonneg (nonneg_iff.mp h)]
  exact Bool.false_ne_true

theorem isNaN_of_nonneg (h : 0 ≤ a) : Scalar.isNaN a = false := by
  rw [nonneg_iff] at h
  rw [isNaN_eq]
  cases hu : unpack a with
  | notANumber => simp [hu, Unpacked.Nonneg] at h
  | _ => rfl

theorem add_nonneg (ha : 0 ≤ a) (hb : 0 ≤ b) : 0 ≤ a + b := by
  rw [add_eq]
  exact nonneg_pack (Unpacked.nonneg_add (nonneg_iff.mp ha) (nonneg_iff.mp hb))

theorem mul_self_nonneg (h : Scalar.isNaN a = false) : 0 ≤ a * a := by
  rw [mul_eq]
  exact nonneg_pack (Unpacked.nonneg_mul_self (isNaN_eq a ▸ h))

theorem sqrt_nonneg (h : 0 ≤ a) : 0 ≤ Scalar.sqrt a := by
  rw [sqrt_eq]
  exact nonneg_pack (Unpacked.nonneg_sqrt (nonneg_iff.mp h))

theorem zero_add_zero : (0 : T) + 0 = 0 := by
  rw [add_eq, unpack_zero, zero_eq]
  rfl

theorem sqrt_zero : Scalar.sqrt (0 : T) = 0 := by
  rw [sqrt_eq, unpack_zero, zero_eq]
  rfl

/-- The square of zero has no sign. -/
theorem mul_self_of_zero (h : 0 ≤ a) (hle : a ≤ 0) : a * a = 0 := by
  rw [nonneg_iff] at h
  rw [le_iff, unpack_zero] at hle
  obtain ⟨s, hs⟩ := Unpacked.eq_zero h hle
  rw [mul_eq, zero_eq, hs]
  cases s <;> rfl

/-- The infinity above zero. -/
def IsInfinity (a : T) : Prop := 0 ≤ a ∧ Scalar.isFinite a = false

theorem isInfinity_iff : IsInfinity a ↔ unpack a = .infinity .positive := by
  rw [IsInfinity, nonneg_iff, isFinite_eq]
  constructor
  · rintro ⟨h, hfinite⟩
    exact Unpacked.eq_infinity h hfinite
  · intro h
    rw [h]
    exact ⟨rfl, rfl⟩

theorem isInfinity_pack : IsInfinity (pack (.infinity .positive) : T) := by
  rw [isInfinity_iff, unpack_pack]
  exact Unpacked.unpack_packedInfinity _

theorem IsInfinity.add_right (h : IsInfinity a) (hb : 0 ≤ b) : IsInfinity (a + b) := by
  rw [add_eq, isInfinity_iff.mp h, Unpacked.infinity_add (nonneg_iff.mp hb)]
  exact isInfinity_pack

theorem IsInfinity.add_left (h : IsInfinity b) (ha : 0 ≤ a) : IsInfinity (a + b) := by
  rw [add_eq, isInfinity_iff.mp h, Unpacked.add_infinity (nonneg_iff.mp ha)]
  exact isInfinity_pack

theorem IsInfinity.mul_self (h : IsInfinity a) : IsInfinity (a * a) := by
  rw [mul_eq, isInfinity_iff.mp h]
  exact isInfinity_pack

theorem IsInfinity.sqrt (h : IsInfinity a) : IsInfinity (Scalar.sqrt a) := by
  rw [sqrt_eq, isInfinity_iff.mp h]
  exact isInfinity_pack

end Floating

end PrimalDual
