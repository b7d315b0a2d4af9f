import PrimalDual.Proofs.Floating

/-!
# The order of binary floating-point numbers

But for NaN, numbers are ordered by their sign, and those of one sign by exponent and mantissa. The
comparisons of a format are those of this order, in which the two zeros have one place.
-/
namespace PrimalDual
open Float.Model (UnpackedFloat)

namespace Unpacked

/-- The place of a number in the order. -/
def rank : UnpackedFloat → ℤ ×ₗ ℤ ×ₗ ℤ
  | .infinity .negative => toLex (-2, toLex (0, 0))
  | .finite .negative m e _ => toLex (-1, toLex (-e, -m))
  | .zero _ => toLex (0, toLex (0, 0))
  | .finite .positive m e _ => toLex (1, toLex (e, m))
  | .infinity .positive => toLex (2, toLex (0, 0))
  | .notANumber => toLex (3, toLex (0, 0))

theorem compare_natCast (m n : ℕ) : compare (m : ℤ) n = compare m n := by
  rcases lt_trichotomy m n with h | rfl | h
  · rw [compare_lt_iff_lt.mpr h, compare_lt_iff_lt.mpr (Int.ofNat_lt.mpr h)]
  · simp
  · rw [compare_gt_iff_gt.mpr h, compare_gt_iff_gt.mpr (Int.ofNat_lt.mpr h)]

theorem compare_neg_neg (a b : ℤ) : compare (-a) (-b) = (compare a b).swap := by
  rw [← Std.OrientedCmp.eq_swap]
  rcases lt_trichotomy a b with h | rfl | h
  · rw [compare_gt_iff_gt.mpr h, compare_gt_iff_gt.mpr (neg_lt_neg h)]
  · simp
  · rw [compare_lt_iff_lt.mpr h, compare_lt_iff_lt.mpr (neg_lt_neg h)]

theorem compare_eq_rank {u v : UnpackedFloat} (hu : u.isNaN = false) (hv : v.isNaN = false) :
    u.compare v = some (compare (rank u) (rank v)) := by
  cases u with
  | notANumber => cases hu
  | infinity s =>
    cases v with
    | notANumber => cases hv
    | infinity t => cases s <;> cases t <;> rfl
    | zero t => cases s <;> rfl
    | finite t n d hn => cases s <;> cases t <;> rfl
  | zero s =>
    cases v with
    | notANumber => cases hv
    | infinity t => cases t <;> rfl
    | zero t => rfl
    | finite t n d hn => cases t <;> rfl
  | finite s m e hm =>
    cases v with
    | notANumber => cases hv
    | infinity t => cases s <;> cases t <;> rfl
    | zero t => cases s <;> rfl
    | finite t n d hn =>
      -- Only numbers of one sign are compared by their magnitudes.
      cases s <;> cases t
      · simp [UnpackedFloat.compare, rank, Prod.Lex.compare_def, compareLex, compareOn,
          compare_natCast, compare_neg_neg, Ordering.swap_then]
      · rfl
      · rfl
      · simp [UnpackedFloat.compare, rank, Prod.Lex.compare_def, compareLex, compareOn,
          compare_natCast]

end Unpacked

namespace Floating

variable {T : Type} [Scalar T] [Floating T] {a b c : T}

theorem isNaN_of_isFinite (h : Scalar.isFinite a = true) : Scalar.isNaN a = false := by
  rw [isFinite_eq] at h
  rw [isNaN_eq]
  cases hu : unpack a with
  | notANumber =>
    rw [hu] at h
    cases h
  | _ => rfl

theorem lt_iff_rank (ha : Scalar.isNaN a = false) (hb : Scalar.isNaN b = false) :
    a < b ↔ Unpacked.rank (unpack a) < Unpacked.rank (unpack b) := by
  rw [isNaN_eq] at ha hb
  rw [lt_iff, UnpackedFloat.lt, Unpacked.compare_eq_rank ha hb]
  simp [compare_lt_iff_lt]

theorem le_iff_rank (ha : Scalar.isNaN a = false) (hb : Scalar.isNaN b = false) :
    a ≤ b ↔ Unpacked.rank (unpack a) ≤ Unpacked.rank (unpack b) := by
  rw [isNaN_eq] at ha hb
  rw [le_iff, UnpackedFloat.le, Unpacked.compare_eq_rank ha hb]
  exact Ordering.isLE_iff_ne_gt.trans compare_le_iff_le

end Floating

end PrimalDual
