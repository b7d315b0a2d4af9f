import PrimalDual.Proofs.Floating.Order
import PrimalDual.Proofs.TrustRegion.Places

/-!
# The search among the breakpoints is safe

Every pass of the search divides its window inside, finds the entries that it asks for and leaves a
smaller window, whichever way its comparison goes. Nothing is assumed of the arithmetic, so that
this holds beside NaN and infinities and whatever is rounded. Only for the sort it matters that
finite numbers are in order.
-/
namespace PrimalDual.TrustRegion

variable {T : Type} {b : Breakpoints T} {radiusSquared : T} {k n : ℕ} {start w : Window T}

namespace Window

/-- The window has its ends in order, and they are at most `k`. -/
structure Within (w : Window T) (k : ℕ) : Prop where
  low_le : w.low ≤ w.high
  high_le : w.high ≤ k

/-- There is a place before the middle of two ends that differ. -/
theorem middle_eq (h : w.low < w.high) : w.middle = .ok ((w.low + w.high + 1) / 2 - 1) := by
  have hne : (w.low + w.high + 1) / 2 ≠ 0 := by omega
  rw [middle, Counter.previous, if_neg hne]

variable [Scalar T]

/-- What a pass can do, and that the search goes on from there. -/
theorem narrow_cases (hb : b.Covers k) (hw : w.Within k) (h : w.low < w.high)
    (radiusSquared : T) : ∃ mid next, w.middle = .ok mid ∧ w.low ≤ mid ∧ mid < w.high ∧
      w.narrow b radiusSquared = .ok next ∧
      (next.low = mid + 1 ∧ next.high = w.high ∨ next.low = w.low ∧ next.high = mid) ∧
      bisect b radiusSquared w.profile w.low w.high =
        bisect b radiusSquared next.profile next.low next.high := by
  obtain ⟨mid, hmid⟩ : ∃ mid, mid = (w.low + w.high + 1) / 2 - 1 := ⟨_, rfl⟩
  have hmiddle := middle_eq h
  rw [← hmid] at hmiddle
  have hlow : w.low ≤ mid := by omega
  have hhigh : mid < w.high := by omega
  have hk := hw.high_le
  have hparameter : entryAt b.parameters mid = .ok (b.parameters.getD mid 0) :=
    entryAt_eq_getD (by rw [hb.parameters]; omega)
  have hreach (i : ℕ) (hi : i ≤ k) : entryAt b.reaches i = .ok (b.reaches.getD i 0) :=
    entryAt_eq_getD (by rw [hb.reaches]; omega)
  have hslope (i : ℕ) (hi : i ≤ k) : entryAt b.slopes i = .ok (b.slopes.getD i 0) :=
    entryAt_eq_getD (by rw [hb.slopes]; omega)
  have hnext : mid + 1 ≤ k := by omega
  rw [bisect, dif_pos h, narrow]
  simp only [← hmid, hmiddle, hparameter, hreach _ hnext, hreach _ (hw.low_le.trans hk),
    hslope _ hk, hslope _ hnext, hslope _ (hhigh.le.trans hk), ok_bind, pure_eq_ok]
  split
  · exact ⟨mid, _, rfl, hlow, hhigh, rfl, .inl ⟨rfl, rfl⟩, rfl⟩
  · exact ⟨mid, _, rfl, hlow, hhigh, rfl, .inr ⟨rfl, rfl⟩, rfl⟩

/-- A pass keeps to the breakpoints and leaves fewer of them. -/
theorem exists_narrow (hb : b.Covers k) (hw : w.Within k) (h : w.low < w.high)
    (radiusSquared : T) : ∃ next, w.narrow b radiusSquared = .ok next ∧ next.Within k ∧
      next.high - next.low < w.high - w.low ∧
      bisect b radiusSquared w.profile w.low w.high =
        bisect b radiusSquared next.profile next.low next.high := by
  obtain ⟨mid, next, -, hlow, hhigh, hnarrow, hside, hbisect⟩ := narrow_cases hb hw h radiusSquared
  have hk := hw.high_le
  exact ⟨next, hnarrow, ⟨by omega, by omega⟩, by omega, hbisect⟩

end Window

variable [Scalar T]

/-- The search comes from one window to another in `n` passes. -/
inductive Passes (b : Breakpoints T) (radiusSquared : T) : ℕ → Window T → Window T → Prop
  | refl (w : Window T) : Passes b radiusSquared 0 w w
  | tail {n : ℕ} {start w next : Window T} (h : Passes b radiusSquared n start w)
      (hlt : w.low < w.high) (hnarrow : w.narrow b radiusSquared = .ok next) :
      Passes b radiusSquared (n + 1) start next

/-- Every pass costs the window a breakpoint. -/
theorem Passes.within (hb : b.Covers k) (hstart : start.Within k)
    (h : Passes b radiusSquared n start w) :
    w.Within k ∧ n + (w.high - w.low) ≤ start.high - start.low := by
  induction h with
  | refl => exact ⟨hstart, (Nat.zero_add _).le⟩
  | tail _ hlt hnarrow ih =>
    obtain ⟨hw, hpasses⟩ := ih hstart
    obtain ⟨next, hnext, hwithin, hsmaller, -⟩ := Window.exists_narrow hb hw hlt radiusSquared
    obtain rfl := ok_unique hnarrow hnext
    exact ⟨hwithin, by omega⟩

/-- From every window the search goes on until nothing is left. -/
theorem Passes.exists_end (hb : b.Covers k) (hw : w.Within k)
    (h : Passes b radiusSquared n start w) :
    ∃ m last, Passes b radiusSquared m start last ∧ last.low = last.high ∧
      bisect b radiusSquared w.profile w.low w.high = .ok last.profile := by
  induction hsize : w.high - w.low using Nat.strong_induction_on generalizing n w with
  | h size ih =>
    by_cases hlt : w.low < w.high
    · obtain ⟨next, hnarrow, hwithin, hsmaller, hbisect⟩ :=
        Window.exists_narrow hb hw hlt radiusSquared
      -- The recursion answers the same from the window that the pass leaves.
      rw [hbisect]
      exact ih _ (by omega) hwithin (h.tail hlt hnarrow) rfl
    · refine ⟨n, w, h, le_antisymm hw.low_le (not_lt.mp hlt), ?_⟩
      rw [bisect, dif_neg hlt]

/-- A search among `k` breakpoints that keeps to them and comes to an end. -/
structure SafeSearch (b : Breakpoints T) (radiusSquared : T) (k : ℕ) (start : Window T) :
    Prop where
  /-- The ends stay in order and at most `k`, and `k` bounds the number of passes. -/
  within : ∀ n w, Passes b radiusSquared n start w → w.Within k ∧ n + (w.high - w.low) ≤ k
  /-- As long as breakpoints are left, one of them is in the middle, the pass finds all entries, and
  what it leaves is to one side of the middle. -/
  pass : ∀ n w, Passes b radiusSquared n start w → w.low < w.high →
    w.low + w.high + 1 ≤ 2 * k ∧ ∃ mid next, w.middle = .ok mid ∧ w.low ≤ mid ∧ mid < w.high ∧
      w.narrow b radiusSquared = .ok next ∧
      (next.low = mid + 1 ∧ next.high = w.high ∨ next.low = w.low ∧ next.high = mid) ∧
      next.high - next.low < w.high - w.low
  /-- At last none is left, which is when the search answers. -/
  ends : ∃ n last, n ≤ k ∧ Passes b radiusSquared n start last ∧ last.low = last.high ∧
    bisect b radiusSquared start.profile start.low start.high = .ok last.profile

theorem safeSearch (hb : b.Covers k) (hstart : start.Within k) (radiusSquared : T) :
    SafeSearch b radiusSquared k start where
  within n w h := by
    obtain ⟨hw, hpasses⟩ := h.within hb hstart
    have hk := hstart.high_le
    exact ⟨hw, by omega⟩
  pass n w h hlt := by
    have hw := (h.within hb hstart).1
    have hk := hw.high_le
    obtain ⟨mid, next, hmiddle, hlow, hhigh, hnarrow, hside, -⟩ :=
      Window.narrow_cases hb hw hlt radiusSquared
    exact ⟨by omega, mid, next, hmiddle, hlow, hhigh, hnarrow, hside, by omega⟩
  ends := by
    have hrefl : Passes b radiusSquared 0 start start := .refl start
    obtain ⟨n, last, h, hlast, hbisect⟩ := hrefl.exists_end hb hstart
    have hpasses := (h.within hb hstart).2
    have hk := hstart.high_le
    exact ⟨n, last, by omega, h, hlast, hbisect⟩

section Order

variable [Floating T] {a c : T}

theorem comparison_eq_compare (ha : Scalar.isFinite a = true) (hc : Scalar.isFinite c = true) :
    comparison a c =
      compare (Unpacked.rank (Floating.unpack a)) (Unpacked.rank (Floating.unpack c)) := by
  have hlt := Floating.lt_iff_rank (Floating.isNaN_of_isFinite ha) (Floating.isNaN_of_isFinite hc)
  have hgt := Floating.lt_iff_rank (Floating.isNaN_of_isFinite hc) (Floating.isNaN_of_isFinite ha)
  unfold comparison
  split_ifs with h₁ h₂
  · exact (compare_gt_iff_gt.mpr (hgt.mp h₁)).symm
  · exact (compare_lt_iff_lt.mpr (hlt.mp h₂)).symm
  · refine (compare_eq_iff_eq.mpr ?_).symm
    exact le_antisymm (not_lt.mp (hgt.not.mp h₁)) (not_lt.mp (hlt.not.mp h₂))

/-- Finite numbers may be sorted by their comparison. -/
theorem transCmp_comparison :
    Std.TransCmp fun a c : {a : T // Scalar.isFinite a = true} => comparison a.1 c.1 := by
  have hrank : (fun a c : {a : T // Scalar.isFinite a = true} => comparison a.1 c.1) =
      compareOn fun a => Unpacked.rank (Floating.unpack a.1) := by
    funext a c
    exact comparison_eq_compare a.2 c.2
  rw [hrank]
  infer_instance

end Order

/-- Whatever the arithmetic and the lengths are, the projection comes to an answer. It is the one
along the places of the coordinates that stop, in the order of their breakpoints, which are finite
and may be sorted in every floating-point format. In any order the search among them is safe. -/
theorem project_safe (g : List T) (l : List (LowerBound T)) (z : List T) (r : T) :
    (∃ answer, project g l z r = .ok answer) ∧
      (∃ places, sortPlaces (meetings g l z) (stoppingPlaces g l z) = .ok places ∧
        (∀ i ∈ places, i < (meetings g l z).length) ∧
        project g l z r = projectAlong places g l z r) ∧
      ((∀ i ∈ stoppingPlaces g l z,
          ∃ key, entryAt (meetings g l z) i = .ok key ∧ Scalar.isFinite key = true) ∧
        ∀ [Floating T],
          Std.TransCmp fun a c : {a : T // Scalar.isFinite a = true} => comparison a.1 c.1) ∧
      ∀ places : List ℕ, (∀ i ∈ places, i < (meetings g l z).length) →
        (∃ answer, projectAlong places g l z r = .ok answer) ∧
          ∃ b, tabulate g l z places = .ok b ∧ b.Covers places.length ∧
            ∀ (radiusSquared : T) (p : Profile T),
              SafeSearch b radiusSquared places.length ⟨0, places.length, p⟩ := by
  refine ⟨?_, ⟨_, sortPlaces_stopping, lt_of_mem_sortedStopping,
    (projectAlong_sortedStopping r).symm⟩, ⟨fun i hi => exists_key hi, ?_⟩,
    fun places hplaces => ?_⟩
  · rw [← projectAlong_sortedStopping]
    exact exists_projectAlong lt_of_mem_sortedStopping r
  · intro hfloating
    exact transCmp_comparison
  · obtain ⟨b, htabulate, hcovers⟩ := exists_tabulate hplaces
    refine ⟨exists_projectAlong hplaces r, b, htabulate, hcovers, fun radiusSquared p => ?_⟩
    exact safeSearch hcovers ⟨Nat.zero_le _, le_rfl⟩ radiusSquared

/-- With a gradient and a bound that are not numbers and an anchor at infinity. Only the last of the
coordinates stops, but the search may be led along others too. -/
theorem project_safe_nan :
    let g : List Float := [Scalar.nan, 1, 2, 2]
    let l : List (LowerBound Float) := [.atLeast 0, .atLeast Scalar.nan, .unbounded, .atLeast 0]
    let z : List Float := [0 - Scalar.negInfinity, 1, 1, 1]
    (∀ i ∈ [3, 0, 1], i < (meetings g l z).length) ∧
      (∃ answer, project g l z 1 = .ok answer) ∧
      ∃ b, tabulate g l z [3, 0, 1] = .ok b ∧ b.Covers 3 ∧
        SafeSearch b Scalar.nan 3 ⟨0, 3, ⟨0, 0⟩⟩ := by
  intro g l z
  have hplaces : ∀ i ∈ [3, 0, 1], i < (meetings g l z).length := by
    have hlength : (meetings g l z).length = 4 := rfl
    simp [hlength]
  obtain ⟨hproject, -, -, hsafe⟩ := project_safe g l z 1
  obtain ⟨-, b, htabulate, hcovers, hsearch⟩ := hsafe _ hplaces
  exact ⟨hplaces, hproject, b, htabulate, hcovers, hsearch _ _⟩

end PrimalDual.TrustRegion
