import Mathlib.Algebra.Order.Group.Multiset
import PrimalDual.Timers

/-!
# Counts of timers

Every operation of a program that keeps time is a bracket: the timers that it starts are stopped in
the end, in the opposite order. A stretch of such operations leaves the stack as it was and is
described by how often it started each timer.
-/
namespace PrimalDual.Timers

variable {t t' t'' : Timers} {keys keys' : Multiset String}

theorem lookup_modify (key : String) (f : Timer → Timer) (timers : List (String × Timer))
    (k : String) : (modify key f timers).lookup k =
      if k = key then some (f ((timers.lookup key).getD {})) else timers.lookup k := by
  induction timers with
  | nil =>
    by_cases h : k = key
    · simp [modify, h]
    · simp [modify, h, List.lookup_cons, beq_eq_false_iff_ne.mpr h]
  | cons entry timers ih =>
    obtain ⟨key', timer⟩ := entry
    by_cases hkey : key' = key
    · subst hkey
      by_cases h : k = key'
      · simp [modify, h]
      · simp [modify, h, List.lookup_cons, beq_eq_false_iff_ne.mpr h]
    · by_cases h : k = key'
      · subst h
        simp [modify, hkey]
      · simp only [modify, if_neg hkey, List.lookup_cons, ih, beq_eq_false_iff_ne.mpr h,
          beq_eq_false_iff_ne.mpr (Ne.symm hkey)]

theorem calls_modify (now : ℕ) (stack : List String) (key : String) (f : Timer → Timer)
    (k : String) : ({ now, stack, timers := modify key f t.timers } : Timers).calls k =
      if k = key then (f ((t.get? key).getD {})).calls else t.calls k := by
  unfold calls get?
  rw [lookup_modify]
  split <;> rfl

/-- Timers that change apart from their counts keep all counts. -/
theorem calls_map (now : ℕ) (stack : List String) {f : Timer → Timer}
    (hf : ∀ timer, (f timer).calls = timer.calls) (k : String) :
    ({ now, stack, timers := t.timers.map fun (key, timer) => (key, f timer) } : Timers).calls k =
      t.calls k := by
  have hlookup : (t.timers.map fun (key, timer) => (key, f timer)).lookup k =
      (t.timers.lookup k).map f := by
    induction t.timers with
    | nil => rfl
    | cons entry timers ih =>
      obtain ⟨key, timer⟩ := entry
      simp only [List.map_cons, List.lookup_cons, ih]
      split <;> rfl
  unfold calls get?
  rw [hlookup]
  cases t.timers.lookup k with
  | none => rfl
  | some timer => simp [hf]

theorem accrue_calls (now : ℕ) (timer : Timer) : (timer.accrue now).calls = timer.calls := by
  unfold Timer.accrue
  split <;> rfl

theorem calls_start (t : Timers) (key k : String) :
    (t.start key).calls k = t.calls k + if k = key then 1 else 0 := by
  refine (calls_modify _ _ key _ k).trans ?_
  split
  · next h =>
    subst h
    simp only [Timer.start, calls]
    cases t.get? k <;> rfl
  · rfl

theorem calls_stop (t : Timers) (k : String) : t.stop.calls k = t.calls k := by
  unfold stop
  split
  · rfl
  · next key stack _ =>
    refine (calls_modify _ _ key _ k).trans ?_
    split
    · next h =>
      subst h
      simp only [Timer.stop, accrue_calls, calls]
      cases t.get? k <;> rfl
    · rfl

theorem calls_suspend (t : Timers) (k : String) : t.suspend.calls k = t.calls k :=
  calls_map _ _ (accrue_calls _) k

theorem calls_resume (t : Timers) (k : String) : t.resume.calls k = t.calls k :=
  calls_map _ _ (f := Timer.resume t.now) (fun _ => rfl) k

theorem calls_resetTimer (t : Timers) (key k : String) :
    (t.resetTimer key).calls k = if k = key then 0 else t.calls k :=
  calls_modify _ _ key _ k

/-- From `t` to `t'` the timers of these keys were started, each as often as it is listed, and all
of them were stopped. -/
structure Balanced (keys : Multiset String) (t t' : Timers) : Prop where
  stack : t'.stack = t.stack
  calls : ∀ k, t'.calls k = t.calls k + keys.count k

theorem Balanced.refl (t : Timers) : Balanced 0 t t := ⟨rfl, fun _ => by simp⟩

theorem Balanced.trans (h : Balanced keys t t') (h' : Balanced keys' t' t'') :
    Balanced (keys + keys') t t'' where
  stack := h'.stack.trans h.stack
  calls k := by rw [h'.calls, h.calls, Multiset.count_add, Nat.add_assoc]

/-- To stop the timer that was started last closes a bracket. -/
theorem Balanced.stop {key : String} (h : Balanced keys (t.start key) t') :
    Balanced (key ::ₘ keys) t t'.stop where
  stack := by
    have hstack : t'.stack = key :: t.stack := h.stack
    unfold Timers.stop
    rw [hstack]
  calls k := by
    rw [calls_stop, h.calls, calls_start, Multiset.count_cons]
    omega

theorem balanced_suspend_resume (t : Timers) : Balanced 0 t t.suspend.resume where
  stack := rfl
  calls k := by rw [calls_resume, calls_suspend, Multiset.count_zero, Nat.add_zero]

end PrimalDual.Timers
