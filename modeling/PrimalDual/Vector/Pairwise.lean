/-!
# Pairwise accumulation

A long list is summed by halves, which keeps rounding errors small. Over an addition that
associates, the order does not show: `total_eq_foldl`. The halves need not be cut out of the list:
`accumulate` goes by their places, and makes a summand of each entry as it comes to it.
-/
namespace PrimalDual.Pairwise

variable {α : Type}

/-- Shorter runs are added from left to right. -/
def leafLength : Nat := 16

def total (add : α → α → α) (zero : α) (xs : List α) : α :=
  if xs.length < leafLength then xs.foldl add zero
  else add (total add zero (xs.take (xs.length / 2))) (total add zero (xs.drop (xs.length / 2)))
termination_by xs.length
decreasing_by all_goals (simp_all [leafLength]; omega)

theorem foldl_eq_add {add : α → α → α} {zero : α}
    (assoc : ∀ a b c, add (add a b) c = add a (add b c)) (zero_add : ∀ a, add zero a = a)
    (add_zero : ∀ a, add a zero = a) (a : α) (xs : List α) :
    xs.foldl add a = add a (xs.foldl add zero) := by
  induction xs generalizing a with
  | nil => simp [add_zero]
  | cons x xs ih => rw [List.foldl_cons, List.foldl_cons, ih, zero_add, ih x, assoc]

/-- No entry is lost, repeated or moved. -/
theorem total_eq_foldl {add : α → α → α} {zero : α}
    (assoc : ∀ a b c, add (add a b) c = add a (add b c)) (zero_add : ∀ a, add zero a = a)
    (add_zero : ∀ a, add a zero = a) (xs : List α) :
    total add zero xs = xs.foldl add zero := by
  fun_induction total add zero xs with
  | case1 xs h => rfl
  | case2 xs h ih₁ ih₂ =>
    rw [ih₁, ih₂, ← foldl_eq_add assoc zero_add add_zero, ← List.foldl_append,
      List.take_append_drop]

section Places

variable {m : Type → Type} [Monad m] {ι : Type} (visit : ι → m α) (add : α → α → α) (zero : α)
  (xs : List ι)

/-- The total over `count` entries from the place `start` on. -/
def accumulateFrom (start count : Nat) : m α :=
  if count < leafLength then
    ((xs.drop start).take count).foldlM (fun sum x => return add sum (← visit x)) zero
  else do
    let left ← accumulateFrom start (count / 2)
    let right ← accumulateFrom (start + count / 2) (count - count / 2)
    return add left right
termination_by count
decreasing_by all_goals (simp_all [leafLength]; omega)

def accumulate : m α :=
  if xs.length = 0 then return zero else accumulateFrom visit add zero xs 0 xs.length

end Places

/-- The total of what an operation makes of the entries. -/
def accumulated {ι : Type} (op : ι → α) (add : α → α → α) (zero : α) (xs : List ι) : α :=
  Id.run (accumulate (fun x => pure (op x)) add zero xs)

end PrimalDual.Pairwise
