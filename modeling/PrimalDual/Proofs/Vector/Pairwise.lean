import PrimalDual.Proofs.Exact

/-!
# Pairwise accumulation loses nothing

Whatever the visits of an accumulation do besides, they come in one pass from the first entry to the
last. The places are those of the halves of the list of summands, so that the result is its pairwise
total, and so are the reductions of vectors.
-/
namespace PrimalDual.Pairwise

variable {m : Type → Type} [Monad m] [LawfulMonad m] {ι α β : Type} {visit : ι → m α}
  {add : α → α → α} {zero : α}

/-- As many values come out of the visits as entries go in. -/
theorem mapM_bind_congr {xs : List ι} {f g : List α → m β}
    (h : ∀ ys, ys.length = xs.length → f ys = g ys) :
    xs.mapM visit >>= f = xs.mapM visit >>= g := by
  induction xs generalizing f g with
  | nil => simpa using h [] rfl
  | cons x xs ih =>
    simp only [List.mapM_cons, bind_assoc, pure_bind]
    refine bind_congr fun y => ih fun ys hys => ?_
    exact h (y :: ys) (congrArg Nat.succ hys)

theorem foldlM_visit (xs : List ι) (sum : α) :
    xs.foldlM (fun sum x => return add sum (← visit x)) sum =
      xs.mapM visit >>= fun ys => pure (ys.foldl add sum) := by
  induction xs generalizing sum with
  | nil => simp
  | cons x xs ih => simp only [List.foldlM_cons, List.mapM_cons, bind_assoc, pure_bind, ih,
      List.foldl_cons]

/-- Two halves are totalled on their own. -/
theorem total_append {ys zs : List α} (hlong : leafLength ≤ ys.length + zs.length)
    (hhalf : (ys.length + zs.length) / 2 = ys.length) :
    total add zero (ys ++ zs) = add (total add zero ys) (total add zero zs) := by
  rw [total, if_neg (by simpa using hlong), List.length_append, hhalf, List.take_left,
    List.drop_left]

theorem accumulateFrom_eq {xs : List ι} {start count : ℕ} (h : start + count ≤ xs.length) :
    accumulateFrom visit add zero xs start count =
      ((xs.drop start).take count).mapM visit >>= fun ys => pure (total add zero ys) := by
  fun_induction accumulateFrom visit add zero xs start count with
  | case1 start count hshort =>
    rw [foldlM_visit]
    refine mapM_bind_congr fun ys hys => ?_
    have hleaf : ys.length < leafLength := by
      rw [hys, List.length_take]
      exact (min_le_left _ _).trans_lt hshort
    rw [total, if_pos hleaf]
  | case2 start count hlong ihleft ihright =>
    have hsplit : (xs.drop start).take count = (xs.drop start).take (count / 2) ++
        (xs.drop (start + count / 2)).take (count - count / 2) := by
      rw [← List.drop_drop, ← List.take_add, Nat.add_sub_cancel' (Nat.div_le_self count 2)]
    rw [ihleft (by omega), ihright (by omega), hsplit, List.mapM_append]
    simp only [bind_assoc, pure_bind]
    refine mapM_bind_congr fun ys hys => mapM_bind_congr fun zs hzs => ?_
    rw [List.length_take, List.length_drop] at hys hzs
    rw [total_append (by omega) (by omega)]

/-- The entries are visited as in one pass from the first to the last. -/
theorem accumulate_eq (visit : ι → m α) (add : α → α → α) (zero : α) (xs : List ι) :
    accumulate visit add zero xs = xs.mapM visit >>= fun ys => pure (total add zero ys) := by
  unfold accumulate
  split
  · next hnil =>
    obtain rfl := List.length_eq_zero_iff.mp hnil
    have hleaf : ([] : List α).length < leafLength := Nat.zero_lt_succ 15
    rw [List.mapM_nil, pure_bind, total, if_pos hleaf, List.foldl_nil]
  · next hne =>
    rw [accumulateFrom_eq (by omega), List.drop_zero, List.take_length]

/-- An operation that notes the place of each entry it is given. -/
def noting (op : ι → α) (e : ι × ℕ) : StateM (List ℕ) α := do
  modify (· ++ [e.2])
  return op e.1

theorem mapM_noting (op : ι → α) (xs : List ι) (k : ℕ) (noted : List ℕ) :
    ((xs.zipIdx k).mapM (noting op)).run noted =
      (xs.map op, noted ++ List.range' k xs.length) := by
  induction xs generalizing k noted with
  | nil => simp; rfl
  | cons x xs ih =>
    have hvisit : (noting op (x, k)).run noted = (op x, noted ++ [k]) := rfl
    rw [List.zipIdx_cons, List.mapM_cons, StateT.run_bind, hvisit]
    change ((xs.zipIdx (k + 1)).mapM (noting op) >>= fun ys => pure (op x :: ys)).run
      (noted ++ [k]) = _
    rw [StateT.run_bind, ih, List.length_cons, List.range'_succ, List.append_assoc]
    rfl

/-- Without effects, the entries are halved as the summands would be. -/
theorem accumulated_eq_total (op : ι → α) (add : α → α → α) (zero : α) (xs : List ι) :
    accumulated op add zero xs = total add zero (xs.map op) := by
  rw [accumulated, accumulate_eq]
  simp

/-- Each place is visited once, and the places increase. -/
theorem accumulate_noting (op : ι → α) (add : α → α → α) (zero : α) (xs : List ι) :
    (accumulate (noting op) add zero xs.zipIdx).run [] =
      (accumulated op add zero xs, List.range xs.length) := by
  rw [accumulate_eq, StateT.run_bind, mapM_noting, List.nil_append, ← List.range_eq_range',
    accumulated_eq_total]
  rfl

theorem accumulated_eq_foldl (assoc : ∀ a b c, add (add a b) c = add a (add b c))
    (zero_add : ∀ a, add zero a = a) (add_zero : ∀ a, add a zero = a) (op : ι → α) (xs : List ι) :
    accumulated op add zero xs = xs.foldl (fun sum x => add sum (op x)) zero := by
  rw [accumulated_eq_total, total_eq_foldl assoc zero_add add_zero, List.foldl_map]

theorem accumulated_zip (op : α × α → β) (add : β → β → β) (zero : β) (x y : List α) :
    accumulated op add zero (x.zip y) = total add zero (List.zipWith (Function.curry op) x y) := by
  rw [accumulated_eq_total, List.map_zip_eq_zipWith]

end PrimalDual.Pairwise

namespace PrimalDual.Vector
open PrimalDual.Pairwise

section Scalars

variable {T : Type} [Scalar T] (x y : List T)

theorem sum_eq_accumulated : sum x = accumulated (fun a => a) (· + ·) 0 x := by
  rw [accumulated_eq_total, List.map_id']
  rfl

theorem inner_eq_accumulated :
    inner x y = accumulated (fun e => e.1 * e.2) (· + ·) 0 (x.zip y) := by
  rw [accumulated_zip]
  rfl

theorem distance_eq_accumulated : distance x y =
    Scalar.sqrt (accumulated (fun e => Scalar.square (e.1 - e.2)) (· + ·) 0 (x.zip y)) := by
  rw [accumulated_zip]
  rfl

theorem dot_eq_accumulated : dot x y = (sameLength x y).map fun _ =>
    accumulated (fun e => e.1 * e.2) (· + ·) 0 (x.zip y) := by
  rw [dot, ← inner_eq_accumulated]
  cases sameLength x y <;> rfl

theorem dist_eq_accumulated : dist x y = (sameLength x y).map fun _ =>
    Scalar.sqrt (accumulated (fun e => Scalar.square (e.1 - e.2)) (· + ·) 0 (x.zip y)) := by
  rw [dist, ← distance_eq_accumulated]
  cases sameLength x y <;> rfl

end Scalars

/-- An accumulation visits every place once, in order, and over an associative addition with a
neutral zero it is the sum from left to right. The reductions of vectors are accumulations, and so
they are the sums of exact arithmetic. -/
theorem reductions_spec :
    (∀ (ι α : Type) (op : ι → α) (add : α → α → α) (zero : α) (xs : List ι),
      (accumulate (noting op) add zero xs.zipIdx).run [] =
        (accumulated op add zero xs, List.range xs.length) ∧
      ((∀ a b c, add (add a b) c = add a (add b c)) → (∀ a, add zero a = a) →
        (∀ a, add a zero = a) →
        accumulated op add zero xs = xs.foldl (fun sum x => add sum (op x)) zero)) ∧
    (∀ (T : Type) [Scalar T] (x y : List T),
      sum x = accumulated (fun a => a) (· + ·) 0 x ∧
      sumOfSquares x = accumulated (fun e => e.1 * e.2) (· + ·) 0 (x.zip x) ∧
      dot x y = (sameLength x y).map
        (fun _ => accumulated (fun e => e.1 * e.2) (· + ·) 0 (x.zip y)) ∧
      dist x y = (sameLength x y).map
        (fun _ => Scalar.sqrt
          (accumulated (fun e => Scalar.square (e.1 - e.2)) (· + ·) 0 (x.zip y)))) ∧
    ∀ (n : ℕ) (x y : Fin n → ℝ),
      sum (List.ofFn x) = ∑ i, x i ∧
      sumOfSquares (List.ofFn x) = ∑ i, x i ^ 2 ∧
      dot (List.ofFn x) (List.ofFn y) = .ok (∑ i, x i * y i) ∧
      dist (List.ofFn x) (List.ofFn y) = .ok √(∑ i, (x i - y i) ^ 2) := by
  refine ⟨fun ι α op add zero xs => ⟨accumulate_noting op add zero xs, ?_⟩, fun T _ x y => ?_,
    fun n x y => ?_⟩
  · intro assoc zero_add add_zero
    exact accumulated_eq_foldl assoc zero_add add_zero op xs
  · exact ⟨sum_eq_accumulated x, inner_eq_accumulated x x, dot_eq_accumulated x y,
      dist_eq_accumulated x y⟩
  · have hlength : (List.ofFn x).length = (List.ofFn y).length := by simp
    rw [dot_eq_ok hlength, dist_eq_ok hlength, inner_ofFn, distance_ofFn, sum_real, List.sum_ofFn,
      sumOfSquares, inner_ofFn]
    refine ⟨rfl, ?_, rfl, rfl⟩
    exact Finset.sum_congr rfl fun i _ => (sq (x i)).symm

/-- Lists are joined in no other order, here over two levels of halves that are not all even. -/
theorem reductions_spec_lists :
    accumulated (fun i => [i]) (· ++ ·) [] (List.range 39) = List.range 39 := by
  have hfold := (reductions_spec.1 ℕ (List ℕ) (fun i => [i]) (· ++ ·) [] (List.range 39)).2
    List.append_assoc List.nil_append List.append_nil
  exact hfold.trans (by decide)

end PrimalDual.Vector
