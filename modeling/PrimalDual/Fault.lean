/-!
# Faults and checked access

A fault is a broken contract between the parts of a run: vectors of different lengths, an index
outside its list, a counter past its range. It ends the operation that met it and is never an
answer about the problem being solved.
-/
namespace PrimalDual

inductive Fault where
  | lengthMismatch
  | indexOutOfRange
  | divisionByZero
  | counterOverflow
  | capacityOverflow
  | splitLayout
  | splitNeedsTwoCopies
  | notSplit
  deriving DecidableEq

/-- Only misuse of the split layout carries a text. -/
def Fault.message : Fault → Option String
  | .splitNeedsTwoCopies => some "split iterates need two primal copies"
  | .notSplit => some "iterates are not in split mode"
  | _ => none

section Chains

variable {ε α β : Type}

@[simp] theorem ok_bind (a : α) (f : α → Except ε β) : (Except.ok a >>= f) = f a := rfl

@[simp] theorem error_bind (e : ε) (f : α → Except ε β) : (Except.error e >>= f) = .error e := rfl

@[simp] theorem pure_eq_ok (a : α) : (pure a : Except ε α) = .ok a := rfl

@[simp] theorem throw_eq_error (e : ε) : (throw e : Except ε α) = .error e := rfl

/-- A chain succeeds when each of its links does. -/
theorem bind_eq_ok {x : Except ε α} {f : α → Except ε β} {b : β} :
    x >>= f = .ok b ↔ ∃ a, x = .ok a ∧ f a = .ok b := by
  cases x with
  | error e => simp
  | ok a => simp

theorem map_eq_ok {x : Except ε α} {f : α → β} {b : β} :
    x.map f = .ok b ↔ ∃ a, x = .ok a ∧ f a = b := by
  cases x with
  | error e => simp [Except.map]
  | ok a => simp [Except.map]

/-- A computation has one result at most. -/
theorem ok_unique {x : Except ε α} {a b : α} (ha : x = .ok a) (hb : x = .ok b) : a = b :=
  Except.ok.inj (ha.symm.trans hb)

/-- An operation that answers at once leaves what it was given. -/
theorem snd_eq_of_pure {a a' : α} {b b' : β}
    (h : (pure (a, b) : Except ε (α × β)) = .ok (a', b')) : b' = b :=
  (Prod.mk.inj (Except.ok.inj h)).2.symm

theorem mapM_eq_ok {f : α → Except ε β} {g : α → β} {xs : List α}
    (h : ∀ x ∈ xs, f x = .ok (g x)) : xs.mapM f = .ok (xs.map g) := by
  induction xs with
  | nil => rfl
  | cons x xs ih =>
    have hx : f x = .ok (g x) := h x (List.mem_cons_self)
    have hxs := ih fun y hy => h y (List.mem_cons_of_mem x hy)
    simp [List.mapM_cons, hx, hxs]

/-- A chain of operations that can fail in one way only. -/
theorem mapM_eq_ite {f : α → Except ε β} {p : α → Bool} {g : α → β} {e : ε} {xs : List α}
    (h : ∀ x ∈ xs, f x = if p x then .ok (g x) else .error e) :
    xs.mapM f = if xs.all p then .ok (xs.map g) else .error e := by
  induction xs with
  | nil => rfl
  | cons x xs ih =>
    have hx := h x (List.mem_cons_self)
    have hxs := ih fun y hy => h y (List.mem_cons_of_mem x hy)
    rw [List.mapM_cons, hx, hxs]
    cases hp : p x <;> cases hall : xs.all p <;> simp [hp, hall]

theorem allM_eq_ok {f : α → Except ε Bool} {p : α → Bool} {xs : List α}
    (h : ∀ x ∈ xs, f x = .ok (p x)) : xs.allM f = .ok (xs.all p) := by
  induction xs with
  | nil => rfl
  | cons x xs ih =>
    have hx : f x = .ok (p x) := h x (List.mem_cons_self)
    have hxs := ih fun y hy => h y (List.mem_cons_of_mem x hy)
    cases hp : p x <;> simp [List.allM, hx, hxs, hp]

theorem length_mapM {f : α → Except ε β} {xs : List α} {ys : List β} (h : xs.mapM f = .ok ys) :
    ys.length = xs.length := by
  induction xs generalizing ys with
  | nil =>
    obtain rfl := Except.ok.inj h
    rfl
  | cons x xs ih =>
    rw [List.mapM_cons] at h
    obtain ⟨y, -, h⟩ := bind_eq_ok.mp h
    obtain ⟨rest, hrest, h⟩ := bind_eq_ok.mp h
    obtain rfl := Except.ok.inj h
    rw [List.length_cons, List.length_cons, ih hrest]

/-- What every link of a chain keeps, the chain keeps. -/
theorem foldlM_keeps {P : β → Prop} {f : β → α → Except ε β} {xs : List α} {b b' : β}
    (hf : ∀ b x b', P b → f b x = .ok b' → P b') (hb : P b) (h : xs.foldlM f b = .ok b') :
    P b' := by
  induction xs generalizing b with
  | nil =>
    obtain rfl := Except.ok.inj h
    exact hb
  | cons x xs ih =>
    rw [List.foldlM_cons] at h
    obtain ⟨next, hnext, h⟩ := bind_eq_ok.mp h
    exact ih (hf b x next hb hnext) h

end Chains

variable {α : Type}

/-- The entry at a position that has to exist. -/
def entryAt (xs : List α) (i : Nat) : Except Fault α :=
  match xs[i]? with
  | some x => .ok x
  | none => .error .indexOutOfRange

/-- The entries at the positions `lo, …, hi - 1`, none when `hi ≤ lo`. -/
def span (xs : List α) (lo hi : Nat) : List α :=
  (xs.drop lo).take (hi - lo)

/-- The entries at `lo, …, hi - 1`; the two ends have to be in order and inside the list. -/
def segment (xs : List α) (lo hi : Nat) : Except Fault (List α) :=
  if lo ≤ hi ∧ hi ≤ xs.length then .ok (span xs lo hi) else .error .indexOutOfRange

/-- The same of an array, whose entries are reached without a walk. -/
def slice (xs : Array α) (lo hi : Nat) : Except Fault (List α) :=
  if lo ≤ hi ∧ hi ≤ xs.size then .ok (xs.extract lo hi).toList else .error .indexOutOfRange

/-- No list has this many places. -/
def addressable : Nat := 0x1000000000000000

/-- Room for a list of a given length. -/
def allocate (n : Nat) : Except Fault Unit :=
  if n < addressable then .ok () else .error .capacityOverflow

theorem entryAt_eq_ok {xs : List α} {i : Nat} (h : i < xs.length) :
    entryAt xs i = .ok xs[i] := by
  simp [entryAt, List.getElem?_eq_getElem h]

theorem segment_eq_ok {xs : List α} {lo hi : Nat} (h : lo ≤ hi) (h' : hi ≤ xs.length) :
    segment xs lo hi = .ok (span xs lo hi) := by
  simp [segment, h, h']

theorem slice_toArray (xs : List α) (lo hi : Nat) : slice xs.toArray lo hi = segment xs lo hi := by
  simp [slice, segment, span, List.extract_eq_take_drop]

theorem allocate_eq_ok {n : Nat} (h : n < addressable) : allocate n = .ok () := by
  simp [allocate, h]

theorem length_span (xs : List α) (lo hi : Nat) :
    (span xs lo hi).length = min (hi - lo) (xs.length - lo) := by
  simp [span]

namespace Counter

/-- Step counters are words of 32 bits. -/
def bound : Nat := 0x100000000

/-- The next value of a counter, which may not leave its word. -/
def next (n : Nat) : Except Fault Nat :=
  if n + 1 < bound then .ok (n + 1) else .error .counterOverflow

/-- The value before; a counter at zero has none. -/
def previous (n : Nat) : Except Fault Nat :=
  if n = 0 then .error .counterOverflow else .ok (n - 1)

/-- Whether `k` falls on a cadence; a cadence of zero has no multiples to ask for. -/
def onCadence (k every : Nat) : Except Fault Bool :=
  if every = 0 then .error .divisionByZero else .ok (k % every == 0)

theorem next_eq_ok {n : Nat} (h : n + 1 < bound) : next n = .ok (n + 1) := by
  simp [next, h]

theorem next_eq_ok_iff {n m : Nat} : next n = .ok m ↔ n + 1 < bound ∧ m = n + 1 := by
  by_cases h : n + 1 < bound
  · simp [next, h, eq_comm]
  · simp [next, h]

theorem previous_succ (n : Nat) : previous (n + 1) = .ok n := rfl

theorem onCadence_eq_ok (k : Nat) {every : Nat} (h : every ≠ 0) :
    onCadence k every = .ok (k % every == 0) := by
  simp [onCadence, h]

end Counter

end PrimalDual
