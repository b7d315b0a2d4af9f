import PrimalDual.Fault
import PrimalDual.Scalar
import PrimalDual.Vector.Pairwise

/-!
# Vectors

Vectors are lists of scalars. Reductions add pairwise, elementwise combinations fix the order of
their operations, and an operation on two vectors of different lengths is a fault.
-/
namespace PrimalDual.Vector

variable {T : Type} [Scalar T]

def zeros (n : Nat) : List T := List.replicate n 0

def sum (x : List T) : T := Pairwise.total (· + ·) 0 x

/-- The sum of the products of corresponding entries. -/
def inner (x y : List T) : T := sum (List.zipWith (· * ·) x y)

def sumOfSquares (x : List T) : T := inner x x

def norm (x : List T) : T := Scalar.sqrt (sumOfSquares x)

def distance (x y : List T) : T :=
  Scalar.sqrt (sum (List.zipWith (fun a b => Scalar.square (a - b)) x y))

/-- The greatest magnitude; one NaN makes it NaN. -/
def maxNorm (x : List T) : T :=
  if x.any Scalar.isNaN then Scalar.nan
  else x.foldl (fun out v => if out < Scalar.abs v then Scalar.abs v else out) 0

/-- The average of the entries, zero for the empty vector. -/
def mean (x : List T) : T :=
  if x.isEmpty then 0 else sum x / (x.length : T)

def isFinite (x : List T) : Bool := x.all Scalar.isFinite

/-- The combination `a * x + b * y`. -/
def combine (a : T) (x : List T) (b : T) (y : List T) : List T :=
  List.zipWith (fun x y => a * x + b * y) x y

/-- The new entries replace the old ones for as long as both lists last. -/
def overwrite (old new : List T) : List T :=
  new.take old.length ++ old.drop new.length

def sameLength {α : Type} (x y : List α) : Except Fault Unit :=
  if x.length = y.length then .ok () else .error .lengthMismatch

def dot (x y : List T) : Except Fault T := do
  sameLength x y
  return inner x y

def dist (x y : List T) : Except Fault T := do
  sameLength x y
  return distance x y

/-- The source, once it fits the destination. -/
def copyOnto {α : Type} (destination source : List α) : Except Fault (List α) := do
  sameLength destination source
  return source

/-- Each entry raised to its lower bound. -/
def clampLower (x l : List T) : Except Fault (List T) := do
  sameLength x l
  return List.zipWith Scalar.greater x l

/-- The update of `y` to `a * x + b * y`. -/
def axpby (a : T) (x : List T) (b : T) (y : List T) : Except Fault (List T) := do
  sameLength y x
  return combine a x b y

/-- The update of `w` to `a * x + b * y`. -/
def waxpby (w : List T) (a : T) (x : List T) (b : T) (y : List T) : Except Fault (List T) := do
  sameLength w x
  sameLength w y
  return combine a x b y

theorem dot_eq_ok {x y : List T} (h : x.length = y.length) : dot x y = .ok (inner x y) := by
  simp [dot, sameLength, h, bind, Except.bind, pure, Except.pure]

theorem dist_eq_ok {x y : List T} (h : x.length = y.length) : dist x y = .ok (distance x y) := by
  simp [dist, sameLength, h, bind, Except.bind, pure, Except.pure]

theorem copyOnto_eq_ok {α : Type} {x y : List α} (h : x.length = y.length) :
    copyOnto x y = .ok y := by
  simp [copyOnto, sameLength, h, bind, Except.bind, pure, Except.pure]

theorem copyOnto_eq_ok_iff {α : Type} {x y z : List α} :
    copyOnto x y = .ok z ↔ x.length = y.length ∧ z = y := by
  by_cases h : x.length = y.length
  · simp [copyOnto_eq_ok h, h, eq_comm]
  · simp [copyOnto, sameLength, h]

theorem axpby_eq_ok (a b : T) {x y : List T} (h : y.length = x.length) :
    axpby a x b y = .ok (combine a x b y) := by
  simp [axpby, sameLength, h, bind, Except.bind, pure, Except.pure]

theorem waxpby_eq_ok {w x y : List T} (a b : T) (hx : w.length = x.length)
    (hy : w.length = y.length) :
    waxpby w a x b y = .ok (combine a x b y) := by
  simp [waxpby, sameLength, hx, ← hy, bind, Except.bind, pure, Except.pure]

theorem axpby_eq_ok_iff {a b : T} {x y z : List T} :
    axpby a x b y = .ok z ↔ y.length = x.length ∧ z = combine a x b y := by
  by_cases h : y.length = x.length
  · simp [axpby_eq_ok a b h, h, eq_comm]
  · simp [axpby, sameLength, h]

theorem waxpby_eq_ok_iff {a b : T} {w x y z : List T} : waxpby w a x b y = .ok z ↔
    w.length = x.length ∧ w.length = y.length ∧ z = combine a x b y := by
  by_cases hx : w.length = x.length
  · by_cases hy : w.length = y.length
    · simp [waxpby_eq_ok a b hx hy, hx, ← hy, eq_comm]
    · simp [waxpby, sameLength, ← hx, hy]
  · simp [waxpby, sameLength, hx]

@[simp] theorem length_zeros (n : Nat) : (zeros n : List T).length = n := by
  simp [zeros]

theorem length_combine (a b : T) (x y : List T) :
    (combine a x b y).length = min x.length y.length := by
  simp [combine]

end PrimalDual.Vector
