import PrimalDual.Random
import PrimalDual.Vector

/-!
# Iterates

The state of a run: the current point, the average of the proposals since the last restart, the
points at which the current and the previous epoch began, and the counters. Starting at one, `count`
grows by one with every step and with every restart.
-/
namespace PrimalDual

/-- How a point is laid out: primal before dual variables, with several copies of the primal ones
in split mode. -/
inductive Layout where
  | primalDual (primalDim dualDim : Nat)
  | split (copies primalDim dualDim : Nat)
  deriving DecidableEq

namespace Layout

def length : Layout → Nat
  | .primalDual n m => n + m
  | .split k n m => k * n + m

def dualOffset : Layout → Nat
  | .primalDual n _ => n
  | .split k n _ => k * n

def isSplit : Layout → Bool
  | .primalDual .. => false
  | .split .. => true

end Layout

/-- What an evaluation found out about an iterate. -/
structure Diagnostics (T : Type) where
  kktError : T
  gap : Option T

def Diagnostics.zero {T : Type} [Zero T] : Diagnostics T := ⟨0, none⟩

/-- The gap, or NaN where none was computed. -/
def Diagnostics.gapOrNaN {T : Type} [Scalar T] (d : Diagnostics T) : T := d.gap.getD Scalar.nan

structure Iterates (T : Type) where
  point : List T
  proposal : List T
  average : List T
  /-- Steps since the last restart. -/
  epochLength : Nat
  restarts : Nat
  count : Nat
  terminate : Bool
  diagnostics : Diagnostics T
  epochStart : List T
  /-- Missing until the first restart. -/
  previousStart : Option (List T)
  layout : Layout

namespace Iterates

variable {T : Type} [Scalar T]

def startingAt (point : List T) (layout : Layout) : Iterates T where
  point
  proposal := point
  average := point
  epochLength := 0
  restarts := 0
  count := 1
  terminate := false
  diagnostics := .zero
  epochStart := point
  previousStart := none
  layout

/-- The iterates of a run that starts at the origin. -/
def origin (primalDim dualDim : Nat) : Iterates T :=
  startingAt (Vector.zeros (primalDim + dualDim)) (.primalDual primalDim dualDim)

/-- Split iterates that start at a random point. -/
def randomSplit (copies primalDim dualDim : Nat) (seed : UInt64) : Iterates T :=
  let layout := Layout.split copies primalDim dualDim
  startingAt (randomVector layout.length seed) layout

/-- The iterates of a layout that a list has room for: at the origin, or in split mode at a random
point. -/
def ofLayout (layout : Layout) (seed : UInt64) : Except Fault (Iterates T) := do
  allocate layout.length
  match layout with
  | .primalDual primalDim dualDim => return origin primalDim dualDim
  | .split copies primalDim dualDim => return randomSplit copies primalDim dualDim seed

/-- Folds the proposal into the average: among the `t + 1` proposals of the epoch, each weighs the
same. -/
def update (s : Iterates T) : Except Fault (Iterates T) := do
  let t : T := s.epochLength
  let weight := Scalar.recip (t + 1)
  let average ← Vector.axpby weight s.proposal (t * weight) s.average
  return { s with
    average
    epochLength := ← Counter.next s.epochLength
    count := ← Counter.next s.count }

/-- Continues from the average, which becomes the start of a new epoch. -/
def restart (s : Iterates T) : Except Fault (Iterates T) := do
  let restarts ← Counter.next s.restarts
  let count ← Counter.next s.count
  let point ← Vector.copyOnto s.point s.average
  return { s with
    point
    restarts
    count
    epochLength := 0
    epochStart := point
    previousStart := some s.epochStart }

/-- The index of the latest step, which cadences are about. -/
def step (s : Iterates T) : Except Fault Nat := Counter.previous s.count

def primal (s : Iterates T) : Except Fault (List T) := segment s.point 0 s.layout.dualOffset

def dual (s : Iterates T) : Except Fault (List T) :=
  segment s.point s.layout.dualOffset s.point.length

/-- The length of one primal copy in split mode, which has two copies at least. -/
def copyLength (s : Iterates T) : Except Fault Nat :=
  match s.layout with
  | .split copies primalDim _ =>
    if 2 ≤ copies then .ok primalDim else .error .splitNeedsTwoCopies
  | .primalDual .. => .error .notSplit

def firstCopy (s : Iterates T) : Except Fault (List T) := do
  let n ← s.copyLength
  segment s.point 0 n

def secondCopy (s : Iterates T) : Except Fault (List T) := do
  let n ← s.copyLength
  segment s.point n (2 * n)

end Iterates

end PrimalDual
