import PrimalDual.Vector

/-!
# Projection onto a trust region

From an anchor `z`, the path `λ ↦ max (l, z - λ * g)` moves against a gradient `g` and stops in each
coordinate at a lower bound, where there is one. The projection is the point of the path at distance
`r` from the anchor. A coordinate reaches its bound at a breakpoint of the path; between two
breakpoints the squared distance is a constant plus `λ²` times the squared gradient of the
coordinates still moving, so that a bisection over the sorted breakpoints finds the piece to solve.
-/
namespace PrimalDual

/-- A lower bound on a coordinate. -/
inductive LowerBound (T : Type) where
  | unbounded
  | atLeast (l : T)

namespace LowerBound

variable {T : Type} [Scalar T]

/-- The value below every other one bounds nothing. -/
def ofScalar (l : T) : LowerBound T :=
  if l == Scalar.negInfinity then .unbounded else .atLeast l

def value : LowerBound T → T
  | .unbounded => Scalar.negInfinity
  | .atLeast l => l

def excludes : LowerBound T → T → Bool
  | .unbounded, _ => false
  | .atLeast l, z => z < l

/-- The value raised to the bound. -/
def clamp : LowerBound T → T → T
  | .unbounded, v => if Scalar.isNaN v then Scalar.negInfinity else v
  | .atLeast l, v => Scalar.greater l v

/-- The bounds as a point, if each coordinate has one. -/
def corner? (l : List (LowerBound T)) : Option (List T) :=
  l.mapM fun
    | .unbounded => none
    | .atLeast l => some l

end LowerBound

namespace TrustRegion

variable {T : Type} [Scalar T]

inductive Error where
  | dimensionMismatch (gradient bounds anchor : Nat)
  | nonPositiveRadius
  | infeasibleAnchor (index : Nat)
  | degenerate
  deriving DecidableEq

def Error.message : Error → String
  | .dimensionMismatch g l z =>
    "Incompatible dimensions: g has length " ++ toString g ++ ", l has length " ++ toString l ++
      ", z has length " ++ toString z
  | .nonPositiveRadius => "Radius must be positive and finite"
  | .infeasibleAnchor i => "Anchor violates its lower bound at index " ++ toString i
  | .degenerate => "No free coordinates remain at the target radius"

structure Solution (T : Type) where
  parameter : T
  point : List T

/-- What a coordinate does along the path. -/
inductive Motion (T : Type) where
  /-- It never meets a bound; its squared gradient. -/
  | free (slope : T)
  /-- It stands at its bound from the start; the squared distance from the anchor. -/
  | fixed (reach : T)
  /-- It moves up to a breakpoint. -/
  | stopping (breakpoint reach slope : T)

/-- A coordinate moves freely unless it descends towards a bound that it meets at a finite
breakpoint. -/
def motion (g : T) (l : LowerBound T) (z : T) : Motion T :=
  match l with
  | .unbounded => .free (g * g)
  | .atLeast l =>
    let breakpoint := (z - l) / g
    if g ≤ 0 || !Scalar.isFinite breakpoint then .free (g * g)
    else if breakpoint ≤ 0 then .fixed (Scalar.square (l - z))
    else .stopping breakpoint (Scalar.square (l - z)) (g * g)

/-- The coordinates of a path, in three rows. -/
def coordinates (g : List T) (l : List (LowerBound T)) (z : List T) :
    List (T × LowerBound T × T) :=
  g.zip (l.zip z)

def pathPoint (g : List T) (l : List (LowerBound T)) (z : List T) (parameter : T) : List T :=
  (coordinates g l z).map fun (g, l, z) => l.clamp (z - parameter * g)

/-- The squared distance from the anchor as far as it is known: a part that no longer grows, and the
squared gradient of the coordinates certain to keep moving. -/
structure Profile (T : Type) where
  reached : T
  moving : T

/-- Takes a coordinate into account that never stops or never starts. -/
def Profile.include (p : Profile T) : Motion T → Profile T
  | .free slope => { p with moving := p.moving + slope }
  | .fixed reach => { p with reached := p.reached + reach }
  | .stopping .. => p

def startProfile (motions : List (Motion T)) : Profile T :=
  motions.foldl Profile.include ⟨0, 0⟩

/-- The sums of the first entries, one for each number of them, added to an initial value. -/
def prefixSums (sum : T) : List T → List T
  | [] => [sum]
  | x :: rest => sum :: prefixSums (sum + x) rest

/-- The breakpoint of a coordinate with what it contributes once stopped and while moving. -/
def Motion.stop? : Motion T → Option (T × T × T)
  | .stopping breakpoint reach slope => some (breakpoint, reach, slope)
  | _ => none

/-- The coordinates that stop, sorted by their breakpoints. -/
def stops (motions : List (Motion T)) : List (T × T × T) :=
  (motions.filterMap Motion.stop?).mergeSort fun a b => !(b.1 < a.1)

/-- The sorted breakpoints with the sums of what the coordinates contribute once stopped and while
moving. -/
structure Breakpoints (T : Type) where
  parameters : List T
  reaches : List T
  slopes : List T

def breakpoints (motions : List (Motion T)) : Breakpoints T :=
  { parameters := (stops motions).map (·.1)
    reaches := prefixSums 0 ((stops motions).map (·.2.1))
    slopes := prefixSums 0 ((stops motions).map (·.2.2)) }

/-- Narrows the breakpoints that may hold the answer to those from `low` up to `high`, moving what
is left out of them into the profile. -/
def bisect (b : Breakpoints T) (radiusSquared : T) (p : Profile T) (low high : Nat) :
    Except Fault (Profile T) :=
  if _h : low < high then do
    let mid := (low + high + 1) / 2 - 1
    let parameter ← entryAt b.parameters mid
    let stopped := (← entryAt b.reaches (mid + 1)) - (← entryAt b.reaches low)
    let stillMoving := (← entryAt b.slopes high) - (← entryAt b.slopes (mid + 1))
    let distance := p.reached + stopped + parameter * parameter * (p.moving + stillMoving)
    if distance ≤ radiusSquared then
      bisect b radiusSquared { p with reached := p.reached + stopped } (mid + 1) high
    else
      let beyond := (← entryAt b.slopes high) - (← entryAt b.slopes mid)
      bisect b radiusSquared { p with moving := p.moving + beyond } low mid
  else .ok p
termination_by high - low
decreasing_by all_goals omega

/-- The point of the path at distance `r` from the anchor, if the path gets that far. -/
def pointAt (g : List T) (l : List (LowerBound T)) (z : List T) (r : T) :
    Except Fault (Except Error (Solution T)) := do
  let motions := (coordinates g l z).map fun (g, l, z) => motion g l z
  let b := breakpoints motions
  let radiusSquared := r * r
  let p ← bisect b radiusSquared (startProfile motions) 0 b.parameters.length
  if p.moving ≤ 0 || radiusSquared < p.reached then
    return .error .degenerate
  let parameter := Scalar.sqrt ((radiusSquared - p.reached) / p.moving)
  return .ok ⟨parameter, pathPoint g l z parameter⟩

/-- The point of the path at distance `r` from the anchor. A corner of bounds within the distance is
answered with parameter zero. -/
def project (g : List T) (l : List (LowerBound T)) (z : List T) (r : T) :
    Except Fault (Except Error (Solution T)) := do
  if g.length ≠ z.length ∨ l.length ≠ z.length then
    return .error (.dimensionMismatch g.length l.length z.length)
  if !(Scalar.isFinite r && 0 < r) then
    return .error .nonPositiveRadius
  if let some i := (l.zip z).findIdx? fun (l, z) => l.excludes z || Scalar.isNaN z then
    return .error (.infeasibleAnchor i)
  if let some corner := LowerBound.corner? l then
    if Vector.distance corner z ≤ r then
      return .ok ⟨0, corner⟩
  pointAt g l z r

end TrustRegion

end PrimalDual
