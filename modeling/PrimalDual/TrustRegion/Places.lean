import PrimalDual.TrustRegion

/-!
# The projection by places

The coordinates that stop are known by their places, which are put in an order; the lists of the
search are then gathered along them. Nothing is taken from a list without a look whether it is
there, and no place comes before the first one.
-/
namespace PrimalDual.TrustRegion

variable {T : Type}

/-- The places of the entries with a property. -/
def placesWhere {α : Type} (p : α → Bool) (xs : List α) : List Nat :=
  (xs.zipIdx.filter fun e => p e.1).map (·.2)

/-- The entries of the source at the given places replace those of the destination, for as long as
both last. -/
def gather (destination source : List T) (places : List Nat) : Except Fault (List T) := do
  let entries ← (places.take destination.length).mapM (entryAt source)
  return Vector.overwrite destination entries

variable [Scalar T]

/-- Numbers that are in no order count as equal. -/
def comparison (a b : T) : Ordering :=
  if b < a then .gt else if a < b then .lt else .eq

/-- The places in the order of the keys that stand there. Those of equal keys keep their order. -/
def sortPlaces (keys : List T) (places : List Nat) : Except Fault (List Nat) := do
  let keyed ← places.mapM fun i => return (← entryAt keys i, i)
  return (keyed.mergeSort fun a b => (comparison a.1 b.1).isLE).map (·.2)

/-- Sums are added to a list of them, each to the last one so far. -/
def appendSums (sums : List T) : List T → Except Fault (List T)
  | [] => .ok sums
  | x :: rest => do
    let last ← entryAt sums (← Counter.previous sums.length)
    appendSums (sums ++ [last + x]) rest

/-- Where the path meets the bounds. -/
def meetings (g : List T) (l : List (LowerBound T)) (z : List T) : List T :=
  (coordinates g l z).map fun (g, l, z) => (z - l.value) / g

/-- The squared distances of the bounds from the anchor. -/
def boundDistances (l : List (LowerBound T)) (z : List T) : List T :=
  (l.zip z).map fun (l, z) => Scalar.square (l.value - z)

def squaredGradient (g : List T) : List T := g.map fun g => g * g

def stoppingPlaces (g : List T) (l : List (LowerBound T)) (z : List T) : List Nat :=
  placesWhere (fun (g, l, z) => (motion g l z).stop?.isSome) (coordinates g l z)

/-- The lists of a search among the coordinates at the given places. -/
def tabulate (g : List T) (l : List (LowerBound T)) (z : List T) (places : List Nat) :
    Except Fault (Breakpoints T) := do
  let parameters ← gather (Vector.zeros places.length) (meetings g l z) places
  let reaches ← gather (Vector.zeros places.length) (boundDistances l z) places
  let slopes ← gather (Vector.zeros places.length) (squaredGradient g) places
  return ⟨parameters, ← appendSums [0] reaches, ← appendSums [0] slopes⟩

/-- The breakpoints that are left, and the profile of the coordinates outside of them. -/
structure Window (T : Type) where
  low : Nat
  high : Nat
  profile : Profile T

namespace Window

/-- The place that a window is divided at. -/
def middle (w : Window T) : Except Fault Nat :=
  Counter.previous ((w.low + w.high + 1) / 2)

/-- One pass of the search: the window loses its middle and all that is on one side of it. -/
def narrow (b : Breakpoints T) (radiusSquared : T) (w : Window T) : Except Fault (Window T) := do
  let mid ← w.middle
  let parameter ← entryAt b.parameters mid
  let stopped := (← entryAt b.reaches (mid + 1)) - (← entryAt b.reaches w.low)
  let stillMoving := (← entryAt b.slopes w.high) - (← entryAt b.slopes (mid + 1))
  let distance := w.profile.reached + stopped +
    parameter * parameter * (w.profile.moving + stillMoving)
  if distance ≤ radiusSquared then
    return ⟨mid + 1, w.high, { w.profile with reached := w.profile.reached + stopped }⟩
  else
    let beyond := (← entryAt b.slopes w.high) - (← entryAt b.slopes mid)
    return ⟨w.low, mid, { w.profile with moving := w.profile.moving + beyond }⟩

end Window

/-- The point of the path at distance `r` from the anchor, if the path gets that far, with the
coordinates that stop in the given order. -/
def pointAlong (places : List Nat) (g : List T) (l : List (LowerBound T)) (z : List T) (r : T) :
    Except Fault (Except Error (Solution T)) := do
  let motions := (coordinates g l z).map fun (g, l, z) => motion g l z
  let b ← tabulate g l z places
  let radiusSquared := r * r
  let p ← bisect b radiusSquared (startProfile motions) 0 places.length
  if p.moving ≤ 0 || radiusSquared < p.reached then
    return .error .degenerate
  let parameter := Scalar.sqrt ((radiusSquared - p.reached) / p.moving)
  return .ok ⟨parameter, pathPoint g l z parameter⟩

/-- The projection with the coordinates that stop in the given order. -/
def projectAlong (places : List Nat) (g : List T) (l : List (LowerBound T)) (z : List T) (r : T) :
    Except Fault (Except Error (Solution T)) := do
  if g.length ≠ z.length ∨ l.length ≠ z.length then
    return .error (.dimensionMismatch g.length l.length z.length)
  if !(Scalar.isFinite r && 0 < r) then
    return .error .nonPositiveRadius
  if let some i := (l.zip z).findIdx? fun (l, z) => l.excludes z || Scalar.isNaN z then
    return .error (.infeasibleAnchor i)
  if let some corner := LowerBound.corner? l then
    if (← Vector.dist corner z) ≤ r then
      return .ok ⟨0, corner⟩
  pointAlong places g l z r

end PrimalDual.TrustRegion
