import PrimalDual.Proofs.Gap.Ball
import PrimalDual.TrustRegion.Places

/-!
# The projection by places is the projection

The lists that are gathered along the sorted places are those of the sorted breakpoints. Along
places in any other order there are lists of the same lengths, as long as every place is that of a
coordinate.
-/
namespace PrimalDual.TrustRegion

variable {T ι : Type}

/-- A source as long as the places fills the destination. -/
theorem gather_eq_mapM {destination source : List T} {places : List ℕ}
    (h : destination.length = places.length) :
    gather destination source places = places.mapM (entryAt source) := by
  rw [gather, h, List.take_length]
  cases hentries : places.mapM (entryAt source) with
  | error e => rfl
  | ok entries =>
    have hlength : entries.length = destination.length := (length_mapM hentries).trans h.symm
    have hdrop : destination.drop entries.length = [] :=
      List.drop_eq_nil_of_le hlength.ge
    rw [ok_bind, Vector.overwrite, hdrop, List.append_nil, ← hlength, List.take_length,
      pure_eq_ok]

theorem mapM_places {α : Type} {f : ℕ → Except Fault α} {chosen : List ι} {place : ι → ℕ}
    {g : ι → α} (h : ∀ e ∈ chosen, f (place e) = .ok (g e)) :
    (chosen.map place).mapM f = .ok (chosen.map g) := by
  rw [List.mapM_map]
  exact mapM_eq_ok h

theorem entryAt_eq_getD [Scalar T] {xs : List T} {i : ℕ} (h : i < xs.length) :
    entryAt xs i = .ok (xs.getD i 0) := by
  rw [entryAt_eq_ok h, List.getD_eq_getElem?_getD, List.getElem?_eq_getElem h, Option.getD_some]

variable [Scalar T] {g z : List T} {l : List (LowerBound T)}

/-- The sums so far stay as they are. -/
theorem appendSums_eq (sums : List T) (last : T) (xs : List T) :
    appendSums (sums ++ [last]) xs = .ok (sums ++ prefixSums last xs) := by
  induction xs generalizing sums last with
  | nil => rfl
  | cons x xs ih =>
    have hlength : (sums ++ [last]).length = sums.length + 1 := List.length_append
    have hlast : entryAt (sums ++ [last]) sums.length = .ok last := by
      rw [entryAt, List.getElem?_concat_length]
    rw [appendSums, hlength, Counter.previous_succ, ok_bind, hlast, ok_bind, ih, prefixSums,
      List.append_assoc, List.singleton_append]

theorem tabulate_eq_ok {chosen : List ι} {place : ι → ℕ} {meeting reach slope : ι → T}
    (hmeeting : ∀ e ∈ chosen, entryAt (meetings g l z) (place e) = .ok (meeting e))
    (hreach : ∀ e ∈ chosen, entryAt (boundDistances l z) (place e) = .ok (reach e))
    (hslope : ∀ e ∈ chosen, entryAt (squaredGradient g) (place e) = .ok (slope e)) :
    tabulate g l z (chosen.map place) = .ok
      { parameters := chosen.map meeting
        reaches := prefixSums 0 (chosen.map reach)
        slopes := prefixSums 0 (chosen.map slope) } := by
  have hzeros : (Vector.zeros (chosen.map place).length : List T).length =
      (chosen.map place).length := Vector.length_zeros _
  have hsums (xs : List T) : appendSums [0] xs = .ok (prefixSums 0 xs) := appendSums_eq [] 0 xs
  simp only [tabulate, gather_eq_mapM hzeros, mapM_places hmeeting, mapM_places hreach,
    mapM_places hslope, hsums, ok_bind, pure_eq_ok]

/-- The lists of a search among `k` breakpoints. -/
structure Breakpoints.Covers (b : Breakpoints T) (k : ℕ) : Prop where
  parameters : b.parameters.length = k
  reaches : b.reaches.length = k + 1
  slopes : b.slopes.length = k + 1

theorem exists_tabulate {places : List ℕ} (h : ∀ i ∈ places, i < (meetings g l z).length) :
    ∃ b, tabulate g l z places = .ok b ∧ b.Covers places.length := by
  have hreach : (meetings g l z).length ≤ (boundDistances l z).length := by
    simp [meetings, boundDistances, coordinates]
  have hslope : (meetings g l z).length ≤ (squaredGradient g).length := by
    simp [meetings, squaredGradient, coordinates]
  have hentry {xs : List T} (hxs : (meetings g l z).length ≤ xs.length) :
      ∀ i ∈ places, entryAt xs (id i) = .ok (xs.getD i 0) :=
    fun i hi => entryAt_eq_getD ((h i hi).trans_le hxs)
  have htables := tabulate_eq_ok (hentry le_rfl) (hentry hreach) (hentry hslope)
  rw [List.map_id] at htables
  refine ⟨_, htables, ?_, ?_, ?_⟩
  · exact List.length_map _
  · rw [length_prefixSums, List.length_map]
  · rw [length_prefixSums, List.length_map]

def stops? (c : T × LowerBound T × T) : Bool := (motion c.1 c.2.1 c.2.2).stop?.isSome

/-- What a coordinate enters in the lists of the search. -/
def breakpoint (c : T × LowerBound T × T) : T × T × T :=
  ((c.2.2 - c.2.1.value) / c.1, Scalar.square (c.2.1.value - c.2.2), c.1 * c.1)

theorem stop?_motion {c : T × LowerBound T × T} (h : stops? c = true) :
    (motion c.1 c.2.1 c.2.2).stop? = some (breakpoint c) ∧
      Scalar.isFinite (breakpoint c).1 = true := by
  obtain ⟨g, l, z⟩ := c
  cases l with
  | unbounded => cases h
  | atLeast l =>
    simp only [stops?, motion] at h ⊢
    split at h
    · cases h
    · next hmoves =>
      split at h
      · cases h
      · next hlater =>
        rw [if_neg hmoves, if_neg hlater]
        simp only [Bool.or_eq_true, decide_eq_true_eq, Bool.not_eq_true', not_or,
          Bool.not_eq_false] at hmoves
        exact ⟨rfl, hmoves.2⟩

/-- The coordinates that stop, each with its place. -/
def stopping (g : List T) (l : List (LowerBound T)) (z : List T) :
    List ((T × LowerBound T × T) × ℕ) :=
  (coordinates g l z).zipIdx.filter fun e => stops? e.1

theorem stoppingPlaces_eq : stoppingPlaces g l z = (stopping g l z).map (·.2) := rfl

theorem filterMap_stop? :
    ((coordinates g l z).map fun (g, l, z) => motion g l z).filterMap Motion.stop? =
      (stopping g l z).map fun e => breakpoint e.1 := by
  have hfilter : (stopping g l z).map Prod.fst = (coordinates g l z).filter stops? := by
    have hcoordinates := List.zipIdx_map_fst 0 (coordinates g l z)
    conv_rhs => rw [← hcoordinates, List.filter_map]
    rfl
  have hmap : (stopping g l z).map (fun e => breakpoint e.1) =
      ((stopping g l z).map Prod.fst).map breakpoint := by
    rw [List.map_map]
    rfl
  rw [hmap, hfilter, ← List.filterMap_eq_filter, List.map_filterMap, List.filterMap_map]
  refine List.filterMap_congr fun c _ => ?_
  cases hstops : stops? c with
  | false =>
    rw [Option.guard, if_neg (by simp [hstops]), Option.map_none]
    exact Option.isSome_eq_false_iff.mp hstops |> Option.isNone_iff_eq_none.mp
  | true =>
    rw [Option.guard, if_pos (by simp [hstops]), Option.map_some]
    exact (stop?_motion hstops).1

variable {c : T × LowerBound T × T} {i : ℕ}

theorem entryAt_meetings (h : (coordinates g l z)[i]? = some c) :
    entryAt (meetings g l z) i = .ok (breakpoint c).1 := by
  rw [entryAt, meetings, List.getElem?_map, h]
  rfl

theorem entryAt_boundDistances (h : (coordinates g l z)[i]? = some c) :
    entryAt (boundDistances l z) i = .ok (breakpoint c).2.1 := by
  have hbound : (l.zip z)[i]? = some c.2 := (List.getElem?_zip_eq_some.mp h).2
  rw [entryAt, boundDistances, List.getElem?_map, hbound]
  rfl

theorem entryAt_squaredGradient (h : (coordinates g l z)[i]? = some c) :
    entryAt (squaredGradient g) i = .ok (breakpoint c).2.2 := by
  have hslope : g[i]? = some c.1 := (List.getElem?_zip_eq_some.mp h).1
  rw [entryAt, squaredGradient, List.getElem?_map, hslope]
  rfl

theorem getElem?_of_mem_stopping {e : (T × LowerBound T × T) × ℕ} (h : e ∈ stopping g l z) :
    (coordinates g l z)[e.2]? = some e.1 :=
  List.mem_zipIdx_iff_getElem?.mp (List.mem_of_mem_filter h)

/-- The breakpoints that are sorted are there, and they are finite. -/
theorem exists_key (h : i ∈ stoppingPlaces g l z) :
    ∃ key, entryAt (meetings g l z) i = .ok key ∧ Scalar.isFinite key = true := by
  rw [stoppingPlaces_eq] at h
  obtain ⟨e, he, rfl⟩ := List.mem_map.mp h
  have hstops : stops? e.1 = true := (List.mem_filter.mp he).2
  exact ⟨_, entryAt_meetings (getElem?_of_mem_stopping he), (stop?_motion hstops).2⟩

theorem isLE_comparison (a b : T) : (comparison a b).isLE = !decide (b < a) := by
  unfold comparison
  split_ifs with hgt hlt
  · simp [hgt]
  · simp [hgt]
  · simp [hgt]

/-- The coordinates that stop, sorted by their breakpoints. -/
def sortedStopping (g : List T) (l : List (LowerBound T)) (z : List T) :
    List ((T × LowerBound T × T) × ℕ) :=
  (stopping g l z).mergeSort fun a b => !decide ((breakpoint b.1).1 < (breakpoint a.1).1)

theorem getElem?_of_mem_sortedStopping {e : (T × LowerBound T × T) × ℕ}
    (h : e ∈ sortedStopping g l z) : (coordinates g l z)[e.2]? = some e.1 :=
  getElem?_of_mem_stopping (List.mem_mergeSort.mp h)

theorem stops_eq : stops ((coordinates g l z).map fun (g, l, z) => motion g l z) =
    (sortedStopping g l z).map fun e => breakpoint e.1 := by
  -- What is sorted are the entries there, the places here; the keys are the same.
  rw [stops, filterMap_stop?, sortedStopping, List.map_mergeSort]
  exact fun a _ b _ => rfl

theorem sortPlaces_stopping :
    sortPlaces (meetings g l z) (stoppingPlaces g l z) =
      .ok ((sortedStopping g l z).map (·.2)) := by
  have hkeyed : (stoppingPlaces g l z).mapM
      (fun i => do return (← entryAt (meetings g l z) i, i)) =
        .ok ((stopping g l z).map fun e => ((breakpoint e.1).1, e.2)) := by
    rw [stoppingPlaces_eq]
    refine mapM_places fun e he => ?_
    rw [entryAt_meetings (getElem?_of_mem_stopping he), ok_bind, pure_eq_ok]
  have hsorted : ((stopping g l z).map fun e => ((breakpoint e.1).1, e.2)).mergeSort
      (fun a b => (comparison a.1 b.1).isLE) =
        (sortedStopping g l z).map fun e => ((breakpoint e.1).1, e.2) :=
    (List.map_mergeSort fun a _ b _ => (isLE_comparison _ _).symm).symm
  rw [sortPlaces, hkeyed, ok_bind, hsorted, List.map_map, pure_eq_ok]
  rfl

theorem tabulate_sortedStopping :
    tabulate g l z ((sortedStopping g l z).map (·.2)) =
      .ok (breakpoints ((coordinates g l z).map fun (g, l, z) => motion g l z)) := by
  rw [tabulate_eq_ok (fun e he => entryAt_meetings (getElem?_of_mem_sortedStopping he))
    (fun e he => entryAt_boundDistances (getElem?_of_mem_sortedStopping he))
    (fun e he => entryAt_squaredGradient (getElem?_of_mem_sortedStopping he))]
  rw [breakpoints, stops_eq, List.map_map, List.map_map, List.map_map]
  rfl

theorem pointAlong_sortedStopping (r : T) :
    pointAlong ((sortedStopping g l z).map (·.2)) g l z r = pointAt g l z r := by
  have hlength : (breakpoints ((coordinates g l z).map fun (g, l, z) =>
      motion g l z)).parameters.length = ((sortedStopping g l z).map (·.2)).length := by
    rw [breakpoints, stops_eq, List.length_map, List.length_map, List.length_map]
  rw [pointAlong, tabulate_sortedStopping, ok_bind, pointAt, hlength]

/-- The order matters only to the point of the path. -/
theorem projectAlong_cases (places : List ℕ) (r : T) :
    (∃ answer, projectAlong places g l z r = .ok answer ∧ project g l z r = .ok answer) ∨
      (projectAlong places g l z r = pointAlong places g l z r ∧
        project g l z r = pointAt g l z r) := by
  unfold projectAlong project
  split
  · exact .inl ⟨_, rfl, rfl⟩
  · next hlengths =>
    have hdist (corner : List T) (hcorner : LowerBound.corner? l = some corner) :
        Vector.dist corner z = .ok (Vector.distance corner z) := by
      refine Vector.dist_eq_ok ((length_corner? hcorner).trans ?_)
      omega
    split
    · exact .inl ⟨_, rfl, rfl⟩
    · generalize (l.zip z).findIdx? _ = refused
      cases refused with
      | some i => exact .inl ⟨_, rfl, rfl⟩
      | none =>
        cases hcorner : LowerBound.corner? l with
        | none => exact .inr ⟨rfl, rfl⟩
        | some corner =>
          simp only [hdist corner hcorner, ok_bind]
          split
          · exact .inl ⟨_, rfl, rfl⟩
          · exact .inr ⟨rfl, rfl⟩

/-- The projection is the one along the places as they are sorted. -/
theorem projectAlong_sortedStopping (r : T) :
    projectAlong ((sortedStopping g l z).map (·.2)) g l z r = project g l z r := by
  obtain ⟨answer, halong, hproject⟩ | ⟨halong, hproject⟩ :=
    projectAlong_cases (g := g) (l := l) (z := z) ((sortedStopping g l z).map (·.2)) r
  · rw [halong, hproject]
  · rw [halong, hproject, pointAlong_sortedStopping]

theorem exists_pointAlong {places : List ℕ} (h : ∀ i ∈ places, i < (meetings g l z).length)
    (r : T) : ∃ answer, pointAlong places g l z r = .ok answer := by
  obtain ⟨b, htabulate, hcovers⟩ := exists_tabulate h
  obtain ⟨p, hbisect⟩ := exists_bisect hcovers.parameters hcovers.reaches hcovers.slopes (r * r)
    (startProfile ((coordinates g l z).map fun (g, l, z) => motion g l z)) (Nat.zero_le _) le_rfl
  simp only [pointAlong, htabulate, hbisect, ok_bind]
  split
  · exact ⟨_, rfl⟩
  · exact ⟨_, rfl⟩

theorem exists_projectAlong {places : List ℕ} (h : ∀ i ∈ places, i < (meetings g l z).length)
    (r : T) : ∃ answer, projectAlong places g l z r = .ok answer := by
  obtain ⟨answer, halong, -⟩ | ⟨halong, -⟩ :=
    projectAlong_cases (g := g) (l := l) (z := z) places r
  · exact ⟨answer, halong⟩
  · rw [halong]
    exact exists_pointAlong h r

theorem lt_of_mem_sortedStopping :
    ∀ i ∈ (sortedStopping g l z).map (·.2), i < (meetings g l z).length := by
  intro i hi
  obtain ⟨e, he, rfl⟩ := List.mem_map.mp hi
  have hentry := getElem?_of_mem_sortedStopping he
  rw [meetings, List.length_map]
  exact (List.getElem?_eq_some_iff.mp hentry).1

end PrimalDual.TrustRegion
