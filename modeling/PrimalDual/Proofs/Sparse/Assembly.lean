import PrimalDual.Proofs.Sparse.Lookup

/-!
# Assembly of a matrix from entries in any order

The sort keeps the order of entries that share a position, so that their values are added up as they
were given. What is collected stands at increasing positions, and the counts by column cut it into
the columns of a matrix in format. Nothing is asked of the addition.
-/
namespace PrimalDual

section Keys

variable {α : Type} {f : α → ℕ} {xs : List α}

theorem filter_lt_append_filter_le (h : xs.Pairwise (f · ≤ f ·)) (j : ℕ) :
    xs.filter (f · < j) ++ xs.filter (j ≤ f ·) = xs := by
  induction h with
  | nil => rfl
  | @cons x xs hx _ ih =>
    by_cases hlt : f x < j
    · simp [hlt, ih]
    · have hnone : xs.filter (f · < j) = [] :=
        List.filter_eq_nil_iff.mpr fun y hy => by have := hx y hy; simp; omega
      rw [hnone, List.nil_append] at ih
      simp [hlt, hnone, ih, not_lt.mp hlt]

theorem span_append_append (as bs cs : List α) :
    span (as ++ bs ++ cs) as.length (as ++ bs).length = bs := by
  simp [span]

/-- The counts of smaller keys cut out the entries with one key. -/
theorem span_countP (h : xs.Pairwise (f · ≤ f ·)) (j : ℕ) :
    span xs (xs.countP (f · < j)) (xs.countP (f · < j + 1)) = xs.filter (f · == j) := by
  have hupper := filter_lt_append_filter_le h (j + 1)
  have hlower := filter_lt_append_filter_le (h.filter (f · < j + 1)) j
  have hbelow (x : α) : (decide (f x < j) && decide (f x < j + 1)) = decide (f x < j) := by
    rw [← Bool.decide_and, decide_eq_decide]
    omega
  have hat (x : α) : (decide (j ≤ f x) && decide (f x < j + 1)) = (f x == j) := by
    rw [Bool.eq_iff_iff, Bool.and_eq_true, decide_eq_true_eq, decide_eq_true_eq, beq_iff_eq]
    omega
  simp only [List.filter_filter, hbelow, hat] at hlower
  have hcut := span_append_append (xs.filter (f · < j)) (xs.filter (f · == j))
    (xs.filter (j + 1 ≤ f ·))
  rwa [hlower, hupper, ← List.countP_eq_length_filter, ← List.countP_eq_length_filter] at hcut

end Keys

namespace Triplet

variable {T : Type}

theorem before_iff {s t : Triplet T} : s.before t = true ↔ s.position ≤ t.position := by
  rw [position, position, Prod.Lex.toLex_le_toLex]
  simp [before]

theorem before_trans (a b c : Triplet T) (hab : a.before b = true) (hbc : b.before c = true) :
    a.before c = true :=
  before_iff.mpr ((before_iff.mp hab).trans (before_iff.mp hbc))

theorem before_total (a b : Triplet T) : (a.before b || b.before a) = true := by
  simpa [before_iff] using le_total a.position b.position

/-- Entries of one kind, whose order the sort cannot see, stay in order. -/
theorem filter_mergeSort (ts : List (Triplet T)) {p : Triplet T → Bool}
    (hp : ∀ s t, p s = true → p t = true → s.before t = true) :
    (ts.mergeSort before).filter p = ts.filter p := by
  have hordered : (ts.filter p).Pairwise (before · ·) :=
    List.pairwise_filter.mpr (List.pairwise_of_forall hp)
  have hsublist :=
    (List.sublist_mergeSort before_trans before_total hordered List.filter_sublist).filter p
  rw [List.filter_filter] at hsublist
  simp only [Bool.and_self] at hsublist
  exact (hsublist.eq_of_length ((List.mergeSort_perm ts before).filter p).length_eq.symm).symm

/-- The values at one position, in order. -/
def valuesAt (ts : List (Triplet T)) (i j : ℕ) : List T :=
  (ts.filter fun t => t.row == i && t.col == j).map (·.value)

variable {ts acc : List (Triplet T)} {t last : Triplet T} {i j : ℕ}

@[simp] theorem valuesAt_nil (i j : ℕ) : valuesAt ([] : List (Triplet T)) i j = [] := rfl

theorem valuesAt_append (ts ss : List (Triplet T)) (i j : ℕ) :
    valuesAt (ts ++ ss) i j = valuesAt ts i j ++ valuesAt ss i j := by
  simp [valuesAt]

theorem valuesAt_cons (t : Triplet T) (ts : List (Triplet T)) (i j : ℕ) :
    valuesAt (t :: ts) i j =
      if t.row = i ∧ t.col = j then t.value :: valuesAt ts i j else valuesAt ts i j := by
  by_cases h : t.row = i ∧ t.col = j
  · simp [valuesAt, h]
  · simp [valuesAt, h]

theorem valuesAt_eq_nil_iff :
    valuesAt ts i j = [] ↔ ∀ t ∈ ts, t.row = i → t.col ≠ j := by
  simp [valuesAt]

theorem mem_valuesAt {v : T} :
    v ∈ valuesAt ts i j ↔ ∃ t ∈ ts, (t.row = i ∧ t.col = j) ∧ t.value = v := by
  simp [valuesAt, and_assoc]

theorem valuesAt_mergeSort (ts : List (Triplet T)) (i j : ℕ) :
    valuesAt (ts.mergeSort before) i j = valuesAt ts i j := by
  rw [valuesAt, filter_mergeSort, valuesAt]
  intro s t hs ht
  simp only [Bool.and_eq_true, beq_iff_eq] at hs ht
  simp [before, hs.1, hs.2, ht.1, ht.2]

variable [Scalar T]

/-- Values added up from the left, if there are any. -/
def leftSum? : List T → Option T
  | [] => none
  | v :: vs => some (vs.foldl (· + ·) v)

theorem leftSum?_eq_none_iff {vs : List T} : leftSum? vs = none ↔ vs = [] := by
  cases vs <;> simp [leftSum?]

theorem leftSum?_concat {vs : List T} {sum : T} (h : leftSum? vs = some sum) (v : T) :
    leftSum? (vs ++ [v]) = some (sum + v) := by
  cases vs with
  | nil => cases h
  | cons w vs =>
    rw [← Option.some.inj h]
    simp [leftSum?]

/-- The latest first, what was collected of entries in order: at each position what the values there
add up to. -/
structure Collects (ts acc : List (Triplet T)) : Prop where
  decreasing : acc.Pairwise fun s t => t.position < s.position
  valuesAt_eq : ∀ i j, valuesAt acc i j = (leftSum? (valuesAt ts i j)).toList

/-- What was collected stands where there was an entry. -/
theorem Collects.exists_mem (h : Collects ts acc) {e : Triplet T} (he : e ∈ acc) :
    ∃ t ∈ ts, t.row = e.row ∧ t.col = e.col := by
  by_contra hnone
  push Not at hnone
  have hempty := h.valuesAt_eq e.row e.col
  rw [valuesAt_eq_nil_iff.mpr hnone] at hempty
  exact valuesAt_eq_nil_iff.mp hempty e he rfl rfl

/-- An entry behind all the others is collected by itself. -/
theorem Collects.cons (h : Collects ts acc) (hlast : ∀ s ∈ acc, s.position < t.position) :
    Collects (ts ++ [t]) (t :: acc) where
  decreasing := List.pairwise_cons.mpr ⟨hlast, h.decreasing⟩
  valuesAt_eq i j := by
    have hold := h.valuesAt_eq i j
    rw [valuesAt_cons, valuesAt_append, valuesAt_cons, valuesAt_nil]
    split
    · next hposition =>
      obtain ⟨rfl, rfl⟩ := hposition
      have hfirst : valuesAt acc t.row t.col = [] :=
        valuesAt_eq_nil_iff.mpr fun s hs hrow hcol =>
          (hlast s hs).ne (by rw [position, position, hrow, hcol])
      rw [hfirst] at hold ⊢
      rw [leftSum?_eq_none_iff.mp (Option.toList_eq_nil_iff.mp hold.symm)]
      rfl
    · rw [hold, List.append_nil]

/-- A further entry at the position collected last is added to it. -/
theorem Collects.merge (h : Collects ts (last :: acc)) (hsame : last.samePosition t = true) :
    Collects (ts ++ [t]) ({ last with value := last.value + t.value } :: acc) where
  decreasing := List.pairwise_cons.mpr (List.pairwise_cons.mp h.decreasing)
  valuesAt_eq i j := by
    have hold := h.valuesAt_eq i j
    simp only [samePosition, Bool.and_eq_true, beq_iff_eq] at hsame
    rw [valuesAt_cons] at hold ⊢
    rw [valuesAt_append, valuesAt_cons, ← hsame.1, ← hsame.2, valuesAt_nil]
    split
    · next hposition =>
      rw [if_pos hposition] at hold
      cases hsum : leftSum? (valuesAt ts i j) with
      | none =>
        rw [hsum] at hold
        cases hold
      | some sum =>
        rw [hsum] at hold
        obtain ⟨rfl, hrest⟩ := List.cons.inj hold
        rw [hrest, leftSum?_concat hsum]
        rfl
    · next hposition =>
      rw [if_neg hposition] at hold
      rw [hold, List.append_nil]

theorem collects_foldl (h : ts.Pairwise (before · ·)) : Collects ts (ts.foldl absorb []) := by
  induction ts using List.reverseRecOn with
  | nil => exact ⟨.nil, fun _ _ => rfl⟩
  | append_singleton ts t ih =>
    obtain ⟨hts, -, hlast⟩ := List.pairwise_append.mp h
    have hcollects := ih hts
    have hbefore : ∀ s ∈ ts.foldl absorb [], s.position ≤ t.position := by
      intro s hs
      obtain ⟨s', hs', hrow, hcol⟩ := hcollects.exists_mem hs
      have hle := before_iff.mp (hlast s' hs' t (List.mem_singleton_self t))
      rwa [position, hrow, hcol] at hle
    rw [List.foldl_append, List.foldl_cons, List.foldl_nil]
    cases hacc : ts.foldl absorb [] with
    | nil =>
      rw [hacc] at hcollects
      exact hcollects.cons (by simp)
    | cons last rest =>
      rw [hacc] at hcollects hbefore
      by_cases hsame : last.samePosition t = true
      · simp only [absorb, hsame, if_true]
        exact hcollects.merge hsame
      · simp only [absorb, hsame]
        refine hcollects.cons fun s hs => ?_
        have hlt : last.position < t.position := by
          refine (hbefore last List.mem_cons_self).lt_of_ne fun heq => hsame ?_
          obtain ⟨hcol, hrow⟩ := Prod.mk.inj (toLex.injective heq)
          simp [samePosition, hcol, hrow]
        rcases List.mem_cons.mp hs with rfl | hs
        · exact hlt
        · exact ((List.pairwise_cons.mp hcollects.decreasing).1 s hs).trans hlt

theorem collects_mergeSort (ts : List (Triplet T)) :
    Collects (ts.mergeSort before) ((ts.mergeSort before).foldl absorb []) :=
  collects_foldl (List.pairwise_mergeSort before_trans before_total ts)

theorem collect_pairwise (ts : List (Triplet T)) :
    (collect ts).Pairwise (·.position < ·.position) :=
  List.pairwise_reverse.mpr (collects_mergeSort ts).decreasing

/-- At each position the values are added up in the order given. -/
theorem valuesAt_collect (ts : List (Triplet T)) (i j : ℕ) :
    valuesAt (collect ts) i j = (leftSum? (valuesAt ts i j)).toList := by
  have hsums := (collects_mergeSort ts).valuesAt_eq i j
  rw [valuesAt_mergeSort] at hsums
  have hreverse : valuesAt (collect ts) i j =
      (valuesAt ((ts.mergeSort before).foldl absorb []) i j).reverse := by
    simp [valuesAt, collect]
  rw [hreverse, hsums]
  cases leftSum? (valuesAt ts i j) with
  | none => rfl
  | some sum => rfl

theorem collect_within {rows cols : ℕ} (h : ∀ t ∈ ts, t.row < rows ∧ t.col < cols) :
    ∀ e ∈ collect ts, e.row < rows ∧ e.col < cols := by
  intro e he
  obtain ⟨t, ht, hrow, hcol⟩ := (collects_mergeSort ts).exists_mem (List.mem_reverse.mp he)
  rw [← hrow, ← hcol]
  exact h t (List.mem_mergeSort.mp ht)

end Triplet

namespace SparseMatrix

variable {T : Type} {rows cols i j : ℕ} {es ts : List (Triplet T)}

/-- The matrix that lists the entries in the order given. -/
def listing (rows cols : ℕ) (es : List (Triplet T)) : SparseMatrix T where
  rows := rows
  cols := cols
  colStarts := (List.range (cols + 1)).map fun j => es.countP (·.col < j)
  rowIndices := es.map (·.row)
  values := es.map (·.value)

theorem start_listing (hj : j ≤ cols) : (listing rows cols es).start j = es.countP (·.col < j) := by
  have hj' : j < cols + 1 := by omega
  simp [start, listing, hj']

theorem pairwise_col (hes : es.Pairwise (·.position < ·.position)) :
    es.Pairwise (·.col ≤ ·.col) := by
  refine hes.imp fun hlt => ?_
  rcases Triplet.position_lt_iff.mp hlt with hcol | ⟨hcol, -⟩
  · exact hcol.le
  · exact hcol.le

theorem span_listing (hes : es.Pairwise (·.position < ·.position)) (hj : j < cols) :
    span es ((listing rows cols es).start j) ((listing rows cols es).start (j + 1)) =
      es.filter (·.col == j) := by
  rw [start_listing hj.le, start_listing hj, span_countP (pairwise_col hes)]

/-- Its columns are made of the entries with their numbers. -/
theorem column_listing (hes : es.Pairwise (·.position < ·.position)) (hj : j < cols) :
    (listing rows cols es).column j =
      (es.filter (·.col == j)).map fun e => (e.row, e.value) := by
  have hentries : (listing rows cols es).entries = es.map fun e => (e.row, e.value) := by
    simp [entries, listing, List.zip_map']
  rw [column, hentries, ← map_span, span_listing hes hj]

theorem getElem?_listing_cols (rows : ℕ) (hcols : ∀ e ∈ es, e.col < cols) :
    (listing rows cols es).colStarts[cols]? = some (es.map (·.row)).length := by
  have hall : es.countP (·.col < cols) = es.length :=
    List.countP_eq_length.mpr fun e he => by simpa using hcols e he
  simp [listing, hall]

theorem inFormat_listing (hes : es.Pairwise (·.position < ·.position))
    (hwithin : ∀ e ∈ es, e.row < rows ∧ e.col < cols) : (listing rows cols es).InFormat := by
  have hchain : (listing rows cols es).colStarts.IsChain (· ≤ ·) := by
    refine (List.pairwise_map.mpr (List.pairwise_lt_range.imp fun hlt => ?_)).isChain
    refine List.countP_mono_left fun e _ hcol => ?_
    simp only [decide_eq_true_eq] at hcol ⊢
    omega
  refine inFormat_iff.mpr ⟨⟨?_, ?_, ?_⟩, hchain, ?_, ?_⟩
  · simp [listing]
  · simp [listing]
  · exact getElem?_listing_cols rows fun e he => (hwithin e he).2
  · intro j hj
    have hspan := congrArg (List.map (·.row)) (@span_listing T rows cols j es hes hj)
    rw [map_span] at hspan
    refine hspan ▸ List.pairwise_map.mpr (List.pairwise_filter.mpr (hes.imp ?_))
    intro s t hlt hs ht
    simp only [beq_iff_eq] at hs ht
    rcases Triplet.position_lt_iff.mp hlt with hcol | ⟨-, hrow⟩
    · omega
    · exact hrow
  · intro i hi
    obtain ⟨e, he, rfl⟩ := List.mem_map.mp hi
    exact (hwithin e he).1

/-- An entry is looked up by its position. -/
theorem lookup_listing (hes : es.Pairwise (·.position < ·.position))
    (hwithin : ∀ e ∈ es, e.row < rows ∧ e.col < cols) (hi : i < rows) (hj : j < cols)
    {value : Option T} (hvalue : Triplet.valuesAt es i j = value.toList) :
    entry? (listing rows cols es) i j = .ok value := by
  have hformat := inFormat_listing hes hwithin
  have hmem (v : T) : (i, v) ∈ (listing rows cols es).column j ↔ v ∈ value.toList := by
    rw [column_listing hes hj, ← hvalue, Triplet.mem_valuesAt]
    simp [and_assoc, and_comm]
  cases value with
  | none => exact hformat.lookup_eq_none hi hj fun v => by simp [hmem]
  | some v => exact hformat.lookup_eq_some hj ((hmem v).mpr (by simp))

variable [Scalar T]

theorem ofTriplets_eq_ok (hroom : cols + 1 < addressable)
    (hwithin : ∀ t ∈ ts, t.row < rows ∧ t.col < cols) :
    ofTriplets rows cols ts = .ok (listing rows cols (Triplet.collect ts)) := by
  have hall : ts.all (fun t => t.row < rows && t.col < cols) = true :=
    List.all_eq_true.mpr fun t ht => by simpa using hwithin t ht
  have hcollected : ∀ e ∈ Triplet.collect ts, e.col < cols := fun e he =>
    (Triplet.collect_within hwithin e he).2
  unfold ofTriplets
  simp only [hall, allocate_eq_ok hroom, ok_bind, Bool.not_true, Bool.false_eq_true, if_false]
  exact if_pos ⟨by simp, by simp, getElem?_listing_cols rows hcollected⟩

/-- A matrix with too many columns is not assembled, whatever its entries. -/
theorem ofTriplets_eq_error (hroom : addressable ≤ cols + 1)
    (hwithin : ∀ t ∈ ts, t.row < rows ∧ t.col < cols) :
    ofTriplets rows cols ts = .error .capacityOverflow := by
  have hall : ts.all (fun t => t.row < rows && t.col < cols) = true :=
    List.all_eq_true.mpr fun t ht => by simpa using hwithin t ht
  unfold ofTriplets
  simp only [hall, allocate, if_neg (not_lt.mpr hroom), Bool.not_true, Bool.false_eq_true,
    if_false]
  rfl

section Coordinates

variable {is js : List ℕ} {vs : List T}

/-- Of the values given in parallel with rows and columns, those for one position, in order. -/
def givenAt (is js : List ℕ) (vs : List T) (i j : ℕ) : List T :=
  ((is.zip js).zip vs).filterMap fun e => if e.1 = (i, j) then some e.2 else none

omit [Scalar T] in
/-- No value is given exactly for the positions that are not given. -/
theorem givenAt_eq_nil_iff (hcols : is.length = js.length) (hvalues : is.length = vs.length) :
    givenAt is js vs i j = [] ↔ (i, j) ∉ is.zip js := by
  have hpositions : ((is.zip js).zip vs).map Prod.fst = is.zip js :=
    List.map_fst_zip (by simp; omega)
  rw [← hpositions, List.mem_map, givenAt, List.filterMap_eq_nil_iff, not_exists]
  refine forall_congr' fun e => ?_
  rw [not_and, ite_eq_right_iff]
  simp

omit [Scalar T] in
theorem valuesAt_given (given : List ((ℕ × ℕ) × T)) (i j : ℕ) :
    Triplet.valuesAt (given.map fun e => ⟨e.1.1, e.1.2, e.2⟩) i j =
      given.filterMap fun e => if e.1 = (i, j) then some e.2 else none := by
  induction given with
  | nil => rfl
  | cons e given ih =>
    rw [List.map_cons, Triplet.valuesAt_cons, List.filterMap_cons, ih]
    by_cases h : e.1 = (i, j)
    · simp [h]
    · have h' : ¬ (e.1.1 = i ∧ e.1.2 = j) := fun hij => h (Prod.ext hij.1 hij.2)
      simp [h, h']

theorem ofCoordinates_eq (hcols : is.length = js.length) (hvalues : is.length = vs.length) :
    ofCoordinates rows cols is js vs =
      ofTriplets rows cols (((is.zip js).zip vs).map fun e => ⟨e.1.1, e.1.2, e.2⟩) := by
  rw [ofCoordinates, if_pos ⟨hcols, hvalues⟩, List.map_zip_eq_zipWith]
  rfl

/-- From entries within its bounds, in any order and with any repetitions, a matrix in format is
assembled. Under each position it has what the values given for it add up to from the left. Only a
list of column starts that would be too long stands in the way. -/
theorem ofCoordinates_spec (hcols : is.length = js.length) (hvalues : is.length = vs.length)
    (hrows : ∀ i ∈ is, i < rows) (hwithin : ∀ j ∈ js, j < cols) :
    (cols + 1 < addressable → ∃ A, ofCoordinates rows cols is js vs = .ok A ∧
      A.rows = rows ∧ A.cols = cols ∧ A.check = .ok () ∧ A.colStarts[0]? = some 0 ∧
      ∀ i j, i < rows → j < cols →
        ((i, j) ∉ is.zip js ↔ entry? A i j = .ok none) ∧
          entry? A i j = .ok (Triplet.leftSum? (givenAt is js vs i j))) ∧
    (addressable ≤ cols + 1 → ofCoordinates rows cols is js vs = .error .capacityOverflow) := by
  rw [ofCoordinates_eq hcols hvalues]
  generalize hts : ((is.zip js).zip vs).map (fun e => (⟨e.1.1, e.1.2, e.2⟩ : Triplet T)) = ts
  have hbounds : ∀ t ∈ ts, t.row < rows ∧ t.col < cols := by
    subst hts
    intro t ht
    obtain ⟨e, he, rfl⟩ := List.mem_map.mp ht
    obtain ⟨hi, hj⟩ := List.of_mem_zip (List.of_mem_zip he).1
    exact ⟨hrows _ hi, hwithin _ hj⟩
  have hpairwise := Triplet.collect_pairwise ts
  have hcollected := Triplet.collect_within hbounds
  refine ⟨fun hroom => ⟨_, ofTriplets_eq_ok hroom hbounds, rfl, rfl,
    inFormat_listing hpairwise hcollected, by simp [listing], fun i j hi hj => ?_⟩,
    fun hroom => ofTriplets_eq_error hroom hbounds⟩
  have hentry := lookup_listing hpairwise hcollected hi hj (Triplet.valuesAt_collect ts i j)
  rw [← hts, valuesAt_given, ← givenAt, hts] at hentry
  refine ⟨?_, hentry⟩
  rw [hentry, Except.ok.injEq, Triplet.leftSum?_eq_none_iff, givenAt_eq_nil_iff hcols hvalues]

end Coordinates

/-- Of the two values at the position `(1, 0)`, the first given comes first in the sum. -/
theorem ofCoordinates_spec_repeated : ∃ A : SparseMatrix ℝ,
    ofCoordinates 2 3 [1, 0, 1] [0, 2, 0] [1, 2, 3] = .ok A ∧ A.check = .ok () ∧
      A.colStarts[0]? = some 0 ∧ entry? A 1 0 = .ok (some (1 + 3)) ∧
      entry? A 0 2 = .ok (some 2) ∧ entry? A 1 1 = .ok none := by
  obtain ⟨A, hassembled, -, -, hcheck, hstart, hentries⟩ :=
    (@ofCoordinates_spec ℝ 2 3 _ [1, 0, 1] [0, 2, 0] [1, 2, 3] rfl rfl (by decide)
      (by decide)).1 (by decide)
  refine ⟨A, hassembled, hcheck, hstart, ?_, ?_, ?_⟩
  · exact (hentries 1 0 (by decide) (by decide)).2
  · exact (hentries 0 2 (by decide) (by decide)).2
  · exact (hentries 1 1 (by decide) (by decide)).2

/-- A matrix without entries that is not assembled. -/
theorem exists_ofCoordinates_refused : ∃ (rows cols : ℕ) (is js : List ℕ) (vs : List ℝ),
    is.length = js.length ∧ is.length = vs.length ∧ (∀ i ∈ is, i < rows) ∧ (∀ j ∈ js, j < cols) ∧
      ofCoordinates rows cols is js vs = .error .capacityOverflow :=
  ⟨1, addressable, [], [], [], rfl, rfl, by simp, by simp, rfl⟩

end SparseMatrix

end PrimalDual
