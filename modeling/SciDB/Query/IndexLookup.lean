import Mathlib

/-!
# Looking up values in an index

A part of the index is kept in memory (`LookupVector`); it bounds a second binary search in the index array.
`prepareIndexArray` sorts the index, unless the user says that it is sorted. Midpoints are rounded towards zero. A cell outside
of the open chunk cannot be read. Left out: nulls in the index.
-/

namespace SciDB.Query.IndexLookup

open List Option

/-- The index, with distinct values. -/
structure InputIndex (V : Type) where
  start : ℤ
  chunkInterval : ℕ
  values : List V
  interval_pos : 0 < chunkInterval
  distinct : values.Nodup

/-- The array that is searched. -/
structure IndexArray (V : Type) where
  start : ℤ
  chunkInterval : ℕ
  cells : List (V × ℤ)

/-- What memory limits decide. -/
structure MemoryLimits where
  keepsAll : Bool
  numOptionalValues : ℕ
  draw : ℕ → Bool

/-- An entry of `LookupVector`. -/
structure LookupElement (V : Type) where
  value : V
  positionInOriginalArray : ℤ
  positionInSortedArray : ℤ
deriving DecidableEq

variable {V : Type}

/-- Where the scan is. -/
structure VectorScan (V : Type) where
  vector : List (LookupElement V) := []
  optionalValuesInserted : ℕ := 0
  pending : Option (LookupElement V) := none

variable (A : IndexArray V)

variable (preSorted : Bool)

/-- The entry for cell `i`. -/
def IndexArray.element (i : ℕ) (cell : V × ℤ) : LookupElement V where
  value := cell.1
  positionInOriginalArray := if preSorted then A.start + i else cell.2
  positionInSortedArray := A.start + i

/-- One cell of the scan. -/
def IndexArray.scanCell (limits : MemoryLimits) (s : VectorScan V) (i : ℕ) (cell : V × ℤ) : VectorScan V :=
  if i % A.chunkInterval = 0 then
    -- the last element of the previous chunk, and the first one of this chunk
    { s with vector := s.vector ++ s.pending.toList ++ [A.element preSorted i cell], pending := none }
  else if limits.keepsAll || (decide (s.optionalValuesInserted < limits.numOptionalValues) && limits.draw i) then
    { vector := s.vector ++ [A.element preSorted i cell]
      optionalValuesInserted := s.optionalValuesInserted + 1
      pending := none }
  else { s with pending := some (A.element preSorted i cell) }

/-- The scan. -/
def IndexArray.scanCells (A : IndexArray V) (preSorted : Bool) (limits : MemoryLimits) :
    ℕ → List (V × ℤ) → VectorScan V → VectorScan V
  | _, [], s => s
  | i, cell :: cells, s => A.scanCells preSorted limits (i + 1) cells (A.scanCell preSorted limits s i cell)

/-- The vector of some values. -/
def IndexArray.buildLookupVector (limits : MemoryLimits) : List (LookupElement V) :=
  let s := A.scanCells preSorted limits 0 A.cells {}
  s.vector ++ s.pending.toList

/-- The entry for cell `i`. -/
def IndexArray.IsAt (e : LookupElement V) (i : ℕ) : Prop :=
  ∃ cell, A.cells[i]? = some cell ∧ e = A.element preSorted i cell

/-- Two entries that follow each other in the vector: their cells are neighbours or in one chunk. -/
def IndexArray.Linked (d e : LookupElement V) : Prop :=
  ∃ i j, A.IsAt preSorted d i ∧ A.IsAt preSorted e j ∧ i < j ∧ (j = i + 1 ∨ i / A.chunkInterval = j / A.chunkInterval)

/-- A vector of entries that goes from the first cell to the cell `m`. -/
structure IndexArray.Spans (A : IndexArray V) (preSorted : Bool) (vector : List (LookupElement V)) (m : ℕ) : Prop where
  cells : ∀ e ∈ vector, ∃ i, A.IsAt preSorted e i
  linked : vector.IsChain (A.Linked preSorted)
  first : ∃ e, vector.head? = some e ∧ A.IsAt preSorted e 0
  last : ∃ e, vector.getLast? = some e ∧ A.IsAt preSorted e m

variable {A : IndexArray V} {preSorted : Bool} {vector : List (LookupElement V)} {m j i chunk fuel r : ℕ}
  {cell a b : V × ℤ} {s : VectorScan V} {ix : InputIndex V} {v : V}

lemma IndexArray.Spans.append (h : A.Spans preSorted vector m) (hc : A.cells[j]? = some cell) (hlt : m < j)
    (hlink : j = m + 1 ∨ m / A.chunkInterval = j / A.chunkInterval) :
    A.Spans preSorted (vector ++ [A.element preSorted j cell]) j := by
  have hat : A.IsAt preSorted (A.element preSorted j cell) j := ⟨cell, hc, rfl⟩
  obtain ⟨e, he, hm⟩ := h.last
  obtain ⟨d, hd, h0⟩ := h.first
  refine ⟨?_, ?_, ⟨d, by simp [hd], h0⟩, ⟨_, getLast?_concat, hat⟩⟩
  · simpa [or_imp, forall_and] using ⟨h.cells, j, hat⟩
  · rw [isChain_append]
    refine ⟨h.linked, isChain_singleton _, ?_⟩
    rw [he]
    rintro _ ⟨⟩ _ ⟨⟩
    exact ⟨m, j, hm, hat, hlt, hlink⟩

/-- Before cell `i`: the vector ends with the last cell or with one of its chunk. -/
inductive IndexArray.Scanned (A : IndexArray V) (preSorted : Bool) : ℕ → VectorScan V → Prop where
  | nothing (k : ℕ) : A.Scanned preSorted 0 ⟨[], k, none⟩
  | added (i k : ℕ) (vector : List (LookupElement V)) :
    A.Spans preSorted vector i → A.Scanned preSorted (i + 1) ⟨vector, k, none⟩
  | pending (i m k : ℕ) (vector : List (LookupElement V)) (cell : V × ℤ) :
    A.Spans preSorted vector m → m < i → m / A.chunkInterval = i / A.chunkInterval → A.cells[i]? = some cell →
      A.Scanned preSorted (i + 1) ⟨vector, k, some (A.element preSorted i cell)⟩

lemma div_succ_of_mod_ne {k : ℕ} (h : (i + 1) % k ≠ 0) : (i + 1) / k = i / k := by
  rw [Nat.succ_div, if_neg, add_zero]
  exact fun hd => h (Nat.mod_eq_zero_of_dvd hd)

lemma IndexArray.Scanned.spans (h : A.Scanned preSorted (i + 1) s) : A.Spans preSorted (s.vector ++ s.pending.toList) i := by
  cases h with
  | added _ k vector hs => simpa using hs
  | pending _ m k vector cell hs hlt hchunk hc => exact hs.append hc hlt (.inr hchunk)

lemma IndexArray.Scanned.scanCell (limits : MemoryLimits) (h : A.Scanned preSorted i s)
    (hc : A.cells[i]? = some cell) : A.Scanned preSorted (i + 1) (A.scanCell preSorted limits s i cell) := by
  rw [IndexArray.scanCell]
  by_cases hfirst : i % A.chunkInterval = 0
  · rw [if_pos hfirst]
    apply Scanned.added
    cases i with
    | zero =>
      cases h with
      | nothing k =>
        have hat : A.IsAt preSorted (A.element preSorted 0 cell) 0 := ⟨cell, hc, rfl⟩
        exact ⟨by simpa using ⟨0, hat⟩, isChain_singleton _, ⟨_, rfl, hat⟩, ⟨_, rfl, hat⟩⟩
    | succ i => exact h.spans.append hc (Nat.lt_succ_self i) (.inl rfl)
  · rw [if_neg hfirst]
    cases i with
    | zero => exact absurd (Nat.zero_mod _) hfirst
    | succ i =>
      -- the chunk of this cell has begun, and the vector reaches into it
      have hchunk := div_succ_of_mod_ne hfirst
      cases h with
      | added _ k vector hs =>
        split
        · exact .added _ _ _ (hs.append hc (Nat.lt_succ_self i) (.inl rfl))
        · exact .pending _ i _ _ _ hs (Nat.lt_succ_self i) hchunk.symm hc
      | pending _ m k vector cell' hs hlt hm hc' =>
        split
        · exact .added _ _ _ (hs.append hc (hlt.trans (Nat.lt_succ_self i)) (.inr (hm.trans hchunk.symm)))
        · exact .pending _ m _ _ _ hs (hlt.trans (Nat.lt_succ_self i)) (hm.trans hchunk.symm) hc

lemma IndexArray.Scanned.scanCells {cells : List (V × ℤ)} (limits : MemoryLimits) (h : A.Scanned preSorted i s)
    (hc : A.cells.drop i = cells) : A.Scanned preSorted (i + cells.length) (A.scanCells preSorted limits i cells s) := by
  induction cells generalizing i s with
  | nil => exact h
  | cons cell cells ih =>
    have hi : A.cells[i]? = some cell := by
      rw [← head?_drop, hc]
      rfl
    have := ih (h.scanCell limits hi) (by rw [← drop_drop, hc]; rfl)
    rwa [add_right_comm, add_assoc] at this

open IndexArray

/-- **The vector goes from the first to the last cell**; its neighbours are neighbours of the index or lie in one chunk. -/
lemma buildLookupVector_built (A : IndexArray V) (preSorted : Bool) (limits : MemoryLimits) :
    A.cells = [] ∧ A.buildLookupVector preSorted limits = [] ∨
      0 < A.cells.length ∧ A.Spans preSorted (A.buildLookupVector preSorted limits) (A.cells.length - 1) := by
  have h : A.Scanned preSorted _ _ := (IndexArray.Scanned.nothing 0).scanCells limits rfl
  rw [zero_add, drop_zero] at h
  rcases hn : A.cells with _ | ⟨cell, cells⟩
  · left
    refine ⟨rfl, ?_⟩
    rw [buildLookupVector, hn]
    rfl
  · right
    refine ⟨Nat.succ_pos _, ?_⟩
    rw [hn, length_cons] at h
    rw [buildLookupVector, hn]
    exact h.spans

/-- Values with coordinates. -/
def InputIndex.dimApplied (ix : InputIndex V) : List (V × ℤ) :=
  ix.values.zipIdx.map fun p => (p.1, ix.start + p.2)

lemma mem_dimApplied : cell ∈ ix.dimApplied ↔ ∃ i : ℕ, ix.values[i]? = some cell.1 ∧ cell.2 = ix.start + i := by
  obtain ⟨v, c⟩ := cell
  simp [InputIndex.dimApplied, mem_zipIdx_iff_getElem?, eq_comm]

lemma map_fst_dimApplied (ix : InputIndex V) : ix.dimApplied.map Prod.fst = ix.values := by
  rw [InputIndex.dimApplied, List.map_map]
  exact zipIdx_map_fst 0 ix.values

lemma dimApplied_direct (h : ix.dimApplied[i]? = some cell) : cell.2 = ix.start + i := by
  rw [InputIndex.dimApplied, getElem?_map, getElem?_zipIdx, Option.map_map] at h
  obtain ⟨v, -, rfl⟩ := map_eq_some_iff.mp h
  simp

def IndexArray.Direct (A : IndexArray V) (preSorted : Bool) : Prop :=
  preSorted = true → ∀ (i : ℕ) (cell : V × ℤ), A.cells[i]? = some cell → cell.2 = A.start + i

lemma IndexArray.Direct.element_original (h : A.Direct preSorted) (hc : A.cells[i]? = some cell) :
    (A.element preSorted i cell).positionInOriginalArray = cell.2 := by
  cases preSorted with
  | true => exact (h rfl i cell hc).symm
  | false => rfl

variable [LinearOrder V]

/-- `prepareIndexArray`; the array that `SortArray` returns starts at 0. -/
def InputIndex.prepareIndexArray (ix : InputIndex V) (preSorted : Bool) : IndexArray V :=
  if preSorted then ⟨ix.start, ix.chunkInterval, ix.dimApplied⟩
  else ⟨0, ix.chunkInterval, ix.dimApplied.insertionSort fun a b => a.1 ≤ b.1⟩

/-- Whether the value is found, with `lb` and `ub`, from `std::lower_bound`. -/
def findElement (preSorted : Bool) (vector : List (LookupElement V)) (v : V) : Bool × ℤ × ℤ :=
  match vector.dropWhile fun e => decide (e.value < v) with
  | [] => (false, 0, -1)
  | e :: _ =>
    if e.value = v then (true, e.positionInOriginalArray, e.positionInOriginalArray)
    else match (vector.takeWhile fun e => decide (e.value < v)).getLast? with
      | none => (false, 0, -1)
      | some d =>
        if preSorted then (false, d.positionInOriginalArray, e.positionInOriginalArray)
        else (false, d.positionInSortedArray, e.positionInSortedArray)

inductive IteratorError where
  | noCurrentElement
deriving DecidableEq

variable (A)

/-- The chunk of a coordinate. -/
def IndexArray.getChunkPositionFor (pos : ℤ) : ℤ :=
  let diff := (pos - A.start).tmod A.chunkInterval
  pos - (if diff < 0 then diff + A.chunkInterval else diff)

/-- Reads a cell of a chunk. -/
def IndexArray.getItem (chunkPos pos : ℤ) : Option (V × ℤ) :=
  if chunkPos ≤ pos ∧ pos < chunkPos + A.chunkInterval ∧ A.start ≤ pos then A.cells[(pos - A.start).toNat]? else none

def IndexArray.findPositionLoop (A : IndexArray V) (preSorted : Bool) (chunkPos : ℤ) (input : V) :
    ℕ → ℤ → ℤ → Option (Except IteratorError (Option ℤ))
  | 0, _, _ => none
  | fuel + 1, start, stop =>
    if start < stop then
      let midPoint := (start + stop).tdiv 2
      match A.getItem chunkPos midPoint with
      | none => some (.error .noCurrentElement)
      | some (item, position) =>
        if item = input then some (.ok (some (if preSorted then midPoint else position)))
        else if input < item then A.findPositionLoop preSorted chunkPos input fuel start midPoint
        else A.findPositionLoop preSorted chunkPos input fuel (midPoint + 1) stop
    else some (.ok none)

/-- Searches the array. -/
def IndexArray.findPositionInArray (preSorted : Bool) (currentChunkPosition : Option ℤ) (input : V)
    (fuel : ℕ) (start stop : ℤ) : Option (Except IteratorError (Option ℤ) × Option ℤ) :=
  let chunkPos := A.getChunkPositionFor start
  let opened := match currentChunkPosition with
    | none => chunkPos
    | some current => if current ≠ chunkPos then chunkPos else current
  (A.findPositionLoop preSorted opened input fuel start stop).map fun answer => (answer, some opened)

/-- `ValueIndex::findPosition`. -/
def IndexArray.findPosition (preSorted : Bool) (vector : List (LookupElement V))
    (currentChunkPosition : Option ℤ) (input : V) (fuel : ℕ) : Option (Except IteratorError (Option ℤ) × Option ℤ) :=
  match findElement preSorted vector input with
  | (true, lb, _) => some (.ok (some lb), currentChunkPosition)
  | (false, lb, ub) =>
    if ub < lb then some (.ok none, currentChunkPosition)
    else A.findPositionInArray preSorted currentChunkPosition input fuel lb ub

variable {A}

/-- The coordinate of a value. -/
def InputIndex.Locates (ix : InputIndex V) (v : V) (answer : Option ℤ) : Prop :=
  ∀ c, answer = some c ↔ ∃ i : ℕ, ix.values[i]? = some v ∧ c = ix.start + i

/-- `findPosition` returns the coordinate of the value or its absence. -/
def InputIndex.FindsExactly (ix : InputIndex V) (preSorted : Bool) (limits : MemoryLimits) (v : V) : Prop :=
  let A := ix.prepareIndexArray preSorted
  ∀ current, ∃ rounds, ∀ fuel, rounds ≤ fuel → ∃ answer current',
    A.findPosition preSorted (A.buildLookupVector preSorted limits) current v fuel = some (.ok answer, current') ∧
      ix.Locates v answer

def IndexArray.Increasing (A : IndexArray V) : Prop := A.cells.Pairwise fun a b => a.1 < b.1

section

variable (h : A.Increasing) (ha : A.cells[i]? = some a) (hb : A.cells[j]? = some b)

include h ha hb

lemma IndexArray.Increasing.lt (hij : i < j) : a.1 < b.1 := by
  obtain ⟨hi, rfl⟩ := List.getElem?_eq_some_iff.mp ha
  obtain ⟨hj, rfl⟩ := List.getElem?_eq_some_iff.mp hb
  exact pairwise_iff_getElem.mp h i j hi hj hij

lemma IndexArray.Increasing.le (hij : i ≤ j) : a.1 ≤ b.1 := by
  rcases Nat.lt_or_eq_of_le hij with hij | rfl
  · exact (h.lt ha hb hij).le
  · rw [ha] at hb
    cases hb
    exact le_rfl

end

lemma IndexArray.Increasing.eq_of_fst (h : A.Increasing) {c d : ℤ} (hc : (v, c) ∈ A.cells) (hd : (v, d) ∈ A.cells) : c = d := by
  obtain ⟨i, hi⟩ := mem_iff_getElem?.mp hc
  obtain ⟨j, hj⟩ := mem_iff_getElem?.mp hd
  rcases Nat.lt_trichotomy i j with hij | rfl | hij
  · exact absurd (h.lt hi hj hij) (lt_irrefl v)
  · rw [hi] at hj
    cases hj
    rfl
  · exact absurd (h.lt hj hi hij) (lt_irrefl v)

lemma mem_prepareIndexArray :
    cell ∈ (ix.prepareIndexArray preSorted).cells ↔ ∃ i : ℕ, ix.values[i]? = some cell.1 ∧ cell.2 = ix.start + i := by
  rw [← mem_dimApplied]
  cases preSorted with
  | true => exact Iff.rfl
  | false => exact (perm_insertionSort _ _).mem_iff

lemma direct_prepareIndexArray (ix : InputIndex V) (preSorted : Bool) : (ix.prepareIndexArray preSorted).Direct preSorted := by
  intro hp i cell h
  subst hp
  exact dimApplied_direct h

lemma increasing_prepareIndexArray (h : preSorted = true → ix.values.Pairwise (· < ·)) :
    (ix.prepareIndexArray preSorted).Increasing := by
  cases preSorted with
  | true =>
    have hv := h rfl
    rwa [← map_fst_dimApplied, pairwise_map] at hv
  | false =>
    -- the sorted values increase weakly, and they are distinct
    have hsorted : (ix.dimApplied.insertionSort fun a b => a.1 ≤ b.1).Pairwise fun a b => a.1 ≤ b.1 := by
      have : Std.Total fun a b : V × ℤ => a.1 ≤ b.1 := ⟨fun a b => le_total a.1 b.1⟩
      have : IsTrans (V × ℤ) fun a b => a.1 ≤ b.1 := ⟨fun a b c => le_trans⟩
      exact pairwise_insertionSort _ _
    have hdistinct : (ix.dimApplied.insertionSort fun a b => a.1 ≤ b.1).Pairwise fun a b => a.1 ≠ b.1 := by
      have hnodup := ix.distinct
      rw [← map_fst_dimApplied] at hnodup
      have := ((perm_insertionSort (fun a b : V × ℤ => a.1 ≤ b.1) ix.dimApplied).map Prod.fst).nodup_iff.mpr hnodup
      exact pairwise_map.mp this
    exact (hsorted.and hdistinct).imp fun ⟨hle, hne⟩ => lt_of_le_of_ne hle hne

inductive IndexArray.Narrows (A : IndexArray V) (v : V) : Bool × ℤ × ℤ → Prop where
  | found (cell : V × ℤ) : cell ∈ A.cells → cell.1 = v → A.Narrows v (true, cell.2, cell.2)
  | outOfRange : (∀ cell ∈ A.cells, cell.1 < v) ∨ (∀ cell ∈ A.cells, v < cell.1) → A.Narrows v (false, 0, -1)
  | between (i j : ℕ) (a b : V × ℤ) : A.cells[i]? = some a → A.cells[j]? = some b → a.1 < v → v < b.1 → i < j →
    (j = i + 1 ∨ i / A.chunkInterval = j / A.chunkInterval) → A.Narrows v (false, A.start + i, A.start + j)

lemma findElement_narrows (hinc : A.Increasing) (hdir : A.Direct preSorted) (limits : MemoryLimits) (v : V) :
    A.Narrows v (findElement preSorted (A.buildLookupVector preSorted limits) v) := by
  rcases buildLookupVector_built A preSorted limits with ⟨hnil, hvec⟩ | ⟨hpos, hspans⟩
  · rw [hvec]
    refine .outOfRange (.inl ?_)
    rw [hnil]
    exact fun cell hc => absurd hc not_mem_nil
  · generalize A.buildLookupVector preSorted limits = vector at hspans ⊢
    have hcut : vector.takeWhile (fun e => decide (e.value < v)) ++ vector.dropWhile (fun e => decide (e.value < v)) = vector :=
      takeWhile_append_dropWhile
    have hbelow : ∀ d ∈ vector.takeWhile (fun e => decide (e.value < v)), d.value < v :=
      fun d hd => by simpa using mem_takeWhile_imp hd
    rw [findElement]
    generalize vector.takeWhile (fun e => decide (e.value < v)) = below at hcut hbelow ⊢
    rcases hdrop : vector.dropWhile fun e => decide (e.value < v) with _ | ⟨e, rest⟩ <;> rw [hdrop] at hcut
    · rw [hdrop]
      refine .outOfRange (.inl ?_)
      -- the last cell is in the vector, and all others are less
      obtain ⟨l, hl, last, hlast, rfl⟩ := hspans.last
      rw [← hcut, append_nil] at hl
      have hlt : last.1 < v := hbelow _ (mem_of_getLast? hl)
      intro cell hc
      obtain ⟨i, hi⟩ := mem_iff_getElem?.mp hc
      exact (hinc.le hi hlast (Nat.le_sub_one_of_lt (List.getElem?_eq_some_iff.mp hi).1)).trans_lt hlt
    · have he : ¬e.value < v := by
        have := head_dropWhile_not (fun e : LookupElement V => decide (e.value < v)) (l := vector) (by simp [hdrop])
        simpa [hdrop] using this
      rw [← hcut] at hspans
      rw [hdrop]
      dsimp only
      by_cases hv : e.value = v
      · obtain ⟨j, cell, hj, rfl⟩ := hspans.cells e (by simp)
        rw [if_pos hv, hdir.element_original hj]
        exact .found cell (mem_of_getElem? hj) hv
      · rw [if_neg hv]
        have hlt : v < e.value := lt_of_le_of_ne (not_lt.mp he) (Ne.symm hv)
        rcases hlast : below.getLast? with _ | d
        · -- the first cell is greater, and with it all others
          refine .outOfRange (.inr ?_)
          rw [getLast?_eq_none_iff.mp hlast] at hspans
          obtain ⟨f, hf, first, hfirst, rfl⟩ := hspans.first
          cases hf
          intro cell hc
          obtain ⟨i, hi⟩ := mem_iff_getElem?.mp hc
          exact hlt.trans_le (hinc.le hfirst hi (Nat.zero_le i))
        · have hlink : A.Linked preSorted d e :=
            (isChain_append.mp hspans.linked).2.2 d hlast e rfl
          have hd : d.value < v := hbelow d (mem_of_getLast? hlast)
          obtain ⟨i, j, ⟨a, ha, rfl⟩, ⟨b, hb, rfl⟩, hij, hchunk⟩ := hlink
          have hab := IndexArray.Narrows.between i j a b ha hb hd hlt hij hchunk
          cases preSorted with
          | true => exact hab
          | false => exact hab

omit [LinearOrder V] in
lemma getChunkPositionFor_cell (A : IndexArray V) (i : ℕ) :
    A.getChunkPositionFor (A.start + i) = A.start + (i / A.chunkInterval * A.chunkInterval : ℕ) := by
  have hdiff : (A.start + i - A.start).tmod A.chunkInterval = ((i % A.chunkInterval : ℕ) : ℤ) := by
    rw [show A.start + (i : ℤ) - A.start = i by omega]
    rfl
  have hdiv := Nat.div_add_mod' i A.chunkInterval
  rw [IndexArray.getChunkPositionFor, hdiff, if_neg (by omega)]
  omega

omit [LinearOrder V] in
lemma getItem_cell (hlo : chunk ≤ m) (hhi : m < chunk + A.chunkInterval) :
    A.getItem (A.start + chunk) (A.start + m) = A.cells[m]? := by
  rw [IndexArray.getItem, if_pos (by omega), show (A.start + m - A.start).toNat = m by omega]

lemma midPoint_nonneg {s : ℤ} (hs : 0 ≤ s) (l r : ℕ) : (s + l + (s + r)).tdiv 2 = s + ((l + r) / 2 : ℕ) := by
  rw [Int.tdiv_eq_ediv_of_nonneg (by omega)]
  omega

/-- **The search returns**, from coordinates that are not negative. -/
lemma findPositionLoop_exact (hinc : A.Increasing) (hdir : A.Direct preSorted) (hstart : 0 ≤ A.start) {l : ℕ}
    (hlr : l ≤ r) (hfuel : r < l + fuel) (hl : chunk ≤ l) (hr : r ≤ chunk + A.chunkInterval)
    (hlen : r ≤ A.cells.length) (hbelow : ∀ i < l, ∀ cell, A.cells[i]? = some cell → cell.1 < v)
    (habove : ∀ i ≥ r, ∀ cell, A.cells[i]? = some cell → v < cell.1) :
    ∃ answer, A.findPositionLoop preSorted (A.start + chunk) v fuel (A.start + l) (A.start + r) = some (.ok answer) ∧
      ∀ c, answer = some c ↔ (v, c) ∈ A.cells := by
  induction fuel generalizing l r with
  | zero => omega
  | succ fuel ih =>
    rw [findPositionLoop]
    by_cases hlt : l < r
    · rw [if_pos (by omega), midPoint_nonneg hstart]
      dsimp only
      rw [getItem_cell (by omega) (by omega)]
      obtain ⟨⟨item, position⟩, hitem⟩ : ∃ cell, A.cells[(l + r) / 2]? = some cell := ⟨_, getElem?_eq_getElem (by omega)⟩
      rw [hitem]
      dsimp only
      by_cases heq : item = v
      · subst heq
        have hposition : (if preSorted then A.start + ((l + r) / 2 : ℕ) else position) = position := by
          cases preSorted with
          | true => exact (hdir rfl _ _ hitem).symm
          | false => rfl
        rw [if_pos rfl, hposition]
        refine ⟨some position, rfl, fun c => ⟨?_, ?_⟩⟩
        · rintro ⟨⟩
          exact mem_of_getElem? hitem
        · intro hc
          rw [hinc.eq_of_fst hc (mem_of_getElem? hitem)]
      · rw [if_neg heq]
        by_cases hless : v < item
        · rw [if_pos hless]
          apply ih (by omega) (by omega) hl (by omega) (by omega) hbelow
          intro i hi cell hc
          exact hless.trans_le (hinc.le hitem hc hi)
        · have hgreater : item < v := lt_of_le_of_ne (not_lt.mp hless) heq
          rw [if_neg hless, show A.start + ((l + r) / 2 : ℕ) + 1 = A.start + ((l + r) / 2 + 1 : ℕ) by omega]
          apply ih (by omega) (by omega) (by omega) hr hlen _ habove
          intro i hi cell hc
          exact (hinc.le hc hitem (Nat.lt_succ_iff.mp hi)).trans_lt hgreater
    · rw [if_neg (by omega)]
      refine ⟨none, rfl, fun c => ⟨nofun, fun hc => ?_⟩⟩
      obtain ⟨i, hi⟩ := mem_iff_getElem?.mp hc
      rcases Nat.lt_or_ge i l with h | h
      · exact absurd (hbelow i h _ hi) (lt_irrefl v)
      · exact absurd (habove i (by omega) _ hi) (lt_irrefl v)

lemma findPositionInArray_eq (A : IndexArray V) (preSorted : Bool) (current : Option ℤ) (v : V) (fuel : ℕ) (start stop : ℤ) :
    A.findPositionInArray preSorted current v fuel start stop =
      (A.findPositionLoop preSorted (A.getChunkPositionFor start) v fuel start stop).map fun answer =>
        (answer, some (A.getChunkPositionFor start)) := by
  rcases current with _ | c
  · rfl
  · by_cases h : c = A.getChunkPositionFor start <;> simp [IndexArray.findPositionInArray, h]

/-- **The lookup in an array** with coordinates that are not negative, or with at most one cell. -/
lemma findPosition_exact (hk : 0 < A.chunkInterval) (hinc : A.Increasing) (hdir : A.Direct preSorted)
    (hstart : 0 ≤ A.start ∨ A.cells.length ≤ 1) (limits : MemoryLimits) (current : Option ℤ) (v : V)
    (hfuel : A.cells.length < fuel) :
    ∃ answer current', A.findPosition preSorted (A.buildLookupVector preSorted limits) current v fuel =
      some (.ok answer, current') ∧ ∀ c, answer = some c ↔ (v, c) ∈ A.cells := by
  rw [findPosition]
  have hnarrows := findElement_narrows hinc hdir limits v
  generalize findElement preSorted (A.buildLookupVector preSorted limits) v = narrowed at hnarrows ⊢
  cases hnarrows with
  | found cell hc hv =>
    subst hv
    refine ⟨_, _, rfl, fun c => ⟨?_, ?_⟩⟩
    · rintro ⟨⟩
      exact hc
    · intro hmem
      rw [hinc.eq_of_fst hmem hc]
  | outOfRange habsent =>
    refine ⟨none, current, rfl, fun c => ⟨nofun, fun hc => ?_⟩⟩
    rcases habsent with hless | hgreater
    · exact absurd (hless _ hc) (lt_irrefl v)
    · exact absurd (hgreater _ hc) (lt_irrefl v)
  | between i j a b ha hb hav hvb hij hchunk =>
    have hj := (List.getElem?_eq_some_iff.mp hb).1
    have hnonneg : 0 ≤ A.start := hstart.resolve_right (by omega)
    have hdiv := Nat.div_add_mod' i A.chunkInterval
    have hmod := Nat.mod_lt i hk
    have hend : j ≤ i / A.chunkInterval * A.chunkInterval + A.chunkInterval := by
      rcases hchunk with rfl | hchunk
      · omega
      · have hdiv' := Nat.div_add_mod' j A.chunkInterval
        have hmod' := Nat.mod_lt j hk
        rw [← hchunk] at hdiv'
        omega
    obtain ⟨answer, hanswer, hspec⟩ := @findPositionLoop_exact V A preSorted
      (i / A.chunkInterval * A.chunkInterval) fuel j v _ hinc hdir hnonneg i hij.le (by omega) (by omega) hend hj.le
      (fun m hm cell hc => (hinc.lt hc ha hm).trans hav) (fun m hm cell hc => hvb.trans_le (hinc.le hb hc hm))
    dsimp only
    rw [if_neg (by omega), findPositionInArray_eq, getChunkPositionFor_cell, hanswer]
    exact ⟨answer, _, rfl, hspec⟩

lemma midPoint_neg {s : ℤ} (hs : s < 0) (hr : 0 < r) : ∃ m : ℕ, 0 < m ∧ m ≤ r ∧ (s + (s + r)).tdiv 2 = s + m := by
  rcases lt_or_ge (s + (s + r)) 0 with h | h
  · refine ⟨(r + 1) / 2, by omega, by omega, ?_⟩
    have hneg : (s + (s + r)).tdiv 2 = -((-(s + (s + r))).tdiv 2) := by
      rw [Int.neg_tdiv, Int.neg_neg]
    rw [hneg, Int.tdiv_eq_ediv_of_nonneg (by omega)]
    omega
  · refine ⟨r / 2, by omega, by omega, ?_⟩
    rw [Int.tdiv_eq_ediv_of_nonneg h]
    omega

/-- From a negative coordinate a value between the first two cells is **never** answered. -/
lemma findPositionLoop_stuck (hstart : A.start < 0) (chunkPos : ℤ)
    (habove : ∀ i > 0, ∀ cell, A.cells[i]? = some cell → v < cell.1) (fuel : ℕ) (hr : 0 < r) (answer : Option ℤ) :
    A.findPositionLoop preSorted chunkPos v fuel A.start (A.start + r) ≠ some (.ok answer) := by
  induction fuel generalizing r with
  | zero => exact nofun
  | succ fuel ih =>
    obtain ⟨m, hm, hmr, hmid⟩ := midPoint_neg hstart hr
    rw [findPositionLoop, if_pos (by omega), hmid]
    dsimp only
    rw [getItem]
    by_cases hopen : chunkPos ≤ A.start + m ∧ A.start + m < chunkPos + A.chunkInterval ∧ A.start ≤ A.start + m
    · rw [if_pos hopen, show (A.start + m - A.start).toNat = m by omega]
      rcases hitem : A.cells[m]? with _ | ⟨item, position⟩
      · exact nofun
      · have hless : v < item := habove m hm _ hitem
        dsimp only
        rw [if_neg hless.ne', if_pos hless]
        exact ih hm
    · rw [if_neg hopen]
      exact nofun

lemma findPosition_stuck (hinc : A.Increasing) (hdir : A.Direct preSorted) (hstart : A.start < 0)
    (limits : MemoryLimits) (current : Option ℤ) (ha : A.cells[0]? = some a) (hb : A.cells[1]? = some b)
    (hav : a.1 < v) (hvb : v < b.1) (fuel : ℕ) (answer current' : Option ℤ) :
    A.findPosition preSorted (A.buildLookupVector preSorted limits) current v fuel ≠ some (.ok answer, current') := by
  have habove : ∀ i > 0, ∀ cell, A.cells[i]? = some cell → v < cell.1 := fun i hi cell hc => hvb.trans_le (hinc.le hb hc hi)
  rw [findPosition]
  have hnarrows := findElement_narrows hinc hdir limits v
  generalize findElement preSorted (A.buildLookupVector preSorted limits) v = narrowed at hnarrows ⊢
  cases hnarrows with
  | found cell hc hv =>
    obtain ⟨i, hi⟩ := mem_iff_getElem?.mp hc
    rcases Nat.eq_zero_or_pos i with rfl | hpos
    · rw [ha] at hi
      cases hi
      exact absurd hv hav.ne
    · exact absurd hv (habove i hpos cell hi).ne'
  | outOfRange habsent =>
    rcases habsent with hless | hgreater
    · exact absurd (hless b (mem_of_getElem? hb)) (lt_asymm hvb)
    · exact absurd (hgreater a (mem_of_getElem? ha)) (lt_asymm hav)
  | between i j c d hc hd hcv hvd hij hchunk =>
    have hi : i = 0 := by
      by_contra hi
      exact lt_asymm hcv (habove i (pos_of_ne_zero hi) c hc)
    subst hi
    dsimp only
    rw [if_neg (by omega), findPositionInArray_eq]
    intro h
    obtain ⟨r, hr, he⟩ := map_eq_some_iff.mp h
    cases he
    exact findPositionLoop_stuck hstart _ habove fuel hij answer (by simpa using hr)

lemma chunkInterval_prepareIndexArray (ix : InputIndex V) (preSorted : Bool) :
    (ix.prepareIndexArray preSorted).chunkInterval = ix.chunkInterval := by
  cases preSorted <;> rfl

lemma length_prepareIndexArray (ix : InputIndex V) (preSorted : Bool) :
    (ix.prepareIndexArray preSorted).cells.length = ix.values.length := by
  have hlen : ix.dimApplied.length = ix.values.length := by
    rw [← map_fst_dimApplied ix, length_map]
  cases preSorted with
  | true => exact hlen
  | false => exact (length_insertionSort _ _).trans hlen

lemma findsExactly_of_nonneg (hsorted : preSorted = true → ix.values.Pairwise (· < ·))
    (hstart : preSorted = false ∨ 0 ≤ ix.start ∨ ix.values.length ≤ 1) (limits : MemoryLimits) (v : V) :
    ix.FindsExactly preSorted limits v := by
  intro current
  have hk : 0 < (ix.prepareIndexArray preSorted).chunkInterval := by
    rw [chunkInterval_prepareIndexArray]
    exact ix.interval_pos
  have hnonneg : 0 ≤ (ix.prepareIndexArray preSorted).start ∨ (ix.prepareIndexArray preSorted).cells.length ≤ 1 := by
    rw [length_prepareIndexArray]
    rcases hstart with rfl | hstart | hone
    · exact .inl le_rfl
    · cases preSorted with
      | true => exact .inl hstart
      | false => exact .inl le_rfl
    · exact .inr hone
  refine ⟨(ix.prepareIndexArray preSorted).cells.length + 1, fun fuel hfuel => ?_⟩
  obtain ⟨answer, current', hfind, hspec⟩ := findPosition_exact hk (increasing_prepareIndexArray hsorted)
    (direct_prepareIndexArray ix preSorted) hnonneg limits current v hfuel
  refine ⟨answer, current', hfind, fun c => ?_⟩
  rw [hspec, mem_prepareIndexArray]

/-- The even numbers. -/
def evenIndex (start : ℤ) (chunkInterval n : ℕ) (h : 0 < chunkInterval) : InputIndex ℕ where
  start := start
  chunkInterval := chunkInterval
  values := (List.range n).map (2 * ·)
  interval_pos := h
  distinct := List.nodup_range.map fun _ _ h => Nat.eq_of_mul_eq_mul_left Nat.two_pos h

lemma evenIndex_increasing (start : ℤ) (chunkInterval n : ℕ) (h : 0 < chunkInterval) :
    (evenIndex start chunkInterval n h).values.Pairwise (· < ·) := by
  rw [evenIndex, pairwise_map]
  exact pairwise_lt_range.imp fun hlt => by omega

lemma evenIndex_not_finds {start : ℤ} {chunkInterval n : ℕ} (h : 0 < chunkInterval) (hstart : start < 0)
    (hn : 1 < n) (limits : MemoryLimits) : ¬(evenIndex start chunkInterval n h).FindsExactly true limits 1 := by
  intro hfinds
  obtain ⟨rounds, hrounds⟩ := hfinds none
  obtain ⟨answer, current', hfind, -⟩ := hrounds rounds le_rfl
  have hcell : ∀ i < n, ((evenIndex start chunkInterval n h).prepareIndexArray true).cells[i]? =
      some (2 * i, start + i) := by
    intro i hi
    change (evenIndex start chunkInterval n h).dimApplied[i]? = _
    simp [InputIndex.dimApplied, evenIndex, hi]
  exact findPosition_stuck (increasing_prepareIndexArray fun _ => evenIndex_increasing start chunkInterval n h)
    (direct_prepareIndexArray _ true) hstart limits none (hcell 0 (by omega)) (hcell 1 hn) Nat.zero_lt_one Nat.one_lt_two
    rounds answer current' hfind

/-- **When `index_lookup` finds exactly**: if the operator sorts the index, it begins at or above 0, or has at most one value. -/
theorem findPosition_exact_iff (preSorted : Bool) (start : ℤ) (chunkInterval n : ℕ) (hk : 0 < chunkInterval)
    (limits : MemoryLimits) :
    (∀ (W : Type) [LinearOrder W] (ix : InputIndex W), ix.start = start → ix.chunkInterval = chunkInterval →
      ix.values.length = n → (preSorted = true → ix.values.Pairwise (· < ·)) →
      ∀ v, ix.FindsExactly preSorted limits v) ↔ preSorted = false ∨ 0 ≤ start ∨ n ≤ 1 := by
  constructor
  · intro h
    by_contra hcon
    simp only [not_or, Bool.not_eq_false, not_le] at hcon
    obtain ⟨rfl, hstart, hn⟩ := hcon
    refine evenIndex_not_finds hk hstart hn limits ?_
    exact h ℕ (evenIndex start chunkInterval n hk) rfl rfl (by simp [evenIndex])
      (fun _ => evenIndex_increasing start chunkInterval n hk) 1
  · rintro hcond W _ ix rfl rfl rfl hsorted v
    exact findsExactly_of_nonneg hsorted hcond limits v

/-- At −3 and −2, the midpoint −2.5 becomes −2, and the search goes on for ever. -/
theorem evenIndex_search_endless : ((evenIndex (-3) 5 2 (by decide)).prepareIndexArray true).findPosition true
      (((evenIndex (-3) 5 2 (by decide)).prepareIndexArray true).buildLookupVector true ⟨false, 0, fun _ => false⟩)
      none 1 = fun _ => none := by
  funext fuel
  have hloop : ((evenIndex (-3) 5 2 (by decide)).prepareIndexArray true).findPositionLoop true (-3) 1 fuel (-3) (-2) =
      none := by
    induction fuel with
    | zero => rfl
    | succ fuel ih => exact ih
  have hfind : ((evenIndex (-3) 5 2 (by decide)).prepareIndexArray true).findPosition true
      (((evenIndex (-3) 5 2 (by decide)).prepareIndexArray true).buildLookupVector true ⟨false, 0, fun _ => false⟩)
      none 1 fuel = (((evenIndex (-3) 5 2 (by decide)).prepareIndexArray true).findPositionLoop true (-3) 1 fuel
        (-3) (-2)).map fun answer => (answer, some (-3)) := rfl
  rw [hfind, hloop]
  rfl

theorem evenIndex_finds : (evenIndex 0 5 2 (by decide)).FindsExactly true ⟨false, 0, fun _ => false⟩ 1 := by
  have h := (findPosition_exact_iff true 0 5 2 (by decide) ⟨false, 0, fun _ => false⟩).mpr (.inr (.inl le_rfl))
  exact h ℕ (evenIndex 0 5 2 (by decide)) rfl rfl rfl (fun _ => evenIndex_increasing 0 5 2 (by decide)) 1

end SciDB.Query.IndexLookup
