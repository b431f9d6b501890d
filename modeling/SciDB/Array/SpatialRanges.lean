import SciDB.Lib.Regions

/-!
# Ranges of coordinates and the chunks that they meet

For each range an iterator goes through the positions of the chunks that meet it, and the iterators are merged: the position is
the least one of theirs, and all that are there go on. The set of `MultiConstIterators` is computed from the iterators.
-/

namespace SciDB.Array

open SciDB.Lib List Bool Int Option

/-- A position. -/
abbrev Coordinates := List ℤ

/-- How two positions compare. -/
inductive DominanceRelationship where
  | equals
  | strictlyDominates
  | isStrictlyDominatedBy
  | hasNoDominanceWith
deriving DecidableEq, Repr

/-- Compares two positions. -/
def calculateDominance (left right : Coordinates) : DominanceRelationship :=
  let flags := (left.zip right).foldl
    (fun f x => if x.1 > x.2 then (f.1, false) else if x.1 < x.2 then (false, f.2) else f) (true, true)
  match flags with
  | (true, true) => .equals
  | (false, false) => .hasNoDominanceWith
  | (true, false) => .strictlyDominates
  | (false, true) => .isStrictlyDominatedBy

/-- Nowhere greater. -/
def isDominatedBy (left right : Coordinates) : Bool :=
  match calculateDominance left right with
  | .equals | .isStrictlyDominatedBy => true
  | _ => false

lemma isDominatedBy_iff {left right : Coordinates} (h : left.length = right.length) :
    isDominatedBy left right = true ↔ List.Forall₂ (· ≤ ·) left right := by
  have hsnd : isDominatedBy left right = ((left.zip right).foldl
      (fun f x => if x.1 > x.2 then (f.1, false) else if x.1 < x.2 then (false, f.2) else f) (true, true)).2 := by
    rw [isDominatedBy, calculateDominance]
    generalize (left.zip right).foldl _ _ = flags
    obtain ⟨_ | _, _ | _⟩ := flags <;> rfl
  have hfold : ∀ (f : Bool × Bool) (xs ys : Coordinates), xs.length = ys.length → (((xs.zip ys).foldl
      (fun f x => if x.1 > x.2 then (f.1, false) else if x.1 < x.2 then (false, f.2) else f) f).2 = true ↔
      f.2 = true ∧ List.Forall₂ (· ≤ ·) xs ys) := by
    intro f xs
    induction xs generalizing f with
    | nil =>
      intro ys hlen
      obtain rfl := eq_nil_of_length_eq_zero hlen.symm
      simp
    | cons x xs ih =>
      intro ys hlen
      obtain ⟨y, ys, rfl⟩ := exists_cons_of_length_pos (by rw [← hlen]; exact Nat.succ_pos _)
      rw [zip_cons_cons, foldl_cons, ih _ ys (Nat.succ.inj hlen), forall₂_cons]
      split_ifs with hgt hlt
      · simp [hgt]
      · simp [hlt.le]
      · have hxy : x ≤ y := not_lt.mp hgt
        simp [hxy]
  rw [hsnd, hfold (true, true) left right h]
  simp

/-- One dimension of a range. -/
structure RangeSide where
  low : ℤ
  high : ℤ
  valid : low ≤ high

/-- A range, by dimensions. -/
abbrev SpatialRange := List RangeSide

namespace SpatialRange

/-- The low corner. -/
def low (r : SpatialRange) : Coordinates := r.map RangeSide.low

/-- The high corner. -/
def high (r : SpatialRange) : Coordinates := r.map RangeSide.high

/-- The point is in the range. -/
def contains (r : SpatialRange) (point : Coordinates) : Bool := isDominatedBy r.low point && isDominatedBy point r.high

/-- `contains` of a range. -/
def containsRange (r other : SpatialRange) : Bool := r.contains other.low && r.contains other.high

/-- The position is in the range. -/
def Mem (r : SpatialRange) (p : Coordinates) : Prop := List.Forall₂ (fun s x => s.low ≤ x ∧ x ≤ s.high) r p

lemma contains_iff {r : SpatialRange} {p : Coordinates} (h : r.length = p.length) : r.contains p = true ↔ r.Mem p := by
  rw [contains, and_eq_true, isDominatedBy_iff (by simp [low, h]), isDominatedBy_iff (by simp [high, h]), low, high,
    forall₂_map_left_iff, forall₂_map_right_iff]
  constructor
  · rintro ⟨hlow, hhigh⟩
    induction hlow with
    | nil => exact .nil
    | cons hx _ ih =>
      cases hhigh with
      | cons hy hhigh => exact .cons ⟨hx, hy⟩ (ih (Nat.succ.inj h) hhigh)
  · intro hmem
    exact ⟨hmem.imp fun _ _ hx => hx.1, (hmem.imp fun _ _ hx => hx.2).flip⟩

lemma Mem.between {r : SpatialRange} {p q x : Coordinates} (hp : r.Mem p) (hq : r.Mem q)
    (hpx : List.Forall₂ (· ≤ ·) p x) (hxq : List.Forall₂ (· ≤ ·) x q) : r.Mem x := by
  induction hp generalizing q x with
  | nil =>
    cases hpx
    exact .nil
  | cons hs _ ih =>
    cases hq with
    | cons hs' hq =>
      cases hpx with
      | cons h1 hpx =>
        cases hxq with
        | cons h2 hxq => exact .cons ⟨hs.1.trans h1, h2.trans hs'.2⟩ (ih hq hpx hxq)

end SpatialRange

/-- A hint of -1 as a `size_t`. -/
def noHint : ℕ := 2 ^ 64 - 1

/-- A range that passes a test. -/
def findOneThat (test : SpatialRange → Bool) (ranges : List SpatialRange) (hint : ℕ) : Bool × ℕ :=
  if 0 < hint ∧ (ranges[hint]?).any test then (true, hint)
  else match ranges.findIdx? test with
    | some i => (true, i)
    | none => (false, noHint)

lemma findOneThat_iff {test : SpatialRange → Bool} {ranges : List SpatialRange} {hint : ℕ} :
    (findOneThat test ranges hint).1 = true ↔ ∃ r ∈ ranges, test r = true := by
  rw [findOneThat]
  split_ifs with hhint
  · obtain ⟨r, hr, htest⟩ := (any_eq_true _ _).mp hhint.2
    exact iff_of_true rfl ⟨r, mem_of_getElem? hr, htest⟩
  · cases hfind : ranges.findIdx? test with
    | some i =>
      refine iff_of_true rfl ?_
      obtain ⟨hi, htest, -⟩ := findIdx?_eq_some_iff_getElem.mp hfind
      exact ⟨_, getElem_mem hi, htest⟩
    | none =>
      refine iff_of_false false_ne_true ?_
      rintro ⟨r, hr, htest⟩
      have := findIdx?_eq_none_iff.mp hfind r hr
      rw [htest] at this
      cases this

/-- A dimension with coordinates between the bounds that `DimensionDesc::validate` allows. -/
structure Dimension where
  start : ℤ
  stop : ℤ
  interval : ℤ
  interval_pos : 0 < interval
  interval_max : interval < 2 ^ 63
  start_min : -2 ^ 62 < start
  stop_max : stop < 2 ^ 62

namespace Dimension

/-- The chunk of a coordinate, without bounds on integers; see `getChunkPositionFor`. -/
def chunkPosition (d : Dimension) (x : ℤ) : ℤ :=
  let diff := (x - d.start).tmod d.interval
  x - if diff < 0 then diff + d.interval else diff

/-- `ArrayDesc::getChunkPositionFor` for one dimension. -/
def getChunkPositionFor (d : Dimension) (x : ℤ) : ℤ :=
  let diff := (int64 (x - d.start)).tmod d.interval
  int64 (x - if diff < 0 then int64 (diff + d.interval) else diff)

lemma chunkPosition_eq (d : Dimension) (x : ℤ) : d.chunkPosition x = x - (x - d.start) % d.interval := by
  have hpos := d.interval_pos
  have hlt := emod_lt_of_pos (x - d.start) hpos
  have hnn := emod_nonneg (x - d.start) hpos.ne'
  have htm := tmod_eq_emod (a := x - d.start) (b := d.interval)
  rw [chunkPosition]
  split_ifs at htm ⊢ with hnonneg hneg <;> omega

lemma chunkPosition_le (d : Dimension) (x : ℤ) : d.chunkPosition x ≤ x := by
  rw [chunkPosition_eq]
  have := emod_nonneg (x - d.start) d.interval_pos.ne'
  omega

lemma start_le_chunkPosition (d : Dimension) {x : ℤ} (h : d.start ≤ x) : d.start ≤ d.chunkPosition x := by
  have hdiv := emod_add_mul_ediv (x - d.start) d.interval
  have := mul_nonneg d.interval_pos.le (ediv_nonneg (show 0 ≤ x - d.start by omega) d.interval_pos.le)
  rw [chunkPosition_eq]
  omega

/-- **Inside the array nothing overflows.** -/
lemma getChunkPositionFor_eq (d : Dimension) {x : ℤ} (hstart : d.start ≤ x) (hstop : x ≤ d.stop) :
    d.getChunkPositionFor x = d.chunkPosition x := by
  have := d.start_min
  have := d.stop_max
  have hdiff : int64 (x - d.start) = x - d.start := int64_eq ⟨by omega, by omega⟩
  have hnn := Int.tmod_nonneg d.interval (show 0 ≤ x - d.start by omega)
  have hle := d.chunkPosition_le x
  have hge := d.start_le_chunkPosition hstart
  rw [chunkPosition, if_neg (not_lt.mpr hnn)] at hle hge ⊢
  rw [getChunkPositionFor, hdiff, if_neg (not_lt.mpr hnn)]
  exact int64_eq ⟨by omega, by omega⟩

end Dimension

namespace Region

open Lib.Region

/-- The position, unless at the end. -/
def now (r : Region) (current : Coordinates) : Option Coordinates := if r.highs < current then none else some current

def incTail : Region → Coordinates → Bool × Coordinates
  | d :: ds, x :: xs =>
    let (carry, xs) := incTail ds xs
    if carry then
      if int64 (x + d.step) ≤ d.high then (false, int64 (x + d.step) :: xs) else (true, d.low :: xs)
    else (false, x :: xs)
  | _, _ => (true, [])

/-- `operator++`. -/
def increment : Region → Coordinates → Coordinates
  | d :: ds, x :: xs =>
    let (carry, xs) := incTail ds xs
    if carry then int64 (x + d.step) :: xs else x :: xs
  | _, _ => []

/-- One dimension of `inBox`. -/
def inside (d : Side) (x : ℤ) : Bool := decide (d.low ≤ x ∧ x ≤ d.high)

/-- The position is in the box. -/
def inBox : Region → Coordinates → Bool
  | d :: ds, x :: xs => inside d x && inBox ds xs
  | _, _ => true

/-- Where `advanceToAtLeast` is. -/
structure Scan where
  returned : Bool
  needToInc : Bool
  tail : Coordinates

def scanInside (before : Bool) (d : Side) (ds : Region) (x : ℤ) (tail : Coordinates) : Scan :=
  if before && (inside d x && inBox ds tail) then ⟨true, false, x :: tail⟩
  else if d.low < x then ⟨false, true, d.low :: tail⟩
  else ⟨false, false, x :: tail⟩

/-- The loop of `advanceToAtLeast`. -/
def scan (before : Bool) : Region → Coordinates → Scan
  | d :: ds, x :: xs =>
    let s := scan (before && inside d x) ds xs
    if s.returned then { s with tail := x :: s.tail }
    else if x < d.low then ⟨false, false, d.low :: s.tail⟩
    else if d.high < x then ⟨false, true, d.low :: s.tail⟩
    else if s.needToInc then
      if int64 (x + d.step) ≤ d.high then scanInside before d ds (int64 (x + d.step)) s.tail
      else ⟨false, true, d.low :: s.tail⟩
    else scanInside before d ds x s.tail
  | _, _ => ⟨false, false, []⟩

/-- `advanceToAtLeast` from an earlier position, after the two checks that it makes first. -/
def advance : Region → Coordinates → Coordinates
  | d :: ds, x :: xs =>
    let s := scan (inside d x) ds xs
    if s.returned then x :: s.tail
    else
      let x := if s.needToInc then int64 (x + d.step) else x
      (if x < d.low then d.low else x) :: s.tail
  | _, _ => []

/-- Jumps to at least `newPos`. -/
def advanceToAtLeast (r : Region) (current newPos : Coordinates) : Coordinates :=
  if newPos ≤ current then current
  else if r.highs < newPos ∨ inBox r newPos then newPos
  else advance r newPos

variable {r : Region} {p : Coordinates} {d : Side} {x : ℤ}

lemma now_of_mem (h : r.Mem p) : now r p = some p := if_neg (not_lt.mpr (le_highs h))

lemma now_eq_some {q : Coordinates} (h : now r p = some q) : p = q := by
  unfold now at h
  split_ifs at h
  exact Option.some.inj h

lemma now_lows (r : Region) : now r r.lows = some r.lows := now_of_mem (mem_lows r)

lemma inside_iff : inside d x = true ↔ d.low ≤ x ∧ x ≤ d.high := decide_eq_true_iff

lemma inBox_lows : ∀ r : Region, inBox r r.lows = true
  | [] => rfl
  | d :: ds => by
    rw [lows, map_cons, inBox, and_eq_true]
    exact ⟨inside_iff.mpr ⟨le_rfl, d.low_le_high⟩, inBox_lows ds⟩

lemma inBox_iff (h : r.OnGrid p) : inBox r p = true ↔ r.Mem p := by
  induction h with
  | nil => exact iff_of_true rfl .nil
  | cons hx _ ih =>
    rw [inBox, and_eq_true, inside_iff, ih]
    constructor
    · exact fun h => .cons ⟨h.1.1, h.1.2, hx⟩ h.2
    · intro h
      cases h with
      | cons hx hxs => exact ⟨⟨hx.1, hx.2.1⟩, hxs⟩

lemma fits_cons {d : Side} {ds : Region} (h : Fits (d :: ds)) : d.Fits ∧ Fits ds := forall_mem_cons.mp h

lemma incTail_eq (hfit : r.Fits) (h : r.Mem p) : incTail r p = match r.nextIn p with
      | some q => (false, q)
      | none => (true, r.lows) := by
  induction h with
  | nil => rfl
  | @cons d x ds xs hx _ ih =>
    obtain ⟨hd, hds⟩ := fits_cons hfit
    rw [incTail, nextIn, ih hds, hd.int64_add_step hx.2.2 (hd.1.trans hx.1) hx.2.1]
    cases nextIn ds xs with
    | some xs' => rfl
    | none =>
      dsimp only
      rw [if_pos rfl]
      split_ifs <;> rfl

lemma now_increment_eq (hr : r ≠ []) (hlen : r.length = p.length) :
    now r (increment r p) = if (incTail r p).1 then none else now r (incTail r p).2 := by
  obtain ⟨d, ds, rfl⟩ := exists_cons_of_ne_nil hr
  obtain ⟨x, xs, rfl⟩ := exists_cons_of_length_pos (by rw [← hlen]; exact Nat.succ_pos _)
  rw [increment, incTail]
  obtain ⟨carry, ys⟩ := incTail ds xs
  cases carry with
  | false => rfl
  | true =>
    simp only [↓reduceIte]
    by_cases hle : int64 (x + d.step) ≤ d.high
    · simp only [if_pos hle, Bool.false_eq_true, ↓reduceIte]
    · simp only [if_neg hle, ↓reduceIte]
      exact if_pos (cons_lt_cons_iff.mpr (.inl (not_le.mp hle)))

lemma now_increment (hr : r ≠ []) (hfit : r.Fits) (h : r.Mem p) : now r (increment r p) = r.nextIn p := by
  have hleast := nextIn_isLeast h
  rw [now_increment_eq hr h.length_eq, incTail_eq hfit h]
  cases hnext : r.nextIn p with
  | none => rfl
  | some q =>
    rw [hnext] at hleast
    exact now_of_mem hleast.1

/-- A step whose sum overflows ends at an earlier position; behind the last one there is a step in every dimension. -/
lemma incTail_cases (h64 : ∀ d ∈ r, d.InInt64) (h : r.Mem p) : (∃ q < p, incTail r p = (false, q)) ∨
    (r.nextIn p = none → r.Fits) ∧ incTail r p = match r.nextIn p with
      | some q => (false, q)
      | none => (true, r.lows) := by
  induction h with
  | nil => exact .inr ⟨fun _ d hd => absurd hd not_mem_nil, rfl⟩
  | @cons d x ds xs hx _ ih =>
    obtain ⟨⟨hlow, hhigh, hstep⟩, hds⟩ := forall_mem_cons.mp h64
    rw [incTail, nextIn]
    rcases ih hds with ⟨q, hlt, htail⟩ | ⟨hfit, htail⟩
    · rw [htail]
      exact .inl ⟨x :: q, cons_lt_cons_iff.mpr (.inr ⟨rfl, hlt⟩), rfl⟩
    · rw [htail]
      cases hnext : nextIn ds xs with
      | some xs' => exact .inr ⟨(fun hnone => by cases hnone), rfl⟩
      | none =>
        dsimp only
        rw [if_pos rfl]
        have hx1 := hx.1
        have hx2 := hx.2.1
        have hpos := d.step_pos
        by_cases hover : 2 ^ 63 ≤ x + d.step
        · rw [int64_wrap hover (by omega), if_pos (by omega)]
          exact .inl ⟨_, cons_lt_cons_iff.mpr (.inl (by omega)), rfl⟩
        · rw [int64_eq ⟨by omega, by omega⟩]
          refine .inr ⟨fun hnone => forall_mem_cons.mpr ⟨⟨hlow, fun y hy => ?_⟩, hfit hnext⟩, by split_ifs <;> rfl⟩
          have hlast : ¬x + d.step ≤ d.high := fun hle => by rw [if_pos hle] at hnone; cases hnone
          have hyx : y ≤ x := not_lt.mp fun hlt => hlast ((Side.OnGrid.add_step_le hx.2.2 hy.2.2 hlt).trans hy.2.1)
          omega

lemma increment_cases (hr : r ≠ []) (h64 : ∀ d ∈ r, d.InInt64) (h : r.Mem p) :
    (∃ q < p, now r (increment r p) = some q) ∨ now r (increment r p) = r.nextIn p ∧ (r.nextIn p = none → r.Fits) := by
  have hleast := nextIn_isLeast h
  rw [now_increment_eq hr h.length_eq]
  rcases incTail_cases h64 h with ⟨q, hlt, htail⟩ | ⟨hfit, htail⟩
  · rw [htail]
    exact .inl ⟨q, hlt, if_neg (not_lt.mpr (hlt.le.trans (le_highs h)))⟩
  · refine .inr ⟨?_, hfit⟩
    rw [htail]
    cases hnext : r.nextIn p with
    | none => rfl
    | some q =>
      rw [hnext] at hleast
      exact now_of_mem hleast.1

lemma scanInside_outside {ds : Region} {tail : Coordinates} (hx : d.low ≤ x) :
    (scanInside false d ds x tail).returned = false ∧ (scanInside false d ds x tail).tail = d.low :: tail := by
  rw [scanInside, Bool.false_and, if_neg Bool.false_ne_true]
  split_ifs with hlow
  · exact ⟨rfl, rfl⟩
  · exact ⟨rfl, by rw [le_antisymm hx (not_lt.mp hlow)]⟩

lemma scan_outside (hfit : r.Fits) (h : r.OnGrid p) : (scan false r p).returned = false ∧ (scan false r p).tail = r.lows := by
  induction h with
  | nil => exact ⟨rfl, rfl⟩
  | @cons d x ds xs hx _ ih =>
    obtain ⟨hd, hds⟩ := fits_cons hfit
    obtain ⟨hret, htail⟩ := ih hds
    rw [scan, Bool.false_and]
    rw [hret, if_neg Bool.false_ne_true, htail]
    split_ifs with hlow hhigh hneed hle
    · exact ⟨rfl, rfl⟩
    · exact ⟨rfl, rfl⟩
    · have := d.step_pos
      have hadd := hd.int64_add_step hx (hd.1.trans (not_lt.mp hlow)) (not_lt.mp hhigh)
      exact scanInside_outside (by omega)
    · exact ⟨rfl, rfl⟩
    · exact scanInside_outside (not_lt.mp hlow)

/-- What the loop has found. -/
def Scan.Finds (s : Scan) (r : Region) (p : Coordinates) : Prop :=
  if s.returned then r.leastFrom p = some s.tail
  else s.tail = r.lows ∧ r.leastFrom p = if s.needToInc then none else some r.lows

lemma scanInside_inside {ds : Region} (hlow : d.low ≤ x) (hhigh : x ≤ d.high) :
    scanInside true d ds x ds.lows = ⟨true, false, x :: ds.lows⟩ := by
  rw [scanInside, if_pos]
  rw [Bool.true_and, Bool.and_eq_true]
  exact ⟨inside_iff.mpr ⟨hlow, hhigh⟩, inBox_lows ds⟩

lemma scan_finds (hfit : r.Fits) (h : r.OnGrid p) : (scan true r p).Finds r p := by
  induction h with
  | nil => exact ⟨rfl, rfl⟩
  | @cons d x ds xs hx hxs ih =>
    obtain ⟨hd, hds⟩ := fits_cons hfit
    specialize ih hds
    rw [scan, Bool.true_and]
    cases hin : inside d x with
    | false =>
      obtain ⟨hret, htail⟩ := scan_outside hds hxs
      have hout : ¬(d.low ≤ x ∧ x ≤ d.high) := fun h => by rw [inside_iff.mpr h] at hin; cases hin
      rw [hret, if_neg Bool.false_ne_true, htail]
      by_cases hlow : x < d.low
      · rw [if_pos hlow]
        exact ⟨rfl, by rw [leastFrom, if_pos hlow]; rfl⟩
      · have hhigh : d.high < x := by omega
        rw [if_neg hlow, if_pos hhigh]
        exact ⟨rfl, by rw [leastFrom, if_neg hlow, if_pos hhigh]; rfl⟩
    | true =>
      obtain ⟨hlow, hhigh⟩ := inside_iff.mp hin
      have hfrom := leastFrom.eq_1 d ds x xs
      rw [if_neg (not_lt.mpr hlow), if_neg (not_lt.mpr hhigh)] at hfrom
      rw [if_neg (not_lt.mpr hlow), if_neg (not_lt.mpr hhigh)]
      rw [Scan.Finds] at ih
      cases hret : (scan true ds xs).returned with
      | true =>
        rw [hret, if_pos rfl] at ih
        rw [ih] at hfrom
        rwa [if_pos rfl, Scan.Finds, if_pos rfl]
      | false =>
        rw [hret, if_neg Bool.false_ne_true] at ih
        rw [if_neg Bool.false_ne_true, ih.1]
        rw [ih.2] at hfrom
        cases hneed : (scan true ds xs).needToInc with
        | false =>
          rw [hneed] at hfrom
          rwa [if_neg Bool.false_ne_true, scanInside_inside hlow hhigh]
        | true =>
          rw [hneed] at hfrom
          rw [if_pos rfl, hd.int64_add_step hx (hd.1.trans hlow) hhigh]
          by_cases hle : x + d.step ≤ d.high
          · have := d.step_pos
            rw [if_pos hle, scanInside_inside (by omega) hle]
            exact hfrom.trans (if_pos hle)
          · rw [if_neg hle]
            exact ⟨rfl, hfrom.trans (if_neg hle)⟩

lemma advance_finds (hr : r ≠ []) (hfit : r.Fits) (h : r.OnGrid p) (hp : ∀ x ∈ p, IsInt64 x) (hend : ¬r.highs < p) :
    now r (advance r p) = r.leastFrom p := by
  cases h with
  | nil => exact absurd rfl hr
  | @cons d x ds xs hx hxs =>
    obtain ⟨hd, hds⟩ := fits_cons hfit
    have hleast := leastFrom_isLeast (r := d :: ds) (.cons hx hxs)
    have hhigh : x ≤ d.high := not_lt.mp fun hlt => hend (cons_lt_cons_iff.mpr (.inl hlt))
    rw [leastFrom] at hleast ⊢
    rw [advance, hd.int64_add_step hx (hp x mem_cons_self).1 hhigh]
    by_cases hlow : x < d.low
    · have hin : inside d x = false := by
        rw [← not_eq_true, inside_iff]
        omega
      have hstep : x + d.step ≤ d.low := hx.add_step_le d.mem_low.2.2 hlow
      obtain ⟨hret, htail⟩ := scan_outside hds hxs
      rw [hin, hret, if_neg Bool.false_ne_true, htail, if_pos hlow]
      dsimp only
      have hraised : ∀ y, y ≤ d.low → (if y < d.low then d.low else y) = d.low := fun y hy => by
        split_ifs <;> omega
      rw [hraised _ (by split_ifs <;> omega)]
      exact now_lows (d :: ds)
    rw [if_neg hlow, if_neg (not_lt.mpr hhigh)] at hleast ⊢
    rw [inside_iff.mpr ⟨not_lt.mp hlow, hhigh⟩]
    have hfinds := scan_finds hds hxs
    rw [Scan.Finds] at hfinds
    cases hret : (scan true ds xs).returned with
    | true =>
      rw [hret, if_pos rfl] at hfinds
      rw [hfinds] at hleast ⊢
      rw [if_pos rfl]
      exact now_of_mem hleast.1
    | false =>
      rw [hret, if_neg Bool.false_ne_true] at hfinds
      rw [hfinds.2] at hleast ⊢
      rw [if_neg Bool.false_ne_true, hfinds.1]
      have := d.step_pos
      cases hneed : (scan true ds xs).needToInc with
      | false =>
        rw [hneed] at hleast
        dsimp only
        rw [if_neg Bool.false_ne_true, if_neg hlow]
        exact now_of_mem hleast.1
      | true =>
        rw [hneed] at hleast
        dsimp only
        rw [if_pos rfl, if_pos rfl, if_neg (by omega)]
        by_cases hle : x + d.step ≤ d.high
        · rw [if_pos hle] at hleast ⊢
          exact now_of_mem hleast.1
        · rw [if_neg hle]
          exact if_pos (cons_lt_cons_iff.mpr (.inl (not_le.mp hle)))

/-- **`advanceToAtLeast` goes to the first position that is not before the given one.** -/
lemma now_advanceToAtLeast {current : Coordinates} (hr : r ≠ []) (hfit : r.Fits) (h : r.OnGrid p) (hp : ∀ x ∈ p, IsInt64 x)
    (hlt : current < p) : now r (advanceToAtLeast r current p) = r.leastFrom p := by
  rw [advanceToAtLeast, if_neg (not_le.mpr hlt)]
  by_cases hend : r.highs < p
  · rw [if_pos (.inl hend), now, if_pos hend]
    refine LeastIn.unique (A := (p ≤ ·)) (fun q hq hpq => ?_) (leastFrom_isLeast h)
    exact absurd (hend.trans_le hpq) (not_lt.mpr (le_highs hq))
  by_cases hin : inBox r p = true
  · have hmem := (inBox_iff h).mp hin
    rw [if_pos (.inr hin), now_of_mem hmem]
    exact LeastIn.unique ⟨hmem, le_rfl, fun _ _ hpq => hpq⟩ (leastFrom_isLeast h)
  · rw [if_neg (not_or.mpr ⟨hend, hin⟩)]
    exact advance_finds hr hfit h hp hend

end Region

abbrev ChunkPosIterator := List Coordinates

namespace ChunkPosIterator

open Lib.Region

variable (regions : List Region)

variable (it : ChunkPosIterator)

/-- Those that have not ended. -/
def live : List Coordinates :=
  (List.zipWith Region.now regions it).filterMap id

/-- `getPosition`, `none` at the end. -/
def position : Option Coordinates := (live regions it).min?

/-- All at their first positions. -/
def reset : ChunkPosIterator := regions.map Lib.Region.lows

/-- Those at the least position go on. -/
def increment (regions : List Region) (it : ChunkPosIterator) : ChunkPosIterator :=
  match position regions it with
  | none => it
  | some c => List.zipWith (fun r x => if Region.now r x = some c then Region.increment r x else x) regions it

/-- A jump, and whether it was made. -/
def advancePositionToAtLeast (newPos : Coordinates) : Bool × ChunkPosIterator :=
  match position regions it with
  | none => (false, it)
  | some c =>
    if newPos ≤ c then (false, it)
    else (true, List.zipWith (fun r x => Region.advanceToAtLeast r x newPos) regions it)

/-- A position of some region. -/
def Covers (q : Coordinates) : Prop := ∃ r ∈ regions, r.Mem q

/-- Each is at its first of `A`. -/
def At (A : Coordinates → Prop) : Prop :=
  List.Forall₂ (fun r x => LeastIn r.Mem A (Region.now r x)) regions it

variable {regions : List Region} {it : ChunkPosIterator} {A : Coordinates → Prop} {p c : Coordinates}

lemma at_reset (regions : List Region) : At regions (reset regions) fun _ => True := by
  rw [At, reset, forall₂_map_right_iff, forall₂_same]
  intro r _
  rw [Region.now_lows]
  exact ⟨mem_lows r, trivial, fun q hq _ => lows_le hq⟩

lemma mem_live_iff : c ∈ live regions it ↔ ∃ e ∈ regions.zip it, Region.now e.1 e.2 = some c := by
  rw [live, ← map_uncurry_zip_eq_zipWith, filterMap_map, mem_filterMap]
  rfl

lemma mem_zip_zipWith {f : Region → Coordinates → Coordinates} {e : Region × Coordinates} :
    e ∈ regions.zip (List.zipWith f regions it) ↔ ∃ x, (e.1, x) ∈ regions.zip it ∧ f e.1 x = e.2 := by
  induction regions generalizing it with
  | nil => simp
  | cons r rs ih =>
    cases it with
    | nil => simp
    | cons x xs =>
      rw [zipWith_cons_cons, zip_cons_cons, zip_cons_cons, List.mem_cons, ih]
      constructor
      · rintro (rfl | ⟨y, hy, heq⟩)
        · exact ⟨x, mem_cons_self, rfl⟩
        · exact ⟨y, mem_cons_of_mem _ hy, heq⟩
      · rintro ⟨y, hy, heq⟩
        rcases List.mem_cons.mp hy with hy | hy
        · obtain ⟨h1, rfl⟩ := Prod.mk.inj hy
          exact .inl (Prod.ext h1 (heq.symm.trans (by rw [h1])))
        · exact .inr ⟨y, hy, heq⟩

section

variable (h : At regions it A) {B : Coordinates → Prop}

include h

lemma mem_live : c ∈ live regions it → ∃ r ∈ regions, LeastIn r.Mem A (some c) := by
  intro hc
  obtain ⟨o, ho, hoc⟩ := mem_filterMap.mp hc
  obtain rfl : o = some c := hoc
  clear hc
  induction h with
  | nil => cases ho
  | @cons r x rs xs hx hxs ih =>
    rw [zipWith_cons_cons, List.mem_cons] at ho
    rcases ho with hnow | ho
    · exact ⟨r, mem_cons_self, hnow ▸ hx⟩
    · obtain ⟨r', hr', hleast⟩ := ih ho
      exact ⟨r', mem_cons_of_mem _ hr', hleast⟩

lemma live_of_mem {q : Coordinates} (hq : Covers regions q) (hA : A q) : ∃ c ∈ live regions it, c ≤ q := by
  obtain ⟨r, hr, hmem⟩ := hq
  induction h with
  | nil => cases hr
  | @cons r' x rs xs hx hxs ih =>
    rw [live, zipWith_cons_cons]
    rcases mem_cons.mp hr with rfl | hr
    · cases hnow : Region.now r x with
      | none =>
        rw [hnow] at hx
        exact absurd hA (hx q hmem)
      | some c =>
        rw [hnow] at hx
        exact ⟨c, mem_filterMap.mpr ⟨some c, mem_cons_self, rfl⟩, hx.2.2 q hmem hA⟩
    · obtain ⟨c, hc, hle⟩ := ih hr
      obtain ⟨o, ho, hoc⟩ := mem_filterMap.mp hc
      exact ⟨c, mem_filterMap.mpr ⟨o, mem_cons_of_mem _ ho, hoc⟩, hle⟩

lemma At.position : LeastIn (Covers regions) A (position regions it) := by
  cases hpos : ChunkPosIterator.position regions it with
  | none =>
    intro q hq hA
    obtain ⟨c, hc, -⟩ := live_of_mem h hq hA
    rw [ChunkPosIterator.position, min?_eq_none_iff] at hpos
    rw [hpos] at hc
    cases hc
  | some c =>
    obtain ⟨hc, hle⟩ := min?_eq_some_iff.mp hpos
    obtain ⟨r, hr, hmem, hA, -⟩ := mem_live h hc
    refine ⟨⟨r, hr, hmem⟩, hA, fun q hq hAq => ?_⟩
    obtain ⟨c', hc', hle'⟩ := live_of_mem h hq hAq
    exact (hle c' hc').trans hle'

lemma At.zipWith {f : Region → Coordinates → Coordinates}
    (hf : ∀ e ∈ regions.zip it, LeastIn e.1.Mem A (Region.now e.1 e.2) → LeastIn e.1.Mem B (Region.now e.1 (f e.1 e.2))) :
    At regions (zipWith f regions it) B := by
  induction h with
  | nil => exact .nil
  | cons hx _ ih =>
    exact .cons (hf (_, _) mem_cons_self hx) (ih fun e he => hf e (mem_cons_of_mem _ he))

lemma At.increment_of_step (hup : ∀ p q, A p → p ≤ q → A q) (hpos : ChunkPosIterator.position regions it = some c)
    (hstep : ∀ r, (r, c) ∈ regions.zip it → r.Mem c → Region.now r (Region.increment r c) = r.nextIn c) :
    At regions (increment regions it) fun q => A q ∧ c < q := by
  have hleast := h.position
  rw [hpos] at hleast
  obtain ⟨-, hAc, hmin⟩ := hleast
  rw [ChunkPosIterator.increment, hpos]
  refine h.zipWith ?_
  rintro ⟨r, x⟩ he hx
  have hr := (of_mem_zip he).1
  dsimp only at hx ⊢
  split_ifs with hnow
  · -- at the least position: the next one
    rw [hnow] at hx
    obtain rfl := Region.now_eq_some hnow
    rw [hstep r he hx.1]
    exact (nextIn_isLeast hx.1).congr fun q _ => ⟨fun hlt => ⟨hup _ _ hAc hlt.le, hlt⟩, fun hq => hq.2⟩
  · -- at a greater one, which stays the first
    cases hcase : Region.now r x with
    | none =>
      rw [hcase] at hx
      exact fun q hq hA => hx q hq hA.1
    | some y =>
      rw [hcase] at hx hnow
      have hcy : c < y := lt_of_le_of_ne (hmin y ⟨r, hr, hx.1⟩ hx.2.1) fun heq => hnow (heq ▸ rfl)
      exact ⟨hx.1, ⟨hx.2.1, hcy⟩, fun q hq hA => hx.2.2 q hq hA.1⟩

lemma At.increment (hup : ∀ p q, A p → p ≤ q → A q) (hne : ∀ r ∈ regions, r ≠ []) (hfit : ∀ r ∈ regions, r.Fits)
    (hpos : ChunkPosIterator.position regions it = some c) : At regions (increment regions it) fun q => A q ∧ c < q :=
  h.increment_of_step hup hpos fun r hr hmem =>
    Region.now_increment (hne r (of_mem_zip hr).1) (hfit r (of_mem_zip hr).1) hmem

lemma At.congr (hAB : ∀ q, Covers regions q → (A q ↔ B q)) : At regions it B := by
  induction h with
  | nil => exact .nil
  | cons hx _ ih =>
    refine .cons (hx.congr fun q hq => hAB q ⟨_, mem_cons_self, hq⟩) (ih fun q hq => hAB q ?_)
    obtain ⟨r, hr, hmem⟩ := hq
    exact ⟨r, mem_cons_of_mem _ hr, hmem⟩

/-- **`advancePositionToAtLeast` goes to the first position that is not before the given one.** -/
lemma At.advance (hup : ∀ p q, A p → p ≤ q → A q) (hne : ∀ r ∈ regions, r ≠ []) (hfit : ∀ r ∈ regions, r.Fits)
    (hgrid : ∀ r ∈ regions, r.OnGrid p) (hp : ∀ x ∈ p, IsInt64 x) :
    At regions (advancePositionToAtLeast regions it p).2 fun q => A q ∧ p ≤ q := by
  have hleast := h.position
  rw [advancePositionToAtLeast]
  cases hpos : ChunkPosIterator.position regions it with
  | none =>
    rw [hpos] at hleast
    exact h.congr fun q hq => ⟨fun hA => absurd hA (hleast q hq), fun hA => hA.1⟩
  | some c =>
    rw [hpos] at hleast
    obtain ⟨-, hAc, hmin⟩ := hleast
    dsimp only
    split_ifs with hle
    · exact h.congr fun q hq => ⟨fun hA => ⟨hA, hle.trans (hmin q hq hA)⟩, fun hA => hA.1⟩
    · refine h.zipWith ?_
      rintro ⟨r, x⟩ he hx
      have hr := (of_mem_zip he).1
      by_cases hx' : p ≤ x
      · -- already past it
        rw [Region.advanceToAtLeast, if_pos hx']
        unfold Region.now at hx ⊢
        split_ifs at hx ⊢ with hend
        · exact fun q hq hA => hx q hq hA.1
        · exact ⟨hx.1, ⟨hx.2.1, hx'⟩, fun q hq hA => hx.2.2 q hq hA.1⟩
      · rw [Region.now_advanceToAtLeast (hne r hr) (hfit r hr) (hgrid r hr) hp (not_le.mp hx')]
        refine (leastFrom_isLeast (hgrid r hr)).congr fun q _ => ⟨fun hpq => ⟨?_, hpq⟩, fun hA => hA.2⟩
        exact hup _ _ hAc ((not_le.mp hle).le.trans hpq)

end

end ChunkPosIterator

end SciDB.Array
