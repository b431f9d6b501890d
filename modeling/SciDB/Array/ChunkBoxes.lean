import SciDB.Array.ChunkPositions
import SciDB.Lib.Radix

/-!
# Boxes of chunks with overlap

The first and last positions of a chunk by three computations (`MemChunk::initialize`, `PersistentChunk::calculateBoundaries`,
`ArrayCoordinatesMapper`), the positions of the cells by two mappers, and `OverlappingChunksIterator`.

Coordinates and positions are `int64`, and so is every sum in the code: where the end of a chunk is behind the greatest
`int64`, it is computed as a negative number, which the clipping at the end of the array does not see. What the constructors of
`ArrayDesc` and `DimensionDesc` refuse is left out by the fields of `OverlapDimension`.
-/

namespace SciDB.Array

open SciDB.Lib SciDB.Query List Radices Int Option

/-- A dimension with overlap that `DimensionDesc::validate` and `ArrayDesc::initializeDimensions` accept. -/
structure OverlapDimension extends Dimension where
  overlap : ℤ
  overlap_nonneg : 0 ≤ overlap
  overlap_le : overlap ≤ interval
  size_fits : interval + 2 * overlap < 2 ^ 63

/-- The positions of a chunk in one dimension. -/
structure BoxSide where
  lastPos : ℤ
  firstPosWithOverlaps : ℤ
  lastPosWithOverlaps : ℤ
deriving DecidableEq

namespace BoxSide

variable (d : OverlapDimension) (c : ℤ)

/-- `MemChunk::initialize`, which throws for a chunk outside of the array. -/
def memChunkInitialize : Option BoxSide :=
  if c < d.start ∨ d.stop < c then none
  else
    let first := int64 (c - d.overlap)
    let last := int64 (c + (d.interval - 1))
    let lastWithOverlaps := int64 (last + d.overlap)
    some {
      firstPosWithOverlaps := if first < d.start then d.start else first
      lastPos := if d.stop < last then d.stop else last
      lastPosWithOverlaps := if d.stop < lastWithOverlaps then d.stop else lastWithOverlaps }

/-- `PersistentChunk::calculateBoundaries`. -/
def calculateBoundaries : BoxSide :=
  let last := int64 (c + (d.interval - 1))
  let lastWithOverlaps := int64 (last + d.overlap)
  { firstPosWithOverlaps := if d.start < c then int64 (c - d.overlap) else c
    lastPos := if d.stop < last then d.stop else last
    lastPosWithOverlaps := if d.stop < lastWithOverlaps then d.stop else lastWithOverlaps }

/-- `ArrayCoordinatesMapper::chunkPos2LowsAndIntervals`. -/
def chunkPos2LowsAndIntervals : ℤ × ℤ :=
  let low := if int64 (c - d.overlap) < d.start then d.start else int64 (c - d.overlap)
  let high := int64 (c + d.interval + d.overlap - 1)
  (low, int64 ((if d.stop < high then d.stop else high) - low + 1))

/-- The low end and the interval as `pos2coord` and `coord2pos` of `ArrayCoordinatesMapper` compute them from the chunk. -/
def lowAndInterval : ℤ × ℤ :=
  let low := max (int64 (c - d.overlap)) d.start
  (low, int64 (min (int64 (c + d.interval + d.overlap - 1)) d.stop - low + 1))

/-- `CoordinatesMapper::init` from the first and the last position with overlap. -/
def originAndInterval (b : BoxSide) : ℤ × ℤ :=
  (b.firstPosWithOverlaps, int64 (b.lastPosWithOverlaps - b.firstPosWithOverlaps + 1))

/-- A side that is not empty, between the bounds of coordinates. -/
def InBounds (b : BoxSide) : Prop :=
  -2 ^ 62 < b.firstPosWithOverlaps ∧ b.firstPosWithOverlaps ≤ b.lastPosWithOverlaps ∧ b.lastPosWithOverlaps < 2 ^ 62

lemma InBounds.originAndInterval_eq {b : BoxSide} (h : b.InBounds) :
    b.originAndInterval = (b.firstPosWithOverlaps, b.lastPosWithOverlaps - b.firstPosWithOverlaps + 1) := by
  obtain ⟨h1, h2, h3⟩ := h
  rw [originAndInterval, int64_eq ⟨by omega, by omega⟩]

end BoxSide

/-- The box of a chunk; `none` if `MemChunk::initialize` throws. -/
def memChunkInitialize : List OverlapDimension → Coordinates → Option (List BoxSide)
  | d :: dims, c :: cs => do return (← BoxSide.memChunkInitialize d c) :: (← memChunkInitialize dims cs)
  | _, _ => some []

/-- The cells of the box with overlap. -/
def InBox (box : List BoxSide) (xs : Coordinates) : Prop :=
  Forall₂ (fun b x => b.firstPosWithOverlaps ≤ x ∧ x ≤ b.lastPosWithOverlaps) box xs

/-- The loop of `coord2pos` from the first dimension on. -/
def coord2posFrom (pos : ℤ) : Radices → Coordinates → ℤ
  | s :: sides, x :: xs => coord2posFrom (int64 (int64 (pos * s.2) + int64 (x - s.1))) sides xs
  | _, _ => pos

/-- The loop of `pos2coord` from the last dimension on. -/
def pos2coordFrom : Radices → ℤ → Coordinates × ℤ
  | [], pos => ([], pos)
  | s :: sides, pos =>
    let (xs, pos) := pos2coordFrom sides pos
    (int64 (s.1 + pos.tmod s.2) :: xs, pos.tdiv s.2)

namespace ArrayCoordinatesMapper

variable (dims : List OverlapDimension) (chunkPos : Coordinates)

/-- `pos2coord`, from the chunk. -/
def pos2coord (pos : ℤ) : Coordinates := (pos2coordFrom (zipWith BoxSide.lowAndInterval dims chunkPos) pos).1

/-- `coord2pos`, from the chunk. -/
def coord2pos (coord : Coordinates) : ℤ := coord2posFrom 0 (zipWith BoxSide.lowAndInterval dims chunkPos) coord

end ArrayCoordinatesMapper

namespace CoordinatesMapper

/-- `pos2coord`, with its own code for one and for two dimensions. -/
def pos2coord (mapper : Radices) (pos : ℤ) : Coordinates :=
  match mapper with
  | [s] => [int64 (s.1 + pos)]
  | [s, t] => [int64 (s.1 + pos.tdiv t.2), int64 (t.1 + pos.tmod t.2)]
  | mapper => (pos2coordFrom mapper pos).1

/-- `coord2pos`, with its own code for one and for two dimensions. -/
def coord2pos (mapper : Radices) (coord : Coordinates) : ℤ :=
  match mapper, coord with
  | [s], [x] => int64 (x - s.1)
  | [s, t], [x, y] => int64 (int64 (int64 (x - s.1) * t.2) + int64 (y - t.1))
  | mapper, coord => coord2posFrom 0 mapper coord

end CoordinatesMapper

/-- A position of a chunk inside the array. -/
def IsChunkPos (d : OverlapDimension) (c : ℤ) : Prop := Aligned d.toDimension c ∧ d.start ≤ c ∧ c ≤ d.stop

/-- The last position of a chunk with its overlap is an `int64`. -/
def FitsAt (d : OverlapDimension) (c : ℤ) : Prop := c + d.interval + d.overlap ≤ 2 ^ 63

/-- The number of positions of a chunk with its overlap that are inside the array. -/
def positionCount (d : OverlapDimension) (c : ℤ) : ℤ := min (c + (d.interval - 1) + d.overlap) d.stop - max (c - d.overlap) d.start + 1

variable {d : OverlapDimension} {c : ℤ} {dims : List OverlapDimension} {cs : Coordinates} {sides : Radices} {pos : ℤ}
  {box : List BoxSide} {xs : Coordinates}

lemma IsChunkPos.interval_le (h : IsChunkPos d c) (hlt : d.start < c) : d.start + d.interval ≤ c := by
  have := le_of_dvd (by omega) h.1.dvd
  omega

lemma OverlapDimension.int64_sub_overlap (d : OverlapDimension) (hc : d.start ≤ c) (hc' : c ≤ d.stop) :
    int64 (c - d.overlap) = c - d.overlap := by
  have := d.overlap_nonneg
  have := d.overlap_le
  have := d.start_min
  have := d.stop_max
  have := d.size_fits
  exact int64_eq ⟨by omega, by omega⟩

lemma OverlapDimension.int64_add_overlap (d : OverlapDimension) (hc : d.start ≤ c) (hc' : c ≤ d.stop) :
    int64 (c + d.overlap) = c + d.overlap := by
  have := d.overlap_nonneg
  have := d.overlap_le
  have := d.start_min
  have := d.stop_max
  have := d.size_fits
  exact int64_eq ⟨by omega, by omega⟩

lemma FitsAt.int64_last (hfit : FitsAt d c) (hc : d.start ≤ c) :
    int64 (c + (d.interval - 1)) = c + (d.interval - 1) ∧
      int64 (c + (d.interval - 1) + d.overlap) = c + (d.interval - 1) + d.overlap ∧
      int64 (c + d.interval + d.overlap - 1) = c + (d.interval - 1) + d.overlap := by
  have hfit : _ ≤ _ := hfit
  have := d.overlap_nonneg
  have := d.interval_pos
  have := d.start_min
  refine ⟨int64_eq ⟨by omega, by omega⟩, int64_eq ⟨by omega, by omega⟩, ?_⟩
  rw [int64_eq ⟨by omega, by omega⟩]
  ring

/-- **The box of a chunk when nothing overflows.** -/
lemma memChunkInitialize_eq (hfit : FitsAt d c) (hc : d.start ≤ c) (hc' : c ≤ d.stop) : BoxSide.memChunkInitialize d c = some {
    firstPosWithOverlaps := max (c - d.overlap) d.start
    lastPos := min (c + (d.interval - 1)) d.stop
    lastPosWithOverlaps := min (c + (d.interval - 1) + d.overlap) d.stop } := by
  obtain ⟨h1, h2, -⟩ := hfit.int64_last hc
  rw [BoxSide.memChunkInitialize, if_neg (by omega)]
  simp only [d.int64_sub_overlap hc hc', h1, h2, some.injEq, BoxSide.mk.injEq]
  refine ⟨?_, ?_, ?_⟩ <;> split_ifs <;> omega

/-- A box whose end overflows has no cell. -/
lemma exists_side_iff {y : ℤ} (hc : d.start ≤ c) (hc' : c ≤ d.stop) (hy : d.start ≤ y) (hy' : y ≤ d.stop) :
    (∃ b, BoxSide.memChunkInitialize d c = some b ∧ b.firstPosWithOverlaps ≤ y ∧ y ≤ b.lastPosWithOverlaps) ↔
      FitsAt d c ∧ c - d.overlap ≤ y ∧ y ≤ c + (d.interval - 1) + d.overlap := by
  by_cases hfit : FitsAt d c
  · rw [memChunkInitialize_eq hfit hc hc']
    simp only [some.injEq, exists_eq_left', hfit, true_and]
    omega
  · refine iff_of_false ?_ fun h => hfit h.1
    rintro ⟨b, hb, -, hlast⟩
    have := d.overlap_nonneg
    have := d.size_fits
    have := d.start_min
    have := d.stop_max
    have hover : ¬_ ≤ _ := hfit
    have hadd : int64 (int64 (c + (d.interval - 1)) + d.overlap) = int64 (c + (d.interval - 1) + d.overlap) := bmod_add_bmod
    rw [BoxSide.memChunkInitialize, if_neg (by omega)] at hb
    obtain rfl := some.inj hb
    dsimp only at hlast
    rw [hadd, int64_wrap (by omega) (by omega), if_neg (by omega)] at hlast
    omega

lemma IsChunkPos.side (hfit : FitsAt d c) (h : IsChunkPos d c) : ∃ b, BoxSide.memChunkInitialize d c = some b ∧
    BoxSide.calculateBoundaries d c = b ∧ BoxSide.chunkPos2LowsAndIntervals d c = b.originAndInterval ∧
    BoxSide.lowAndInterval d c = b.originAndInterval ∧ b.originAndInterval.2 = positionCount d c ∧ b.InBounds := by
  have hle := h.interval_le
  obtain ⟨-, hstart, hstop⟩ := h
  obtain ⟨h1, h2, h3⟩ := hfit.int64_last hstart
  have hsub := d.int64_sub_overlap hstart hstop
  have := d.overlap_nonneg
  have := d.overlap_le
  have := d.interval_pos
  have := d.start_min
  have := d.stop_max
  have hin : BoxSide.InBounds ⟨min (c + (d.interval - 1)) d.stop, max (c - d.overlap) d.start,
      min (c + (d.interval - 1) + d.overlap) d.stop⟩ := by
    simp only [BoxSide.InBounds]
    omega
  refine ⟨_, memChunkInitialize_eq hfit hstart hstop, ?_, ?_, ?_, by rw [hin.originAndInterval_eq]; rfl, hin⟩
  · simp only [BoxSide.calculateBoundaries, BoxSide.mk.injEq, h1, h2, hsub]
    refine ⟨?_, ?_, ?_⟩ <;> split_ifs <;> omega
  · simp only [BoxSide.chunkPos2LowsAndIntervals, BoxSide.originAndInterval, Prod.mk.injEq, h3, hsub]
    refine ⟨by split_ifs <;> omega, congrArg int64 ?_⟩
    split_ifs <;> omega
  · simp only [BoxSide.lowAndInterval, BoxSide.originAndInterval, h3, hsub]

lemma boxes_agree (h : Forall₂ IsChunkPos dims cs) (hfit : Forall₂ FitsAt dims cs) : ∃ box,
    memChunkInitialize dims cs = some box ∧ zipWith BoxSide.calculateBoundaries dims cs = box ∧
    zipWith BoxSide.chunkPos2LowsAndIntervals dims cs = box.map BoxSide.originAndInterval ∧
    zipWith BoxSide.lowAndInterval dims cs = box.map BoxSide.originAndInterval ∧
    (box.map BoxSide.originAndInterval).map Prod.snd = zipWith positionCount dims cs ∧ InBox box cs ∧ ∀ b ∈ box, b.InBounds := by
  induction h with
  | nil => exact ⟨[], rfl, rfl, rfl, rfl, rfl, .nil, by simp⟩
  | @cons d c _ _ hc _ ih =>
    obtain ⟨hd, hds⟩ := forall₂_cons.mp hfit
    obtain ⟨b, hb, h1, h2, h3, h4, h5⟩ := hc.side hd
    obtain ⟨box, hbox, h1', h2', h3', h4', h5', h6'⟩ := ih hds
    have hmem : b.firstPosWithOverlaps ≤ c ∧ c ≤ b.lastPosWithOverlaps := by
      have := d.overlap_nonneg
      have := d.interval_pos
      obtain ⟨b', hb', hmem⟩ := (exists_side_iff hc.2.1 hc.2.2 hc.2.1 hc.2.2).mpr ⟨hd, by omega, by omega⟩
      obtain rfl := some.inj (hb.symm.trans hb')
      exact hmem
    refine ⟨b :: box, by rw [memChunkInitialize, hb, hbox]; rfl, ?_, ?_, ?_, ?_, .cons hmem h5', ?_⟩
    · rw [zipWith_cons_cons, h1, h1']
    · rw [zipWith_cons_cons, h2, h2', map_cons]
    · rw [zipWith_cons_cons, h3, h3', map_cons]
    · rw [zipWith_cons_cons, map_cons, map_cons, h4, h4']
    · exact forall_mem_cons.mpr ⟨h5, h6'⟩

lemma fitsAt_of_inBox (h : Forall₂ IsChunkPos dims cs) (hbox : memChunkInitialize dims cs = some box) (hin : InBox box cs) :
    Forall₂ FitsAt dims cs := by
  induction h generalizing box with
  | nil => exact .nil
  | cons hc _ ih =>
    obtain ⟨b, hb, hbox⟩ := bind_eq_some_iff.mp hbox
    obtain ⟨rest, hrest, heq⟩ := bind_eq_some_iff.mp hbox
    cases heq
    obtain ⟨hmem, hin⟩ := forall₂_cons.mp hin
    exact .cons ((exists_side_iff hc.2.1 hc.2.2 hc.2.1 hc.2.2).mp ⟨b, hb, hmem⟩).1 (ih hrest hin)

lemma mem_iff_inBox (hbox : ∀ b ∈ box, b.InBounds) : Radices.Mem (box.map BoxSide.originAndInterval) xs ↔ InBox box xs := by
  rw [Radices.Mem, forall₂_map_left_iff, InBox]
  induction box generalizing xs with
  | nil => rw [forall₂_nil_left_iff, forall₂_nil_left_iff]
  | cons b box ih =>
    obtain ⟨hb, hbox⟩ := forall_mem_cons.mp hbox
    rw [forall₂_cons_left_iff, forall₂_cons_left_iff]
    simp only [ih hbox, hb.originAndInterval_eq]
    refine exists_congr fun x => exists_congr fun xs => and_congr_left fun _ => and_congr_right fun _ => ?_
    omega

lemma interval_pos_of_inBounds (hbox : ∀ b ∈ box, b.InBounds) : ∀ s ∈ box.map BoxSide.originAndInterval, 0 < s.2 := by
  refine forall_mem_map.mpr fun b hb => ?_
  have := (hbox b hb).2.1
  rw [(hbox b hb).originAndInterval_eq]
  change 0 < _ - _ + 1
  omega

lemma InBox.int64 (hbox : ∀ b ∈ box, b.InBounds) (h : InBox box xs) : xs.map int64 = xs := by
  induction h with
  | nil => rfl
  | cons hx _ ih =>
    obtain ⟨hb, hbox⟩ := forall_mem_cons.mp hbox
    rw [map_cons, ih hbox, int64_eq ⟨by have := hb.1; omega, by have := hb.2.2; omega⟩]

lemma coord2posFrom_eq (hlen : sides.length = xs.length) :
    coord2posFrom (int64 pos) sides xs = int64 (encodeFrom pos sides xs) := by
  induction sides generalizing xs pos with
  | nil => cases xs <;> rfl
  | cons s sides ih =>
    cases xs with
    | nil => cases hlen
    | cons x xs =>
      rw [coord2posFrom, encodeFrom, ← ih (Nat.succ.inj hlen)]
      simp only [int64, bmod_add_bmod, add_bmod_bmod, bmod_mul_bmod]

lemma pos2coordFrom_eq : pos2coordFrom sides pos = ((decode sides pos).1.map int64, (decode sides pos).2) := by
  induction sides with
  | nil => rfl
  | cons s sides ih => rw [pos2coordFrom, ih, decode, map_cons]

lemma coordinatesMapper_coord2pos (hlen : sides.length = xs.length) :
    CoordinatesMapper.coord2pos sides xs = int64 (encodeFrom 0 sides xs) := by
  unfold CoordinatesMapper.coord2pos
  split
  · simp [encodeFrom]
  · simp only [encodeFrom, int64, bmod_add_bmod, add_bmod_bmod, bmod_mul_bmod, zero_mul, zero_add]
  · exact @coord2posFrom_eq _ 0 _ hlen

lemma coordinatesMapper_pos2coord (hpos : ∀ s ∈ sides, 0 < s.2) (h0 : 0 ≤ pos) (hlt : pos < sides.volume) :
    CoordinatesMapper.pos2coord sides pos = (decode sides pos).1.map int64 := by
  unfold CoordinatesMapper.pos2coord
  split
  · next s =>
    have hlt : pos < s.2 := by simpa [volume] using hlt
    simp [decode, tmod_eq_of_lt h0 hlt]
  · next s t =>
    have ht : 0 < t.2 := hpos t (by simp)
    have hlt : pos < s.2 * t.2 := by simpa [volume] using hlt
    have hdiv : pos.tdiv t.2 < s.2 := by
      rw [tdiv_eq_ediv_of_nonneg h0]
      exact Int.ediv_lt_of_lt_mul ht hlt
    simp [decode, tmod_eq_of_lt (Int.tdiv_nonneg h0 ht.le) hdiv]
  · rw [pos2coordFrom_eq]

open CoordinatesMapper in
/-- **Boxes and positions agree**: the three computations of a box, which the chunk's own position is in, and the two mappers; if
and only if the last positions are `int64`, and so are the positions in the box. -/
theorem chunkBoxes_agree (dims : List OverlapDimension) (chunkPos : Coordinates) (h : Forall₂ IsChunkPos dims chunkPos) :
    (∃ box, memChunkInitialize dims chunkPos = some box ∧ InBox box chunkPos ∧
      zipWith BoxSide.calculateBoundaries dims chunkPos = box ∧
      let mapper : Radices := box.map BoxSide.originAndInterval
      zipWith BoxSide.chunkPos2LowsAndIntervals dims chunkPos = mapper ∧
      (∀ xs, InBox box xs →
        coord2pos mapper xs = ArrayCoordinatesMapper.coord2pos dims chunkPos xs ∧
        (0 ≤ coord2pos mapper xs ∧ coord2pos mapper xs < mapper.volume) ∧
        pos2coord mapper (coord2pos mapper xs) = xs ∧
        ∀ ys, InBox box ys → (coord2pos mapper xs < coord2pos mapper ys ↔ xs < ys)) ∧
      ∀ pos, 0 ≤ pos → pos < mapper.volume →
        pos2coord mapper pos = ArrayCoordinatesMapper.pos2coord dims chunkPos pos ∧
        InBox box (pos2coord mapper pos) ∧
        coord2pos mapper (pos2coord mapper pos) = pos) ↔
    Forall₂ FitsAt dims chunkPos ∧ (zipWith positionCount dims chunkPos).prod ≤ 2 ^ 63 := by
  constructor
  · rintro ⟨box, hbox, hself, -, -, -, hpos⟩
    have hfit := fitsAt_of_inBox h hbox hself
    obtain ⟨box', hbox', -, -, -, hcount, -⟩ := boxes_agree h hfit
    obtain rfl : box' = box := some.inj (hbox'.symm.trans hbox)
    refine ⟨hfit, ?_⟩
    -- else the position 2 ^ 63, which no `int64` is, belongs to a cell
    by_contra hvol
    obtain ⟨-, hin, heq⟩ := hpos (2 ^ 63) (by norm_num) (by rw [Radices.volume, hcount]; exact not_le.mp hvol)
    rw [coordinatesMapper_coord2pos (by rw [length_map]; exact hin.length_eq)] at heq
    exact (int64_lt _).ne heq
  · rintro ⟨hfit, hvol⟩
    obtain ⟨box, hbox, h1, h2, h3, hcount, hself, hin⟩ := boxes_agree h hfit
    have hpos := interval_pos_of_inBounds hin
    rw [← hcount] at hvol
    have hcode : ∀ xs, InBox box xs →
        coord2pos (box.map BoxSide.originAndInterval) xs = encodeFrom 0 (box.map BoxSide.originAndInterval) xs := by
      intro xs hxs
      have hmem := (mem_iff_inBox hin).mpr hxs
      have hnum := encodeFrom_lt hpos hmem
      rw [coordinatesMapper_coord2pos hmem.length_eq, int64_eq ⟨by omega, hnum.2.trans_le hvol⟩]
    refine ⟨box, hbox, hself, h1, h2, fun xs hxs => ?_, fun pos h0 hlt => ?_⟩
    · have hmem := (mem_iff_inBox hin).mpr hxs
      have hnum := encodeFrom_lt hpos hmem
      refine ⟨?_, ?_, ?_, fun ys hys => ?_⟩
      · rw [coordinatesMapper_coord2pos hmem.length_eq, ArrayCoordinatesMapper.coord2pos, h3]
        exact (@coord2posFrom_eq _ 0 _ hmem.length_eq).symm
      · rwa [hcode xs hxs]
      · rw [hcode xs hxs, coordinatesMapper_pos2coord hpos hnum.1 hnum.2, decode_encodeFrom hpos hmem le_rfl]
        exact hxs.int64 hin
      · rw [hcode xs hxs, hcode ys hys]
        exact encodeFrom_lt_iff hpos hmem ((mem_iff_inBox hin).mpr hys)
    · obtain ⟨hmem, hleft, heq⟩ := encodeFrom_decode hpos h0
      have hxs := (mem_iff_inBox hin).mp hmem
      have hcoord : pos2coord (box.map BoxSide.originAndInterval) pos = (decode (box.map BoxSide.originAndInterval) pos).1 := by
        rw [coordinatesMapper_pos2coord hpos h0 hlt, hxs.int64 hin]
      rw [hcoord]
      refine ⟨?_, hxs, ?_⟩
      · rw [ArrayCoordinatesMapper.pos2coord, h3, pos2coordFrom_eq, hxs.int64 hin]
      · rw [hcode _ hxs]
        -- nothing is left of a position that is less than the volume
        rw [encodeFrom_eq hmem.length_eq] at heq
        have hlow := (encodeFrom_lt hpos hmem).1
        have hvol := volume_pos hpos
        rcases hleft.eq_or_lt with hzero | hone
        · rwa [← hzero, zero_mul, zero_add] at heq
        · have := le_mul_of_one_le_left hvol.le (add_one_le_of_lt hone)
          omega

theorem chunkBoxes_agree_second :
    let d : OverlapDimension := ⟨⟨0, 8, 5, by decide, by decide, by decide, by decide⟩, 2, by decide, by decide, by decide⟩
    ∃ box, memChunkInitialize [d] [5] = some box ∧ zipWith BoxSide.calculateBoundaries [d] [5] = box ∧
      CoordinatesMapper.pos2coord (box.map BoxSide.originAndInterval) 2 = [5] := by
  intro d
  have hfit : FitsAt d 5 := show _ ≤ _ by decide
  obtain ⟨box, h1, hself, h2, -, h3, -⟩ := (chunkBoxes_agree [d] [5] (.cons ⟨rfl, by decide, by decide⟩ .nil)).mpr
    ⟨.cons hfit .nil, by decide⟩
  obtain rfl : box = [⟨8, 3, 8⟩] := Option.some.inj (h1.symm.trans (by decide +kernel))
  exact ⟨_, h1, h2, (h3 [5] hself).2.2.1⟩

/-- **The end of a chunk of the greatest interval overflows**: the box has no cell, the mapper has positions for it. -/
theorem chunkBox_overflows :
    let d : OverlapDimension := ⟨⟨2, 10, 2 ^ 63 - 1, by decide, by decide, by decide, by decide⟩, 0, by decide, by decide, by decide⟩
    memChunkInitialize [d] [2] = some [⟨-2 ^ 63, 2, -2 ^ 63⟩] ∧
      Radices.volume ([⟨-2 ^ 63, 2, -2 ^ 63⟩].map BoxSide.originAndInterval) = 2 ^ 63 - 1 ∧
      CoordinatesMapper.pos2coord ([⟨-2 ^ 63, 2, -2 ^ 63⟩].map BoxSide.originAndInterval) 0 = [2] ∧
      ¬InBox [⟨-2 ^ 63, 2, -2 ^ 63⟩] [2] := by
  refine ⟨by decide +kernel, by decide +kernel, by decide +kernel, fun h => ?_⟩
  cases h with
  | cons hx _ => exact absurd hx.2 (by decide)

/-- A coordinate of a cell inside the array. -/
structure CellCoordinate extends OverlapDimension where
  coord : ℤ
  start_le : start ≤ coord
  le_stop : coord ≤ stop

/-- The low corner of `OverlappingChunksIterator::getLowCoordinates` in one dimension. -/
def CellCoordinate.low (x : CellCoordinate) : ℤ :=
  let low := max (int64 (x.coord - x.overlap)) x.start
  int64 (low - (int64 (low - x.start)).tmod x.interval)

/-- The high corner of `OverlappingChunksIterator::getHighCoordinates` in one dimension. -/
def CellCoordinate.high (x : CellCoordinate) : ℤ := min (int64 (x.coord + x.overlap)) x.stop

lemma CellCoordinate.low_eq (x : CellCoordinate) : ∃ m, m = max (x.coord - x.overlap) x.start ∧
    x.low = m - (m - x.start) % x.interval ∧ x.start ≤ x.low ∧ x.low ≤ m := by
  have hpos := x.interval_pos
  have := x.start_le
  have := x.le_stop
  have := x.start_min
  have := x.stop_max
  have := x.overlap_nonneg
  obtain ⟨m, hm⟩ : ∃ m, m = max (x.coord - x.overlap) x.start := ⟨_, rfl⟩
  have hmod := emod_nonneg (m - x.start) hpos.ne'
  have hdiv := emod_add_mul_ediv (m - x.start) x.interval
  have hle := mul_nonneg hpos.le (ediv_nonneg (show 0 ≤ m - x.start by omega) hpos.le)
  have hlow : x.low = m - (m - x.start) % x.interval := by
    rw [CellCoordinate.low, x.int64_sub_overlap x.start_le x.le_stop, ← hm, int64_eq (x := m - x.start) ⟨by omega, by omega⟩, tmod_eq_emod_of_nonneg (by omega), int64_eq ⟨by omega, by omega⟩]
  exact ⟨m, hm, hlow, by omega, by omega⟩

/-- The chunks that the iterator for a cell goes through, in one dimension. -/
def overlapSide (x : CellCoordinate) : Side where
  low := x.low
  high := x.high
  step := x.interval
  low_le_high := by
    obtain ⟨m, hm, -, -, hle⟩ := x.low_eq
    have := x.overlap_nonneg
    have := x.start_le
    have := x.le_stop
    rw [CellCoordinate.high, x.int64_add_overlap x.start_le x.le_stop]
    omega
  step_pos := x.interval_pos

/-- The chunks around a cell. -/
def overlapRegion (cell : List CellCoordinate) : Region := cell.map overlapSide

lemma CellCoordinate.low_dvd (x : CellCoordinate) : x.interval ∣ x.low - x.start := by
  obtain ⟨m, -, hlow, -⟩ := x.low_eq
  rw [hlow, sub_right_comm]
  exact dvd_self_sub_of_emod_eq rfl

/-- The positions of the chunks of which the cell is not farther than the overlap, in one dimension. -/
def CellCoordinate.Near (x : CellCoordinate) (c : ℤ) : Prop :=
  IsChunkPos x.toOverlapDimension c ∧ c - x.overlap ≤ x.coord ∧ x.coord ≤ c + (x.interval - 1) + x.overlap

/-- The step from every chunk near the cell stays inside `int64`, and so does its last position with overlap. -/
def CellCoordinate.Fits (x : CellCoordinate) : Prop :=
  ∀ c, x.Near c → c + x.interval < 2 ^ 63 ∧ FitsAt x.toOverlapDimension c

lemma overlapSide_mem_iff {x : CellCoordinate} {c : ℤ} : (overlapSide x).Mem c ↔ x.Near c := by
  have hstart := x.start_le
  have hstop := x.le_stop
  have hpos := x.interval_pos
  obtain ⟨m, hm, hlow, hge, -⟩ := x.low_eq
  have hmod := emod_nonneg (m - x.start) hpos.ne'
  have hlt := emod_lt_of_pos (m - x.start) hpos
  have hgrid := x.low_dvd
  have hside : (overlapSide x).Mem c ↔
      x.low ≤ c ∧ c ≤ min (x.coord + x.overlap) x.stop ∧ x.interval ∣ c - x.low := by
    rw [← x.int64_add_overlap hstart hstop]
    rfl
  rw [hside]
  constructor
  · rintro ⟨h1, h2, h3⟩
    have hal : Aligned x.toDimension c := aligned_of_dvd (by simpa using Int.dvd_add h3 hgrid)
    exact ⟨⟨hal, by omega, by omega⟩, by omega, by omega⟩
  · rintro ⟨⟨hal, h1, h2⟩, h3, h4⟩
    have hdvd : x.interval ∣ c - x.low := by simpa using Int.dvd_sub hal.dvd hgrid
    refine ⟨?_, by omega, hdvd⟩
    -- else the low end is at least an interval after the chunk
    by_contra hc
    have := le_of_dvd (by omega) (Int.dvd_neg.mpr hdvd)
    omega

lemma overlapRegion_mem_iff {cell : List CellCoordinate} {q : Coordinates} :
    (overlapRegion cell).Mem q ↔ Forall₂ CellCoordinate.Near cell q := by
  rw [overlapRegion, Lib.Region.Mem, forall₂_map_left_iff]
  exact ⟨fun h => h.imp fun _ _ => overlapSide_mem_iff.mp, fun h => h.imp fun _ _ => overlapSide_mem_iff.mpr⟩

lemma overlapSide_inInt64 (x : CellCoordinate) : (overlapSide x).InInt64 := by
  obtain ⟨m, -, -, hlow, -⟩ := x.low_eq
  have := x.start_min
  have := x.stop_max
  have : (overlapSide x).high ≤ x.stop := min_le_right _ _
  exact ⟨show -2 ^ 63 ≤ x.low by omega, by omega, x.interval_max⟩

lemma exists_side_iff_near {x : CellCoordinate} {c : ℤ} : (Aligned x.toDimension c ∧
    ∃ b, BoxSide.memChunkInitialize x.toOverlapDimension c = some b ∧
      b.firstPosWithOverlaps ≤ x.coord ∧ x.coord ≤ b.lastPosWithOverlaps) ↔
    x.Near c ∧ FitsAt x.toOverlapDimension c := by
  by_cases hout : c < x.start ∨ x.stop < c
  · refine iff_of_false ?_ fun h => by have := h.1.1.2; omega
    rintro ⟨-, b, hb, -⟩
    rw [BoxSide.memChunkInitialize, if_pos hout] at hb
    cases hb
  · rw [exists_side_iff (by omega) (by omega) x.start_le x.le_stop, CellCoordinate.Near, IsChunkPos]
    constructor
    · exact fun h => ⟨⟨⟨h.1, by omega, by omega⟩, h.2.2⟩, h.2.1⟩
    · exact fun h => ⟨h.1.1.1, h.2, h.1.2⟩

lemma exists_box_iff {cell : List CellCoordinate} {q : Coordinates} :
    (Forall₂ (fun x c => Aligned x.toDimension c) cell q ∧
      ∃ box, memChunkInitialize (cell.map CellCoordinate.toOverlapDimension) q = some box ∧
        InBox box (cell.map CellCoordinate.coord)) ↔
    Forall₂ (fun x c => x.Near c ∧ FitsAt x.toOverlapDimension c) cell q := by
  constructor
  · rintro ⟨hals, box, hbox, hins⟩
    induction hals generalizing box with
    | nil => exact .nil
    | cons hal _ ih =>
      obtain ⟨b, hb, hbox⟩ := bind_eq_some_iff.mp hbox
      obtain ⟨rest, hrest, heq⟩ := bind_eq_some_iff.mp hbox
      cases heq
      obtain ⟨hin, hins⟩ := forall₂_cons.mp hins
      exact .cons (exists_side_iff_near.mp ⟨hal, b, hb, hin⟩) (ih rest hrest hins)
  · intro h
    induction h with
    | nil => exact ⟨.nil, [], rfl, .nil⟩
    | cons hc _ ih =>
      obtain ⟨hal, b, hb, hin⟩ := exists_side_iff_near.mpr hc
      obtain ⟨hals, box, hbox, hins⟩ := ih
      exact ⟨.cons hal hals, b :: box, by rw [map_cons, memChunkInitialize, hb, hbox]; rfl, .cons hin hins⟩

/-- **The iterator for a cell goes through the chunks that have it in their box, each once**, if and only if nothing overflows
at the chunks near the cell. -/
theorem overlappingChunks_exact (cell : List CellCoordinate) (hcell : cell ≠ []) : (∃ n, ∀ fuel ≥ n,
      let positions := visited (Region.now (overlapRegion cell)) (Region.increment (overlapRegion cell)) fuel
        (overlapRegion cell).lows
      positions.Pairwise (· < ·) ∧ ∀ q, q ∈ positions ↔ Forall₂ (fun x c => Aligned x.toDimension c) cell q ∧
        ∃ box, memChunkInitialize (cell.map CellCoordinate.toOverlapDimension) q = some box ∧
          InBox box (cell.map CellCoordinate.coord)) ↔ ∀ x ∈ cell, x.Fits := by
  have hne : overlapRegion cell ≠ [] := fun h => hcell (map_eq_nil_iff.mp h)
  simp only [exists_box_iff]
  constructor
  · rintro ⟨n, hn⟩ x hx c hc
    have hfit : (overlapRegion cell).Fits := RegionIterator.fits_of_increasing hne
      (forall_mem_map.mpr fun x _ => overlapSide_inInt64 x) (Lib.Region.mem_lows _) ⟨n, fun fuel hf => (hn fuel hf).1⟩
    refine ⟨(forall_mem_map.mp hfit x hx).2 c (overlapSide_mem_iff.mpr hc), ?_⟩
    -- what the iterator goes through are all positions near the cell
    obtain ⟨n', hn'⟩ := RegionIterator.visited_region hne hfit
    have hall (q : Coordinates) (hq : Forall₂ CellCoordinate.Near cell q) :
        Forall₂ (fun x c => x.Near c ∧ FitsAt x.toOverlapDimension c) cell q :=
      ((hn (max n n') (le_max_left _ _)).2 q).mp (((hn' _ (le_max_right _ _)).2 q).mpr (overlapRegion_mem_iff.mpr hq))
    exact (forall_of_forall₂ (fun x _ => ⟨_, overlapSide_mem_iff.mp (overlapSide x).mem_low⟩) hall x hx c hc).2
  · intro hfit
    have hregion : (overlapRegion cell).Fits := forall_mem_map.mpr fun x hx =>
      ⟨(overlapSide_inInt64 x).1, fun c hc => (hfit x hx c (overlapSide_mem_iff.mp hc)).1⟩
    obtain ⟨n, hn⟩ := RegionIterator.visited_region hne hregion
    refine ⟨n, fun fuel hf => ⟨(hn fuel hf).1, fun q => ((hn fuel hf).2 q).trans ?_⟩⟩
    rw [overlapRegion_mem_iff]
    refine ⟨fun h => ?_, fun h => h.imp fun _ _ hc => hc.1⟩
    exact forall₂_iff_get.mpr ⟨h.length_eq, fun i h1 h2 =>
      ⟨h.get h1 h2, (hfit _ (get_mem _ _) _ (h.get h1 h2)).2⟩⟩

theorem overlappingChunks_exact_two :
    let d : OverlapDimension := ⟨⟨0, 8, 5, by decide, by decide, by decide, by decide⟩, 2, by decide, by decide, by decide⟩
    let cell : List CellCoordinate := [⟨d, 6, by decide, by decide⟩]
    ∃ n, ∀ fuel ≥ n, (visited (Region.now (overlapRegion cell)) (Region.increment (overlapRegion cell)) fuel
      (overlapRegion cell).lows).Pairwise (· < ·) := by
  intro d cell
  obtain ⟨n, hn⟩ := (overlappingChunks_exact cell (by simp [cell])).mpr (by
    simp [cell, d, CellCoordinate.Fits, CellCoordinate.Near, FitsAt, IsChunkPos]; omega)
  exact ⟨n, fun fuel hf => (hn fuel hf).1⟩

/-- **One chunk of the greatest interval**: the iterator for its cell 5 goes on to two positions outside of the array. -/
theorem overlappingChunks_wrap :
    let d : OverlapDimension := ⟨⟨1, 10, 2 ^ 63 - 1, by decide, by decide, by decide, by decide⟩, 0, by decide, by decide, by decide⟩
    let cell : List CellCoordinate := [⟨d, 5, by decide, by decide⟩]
    visited (Region.now (overlapRegion cell)) (Region.increment (overlapRegion cell)) 4 (overlapRegion cell).lows =
      [[1], [-2 ^ 63], [-1]] ∧ memChunkInitialize [d] [-1] = none := by
  decide +kernel

end SciDB.Array
