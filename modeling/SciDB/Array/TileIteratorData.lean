import SciDB.Array.TileIterator

/-!
# What the tiles of a chunk hold

The loop that fills the tiles walks both iterators from cell to cell (`Walked`). If the chunk is kept pinned, the payload
iterator stands where the call before has left it (`Sound`).
-/

namespace SciDB.Array

open SciDB.Lib List Option

/-- Well-formed, with all values. -/
structure TileChunk.WellFormed (c : TileChunk) (vals : List (List UInt8)) : Prop where
  payload : c.payload.WellFormed vals
  bitmap : c.emptyBitmap.WellFormed
  physical : ∀ cell ∈ c.emptyBitmap.cells, cell.pPos < c.payload.count
  contains : ∀ cell ∈ c.emptyBitmap.cells, c.contains cell.lPos = true

namespace TileChunk

variable (c : TileChunk)

/-- The cells of the chunk. -/
def cells : List Cell := c.emptyBitmap.cells

/-- Some cells from a place on. -/
def window (i n : ℕ) : List Cell := (c.cells.drop i).take n

/-- The values of some cells. -/
def valuesOf (cells : List Cell) : List Value := cells.map fun cell => c.payload.cellValue cell.pPos

/-- What `getData` should give. -/
def tilesFrom (i n : ℕ) (withCoords : Bool) : TileData where
  tiles := some (c.valuesOf (c.window i n), if withCoords then (c.window i n).map Cell.lPos else [])
  next := (c.cells[i + n]?).map Cell.lPos

/-- Values are left behind that of the last cell, or the chunk is not kept pinned. -/
def KeepsBehind : Prop :=
  c.isDataChunkPinned = true → ∀ cell ∈ c.cells, cell.pPos + 1 < c.payload.count

end TileChunk

variable {c : TileChunk} {vals : List (List UInt8)} {it it' : TileIterator} {i j m n pos : ℕ} {cell : Cell}

/-- An iterator over this chunk. -/
structure Over (c : TileChunk) (it : TileIterator) : Prop where
  bm : it.emptyBitmapIterator.bm = c.emptyBitmap
  referent : it.payloadIterator.referent = c.payload

open TileChunk

lemma window_succ (hcell : c.cells[i]? = some cell) : c.window i (n + 1) = cell :: c.window (i + 1) n := by
  obtain ⟨hi, hget⟩ := List.getElem?_eq_some_iff.mp hcell
  rw [window, drop_eq_getElem_cons hi, take_succ_cons, hget]
  rfl

lemma window_of_le (hi : c.cells.length ≤ i) : c.window i n = [] := by
  rw [window, drop_of_length_le hi, take_nil]

lemma Over.cell_at (hover : Over c it) (h : it.emptyBitmapIterator.At i) (hi : i < c.cells.length) :
    it.emptyBitmapIterator.atEnd = false ∧
      c.cells[i]? = some ⟨it.emptyBitmapIterator.getLPos, it.emptyBitmapIterator.getPPos⟩ := by
  have := h.cell (by rwa [hover.bm])
  rwa [hover.bm] at this

open BitmapIterator PayloadIterator

lemma Over.step (h : Over c it) : Over c it.step :=
  ⟨bm_next.trans h.bm, referent_next.trans h.referent⟩

lemma lt_of_not_atEnd (hbm : it.emptyBitmapIterator.bm = c.emptyBitmap) (hat : it.emptyBitmapIterator.At i)
    (hend : it.emptyBitmapIterator.atEnd = false) : i < c.cells.length := by
  have hle := hat.le
  have hne := hat.atEnd_iff.not.mp (by simp [hend])
  rw [hbm] at hle hne
  exact lt_of_le_of_ne hle hne

section

variable (hwf : c.WellFormed vals)

include hwf

section

variable (hover : Over c it)

include hover

open TileIterator

lemma currentValue_eq (hpos : pos < c.payload.count) (hpay : it.payloadIterator.At pos) :
    it.currentValue = .ok (c.payload.cellValue pos) := by
  rw [← hover.referent] at hpos
  rw [currentValue, hpay.getItem (hover.referent ▸ hwf.payload) hpos, hover.referent]

lemma align_spec (hcell : c.cells[i]? = some cell) (hat : it.emptyBitmapIterator.At i)
    (hpos : pos < c.payload.count) (hpay : it.payloadIterator.At pos) :
    ∃ it', it.alignIterators = .ok it' ∧ it'.emptyBitmapIterator = it.emptyBitmapIterator ∧ Over c it' ∧
      it'.payloadIterator.At cell.pPos ∧ it'.currentValue = .ok (c.payload.cellValue cell.pPos) := by
  obtain ⟨hi, -⟩ := List.getElem?_eq_some_iff.mp hcell
  have hlt := hwf.physical _ (mem_of_getElem? hcell)
  obtain ⟨-, hcell'⟩ := hover.cell_at hat hi
  rw [hcell] at hcell'
  cases hcell'
  unfold alignIterators
  by_cases halign : it.payloadIterator.currPpos = it.emptyBitmapIterator.getPPos
  · rw [if_neg (by simp [halign])]
    have hppos := (hpay.not_atEnd (by rwa [hover.referent])).2
    have hpay' : it.payloadIterator.At it.emptyBitmapIterator.getPPos := by rwa [← halign, hppos]
    exact ⟨it, rfl, rfl, hover, hpay', currentValue_eq hwf hover hlt hpay'⟩
  · rw [if_pos halign]
    have hpayload : it.payloadIterator.referent.WellFormed vals := hover.referent ▸ hwf.payload
    obtain ⟨hset, hat', href⟩ := setPosition_of_lt hpayload (hover.referent ▸ hlt)
    have hover' : Over c { it with payloadIterator := (it.payloadIterator.setPosition _).2 } :=
      ⟨hover.bm, href.trans hover.referent⟩
    rw [if_pos hset]
    exact ⟨_, rfl, rfl, hover', hat', currentValue_eq hwf hover' hlt hat'⟩

/-- After a walk from one cell to another the payload iterator is behind the last value. -/
structure Walked (c : TileChunk) (it it' : TileIterator) (i j : ℕ) : Prop where
  isOver : Over c it'
  atCell : it'.emptyBitmapIterator.At j
  payload : j = i ∧ it'.payloadIterator = it.payloadIterator ∨
    i < j ∧ ∃ cell, c.cells[j - 1]? = some cell ∧ it'.payloadIterator.At (cell.pPos + 1)

open List

lemma step_spec (hcell : c.cells[i]? = some cell) (hat : it.emptyBitmapIterator.At i) (hpay : it.payloadIterator.At cell.pPos) :
    Over c it.step ∧ it.step.emptyBitmapIterator.At (i + 1) ∧ it.step.payloadIterator.At (cell.pPos + 1) ∧
      (i + 1 < c.cells.length → cell.pPos + 1 < c.payload.count) := by
  obtain ⟨hi, -⟩ := List.getElem?_eq_some_iff.mp hcell
  have hlt := hwf.physical _ (mem_of_getElem? hcell)
  refine ⟨hover.step, ?_, ?_, fun hnext => ?_⟩
  · exact hat.next (by rw [hover.bm]; exact hwf.bitmap) (by rw [hover.bm]; exact hi)
  · exact hpay.next (by rw [hover.referent]; exact hwf.payload) (by rw [hover.referent]; exact hlt)
  · have hcell' : c.cells[i + 1]? = some c.cells[i + 1] := getElem?_eq_getElem hnext
    have hgrow := add_le_of_pairwise hwf.bitmap.pPos_lt (Nat.le_succ i) hcell hcell'
    have := hwf.physical _ (mem_of_getElem? hcell')
    omega

lemma fillLoop_spec (hat : it.emptyBitmapIterator.At i)
    (hpay : i < c.cells.length → ∃ pos < c.payload.count, it.payloadIterator.At pos) (m : ℕ) :
    ∃ it', it.fillLoop m = .ok (it', c.valuesOf (c.window i m), (c.window i m).map Cell.lPos) ∧
      Walked c it it' i (min (i + m) c.cells.length) := by
  have hle : i ≤ c.cells.length := by
    have := hat.le
    rwa [hover.bm] at this
  induction m generalizing it i with
  | zero =>
    refine ⟨it, ?_, hover, ?_, .inl ⟨?_, rfl⟩⟩
    · rw [fillLoop]
      simp [window, valuesOf]
    · rwa [add_zero, min_eq_left hle]
    · rw [add_zero, min_eq_left hle]
  | succ m ih =>
    rcases hle.eq_or_lt with heq | hi
    · -- no cell is left
      have hend : it.emptyBitmapIterator.atEnd = true := hat.atEnd_iff.mpr (by rw [hover.bm]; exact heq)
      refine ⟨it, ?_, hover, ?_, .inl ⟨?_, rfl⟩⟩
      · rw [fillLoop, if_pos (by simp [hend]), window_of_le heq.ge]
        rfl
      · rwa [min_eq_right (by omega), ← heq]
      · rw [min_eq_right (by omega), heq]
    · obtain ⟨pos, hpos, hpay⟩ := hpay hi
      obtain ⟨cell, hcell⟩ : ∃ cell, c.cells[i]? = some cell := ⟨_, getElem?_eq_getElem hi⟩
      obtain ⟨hnotEnd, hcell'⟩ := hover.cell_at hat hi
      have hpayNotEnd := (hpay.not_atEnd (by rwa [hover.referent])).1
      obtain ⟨it1, halign, hebi, hover1, hpay1, hvalue⟩ := align_spec hwf hover hcell hat hpos hpay
      have hat1 : it1.emptyBitmapIterator.At i := hebi ▸ hat
      obtain ⟨hover2, hat2, hpay2, hmore⟩ := step_spec hwf hover1 hcell hat1 hpay1
      obtain ⟨it', hfill, hwalk⟩ := ih hover2 hat2 (fun hnext => ⟨_, hmore hnext, hpay2⟩) hi
      have hmin : min (i + (m + 1)) c.cells.length = min (i + 1 + m) c.cells.length := by
        rw [add_right_comm, add_assoc]
      refine ⟨it', ?_, hwalk.isOver, hmin ▸ hwalk.atCell, .inr ⟨by omega, ?_⟩⟩
      · rw [fillLoop, if_neg (by simp [hnotEnd, hpayNotEnd]), halign]
        simp only [bind, Except.bind, hvalue, hfill]
        rw [hcell] at hcell'
        cases hcell'
        rw [window_succ hcell, map_cons, hebi]
        rfl
      · rcases hwalk.payload with ⟨hj, hsame⟩ | ⟨_, cell', hcell', hpay'⟩
        · refine ⟨cell, ?_, ?_⟩
          · rw [hmin, hj, Nat.add_sub_cancel, hcell]
          · rwa [hsame]
        · exact ⟨cell', by rw [hmin]; exact hcell', hpay'⟩

lemma coordLoop_spec (hat : it.emptyBitmapIterator.At i) (hpay : it.payloadIterator.At j)
    (hj : j + (c.cells.length - i) ≤ c.payload.count) (m : ℕ) :
    (it.coordLoop m).2 = (c.window i m).map Cell.lPos ∧ Over c (it.coordLoop m).1 ∧
      (it.coordLoop m).1.emptyBitmapIterator.At (min (i + m) c.cells.length) ∧
      (it.coordLoop m).1.payloadIterator.At (j + min m (c.cells.length - i)) := by
  have hle : i ≤ c.cells.length := by
    have := hat.le
    rwa [hover.bm] at this
  induction m generalizing it i j with
  | zero =>
    rw [coordLoop, add_zero, min_eq_left hle, Nat.zero_min, add_zero]
    exact ⟨by simp [window], hover, hat, hpay⟩
  | succ m ih =>
    rw [coordLoop]
    rcases hle.eq_or_lt with heq | hi
    · have hend : it.emptyBitmapIterator.atEnd = true := hat.atEnd_iff.mpr (by rw [hover.bm]; exact heq)
      rw [if_pos (by simp [hend]), window_of_le heq.ge, min_eq_right (by omega), heq, Nat.sub_self, Nat.min_zero]
      exact ⟨rfl, hover, heq ▸ hat, hpay⟩
    · obtain ⟨hnotEnd, hcell⟩ := hover.cell_at hat hi
      have hpos : j < c.payload.count := by omega
      have hpayNotEnd := (hpay.not_atEnd (by rwa [hover.referent])).1
      have hat' : it.step.emptyBitmapIterator.At (i + 1) :=
        hat.next (by rw [hover.bm]; exact hwf.bitmap) (by rw [hover.bm]; exact hi)
      have hpay' : it.step.payloadIterator.At (j + 1) :=
        hpay.next (by rw [hover.referent]; exact hwf.payload) (by rwa [hover.referent])
      obtain ⟨hcoords, hover', hatLast, hpayLast⟩ := ih hover.step hat' hpay' (by omega) hi
      rw [if_neg (by simp [hnotEnd, hpayNotEnd])]
      dsimp only
      rw [window_succ hcell, hcoords, map_cons, ← add_assoc, add_right_comm i m 1]
      refine ⟨rfl, hover', hatLast, ?_⟩
      rwa [show j + min (m + 1) (c.cells.length - i) = j + 1 + min m (c.cells.length - (i + 1)) by omega]

end

lemma numbered_of_fast (hfast : c.fastTileInitialize = true) : c.cells.length = c.payload.count ∧ c.emptyBitmap.Numbered := by
  have hcount : c.emptyBitmap.nNonEmptyElements = c.payload.count := by
    simp only [fastTileInitialize, Bool.and_eq_true, decide_eq_true_eq] at hfast
    exact hfast.1.1
  have hlen : c.cells.length = c.payload.count := by rw [← hcount, hwf.bitmap.count]; rfl
  refine ⟨hlen, hwf.bitmap.numbered fun cell hcell => ?_⟩
  have := hwf.physical cell hcell
  exact lt_of_lt_of_eq this hlen.symm

lemma slice_eq (hfast : c.fastTileInitialize = true) (i m : ℕ) : c.slice i m = c.valuesOf (c.window i m) := by
  obtain ⟨hlen, hnum⟩ := numbered_of_fast hwf hfast
  apply ext_getElem?
  intro k
  rw [slice, valuesOf, window, getElem?_map, getElem?_map, getElem?_take, getElem?_drop]
  by_cases hk : k < min m (c.payload.count - i)
  · have hcell : c.cells[i + k]? = some c.cells[i + k] := getElem?_eq_getElem (by omega)
    rw [if_pos (by omega), hcell, map_some, hnum _ _ hcell]
    simp [hk]
  · rw [getElem?_eq_none (by simpa using Nat.le_of_not_lt hk)]
    split_ifs with hkm
    · rw [getElem?_eq_none (by omega)]
      rfl
    · rfl

end

/-- What every call finds and leaves. -/
structure Sound (c : TileChunk) (it : TileIterator) : Prop where
  bm : it.emptyBitmapIterator.bm = c.emptyBitmap
  atCell : ∃ i, it.emptyBitmapIterator.At i
  current : it.hasCurrent = true → it.emptyBitmapIterator.atEnd = false
  referent : c.isDataChunkPinned = true → it.payloadIterator.referent = c.payload
  position : c.isDataChunkPinned = true → c.cells ≠ [] → ∃ pos < c.payload.count, it.payloadIterator.At pos

/-- The payload iterator is ready. -/
structure Ready (c : TileChunk) (it : TileIterator) : Prop extends Over c it where
  position : c.cells ≠ [] → ∃ pos < c.payload.count, it.payloadIterator.At pos
  fresh : c.isDataChunkPinned = false → it.payloadIterator.At 0

lemma count_pos (hwf : c.WellFormed vals) (hne : c.cells ≠ []) : 0 < c.payload.count := by
  obtain ⟨cell, hcell⟩ := exists_mem_of_ne_nil _ hne
  exact Nat.zero_lt_of_lt (hwf.physical cell hcell)

lemma emptyBitmapIterator_prepare : (it.prepare c).emptyBitmapIterator = it.emptyBitmapIterator := by
  unfold TileIterator.prepare
  split_ifs <;> rfl

lemma Sound.prepare (hwf : c.WellFormed vals) (h : Sound c it) : Ready c (it.prepare c) := by
  unfold TileIterator.prepare
  split_ifs with hpinned
  · exact ⟨⟨h.bm, h.referent hpinned⟩, h.position hpinned, fun hnot => absurd hpinned (by simp [hnot])⟩
  · have hstart := at_ofPayload hwf.payload
    exact ⟨⟨h.bm, rfl⟩, fun hne => ⟨0, count_pos hwf hne, hstart⟩, fun _ => hstart⟩

lemma baseSetPosition_spec (hbm : it.emptyBitmapIterator.bm = c.emptyBitmap) (hat : ∃ i, it.emptyBitmapIterator.At i)
    (off : ℤ) : (it.baseSetPosition c off).2.payloadIterator = it.payloadIterator ∧
      (it.baseSetPosition c off).2.emptyBitmapIterator.bm = c.emptyBitmap ∧
      (∃ i, (it.baseSetPosition c off).2.emptyBitmapIterator.At i) ∧
      (it.baseSetPosition c off).2.hasCurrent = (it.baseSetPosition c off).1 ∧
      ((it.baseSetPosition c off).1 = true → (it.baseSetPosition c off).2.emptyBitmapIterator.atEnd = false) := by
  unfold TileIterator.baseSetPosition
  split_ifs
  · exact ⟨rfl, hbm, hat, rfl, False.elim⟩
  · obtain ⟨j, hat', hbm', hfound⟩ := @BitmapIterator.exists_at_setPosition it.emptyBitmapIterator off.toNat
    refine ⟨rfl, hbm'.trans hbm, ⟨j, hat'⟩, rfl, fun h => ?_⟩
    rwa [h, eq_comm, Bool.not_eq_true'] at hfound

lemma seek_cell (hwf : c.WellFormed vals) (hover : Over c it) (hat : ∃ i, it.emptyBitmapIterator.At i)
    (hcell : c.cells[i]? = some cell) : (it.seek c cell.lPos).1 = true ∧
      (it.seek c cell.lPos).2.payloadIterator = it.payloadIterator ∧
      (it.seek c cell.lPos).2.emptyBitmapIterator.bm = c.emptyBitmap ∧ (it.seek c cell.lPos).2.emptyBitmapIterator.At i := by
  unfold TileIterator.seek
  split_ifs with hneeded
  · have hcell' : it.emptyBitmapIterator.bm.cells[i]? = some cell := by rwa [hover.bm]
    have hset := setPosition_cell (hover.bm ▸ hwf.bitmap) hcell'
    have hcontains := hwf.contains cell (mem_of_getElem? hcell)
    unfold TileIterator.baseSetPosition
    rw [if_neg (by rw [hcontains]; simp)]
    exact ⟨hset.1, rfl, hset.2.2.trans hover.bm, hset.2.1⟩
  · -- the iterator stands at the cell already
    rw [not_or, Bool.not_eq_true, not_not, Nat.cast_inj] at hneeded
    obtain ⟨j, hat⟩ := hat
    obtain ⟨-, hcell'⟩ := hover.cell_at hat (lt_of_not_atEnd hover.bm hat hneeded.1)
    obtain rfl := hwf.bitmap.lPos_inj hcell' hcell hneeded.2.symm
    exact ⟨rfl, rfl, hover.bm, hat⟩

lemma fillTiles_spec (hwf : c.WellFormed vals) (hkeeps : c.KeepsBehind) (h : Ready c it)
    (hat : it.emptyBitmapIterator.At i) (hi : i < c.cells.length) (hm : 0 < m) (withCoords : Bool) :
    ∃ it', it.fillTiles c m withCoords = .ok (it', c.valuesOf (c.window i m),
        if withCoords then (c.window i m).map Cell.lPos else []) ∧ it'.emptyBitmapIterator.bm = c.emptyBitmap ∧
      it'.emptyBitmapIterator.At (min (i + m) c.cells.length) ∧
      (c.isDataChunkPinned = true → it'.payloadIterator.referent = c.payload ∧
        ∃ pos < c.payload.count, it'.payloadIterator.At pos) := by
  have hne : c.cells ≠ [] := ne_nil_of_length_pos (Nat.zero_lt_of_lt hi)
  unfold TileIterator.fillTiles
  by_cases hfast : c.fastTileInitialize = true
  · obtain ⟨hlen, hnum⟩ := numbered_of_fast hwf hfast
    -- all values are of cells, so the chunk is not kept pinned
    have hpinned : c.isDataChunkPinned = false := by
      by_contra hpinned
      rw [Bool.not_eq_false] at hpinned
      have hlast : c.cells[c.cells.length - 1]? = some c.cells[c.cells.length - 1] := getElem?_eq_getElem (by omega)
      have := hkeeps hpinned _ (mem_of_getElem? hlast)
      rw [hnum _ _ hlast] at this
      omega
    have hvalues : c.slice it.emptyBitmapIterator.getPPos m = c.valuesOf (c.window i m) := by
      have hppos := hnum _ _ (h.toOver.cell_at hat hi).2
      dsimp only at hppos
      rw [hppos, slice_eq hwf hfast]
    rw [if_pos hfast, hvalues]
    cases withCoords with
    | true =>
      obtain ⟨hcoords, hover, hat', -⟩ := coordLoop_spec hwf h.toOver hat (h.fresh hpinned) (by omega) m
      refine ⟨_, ?_, hover.bm, hat', fun hp => absurd hp (by simp [hpinned])⟩
      rw [if_pos rfl, if_pos rfl, ← hcoords]
    | false =>
      have hcount : (c.valuesOf (c.window i m)).length = min m (c.cells.length - i) := by
        simp [valuesOf, window]
      have hskip := hat.skip (k := (c.valuesOf (c.window i m)).length - 1) (h.bm ▸ hwf.bitmap) (h.bm ▸ hnum)
        (by rw [h.bm]; change _ < c.cells.length; omega)
      have hbm := hskip.2.2.trans h.bm
      have hnext := hskip.2.1.next (hbm ▸ hwf.bitmap) (by rw [hbm]; change _ < c.cells.length; omega)
      rw [show i + ((c.valuesOf (c.window i m)).length - 1) + 1 = min (i + m) c.cells.length by omega] at hnext
      exact ⟨_, rfl, bm_next.trans hbm, hnext, fun hp => absurd hp (by simp [hpinned])⟩
  · obtain ⟨it', hfill, hwalk⟩ := fillLoop_spec hwf h.toOver hat (fun _ => h.position hne) m
    rw [if_neg hfast]
    refine ⟨it', ?_, hwalk.isOver.bm, hwalk.atCell, fun hpinned => ⟨hwalk.isOver.referent, ?_⟩⟩
    · cases withCoords with
      | true => exact hfill
      | false => rw [if_neg Bool.false_ne_true, hfill]; rfl
    · rcases hwalk.payload with ⟨hj, -⟩ | ⟨-, last, hlast, hpay⟩
      · omega
      · exact ⟨_, hkeeps hpinned last (mem_of_getElem? hlast), hpay⟩

lemma finish_spec (hbm : it.emptyBitmapIterator.bm = c.emptyBitmap) (hat : it.emptyBitmapIterator.At (min j c.cells.length)) :
    it.finish.lPosition = (c.cells[j]?).map Cell.lPos ∧
      (it.finish.hasCurrent = true → it.finish.emptyBitmapIterator.atEnd = false) ∧
      it.finish.emptyBitmapIterator = it.emptyBitmapIterator ∧ it.finish.payloadIterator = it.payloadIterator := by
  have hend := hat.atEnd_iff
  rw [hbm] at hend
  unfold TileIterator.finish
  by_cases hj : j < c.cells.length
  · rw [min_eq_left hj.le] at hat hend
    have hcell := (hat.cell (by rwa [hbm])).2
    rw [hbm] at hcell
    have hnot : it.emptyBitmapIterator.atEnd = false := Bool.eq_false_iff.mpr fun h => absurd (hend.mp h) hj.ne
    rw [if_neg (by simp [hnot]), cells, hcell]
    exact ⟨rfl, fun _ => hnot, rfl, rfl⟩
  · rw [if_pos (hend.mpr (min_eq_right (Nat.le_of_not_lt hj))), getElem?_eq_none (Nat.le_of_not_lt hj)]
    exact ⟨rfl, fun h => absurd h Bool.false_ne_true, rfl, rfl⟩

section

variable (hwf : c.WellFormed vals)

include hwf

lemma getData_of_seek {off : ℤ} (hkeeps : c.KeepsBehind) (hseek : ((it.prepare c).seek c off).1 = true)
    (h : Ready c ((it.prepare c).seek c off).2) (hat : ((it.prepare c).seek c off).2.emptyBitmapIterator.At i)
    (hi : i < c.cells.length) (hm : 0 < m) (withCoords : Bool) :
    ∃ it', it.getData c off m withCoords = .ok (it', c.tilesFrom i m withCoords) ∧ Sound c it' := by
  obtain ⟨it', hfill, hbm, hat', hpay⟩ := fillTiles_spec hwf hkeeps h hat hi hm withCoords
  obtain ⟨hnext, hcurrent, hebi, hpayload⟩ := finish_spec hbm hat'
  refine ⟨it'.finish, ?_, ?_, ?_, hcurrent, fun hp => ?_, fun hp _ => ?_⟩
  · unfold TileIterator.getData
    rw [if_pos hseek, hfill]
    dsimp only [bind, Except.bind]
    rw [hnext]
    rfl
  · rw [hebi, hbm]
  · exact ⟨_, hebi ▸ hat'⟩
  · rw [hpayload, (hpay hp).1]
  · rw [hpayload]
    exact (hpay hp).2

lemma Sound.ready_seek (h : Sound c it) (off : ℤ) :
    Ready c ((it.prepare c).seek c off).2 ∧ (∃ i, ((it.prepare c).seek c off).2.emptyBitmapIterator.At i) ∧
      (((it.prepare c).seek c off).1 = true → ((it.prepare c).seek c off).2.emptyBitmapIterator.atEnd = false) ∧
      (((it.prepare c).seek c off).1 = false → ((it.prepare c).seek c off).2.hasCurrent = false) := by
  have hready := h.prepare hwf
  have hat : ∃ i, (it.prepare c).emptyBitmapIterator.At i := by
    rw [emptyBitmapIterator_prepare]
    exact h.atCell
  unfold TileIterator.seek
  split_ifs with hneeded
  · obtain ⟨hpay, hbm, hat', hcurrent, hfound⟩ := baseSetPosition_spec hready.bm hat off
    refine ⟨⟨⟨hbm, hpay ▸ hready.referent⟩, hpay ▸ hready.position, hpay ▸ hready.fresh⟩, hat', hfound, fun hnot => ?_⟩
    rw [hcurrent, hnot]
  · rw [not_or, Bool.not_eq_true] at hneeded
    exact ⟨hready, hat, fun _ => hneeded.1, fun hnot => absurd hnot (by simp)⟩

/-- **`getData` gives the cells from its offset on**, and the iterator stays sound. -/
lemma Sound.getData_cell (hkeeps : c.KeepsBehind) (h : Sound c it) (hcell : c.cells[i]? = some cell) (hm : 0 < m)
    (withCoords : Bool) : ∃ it', it.getData c cell.lPos m withCoords = .ok (it', c.tilesFrom i m withCoords) ∧ Sound c it' := by
  obtain ⟨hready, -, -, -⟩ := h.ready_seek hwf cell.lPos
  have hat : ∃ i, (it.prepare c).emptyBitmapIterator.At i := by
    rw [emptyBitmapIterator_prepare]
    exact h.atCell
  obtain ⟨hseek, -, -, hat'⟩ := seek_cell hwf (h.prepare hwf).toOver hat hcell
  exact getData_of_seek hwf hkeeps hseek hready hat' (List.getElem?_eq_some_iff.mp hcell).1 hm withCoords

lemma Sound.getData (hkeeps : c.KeepsBehind) (h : Sound c it) (off : ℤ) (hm : 0 < m) (withCoords : Bool) :
    ∃ r, it.getData c off m withCoords = .ok r ∧ Sound c r.1 := by
  obtain ⟨hready, ⟨i, hat⟩, hfound, hnone⟩ := h.ready_seek hwf off
  by_cases hseek : ((it.prepare c).seek c off).1 = true
  · have hi := lt_of_not_atEnd hready.bm hat (hfound hseek)
    obtain ⟨it', hget, hsound⟩ := getData_of_seek hwf hkeeps hseek hready hat hi hm withCoords
    exact ⟨_, hget, hsound⟩
  · rw [Bool.not_eq_true] at hseek
    refine ⟨_, if_neg (by simp [hseek]), ⟨hready.bm, ⟨i, hat⟩, fun hcur => ?_, fun _ => hready.referent,
      fun _ => hready.position⟩⟩
    exact absurd hcur (by simp [hnone hseek])

end

lemma Sound.setPosition (h : Sound c it) (pos : ℤ) : Sound c (it.setPosition c pos).2 := by
  obtain ⟨hpay, hbm, hat, hcurrent, hfound⟩ := baseSetPosition_spec h.bm h.atCell pos
  have hbase : Sound c (it.baseSetPosition c pos).2 :=
    ⟨hbm, hat, fun hcur => hfound (hcurrent ▸ hcur), hpay ▸ h.referent, hpay ▸ h.position⟩
  rw [TileIterator.setPosition]
  split_ifs
  · exact ⟨hbase.bm, hbase.atCell, hbase.current, hbase.referent, hbase.position⟩
  · exact hbase

section

variable (hwf : c.WellFormed vals)

include hwf

lemma Sound.next (h : Sound c it) (hnext : it.next = .ok it') : Sound c it' := by
  unfold TileIterator.next at hnext
  by_cases hcurrent : it.hasCurrent = true
  · obtain ⟨i, hat⟩ := h.atCell
    have hi := lt_of_not_atEnd h.bm hat (h.current hcurrent)
    have hat' := hat.next (h.bm ▸ hwf.bitmap) (by rw [h.bm]; exact hi)
    have hbm := bm_next.trans h.bm
    rw [if_neg (by simp [hcurrent])] at hnext
    dsimp only at hnext
    split_ifs at hnext with hlast <;> cases hnext
    · exact ⟨hbm, ⟨_, hat'⟩, fun hcur => absurd hcur Bool.false_ne_true, h.referent, h.position⟩
    · exact ⟨hbm, ⟨_, hat'⟩, fun _ => Bool.eq_false_iff.mpr hlast, h.referent, h.position⟩
  · rw [if_pos (Bool.eq_false_iff.mpr hcurrent)] at hnext
    cases hnext

lemma Sound.getItem (h : Sound c it) (hcurrent : it.hasCurrent = true) :
    ∃ it' i, ∃ hi : i < c.cells.length, it.getItem c = .ok (it', c.payload.cellValue c.cells[i].pPos) ∧ Sound c it' := by
  have hready := h.prepare hwf
  obtain ⟨i, hat⟩ := h.atCell
  have hi := lt_of_not_atEnd h.bm hat (h.current hcurrent)
  have hcell : c.cells[i]? = some c.cells[i] := getElem?_eq_getElem hi
  obtain ⟨pos, hpos, hpay⟩ := hready.position (ne_nil_of_mem (mem_of_getElem? hcell))
  have hat' : (it.prepare c).emptyBitmapIterator.At i := by rwa [emptyBitmapIterator_prepare]
  obtain ⟨it', halign, hebi, hover, hpay', hvalue⟩ := align_spec hwf hready.toOver hcell hat' hpos hpay
  refine ⟨it', i, hi, ?_, hover.bm, ⟨i, hebi ▸ hat'⟩, fun _ => (hover.cell_at (hebi ▸ hat') hi).1,
    fun _ => hover.referent, fun _ _ => ⟨_, hwf.physical _ (mem_of_getElem? hcell), hpay'⟩⟩
  rw [TileIterator.getItem, if_neg (by simp [hcurrent]), halign]
  simp only [bind, Except.bind, hvalue]

lemma Sound.reset (h : Sound c it) : Sound c it.reset := by
  have hat := BitmapIterator.At.reset (h.bm ▸ hwf.bitmap)
  refine ⟨bm_reset.trans h.bm, ⟨0, hat⟩, fun hcur => ?_, h.referent, h.position⟩
  exact (Bool.not_eq_true' _).mp hcur

lemma Sound.after (hkeeps : c.KeepsBehind) (h : Sound c it) (a : TileIterator.Call) : Sound c (it.after c a) := by
  cases a with
  | getData off maxValues withCoords =>
    obtain ⟨r, hget, hsound⟩ := h.getData hwf hkeeps off maxValues.2 withCoords
    simp only [TileIterator.after, hget]
    exact hsound
  | setPosition pos => exact h.setPosition pos
  | next =>
    rw [TileIterator.after]
    cases hnext : it.next with
    | ok it' => exact h.next hwf hnext
    | error e => exact h
  | getItem =>
    rw [TileIterator.after]
    by_cases hcurrent : it.hasCurrent = true
    · obtain ⟨it', i, hi, hget, hsound⟩ := h.getItem hwf hcurrent
      rwa [hget]
    · rwa [TileIterator.getItem, if_pos (Bool.eq_false_iff.mpr hcurrent)]
  | reset => exact h.reset hwf

lemma Sound.afterAll (hkeeps : c.KeepsBehind) (h : Sound c it) (calls : List TileIterator.Call) :
    Sound c (it.afterAll c calls) := by
  induction calls generalizing it with
  | nil => exact h
  | cons a calls ih => exact ih (h.after hwf hkeeps a)

lemma sound_iterator (h : c.iterator = .ok it) : Sound c it ∧ it.payloadIterator = .ofPayload c.payload := by
  unfold iterator at h
  by_cases hcount : c.payload.count < c.emptyBitmap.nNonEmptyElements
  · rw [if_pos hcount] at h
    cases h
  rw [if_neg hcount] at h
  cases h
  have hat := at_ofBitmap hwf.bitmap
  have hpay := at_ofPayload hwf.payload
  exact ⟨⟨rfl, ⟨0, hat⟩, (Bool.not_eq_true' _).mp, fun _ => rfl, fun _ hne => ⟨0, count_pos hwf hne, hpay⟩⟩, rfl⟩

lemma Sound.drain (hkeeps : c.KeepsBehind) {maxValues : ℕ → ℕ} (hmax : ∀ n, 0 < maxValues n) {fuel : ℕ}
    (h : Sound c it) (hcell : c.cells[i]? = some cell) (hfuel : c.cells.length ≤ i + fuel) :
    TileIterator.drain c maxValues fuel it (some cell.lPos) =
      .ok (c.valuesOf (c.cells.drop i), (c.cells.drop i).map Cell.lPos) := by
  obtain ⟨hi, -⟩ := List.getElem?_eq_some_iff.mp hcell
  induction fuel generalizing it i cell with
  | zero => omega
  | succ fuel ih =>
    obtain ⟨it', hget, hsound⟩ := h.getData_cell hwf hkeeps hcell (hmax fuel) true
    have hwindow : c.window i (maxValues fuel) ++ c.cells.drop (i + maxValues fuel) = c.cells.drop i := by
      rw [TileChunk.window, ← drop_drop, take_append_drop]
    have hrest : TileIterator.drain c maxValues fuel it' (c.tilesFrom i (maxValues fuel) true).next =
        .ok (c.valuesOf (c.cells.drop (i + maxValues fuel)), (c.cells.drop (i + maxValues fuel)).map Cell.lPos) := by
      by_cases hnext : i + maxValues fuel < c.cells.length
      · have hcell' : c.cells[i + maxValues fuel]? = some c.cells[i + maxValues fuel] :=
          getElem?_eq_getElem hnext
        have := hmax fuel
        rw [TileChunk.tilesFrom, hcell', map_some]
        exact ih hsound hcell' (by omega) hnext
      · rw [TileChunk.tilesFrom, getElem?_eq_none (Nat.le_of_not_lt hnext), map_none,
          drop_of_length_le (Nat.le_of_not_lt hnext)]
        cases fuel <;> rfl
    rw [TileIterator.drain, hget]
    simp only [bind, Except.bind, hrest]
    rw [← hwindow, TileChunk.valuesOf, TileChunk.valuesOf, map_append, map_append]
    rfl

end

/-- `getData` gives the cells from its offset on, and fed back its positions lead through all cells. -/
def ReadsByOffset (c : TileChunk) (it : TileIterator) : Prop :=
  (∀ (i : ℕ) (cell : Cell) (maxValues : ℕ), c.cells[i]? = some cell → 0 < maxValues →
    ∃ it', it.getData c cell.lPos maxValues true = .ok (it', c.tilesFrom i maxValues true)) ∧
  ∀ (i : ℕ) (cell : Cell) (maxValues : ℕ → ℕ), c.cells[i]? = some cell → (∀ n, 0 < maxValues n) →
    TileIterator.drain c maxValues (c.cells.length - i) it (some cell.lPos) =
      .ok (c.valuesOf (c.cells.drop i), (c.cells.drop i).map Cell.lPos)

lemma Sound.readsByOffset (hwf : c.WellFormed vals) (hkeeps : c.KeepsBehind) (h : Sound c it) : ReadsByOffset c it := by
  refine ⟨fun i cell maxValues hcell hmax => ?_, fun i cell maxValues hcell hmax => ?_⟩
  · obtain ⟨it', hget, -⟩ := h.getData_cell hwf hkeeps hcell hmax true
    exact ⟨it', hget⟩
  · exact h.drain hwf hkeeps hmax hcell (by omega)

lemma fillTiles_of_atEnd (hend : it.payloadIterator.atEnd = true) (m : ℕ) :
    ∃ it' values, it.fillTiles c m true = .ok (it', values, []) := by
  have hcoords : it.coordLoop m = (it, []) := by
    cases m with
    | zero => rfl
    | succ m => rw [TileIterator.coordLoop, if_pos (by simp [hend])]
  have hfill : it.fillLoop m = .ok (it, [], []) := by
    cases m with
    | zero => rfl
    | succ m => rw [TileIterator.fillLoop, if_pos (by simp [hend])]
  unfold TileIterator.fillTiles
  by_cases hfast : c.fastTileInitialize = true
  · rw [if_pos hfast, if_pos rfl, hcoords]
    exact ⟨_, _, rfl⟩
  · rw [if_neg hfast, if_pos rfl]
    exact ⟨_, _, hfill⟩

lemma getElem?_zero_cells (hne : c.cells ≠ []) : c.cells[0]? = some (c.cells.head hne) := by
  rw [← head?_eq_getElem?, head?_eq_some_head]

lemma not_readsByOffset_of_atEnd (hwf : c.WellFormed vals) (hpinned : c.isDataChunkPinned = true)
    (hover : Over c it) (hat : ∃ i, it.emptyBitmapIterator.At i) (hend : it.payloadIterator.atEnd = true)
    (hne : c.cells ≠ []) : ¬ ReadsByOffset c it := by
  intro hreads
  have hfirst := getElem?_zero_cells hne
  obtain ⟨it', hget⟩ := hreads.1 0 _ 1 hfirst Nat.one_pos
  obtain ⟨hseek, hpay, -, -⟩ := seek_cell hwf hover hat hfirst
  have hprepare : it.prepare c = it := if_pos hpinned
  unfold TileIterator.getData at hget
  rw [hprepare] at hget
  obtain ⟨it'', values, hfill⟩ := fillTiles_of_atEnd (c := c) (hpay ▸ hend) 1
  rw [if_pos hseek, hfill] at hget
  injection hget with hget
  have hcoords := congrArg (fun r => r.2.tiles.map Prod.snd) hget
  rw [tilesFrom, window_succ hfirst] at hcoords
  simp at hcoords

lemma fillTiles_exhausts (hwf : c.WellFormed vals) (hover : Over c it) (hat : it.emptyBitmapIterator.At 0)
    (hpay : it.payloadIterator.At 0) (hmem : cell ∈ c.cells) (hlast : c.payload.count ≤ cell.pPos + 1) :
    ∃ it' values coords, it.fillTiles c c.cells.length true = .ok (it', values, coords) ∧ Over c it' ∧
      it'.emptyBitmapIterator.At (min (0 + c.cells.length) c.cells.length) ∧ it'.payloadIterator.atEnd = true := by
  have hne := ne_nil_of_mem hmem
  unfold TileIterator.fillTiles
  by_cases hfast : c.fastTileInitialize = true
  · obtain ⟨hlen, -⟩ := numbered_of_fast hwf hfast
    obtain ⟨-, hover', hat', hpay'⟩ := coordLoop_spec hwf hover hat hpay (by omega) c.cells.length
    refine ⟨_, _, _, by rw [if_pos hfast, if_pos rfl], hover', hat', ?_⟩
    exact hpay'.atEnd_of_le (hover'.referent ▸ hwf.payload) (by rw [hover'.referent]; omega)
  · obtain ⟨it', hfill, hwalk⟩ :=
      fillLoop_spec hwf hover hat (fun _ => ⟨0, count_pos hwf hne, hpay⟩) c.cells.length
    refine ⟨it', _, _, by rw [if_neg hfast, if_pos rfl, hfill], hwalk.isOver, hwalk.atCell, ?_⟩
    have hpos := length_pos_of_ne_nil hne
    rcases hwalk.payload with ⟨hj, -⟩ | ⟨-, last, hlast', hpay'⟩
    · omega
    · obtain ⟨k, hk, rfl⟩ := getElem_of_mem hmem
      have hgrow := add_le_of_pairwise hwf.bitmap.pPos_lt (by omega) (getElem?_eq_getElem hk) hlast'
      exact hpay'.atEnd_of_le (hwalk.isOver.referent ▸ hwf.payload) (by rw [hwalk.isOver.referent]; omega)

lemma exhausts (hwf : c.WellFormed vals) (h : Sound c it) (hpinned : c.isDataChunkPinned = true)
    (hfresh : it.payloadIterator = .ofPayload c.payload) (hmem : cell ∈ c.cells)
    (hlast : c.payload.count ≤ cell.pPos + 1) (hne : c.cells ≠ []) :
    ∃ it' d, it.getData c (c.cells.head hne).lPos c.cells.length true = .ok (it', d) ∧ Over c it' ∧
      (∃ i, it'.emptyBitmapIterator.At i) ∧ it'.payloadIterator.atEnd = true := by
  obtain ⟨hseek, hpay, hbm, hat⟩ := seek_cell hwf ⟨h.bm, h.referent hpinned⟩ h.atCell (getElem?_zero_cells hne)
  have hover : Over c (it.seek c (c.cells.head hne).lPos).2 := ⟨hbm, by rw [hpay, h.referent hpinned]⟩
  have hpay0 : (it.seek c (c.cells.head hne).lPos).2.payloadIterator.At 0 := by
    rw [hpay, hfresh]
    exact at_ofPayload hwf.payload
  obtain ⟨it', values, coords, hfill, hover', hat', hend⟩ := fillTiles_exhausts hwf hover hat hpay0 hmem hlast
  obtain ⟨-, -, hebi, hpayload⟩ := finish_spec hover'.bm hat'
  refine ⟨it'.finish, ⟨some (values, coords), it'.finish.lPosition⟩, ?_,
    ⟨hebi ▸ hover'.bm, hpayload ▸ hover'.referent⟩, ⟨_, hebi ▸ hat'⟩, hpayload ▸ hend⟩
  have hprepare : it.prepare c = it := if_pos hpinned
  unfold TileIterator.getData
  rw [hprepare]
  rw [if_pos hseek, hfill]
  rfl

/-- **`getData` depends only on its offset** exactly if the chunk is not kept pinned or values are left behind the last cell. -/
theorem getData_iff (c : TileChunk) (vals : List (List UInt8)) (it : TileIterator) (hwf : c.WellFormed vals)
    (h : c.iterator = .ok it) : (∀ calls : List TileIterator.Call, ReadsByOffset c (it.afterAll c calls)) ↔ c.KeepsBehind := by
  obtain ⟨hsound, hfresh⟩ := sound_iterator hwf h
  refine ⟨fun hall hpinned cell hmem => ?_, fun hkeeps calls => ?_⟩
  · by_contra hlast
    have hne := ne_nil_of_mem hmem
    obtain ⟨it', d, hget, hover, hat, hend⟩ := exhausts hwf hsound hpinned hfresh hmem (Nat.le_of_not_lt hlast) hne
    have hreads := hall [.getData (c.cells.head hne).lPos ⟨c.cells.length, length_pos_of_ne_nil hne⟩ true]
    simp only [TileIterator.afterAll, foldl_cons, foldl_nil, TileIterator.after, hget] at hreads
    exact not_readsByOffset_of_atEnd hwf hpinned hover hat hend hne hreads
  · exact (hsound.afterAll hwf hkeeps calls).readsByOffset hwf hkeeps

/-- The same cell, asked for twice: the second time the position is missing. -/
theorem oneCellChunk_getData : ∃ it it₁ it₂, (oneCellChunk 128).iterator = .ok it ∧
    it.getData (oneCellChunk 128) 0 1 true = .ok (it₁, ⟨some ([.data [7, 0, 0, 0, 0, 0, 0, 0]], [0]), none⟩) ∧
    it₁.getData (oneCellChunk 128) 0 1 true = .ok (it₂, ⟨some ([.data [7, 0, 0, 0, 0, 0, 0, 0]], []), some 0⟩) :=
  ⟨_, _, _, rfl, rfl, rfl⟩

lemma wellFormed_oneCellChunk : (oneCellChunk 80).WellFormed [[7, 0, 0, 0, 0, 0, 0, 0]] where
  payload := {
    ne_nil := by decide
    chained := ⟨by simp [oneCellChunk, Segment.Follows, Segment.Fits, Segment.maxDataIndex], by simp [oneCellChunk]⟩
    strict := by decide
    holds := by simp [ConstRLEPayload.Holds, oneCellChunk]
    reason := by decide
    boolean := by decide
    last_lt := by decide }
  bitmap := ⟨by decide, by decide, by decide, by decide⟩
  physical := by decide
  contains := by decide

theorem oneCellChunk_readsByOffset : ∃ it, (oneCellChunk 80).iterator = .ok it ∧
    ∀ calls : List TileIterator.Call, ReadsByOffset (oneCellChunk 80) (it.afterAll (oneCellChunk 80) calls) := by
  obtain ⟨it, hit⟩ : ∃ it, (oneCellChunk 80).iterator = .ok it := ⟨_, rfl⟩
  refine ⟨it, hit, (getData_iff _ _ it wellFormed_oneCellChunk hit).mpr fun hpinned => ?_⟩
  exact absurd hpinned (by decide)

end SciDB.Array
