import SciDB.Lib.Bisect

/-!
# Empty bitmaps

`ConstRLEEmptyBitmap` says which logical positions of a chunk have a cell, and at which physical
position its value is. `cells` are the cells, in order. An iterator stands at one of them or at the end (`At`).
-/

namespace SciDB.Array

open SciDB.Lib List

structure EmptySegment where
  lPosition : ℕ
  length : ℕ
  pPosition : ℕ
deriving DecidableEq, Inhabited

structure ConstRLEEmptyBitmap where
  seg : List EmptySegment
  nNonEmptyElements : ℕ
deriving DecidableEq

/-- A logical and a physical position. -/
structure Cell where
  lPos : ℕ
  pPos : ℕ
deriving DecidableEq

/-- The cells of a segment. -/
def EmptySegment.cells (s : EmptySegment) : List Cell :=
  (List.range s.length).map fun i => ⟨s.lPosition + i, s.pPosition + i⟩

/-- The cells of segments. -/
def cellsOf (segs : List EmptySegment) : List Cell := segs.flatMap EmptySegment.cells

namespace ConstRLEEmptyBitmap

variable (bm : ConstRLEEmptyBitmap)

/-- The cells, in order. -/
def cells : List Cell := cellsOf bm.seg

/-- `_seg[i]`. -/
def segAt (i : ℕ) : EmptySegment := bm.seg.getD i default

def findBy (start : EmptySegment → ℕ) (pos : ℕ) : ℕ :=
  bisect (fun m => decide (start (bm.segAt m) + (bm.segAt m).length ≤ pos)) bm.seg.length 0 bm.seg.length

def findSegment (pos : ℕ) : ℕ := bm.findBy EmptySegment.lPosition pos

/-- A chunk without empty cells. -/
def full (nBits : ℕ) : ConstRLEEmptyBitmap := ⟨[⟨0, nBits, 0⟩], nBits⟩

/-- Segments in order, with cells. -/
structure WellFormed : Prop where
  length_pos : ∀ s ∈ bm.seg, 0 < s.length
  logical : bm.seg.Pairwise fun s t => s.lPosition + s.length ≤ t.lPosition
  physical : bm.seg.Pairwise fun s t => s.pPosition + s.length ≤ t.pPosition
  count : bm.nNonEmptyElements = bm.cells.length

/-- Positions number the cells. -/
def Numbered : Prop := ∀ (i : ℕ) (c : Cell), bm.cells[i]? = some c → c.pPos = i

end ConstRLEEmptyBitmap

section Cells

variable {pre post segs : List EmptySegment} {s : EmptySegment} {off i : ℕ} {key : Cell → ℕ}

@[simp] lemma length_cells : s.cells.length = s.length := by simp [EmptySegment.cells]

@[simp] lemma cellsOf_cons : cellsOf (s :: segs) = s.cells ++ cellsOf segs := rfl

@[simp] lemma cellsOf_append : cellsOf (pre ++ post) = cellsOf pre ++ cellsOf post := flatMap_append

lemma getElem?_cellsOf (h : off < s.length) :
    (cellsOf (pre ++ s :: post))[(cellsOf pre).length + off]? = some ⟨s.lPosition + off, s.pPosition + off⟩ := by
  rw [cellsOf_append, getElem?_append_right (Nat.le_add_right _ _), Nat.add_sub_cancel_left, cellsOf_cons,
    getElem?_append_left (by rwa [length_cells])]
  simp [EmptySegment.cells, h]

lemma exists_cell_split (h : i < (cellsOf segs).length) : ∃ pre s post off,
    segs = pre ++ s :: post ∧ off < s.length ∧ i = (cellsOf pre).length + off := by
  induction segs generalizing i with
  | nil => exact absurd h (Nat.not_lt_zero i)
  | cons s segs ih =>
    rw [cellsOf_cons, length_append, length_cells] at h
    by_cases hi : i < s.length
    · exact ⟨[], s, segs, i, rfl, hi, (zero_add i).symm⟩
    · obtain ⟨pre, t, post, off, rfl, hoff, hidx⟩ := ih (i := i - s.length) (by omega)
      refine ⟨s :: pre, t, post, off, rfl, hoff, ?_⟩
      rw [cellsOf_cons, length_append, length_cells]
      omega

lemma pairwise_cellsOf {start : EmptySegment → ℕ}
    (hkey : ∀ (s : EmptySegment) (i : ℕ), key ⟨s.lPosition + i, s.pPosition + i⟩ = start s + i)
    (h : segs.Pairwise fun s t => start s + s.length ≤ start t) : (cellsOf segs).Pairwise fun a b => key a < key b := by
  refine pairwise_flatMap.mpr ⟨fun s _ => ?_, h.imp fun {s t} hst => ?_⟩
  · refine pairwise_map.mpr (pairwise_lt_range.imp fun {i j} hij => ?_)
    rw [hkey, hkey]
    omega
  · intro a ha b hb
    obtain ⟨i, hi, rfl⟩ := mem_map.mp ha
    obtain ⟨j, -, rfl⟩ := mem_map.mp hb
    rw [mem_range] at hi
    rw [hkey, hkey]
    omega

lemma add_le_of_pairwise {cells : List Cell} (h : cells.Pairwise fun a b => key a < key b)
    {j : ℕ} {a b : Cell} (hij : i ≤ j) (ha : cells[i]? = some a) (hb : cells[j]? = some b) : key a + (j - i) ≤ key b := by
  induction j generalizing b with
  | zero =>
    obtain rfl : i = 0 := by omega
    rw [ha] at hb
    cases hb
    exact le_refl _
  | succ j ih =>
    rcases Nat.eq_or_lt_of_le hij with rfl | hlt
    · rw [ha] at hb
      cases hb
      omega
    · obtain ⟨hj, -⟩ := List.getElem?_eq_some_iff.mp hb
      have hc : cells[j]? = some cells[j] := getElem?_eq_getElem (by omega)
      have hle := ih (by omega) hc
      have hlt' : key cells[j] < key b := by
        obtain ⟨_, rfl⟩ := List.getElem?_eq_some_iff.mp hb
        exact pairwise_iff_getElem.mp h j (j + 1) _ _ (by omega)
      omega

end Cells

namespace ConstRLEEmptyBitmap.WellFormed

variable {bm : ConstRLEEmptyBitmap} (h : bm.WellFormed) {a b : Cell} {i j : ℕ}
include h

lemma pPos_lt : bm.cells.Pairwise fun a b => a.pPos < b.pPos := pairwise_cellsOf (fun _ _ => rfl) h.physical

lemma lPos_lt : bm.cells.Pairwise fun a b => a.lPos < b.lPos := pairwise_cellsOf (fun _ _ => rfl) h.logical

lemma lPos_inj (ha : bm.cells[i]? = some a) (hb : bm.cells[j]? = some b) (hab : a.lPos = b.lPos) : i = j := by
  rcases Nat.lt_trichotomy i j with hij | hij | hij
  · have := add_le_of_pairwise h.lPos_lt (le_of_lt hij) ha hb
    omega
  · exact hij
  · have := add_le_of_pairwise h.lPos_lt (le_of_lt hij) hb ha
    omega

lemma numbered (hlt : ∀ c ∈ bm.cells, c.pPos < bm.cells.length) : bm.Numbered := by
  intro i c hc
  obtain ⟨hi, -⟩ := List.getElem?_eq_some_iff.mp hc
  obtain ⟨first, hfirst⟩ : ∃ first, bm.cells[0]? = some first := ⟨_, getElem?_eq_getElem (by omega)⟩
  obtain ⟨last, hlast⟩ : ∃ last, bm.cells[bm.cells.length - 1]? = some last := ⟨_, getElem?_eq_getElem (by omega)⟩
  have hlow := add_le_of_pairwise h.pPos_lt (Nat.zero_le i) hfirst hc
  have hhigh := add_le_of_pairwise h.pPos_lt (by omega) hc hlast
  have := hlt last (mem_of_getElem? hlast)
  omega

end ConstRLEEmptyBitmap.WellFormed

structure BitmapIterator where
  bm : ConstRLEEmptyBitmap
  currSeg : ℕ
  currLPos : ℕ

namespace BitmapIterator

/-- The constructor. -/
def ofBitmap (bm : ConstRLEEmptyBitmap) : BitmapIterator := ⟨bm, 0, (bm.segAt 0).lPosition⟩

variable (it : BitmapIterator)

/-- `end()`. -/
def atEnd : Bool := it.bm.seg.length ≤ it.currSeg

def cs : EmptySegment := it.bm.segAt it.currSeg

def getLPos : ℕ := it.currLPos

def getPPos : ℕ := it.cs.pPosition + it.currLPos - it.cs.lPosition

def reset : BitmapIterator :=
  let it' := { it with currSeg := 0 }
  if it'.atEnd then it' else { it' with currLPos := it'.cs.lPosition }

def setPosition (lPos : ℕ) : Bool × BitmapIterator :=
  let it' := { it with currSeg := it.bm.findSegment lPos }
  if it'.atEnd ∨ lPos < it'.cs.lPosition then (false, { it with currSeg := it.bm.seg.length })
  else (true, { it' with currLPos := lPos })

def skip (n : ℕ) : Bool × BitmapIterator :=
  let it₁ := { it with currLPos := it.currLPos + n }
  if it.cs.lPosition + it.cs.length ≤ it₁.currLPos then
    let ppos := it₁.getPPos
    let r := it.bm.findBy EmptySegment.pPosition ppos
    if r = it.bm.seg.length then (false, it₁)
    else (true, { it with currSeg := r, currLPos := (it.bm.segAt r).lPosition + ppos - (it.bm.segAt r).pPosition })
  else (true, it₁)

/-- `operator++`. -/
def next : BitmapIterator :=
  if it.currLPos + 1 < it.cs.lPosition + it.cs.length then { it with currLPos := it.currLPos + 1 }
  else
    let it' := { it with currSeg := it.currSeg + 1 }
    if it'.atEnd then it' else { it' with currLPos := it'.cs.lPosition }

/-- At a cell, or behind all. -/
inductive At (it : BitmapIterator) : ℕ → Prop where
  | inside {pre post : List EmptySegment} {s : EmptySegment} {off : ℕ} : it.bm.seg = pre ++ s :: post →
      off < s.length → it.currSeg = pre.length → it.currLPos = s.lPosition + off →
      At it ((cellsOf pre).length + off)
  | ended : it.atEnd = true → At it it.bm.cells.length

variable {it} {bm : ConstRLEEmptyBitmap} {pre post : List EmptySegment} {s : EmptySegment} {off i k n : ℕ}
  {start : EmptySegment → ℕ}

open ConstRLEEmptyBitmap

lemma segAt_middle (h : bm.seg = pre ++ s :: post) : bm.segAt pre.length = s := by
  simp [segAt, h]

lemma length_cells_middle (h : bm.seg = pre ++ s :: post) :
    bm.cells.length = (cellsOf pre).length + s.length + (cellsOf post).length := by
  rw [cells, h, cellsOf_append, length_append, cellsOf_cons, length_append, length_cells, add_assoc]

lemma At.cell (h : At it i) (hi : i < it.bm.cells.length) :
    it.atEnd = false ∧ it.bm.cells[i]? = some ⟨it.getLPos, it.getPPos⟩ := by
  cases h with
  | @inside pre post s off hseg hoff hcurr hlpos =>
    have hcs : it.cs = s := by rw [cs, hcurr, segAt_middle hseg]
    refine ⟨by simp [atEnd, hseg, hcurr], ?_⟩
    rw [cells, hseg, getElem?_cellsOf hoff, getLPos, getPPos, hcs, hlpos]
    rw [← add_assoc, add_right_comm, Nat.add_sub_cancel]
  | ended => exact absurd hi (lt_irrefl _)

lemma At.le (h : At it i) : i ≤ it.bm.cells.length := by
  cases h with
  | inside hseg hoff _ _ =>
    rw [length_cells_middle hseg]
    omega
  | ended => exact le_refl _

lemma At.atEnd_iff (h : At it i) : it.atEnd = true ↔ i = it.bm.cells.length := by
  cases h with
  | inside hseg hoff hcurr hlpos =>
    have hlen := length_cells_middle hseg
    simp only [atEnd, hseg, hcurr, length_append, length_cons, decide_eq_true_eq]
    omega
  | ended hend => simp [hend]

open BitmapIterator

lemma bm_next : it.next.bm = it.bm := by
  unfold next
  dsimp only
  split_ifs <;> rfl

lemma bm_reset : it.reset.bm = it.bm := by
  unfold reset
  dsimp only
  split_ifs <;> rfl

lemma at_start (pre : List EmptySegment) (hseg : it.bm.seg = pre ++ post) (hpos : ∀ s ∈ it.bm.seg, 0 < s.length)
    (hcurr : it.currSeg = pre.length) (hlpos : it.atEnd = false → it.currLPos = it.cs.lPosition) :
    At it (cellsOf pre).length := by
  cases post with
  | nil =>
    rw [append_nil] at hseg
    rw [← hseg]
    exact .ended (by simp [atEnd, hseg, hcurr])
  | cons s post =>
    have hcs : it.cs = s := by rw [cs, hcurr, segAt_middle hseg]
    have hlpos' := hlpos (by simp [atEnd, hseg, hcurr])
    exact @At.inside it pre post s 0 hseg (hpos s (by simp [hseg])) hcurr (by rw [hlpos', hcs, add_zero])

lemma At.next (hwf : it.bm.WellFormed) (h : At it i) (hi : i < it.bm.cells.length) : At it.next (i + 1) := by
  cases h with
  | ended => exact absurd hi (lt_irrefl _)
  | @inside pre post s off hseg hoff hcurr hlpos =>
    have hcs : it.cs = s := by rw [cs, hcurr, segAt_middle hseg]
    unfold next
    rw [hcs]
    by_cases hlast : off + 1 < s.length
    · rw [if_pos (by omega)]
      exact @At.inside _ pre post s (off + 1) hseg hlast hcurr (by rw [hlpos, add_assoc])
    · rw [if_neg (by omega)]
      have hidx : (cellsOf pre).length + off + 1 = (cellsOf (pre ++ [s])).length := by
        simp [cellsOf]
        omega
      rw [hidx]
      dsimp only
      have hseg' : it.bm.seg = (pre ++ [s]) ++ post := by simp [hseg]
      have hcurr' : it.currSeg + 1 = (pre ++ [s]).length := by simp [hcurr]
      split_ifs with hend
      · exact at_start (pre ++ [s]) hseg' hwf.length_pos hcurr' fun h => absurd hend (by simp [h])
      · exact at_start (pre ++ [s]) hseg' hwf.length_pos hcurr' fun _ => rfl

lemma at_ofBitmap (hwf : bm.WellFormed) : At (ofBitmap bm) 0 :=
  at_start [] rfl hwf.length_pos rfl fun _ => rfl

lemma At.reset (hwf : it.bm.WellFormed) : At it.reset 0 := by
  unfold BitmapIterator.reset
  dsimp only
  split_ifs with hend
  · exact at_start [] rfl hwf.length_pos rfl fun h => absurd hend (by simp [h])
  · exact at_start [] rfl hwf.length_pos rfl fun _ => rfl

lemma findBy_append {pos : ℕ} (hseg : bm.seg = pre ++ post)
    (hpre : ∀ s ∈ pre, start s + s.length ≤ pos) (hpost : ∀ s ∈ post, pos < start s + s.length) :
    bm.findBy start pos = pre.length := by
  have hlen : bm.seg.length = pre.length + post.length := by rw [hseg, length_append]
  apply bisect_eq (by omega) (Nat.zero_le _) (by omega)
  · intro i _ hi
    rw [decide_eq_true_eq, segAt, hseg, getD_append _ _ _ _ hi, getD_eq_getElem _ _ hi]
    exact hpre _ (getElem_mem _)
  · intro i hi hi'
    rw [decide_eq_false_iff_not, not_le, segAt, hseg, getD_append_right _ _ _ _ hi, getD_eq_getElem _ _ (by omega)]
    exact hpost _ (getElem_mem _)

lemma findBy_eq {pos : ℕ} (hseg : bm.seg = pre ++ s :: post)
    (hordered : bm.seg.Pairwise fun s t => start s + s.length ≤ start t) (hle : start s ≤ pos)
    (hlt : pos < start s + s.length) : bm.findBy start pos = pre.length := by
  rw [hseg, pairwise_append, pairwise_cons] at hordered
  obtain ⟨-, ⟨hafter, -⟩, hbefore⟩ := hordered
  refine findBy_append hseg (fun t ht => le_trans (hbefore t ht s mem_cons_self) hle) (forall_mem_cons.mpr ⟨hlt, fun t ht => ?_⟩)
  have := hafter t ht
  omega

lemma setPosition_cell (hwf : it.bm.WellFormed) {c : Cell} (hc : it.bm.cells[i]? = some c) :
    (it.setPosition c.lPos).1 = true ∧ At (it.setPosition c.lPos).2 i ∧ (it.setPosition c.lPos).2.bm = it.bm := by
  obtain ⟨hi, -⟩ := List.getElem?_eq_some_iff.mp hc
  obtain ⟨pre, s, post, off, hseg, hoff, rfl⟩ := exists_cell_split hi
  rw [cells, hseg, getElem?_cellsOf hoff] at hc
  cases hc
  have hfind : it.bm.findSegment (s.lPosition + off) = pre.length := findBy_eq hseg hwf.logical (Nat.le_add_right _ _) (by omega)
  have hcs : cs { it with currSeg := pre.length } = s := segAt_middle hseg
  unfold setPosition
  dsimp only
  rw [hfind, hcs, if_neg (by simp [atEnd, hseg])]
  exact ⟨rfl, .inside hseg hoff rfl rfl, rfl⟩

lemma exists_at_setPosition (pos : ℕ) : ∃ j, At (it.setPosition pos).2 j ∧
    (it.setPosition pos).2.bm = it.bm ∧ (it.setPosition pos).1 = !(it.setPosition pos).2.atEnd := by
  unfold setPosition
  dsimp only
  split_ifs with hnone
  · exact ⟨it.bm.cells.length, .ended (by simp [atEnd]), rfl, by simp [atEnd]⟩
  · rw [not_or, Bool.not_eq_true, not_lt] at hnone
    obtain ⟨hend, hle⟩ := hnone
    have hlt : it.bm.findSegment pos < it.bm.seg.length := by simpa [atEnd] using hend
    have hcs : cs { it with currSeg := it.bm.findSegment pos } = it.bm.seg[it.bm.findSegment pos] := getD_eq_getElem _ _ hlt
    have hseg : it.bm.seg = it.bm.seg.take (it.bm.findSegment pos)
        ++ it.bm.seg[it.bm.findSegment pos] :: it.bm.seg.drop (it.bm.findSegment pos + 1) := by
      rw [getElem_cons_drop, take_append_drop]
    have hbelow : decide ((it.bm.segAt (it.bm.findSegment pos)).lPosition
        + (it.bm.segAt (it.bm.findSegment pos)).length ≤ pos) = false := below_bisect hlt
    rw [hcs] at hle
    rw [decide_eq_false_iff_not, show it.bm.segAt (it.bm.findSegment pos) = _ from hcs] at hbelow
    have hlen : (it.bm.seg.take (it.bm.findSegment pos)).length = it.bm.findSegment pos := length_take_of_le (le_of_lt hlt)
    refine ⟨_, @At.inside _ _ _ _ (pos - it.bm.seg[it.bm.findSegment pos].lPosition) hseg (by omega) hlen.symm ?_,
      rfl, by simpa [atEnd] using hlt⟩
    exact (Nat.add_sub_cancel' hle).symm

lemma At.skip (hwf : it.bm.WellFormed) (hnum : it.bm.Numbered) (h : At it i) (hi : i + k < it.bm.cells.length) :
    (it.skip k).1 = true ∧ At (it.skip k).2 (i + k) ∧ (it.skip k).2.bm = it.bm := by
  cases h with
  | ended => omega
  | @inside pre post s off hseg hoff hcurr hlpos =>
    have hcs : it.cs = s := by rw [cs, hcurr, segAt_middle hseg]
    unfold skip
    dsimp only
    rw [hcs]
    by_cases hin : off + k < s.length
    · rw [if_neg (by omega)]
      refine ⟨rfl, ?_, rfl⟩
      rw [add_assoc]
      exact .inside hseg hin hcurr (by rw [hlpos, add_assoc])
    · rw [if_pos (by omega)]
      -- the cell is in a later segment, which the search by physical positions finds
      obtain ⟨pre', s', post', off', hseg', hoff', hidx⟩ := exists_cell_split hi
      have hstart : ∀ {pre post : List EmptySegment} {s : EmptySegment} {off : ℕ}, it.bm.seg = pre ++ s :: post →
          off < s.length → s.pPosition + off = (cellsOf pre).length + off := by
        intro pre post s off hseg hoff
        apply hnum _ ⟨s.lPosition + off, s.pPosition + off⟩
        rw [cells, hseg, getElem?_cellsOf hoff]
      have hp := hstart hseg hoff
      have hp' := hstart hseg' hoff'
      have hppos : getPPos { it with currLPos := it.currLPos + k } = s'.pPosition + off' := by
        show it.cs.pPosition + (it.currLPos + k) - it.cs.lPosition = _
        rw [hcs, hlpos]
        omega
      have hfind : it.bm.findBy EmptySegment.pPosition (s'.pPosition + off') = pre'.length :=
        findBy_eq hseg' hwf.physical (Nat.le_add_right _ _) (by omega)
      rw [hppos, hfind, if_neg (by simp [hseg']), segAt_middle hseg', hidx]
      refine ⟨rfl, .inside hseg' hoff' rfl ?_, rfl⟩
      show s'.lPosition + (s'.pPosition + off') - s'.pPosition = _
      omega

end BitmapIterator

end SciDB.Array
