import SciDB.Array.RLEEmptyBitmap
import SciDB.Array.RLEPayload

/-!
# Bitmaps as boolean payloads

`RLEPayload::unPackTile` writes a window of an empty bitmap as a boolean payload; a constructor of `RLEEmptyBitmap` reads one.
Left out: `_valuesCount`, which nothing here reads, and capacities.
-/

namespace SciDB.Array

open SciDB.Lib List

/-- The state of `unPackTile`. -/
structure Unpacking where
  rs : Segment
  container : List Segment

namespace Unpacking

def push (u : Unpacking) (vi : ℕ) : Unpacking :=
  let rs := { u.rs with dataIndex := vi }
  ⟨rs, u.container ++ [rs]⟩

def fillTo (u : Unpacking) (pos : ℕ) : Unpacking :=
  let u := if pos ≠ u.rs.startPosition then u.push 0 else u
  { u with rs := { u.rs with startPosition := pos } }

/-- A run of true values. -/
def run (u : Unpacking) (len : ℕ) : Unpacking :=
  { u.push 1 with rs := (u.push 1).rs.addToPPosition len }

/-- The loop of `unPackTile`. -/
def segments (vStart vEnd : ℕ) : List EmptySegment → Unpacking → Unpacking
  | [], u => u
  | es :: segs, u =>
    if es.lPosition < vEnd then
      let inStart := max es.lPosition vStart
      let inEnd := min (es.lPosition + es.length) vEnd
      segments vStart vEnd segs ((u.fillTo (inStart - vStart)).run (inEnd - inStart))
    else u

end Unpacking

namespace ConstRLEPayload

/-- A tile of a bitmap. -/
def unPackTile (p : ConstRLEPayload) (emptyMap : ConstRLEEmptyBitmap) (vStart vEnd : ℕ) : ConstRLEPayload :=
  let u := (Unpacking.segments vStart vEnd (emptyMap.seg.drop (emptyMap.findSegment vStart))
    ⟨{ isRun := true }, []⟩).fillTo (vEnd - vStart)
  -- the byte has two bits: false at index 0, true at index 1
  { p with seg := u.container ++ [u.rs], payload := [2], elemSize := 1, dataSize := 1, isBoolean := true }

/-- The bit with a number. -/
def checkBit (p : ConstRLEPayload) (bit : ℕ) : Bool := (p.payload.getD (bit / 8) 0).toNat.testBit (bit % 8)

end ConstRLEPayload

structure Building where
  container : List EmptySegment := []
  bs : EmptySegment := ⟨0, 0, 0⟩

namespace Building

def add (b : Building) (pos len : ℕ) : Building :=
  if b.bs.lPosition + b.bs.length = pos then { b with bs := { b.bs with length := b.bs.length + len } }
  else if b.bs.length ≠ 0 then ⟨b.container ++ [b.bs], ⟨pos, len, b.bs.pPosition + b.bs.length⟩⟩
  else { b with bs := ⟨pos, len, b.bs.pPosition⟩ }

/-- One segment of the payload. -/
def segment (p : ConstRLEPayload) (ps : Segment) (len : ℕ) (b : Building) : Building :=
  if ps.isRun then if p.checkBit ps.dataIndex then b.add ps.startPosition len else b
  else (range len).foldl (fun b j => if p.checkBit (ps.dataIndex + j) then b.add (ps.startPosition + j) 1 else b) b

/-- The loop over the segments. -/
def segments (p : ConstRLEPayload) : List Segment → Building → Building
  | ps :: next :: segs, b => segments p (next :: segs) (b.segment p ps (next.startPosition - ps.startPosition))
  | _, b => b

def finish (b : Building) : ConstRLEEmptyBitmap :=
  ⟨if b.bs.length ≠ 0 then b.container ++ [b.bs] else b.container, b.bs.pPosition + b.bs.length⟩

end Building

namespace ConstRLEEmptyBitmap

/-- `RLEEmptyBitmap(RLEPayload&)`. -/
def ofPayload (p : ConstRLEPayload) : ConstRLEEmptyBitmap := (Building.segments p p.seg {}).finish

/-- Maximal segments in order, with consecutive physical positions. -/
structure Canonical (bm : ConstRLEEmptyBitmap) : Prop where
  length_pos : ∀ s ∈ bm.seg, 0 < s.length
  chain : bm.seg.IsChain fun s t => s.lPosition + s.length < t.lPosition ∧ t.pPosition = s.pPosition + s.length
  first : ∀ s ∈ bm.seg.head?, s.pPosition = 0
  count : bm.nNonEmptyElements = bm.cells.length

end ConstRLEEmptyBitmap

namespace Unpacking

structure UpTo (Φ : List Segment → Prop) (u : Unpacking) (pos : ℕ) : Prop where
  rs : ∃ vi, u.rs = ⟨pos, vi, true, false⟩
  holds : ∀ t : Segment, t.startPosition = pos → Φ (u.container ++ [t])

variable {Φ Ψ : List Segment → Prop} {u : Unpacking} {pos : ℕ}

lemma UpTo.fillTo (h : UpTo Φ u pos) (pos' : ℕ) (hfill : ∀ c t, t.startPosition = pos' → Φ (c ++ [⟨pos, 0, true, false⟩]) →
    Φ (c ++ [⟨pos, 0, true, false⟩] ++ [t])) : UpTo Φ (u.fillTo pos') pos' := by
  obtain ⟨vi, hrs⟩ := h.rs
  unfold Unpacking.fillTo push
  split_ifs with hgap
  · refine ⟨⟨0, by simp [hrs]⟩, fun t ht => ?_⟩
    simp only [hrs]
    exact hfill _ t ht (h.holds _ rfl)
  · rw [hrs, not_not] at hgap
    exact ⟨⟨vi, by simp [hrs]⟩, fun t ht => h.holds t (ht.trans hgap)⟩

lemma UpTo.run (h : UpTo Φ u pos) (len : ℕ) (hlt : pos + len < 2 ^ 64) (hrun : ∀ c t, t.startPosition = pos + len →
    Φ (c ++ [⟨pos, 1, true, false⟩]) → Ψ (c ++ [⟨pos, 1, true, false⟩] ++ [t])) : UpTo Ψ (u.run len) (pos + len) := by
  obtain ⟨vi, hrs⟩ := h.rs
  unfold Unpacking.run push
  refine ⟨⟨1, by simp [hrs, Segment.addToPPosition, wrap_of_lt hlt]⟩, fun t ht => ?_⟩
  simp only [hrs]
  exact hrun _ t ht (h.holds _ rfl)

lemma UpTo.last (h : UpTo Φ u pos) : u.rs.startPosition = pos ∧ Φ (u.container ++ [u.rs]) := by
  obtain ⟨vi, hrs⟩ := h.rs
  have hpos : u.rs.startPosition = pos := by rw [hrs]
  exact ⟨hpos, h.holds _ hpos⟩

def Tells (bit : ℕ → Prop) (s t : Segment) : Prop :=
  s.isRun = true ∧ s.isNull = false ∧ s.dataIndex ≤ 1 ∧
    ∀ q, s.startPosition ≤ q → q < t.startPosition → (bit q ↔ s.dataIndex = 1)

def Tiled (bit : ℕ → Prop) (segs : List Segment) : Prop := Segment.Chained 8 segs ∧ segs.IsChain (Tells bit)

/-- A position of the segments. -/
def In (segs : List EmptySegment) (x : ℕ) : Prop := ∃ s ∈ segs, s.lPosition ≤ x ∧ x < s.lPosition + s.length

variable {bit : ℕ → Prop} {vStart vEnd vi : ℕ} {segs : List EmptySegment} {s : EmptySegment}

lemma Tiled.snoc {c : List Segment} {t : Segment} (h : Tiled bit (c ++ [⟨pos, vi, true, false⟩])) (hle : pos ≤ t.startPosition)
    (hvi : vi ≤ 1) (htells : ∀ q, pos ≤ q → q < t.startPosition → (bit q ↔ vi = 1)) :
    Tiled bit (c ++ [⟨pos, vi, true, false⟩] ++ [t]) := by
  refine ⟨h.1.snoc ⟨hle, fun _ _ => ⟨by simp [Segment.maxDataIndex]; omega, by simp; omega⟩⟩, ?_⟩
  rw [append_assoc]
  exact isChain_append_cons_cons.mpr ⟨h.2, ⟨rfl, rfl, hvi, htells⟩, isChain_singleton t⟩

lemma tiled_segments (h : UpTo (Tiled bit) u pos) (hv : vStart ≤ vEnd) (hend : vEnd < 2 ^ 63) (hpos : vStart + pos ≤ vEnd)
    (hsorted : segs.Pairwise fun s t => s.lPosition + s.length ≤ t.lPosition)
    (hlater : ∀ s ∈ segs, vStart + pos ≤ max s.lPosition vStart ∧ vStart < s.lPosition + s.length ∧ 0 < s.length)
    (hin : ∀ q, pos ≤ q → vStart + q < vEnd → (bit q ↔ In segs (vStart + q))) :
    ∃ pos', vStart + pos' ≤ vEnd ∧ UpTo (Tiled bit) (segments vStart vEnd segs u) pos' ∧
      ∀ q, pos' ≤ q → vStart + q < vEnd → ¬bit q := by
  -- up to `pos` the window is done; from there on its cells are in the segments that are left
  induction segs generalizing u pos with
  | nil => exact ⟨pos, hpos, h, fun q hq hlt => by simp [hin q hq hlt, In]⟩
  | cons s segs ih =>
    obtain ⟨hs, hsegs⟩ := forall_mem_cons.mp hlater
    obtain ⟨hafter, hsorted⟩ := pairwise_cons.mp hsorted
    have hbefore : ∀ x < s.lPosition, ¬In (s :: segs) x := by
      rintro x hx ⟨t, ht, hle, -⟩
      rcases mem_cons.mp ht with rfl | ht
      · omega
      · have := hafter t ht
        omega
    rw [segments]
    split_ifs with hlt
    · have hgap := h.fillTo (max s.lPosition vStart - vStart) fun c t ht hc => hc.snoc (by omega) (by omega)
        fun q hq hqt => by simp [hin q hq (by omega), hbefore (vStart + q) (by omega)]
      have hrun := hgap.run (min (s.lPosition + s.length) vEnd - max s.lPosition vStart) (Ψ := Tiled bit) (by omega)
        fun c t ht hc => hc.snoc (by omega) le_rfl fun q hq hqt => by
          simpa [hin q (by omega) (by omega)] using ⟨s, mem_cons_self, by omega, by omega⟩
      apply ih hrun (by omega) hsorted
      · intro t ht
        have := hafter t ht
        have := hsegs t ht
        omega
      · intro q hq hqe
        have hnot : ¬(s.lPosition ≤ vStart + q ∧ vStart + q < s.lPosition + s.length) := by omega
        simp [hin q (by omega) hqe, In, hnot]
    · exact ⟨pos, hpos, h, fun q hq hqe => (hin q hq hqe).not.mpr (hbefore _ (by omega))⟩

end Unpacking

open Unpacking (UpTo Tiled In)

namespace Building

variable {p : ConstRLEPayload} {b : Building} {u : Unpacking} {segs : List EmptySegment} {pos N : ℕ}

lemma add_init (pos len : ℕ) : ({} : Building).add pos len = ⟨[], pos, len, 0⟩ := by
  cases pos <;> simp [add]

lemma segment_false (hp : p.payload = [2]) (pos len : ℕ) : b.segment p ⟨pos, 0, true, false⟩ len = b := by
  simp [segment, ConstRLEPayload.checkBit, hp]

lemma segment_true (hp : p.payload = [2]) (pos len : ℕ) : b.segment p ⟨pos, 1, true, false⟩ len = b.add pos len := by
  have hbit : p.checkBit 1 = true := by
    rw [ConstRLEPayload.checkBit, hp]
    rfl
  simp [segment, hbit]

lemma segments_snoc (c : List Segment) (s t : Segment) :
    segments p (c ++ [s] ++ [t]) b = (segments p (c ++ [s]) b).segment p s (t.startPosition - s.startPosition) := by
  induction c generalizing b with
  | nil => rfl
  | cons x c ih =>
    cases c with
    | nil => rfl
    | cons y c => exact ih

lemma segments_unpacked (hp : p.payload = [2]) (h : UpTo (fun l => segments p l {} = b) u pos) (hN : N < 2 ^ 63)
    (hsegs : ∀ s ∈ segs, 0 < s.length ∧ s.lPosition + s.length ≤ N) :
    ∃ pos', UpTo (fun l => segments p l {} = segs.foldl (fun b s => b.add s.lPosition s.length) b)
      (Unpacking.segments 0 N segs u) pos' := by
  induction segs generalizing u pos b with
  | nil => exact ⟨pos, h⟩
  | cons s segs ih =>
    obtain ⟨hs, hsegs⟩ := forall_mem_cons.mp hsegs
    rw [Unpacking.segments, if_pos (by omega)]
    have hgap := h.fillTo (max s.lPosition 0 - 0) fun c t ht hc => by
      rw [segments_snoc, hc, segment_false hp]
    apply ih (hgap.run _ (by omega) fun c t ht hc => ?_) hsegs
    rw [segments_snoc, hc, ht, segment_true hp, min_eq_left hs.2]
    simp

lemma finish_foldl_add (hbs : 0 < b.bs.length) (hpos : ∀ s ∈ segs, 0 < s.length) (hchain : (b.bs :: segs).IsChain fun s t =>
    s.lPosition + s.length < t.lPosition ∧ t.pPosition = s.pPosition + s.length) :
    (segs.foldl (fun b s => b.add s.lPosition s.length) b).finish =
      ⟨b.container ++ b.bs :: segs, b.bs.pPosition + b.bs.length + (cellsOf segs).length⟩ := by
  induction segs generalizing b with
  | nil => simp [finish, hbs.ne', cellsOf]
  | cons s segs ih =>
    obtain ⟨⟨hlt, hp⟩, hrest⟩ := isChain_cons_cons.mp hchain
    have hadd : b.add s.lPosition s.length = ⟨b.container ++ [b.bs], s⟩ := by
      rw [add, if_neg hlt.ne, if_pos hbs.ne', ← hp]
    rw [foldl_cons, hadd, ih (hpos s mem_cons_self) (fun t ht => hpos t (mem_cons_of_mem _ ht)) hrest]
    simp [cellsOf, hp, add_assoc]

end Building

lemma exists_split_at {segs : List EmptySegment} (v : ℕ) (hsorted : segs.Pairwise fun s t => s.lPosition + s.length ≤ t.lPosition) :
    ∃ pre post, segs = pre ++ post ∧ (∀ s ∈ pre, s.lPosition + s.length ≤ v) ∧ ∀ s ∈ post, v < s.lPosition + s.length := by
  induction segs with
  | nil => exact ⟨[], [], by simp⟩
  | cons s segs ih =>
    obtain ⟨hs, hsorted⟩ := pairwise_cons.mp hsorted
    by_cases hv : s.lPosition + s.length ≤ v
    · obtain ⟨pre, post, rfl, hpre, hpost⟩ := ih hsorted
      exact ⟨s :: pre, post, rfl, forall_mem_cons.mpr ⟨hv, hpre⟩, hpost⟩
    · refine ⟨[], s :: segs, rfl, by simp, forall_mem_cons.mpr ⟨by omega, fun t ht => ?_⟩⟩
      have := hs t ht
      omega

namespace ConstRLEEmptyBitmap.Canonical

variable {bm : ConstRLEEmptyBitmap} (h : bm.Canonical)

include h

lemma finish_foldl_add : (bm.seg.foldl (fun b s => b.add s.lPosition s.length) ({} : Building)).finish = bm := by
  obtain ⟨seg, n⟩ := bm
  obtain rfl : n = (cellsOf seg).length := h.count
  obtain ⟨hpos, hchain, hfirst, -⟩ := h
  cases seg with
  | nil => rfl
  | cons s segs =>
    have hp : s.pPosition = 0 := hfirst s rfl
    have hadd : ({} : Building).add s.lPosition s.length = ⟨[], s⟩ := by rw [Building.add_init, ← hp]
    rw [foldl_cons, hadd, Building.finish_foldl_add (hpos s mem_cons_self) (fun t ht => hpos t (mem_cons_of_mem _ ht)) hchain]
    simp [hp, cellsOf]

lemma sorted : bm.seg.Pairwise fun s t => s.lPosition + s.length ≤ t.lPosition := by
  have : IsTrans EmptySegment fun s t => s.lPosition + s.length ≤ t.lPosition := ⟨fun _ _ _ _ _ => by omega⟩
  exact (h.chain.imp fun _ _ hst => hst.1.le).pairwise

lemma drop_findSegment (v : ℕ) : ∃ pre post, bm.seg = pre ++ post ∧ bm.seg.drop (bm.findSegment v) = post ∧
    (∀ s ∈ pre, s.lPosition + s.length ≤ v) ∧ ∀ s ∈ post, v < s.lPosition + s.length := by
  obtain ⟨pre, post, hseg, hpre, hpost⟩ := exists_split_at v h.sorted
  have hfind : bm.findSegment v = pre.length := BitmapIterator.findBy_append hseg hpre hpost
  exact ⟨pre, post, hseg, by rw [hfind, hseg, drop_left], hpre, hpost⟩

lemma tiled (p : ConstRLEPayload) {vStart vEnd : ℕ} (hv : vStart ≤ vEnd) (hend : vEnd < 2 ^ 63) :
    ∃ segs t, (p.unPackTile bm vStart vEnd).seg = segs ++ [t] ∧ t.startPosition = vEnd - vStart ∧
      Tiled (fun q => In bm.seg (vStart + q)) (segs ++ [t]) := by
  obtain ⟨pre, post, hseg, hdrop, hpre, hpost⟩ := h.drop_findSegment vStart
  have hsorted := h.sorted
  rw [hseg, pairwise_append] at hsorted
  have hinit : UpTo (Tiled fun q => In bm.seg (vStart + q)) ⟨{ isRun := true }, []⟩ 0 :=
    ⟨⟨0, rfl⟩, fun t ht => ⟨⟨isChain_singleton t, by simp [ht]⟩, isChain_singleton t⟩⟩
  obtain ⟨pos, hpos, hup, hrest⟩ := Unpacking.tiled_segments hinit hv hend hv hsorted.2.1
    (fun s hs => ⟨le_max_right _ _, hpost s hs, h.length_pos s (hseg ▸ mem_append_right _ hs)⟩) fun q _ _ => by
      rw [hseg]
      refine ⟨fun ⟨s, hs, hx⟩ => ⟨s, (mem_append.mp hs).resolve_left fun hs => ?_, hx⟩, fun ⟨s, hs, hx⟩ =>
        ⟨s, mem_append_right _ hs, hx⟩⟩
      have := hpre s hs
      omega
  have hfill := hup.fillTo (vEnd - vStart) fun c t ht hc => hc.snoc (by omega) (by omega) fun q hq hqt => by
    simp [hrest q hq (by omega)]
  rw [ConstRLEPayload.unPackTile, hdrop]
  exact ⟨_, _, rfl, hfill.last⟩

lemma ofPayload_unPackTile (p : ConstRLEPayload) {N : ℕ} (hN : N < 2 ^ 63) (hlast : ∀ c ∈ bm.cells, c.lPos < N) :
    ofPayload (p.unPackTile bm 0 N) = bm := by
  have hfind : bm.findSegment 0 = 0 :=
    @BitmapIterator.findBy_append bm [] bm.seg _ 0 rfl (by simp) fun s hs => Nat.add_pos_right _ (h.length_pos s hs)
  have hsegs : ∀ s ∈ bm.seg, 0 < s.length ∧ s.lPosition + s.length ≤ N := by
    intro s hs
    have hpos := h.length_pos s hs
    have := hlast ⟨s.lPosition + (s.length - 1), s.pPosition + (s.length - 1)⟩
      (mem_flatMap.mpr ⟨s, hs, mem_map.mpr ⟨s.length - 1, by simpa using hpos, rfl⟩⟩)
    dsimp only at this
    omega
  have hinit : UpTo (fun l => Building.segments (p.unPackTile bm 0 N) l {} = {}) ⟨{ isRun := true }, []⟩ 0 :=
    ⟨⟨0, rfl⟩, fun _ _ => rfl⟩
  obtain ⟨pos, hup⟩ := Building.segments_unpacked rfl hinit hN hsegs
  have hfill := hup.fillTo N fun c t _ hc => by rw [Building.segments_snoc, hc, Building.segment_false rfl]
  have hseg : (p.unPackTile bm 0 N).seg = ((Unpacking.segments 0 N bm.seg ⟨{ isRun := true }, []⟩).fillTo N).container ++
      [((Unpacking.segments 0 N bm.seg ⟨{ isRun := true }, []⟩).fillTo N).rs] := by
    rw [ConstRLEPayload.unPackTile, hfind]
    rfl
  rw [ofPayload, hseg, hfill.last.2, h.finish_foldl_add]

end ConstRLEEmptyBitmap.Canonical

lemma mem_lPos_cells {segs : List EmptySegment} {x : ℕ} : x ∈ (cellsOf segs).map Cell.lPos ↔ In segs x := by
  simp only [cellsOf, EmptySegment.cells, map_flatMap, mem_flatMap, map_map, mem_map, mem_range, Function.comp, In]
  refine exists_congr fun s => and_congr_right fun _ => ⟨?_, fun hx => ⟨x - s.lPosition, by omega, by omega⟩⟩
  rintro ⟨i, hi, rfl⟩
  omega

lemma getValueByPosition_of_tiled {p : ConstRLEPayload} {bit : ℕ → Prop} {segs : List Segment} {t : Segment} {i : ℕ}
    (hb : p.isBoolean = true) (hp : p.payload = [2]) (hseg : p.seg = segs ++ [t]) (h : Tiled bit (segs ++ [t]))
    (ht : t.startPosition < 2 ^ 63) (hi : i < t.startPosition) [Decidable (bit i)] :
    p.getValueByPosition i = .ok (some (.ofBool (decide (bit i)))) := by
  rw [← hseg] at h
  have hne : p.seg ≠ [] := by simp [hseg]
  have hlast : p.segAt p.nSegs = t := by simp [segAt_nSegs hne, hseg]
  obtain ⟨pre, s, s', post, hsplit, hs, hs'⟩ := h.1.split hne (hlast ▸ hi)
  rw [ConstRLEPayload.getValueByPosition_of_split hsplit h.1.sorted
    (fun x hx => ((h.1.start_le hx).trans_eq (congrArg _ hlast)).trans_lt ht) hs hs']
  have hchain := h.2
  rw [hsplit] at hchain
  obtain ⟨hrun, hnull, hvi, hbit⟩ := (isChain_append_cons_cons.mp hchain).2.1
  have hread : p.readCell s i = .ok (.data (if bit i then [1] else [0])) := by
    apply readCell_of_getElem? ((ConstRLEPayload.holds_bool hb).mpr rfl) hnull (by unfold Segment.maxDataIndex; omega) hs (by omega)
    rw [hrun, hp]
    specialize hbit i hs hs'
    by_cases hbi : bit i
    · rw [if_pos hbi, hbit.mp hbi]
      rfl
    · rw [if_neg hbi, show s.dataIndex = 0 by have := hbit.not.mp hbi; omega]
      rfl
  rw [hread]
  by_cases hbi : bit i <;> simp [hbi, Value.ofBool, Except.map]

/-- **A window is unpacked to its values, and the payload of all positions gives the bitmap back.** -/
theorem unPackTile_inverse (p : ConstRLEPayload) (bm : ConstRLEEmptyBitmap) (h : bm.Canonical) :
    (∀ vStart vEnd, vStart ≤ vEnd → vEnd < 2 ^ 63 → (p.unPackTile bm vStart vEnd).isBoolean = true ∧
      (p.unPackTile bm vStart vEnd).count = vEnd - vStart ∧
      ∀ i < vEnd - vStart, (p.unPackTile bm vStart vEnd).getValueByPosition i =
        .ok (some (.ofBool (decide (vStart + i ∈ bm.cells.map Cell.lPos))))) ∧ ∀ N < 2 ^ 63, (∀ c ∈ bm.cells, c.lPos < N) →
      ConstRLEEmptyBitmap.ofPayload (p.unPackTile bm 0 N) = bm ∧ (ConstRLEEmptyBitmap.ofPayload (p.unPackTile bm 0 N)).Canonical := by
  refine ⟨fun vStart vEnd hv hend => ?_, fun N hN hlast => ?_⟩
  · obtain ⟨segs, t, hseg, ht, htiled⟩ := h.tiled p hv hend
    simp only [← mem_lPos_cells] at htiled
    have hne : (p.unPackTile bm vStart vEnd).seg ≠ [] := by simp [hseg]
    refine ⟨rfl, ?_, fun i hi => ?_⟩
    · rw [Segment.Chained.count_eq (hseg ▸ htiled.1) hne, segAt_nSegs hne]
      simp [hseg, ht]
    · exact getValueByPosition_of_tiled rfl rfl hseg htiled (by omega) (by omega)
  · rw [h.ofPayload_unPackTile p hN hlast]
    exact ⟨rfl, h⟩

theorem unPackTile_inverse_gap : let bm : ConstRLEEmptyBitmap := ⟨[⟨1, 2, 0⟩, ⟨5, 1, 2⟩], 3⟩
    ConstRLEEmptyBitmap.ofPayload (ConstRLEPayload.unPackTile ⟨[], [], 0, 0, 0, false⟩ bm 0 9) = bm :=
  ((unPackTile_inverse ⟨[], [], 0, 0, 0, false⟩ ⟨[⟨1, 2, 0⟩, ⟨5, 1, 2⟩], 3⟩
    ⟨by decide, by simp, by simp, by decide⟩).2 9 (by decide) (by decide)).1

end SciDB.Array
