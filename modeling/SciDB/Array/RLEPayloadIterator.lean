import SciDB.Array.RLEPayload

/-!
# Iterators over payloads

`ConstRLEPayload::iterator`: over a well-formed payload it stands at a position or at the end (`At`).
-/

namespace SciDB.Array

open SciDB.Lib List Bool

/-- `ConstRLEPayload::iterator`. -/
structure PayloadIterator where
  referent : ConstRLEPayload
  currSeg : ℕ
  csIndex : ℕ
  currPpos : ℕ

namespace PayloadIterator

/-- At the first position. -/
def ofPayload (p : ConstRLEPayload) : PayloadIterator := ⟨p, 0, 0, (p.segAt 0).startPosition⟩

variable (ii : PayloadIterator)

/-- `end()`. -/
def atEnd : Bool := ii.referent.nSegs ≤ ii.currSeg

def cs : Segment := ii.referent.segAt ii.csIndex

def getSegLength : ℕ := wsub (ii.referent.segAt (ii.csIndex + 1)).startPosition ii.cs.startPosition

def available : ℕ := wrap (wsub ii.getSegLength ii.currPpos + ii.cs.startPosition)

def valueIndex : ℕ :=
  if ii.cs.isRun then ii.cs.dataIndex else wsub (ii.cs.dataIndex + ii.currPpos) ii.cs.startPosition

def getRawVarValue (p : ConstRLEPayload) (index : ℕ) : Except RLEFailure (ℕ × ℕ) :=
  if p.elemSize = 0 then
    if 2 ^ 32 ≤ index then .error .badStaticCast
    else do
      let voff ← readBytes p.payload (index * 4) 4
      let size ← getSizeOfVarPartForOneDatum p.payload (p.varOffs + decodeLE voff)
      .ok (p.varOffs + decodeLE voff + size.1, size.2)
  else if p.isBoolean then .ok (index / 8, 1)
  else .ok (index * p.elemSize, p.elemSize)

def getItem : Except RLEFailure Value :=
  if ii.cs.isNull then Value.ofReason ii.cs.dataIndex
  else do
    let raw ← getRawVarValue ii.referent ii.valueIndex
    if ii.referent.isBoolean then do
      let byte ← readBytes ii.referent.payload raw.1 1
      .ok (Value.ofBool ((decodeLE byte).testBit (ii.valueIndex % 8)))
    else do
      let bytes ← readBytes ii.referent.payload raw.1 raw.2
      .ok (.data bytes)

/-- The loop of `findSegment`. -/
def findSegmentLoop (p : ConstRLEPayload) (pos : ℤ) : ℕ → ℕ → ℕ → ℕ
  | 0, _, r => r
  | fuel + 1, l, r =>
    if l < r then
      let m := (l + r) / 2
      let mpos := asPosition (p.segAt (m + 1)).startPosition
      if mpos = pos then m + 1
      else if mpos < pos then findSegmentLoop p pos fuel (m + 1) r
      else findSegmentLoop p pos fuel l m
    else r

def findSegment (p : ConstRLEPayload) (pos : ℤ) : ℕ := findSegmentLoop p pos p.nSegs 0 p.nSegs

def setPosition (pPos : ℕ) : Bool × PayloadIterator :=
  let ii' := { ii with currSeg := findSegment ii.referent (asPosition pPos) }
  if ii'.atEnd then (false, ii') else (true, { ii' with csIndex := ii'.currSeg, currPpos := pPos })

def toNextSegment : PayloadIterator :=
  let ii' := { ii with currSeg := ii.currSeg + 1 }
  if ii'.atEnd then ii'
  else { ii' with csIndex := ii'.currSeg, currPpos := (ii.referent.segAt ii'.currSeg).startPosition }

/-- `operator++`. -/
def next : PayloadIterator :=
  if asPosition (wrap (ii.currPpos + 1)) < asPosition (wrap (ii.cs.startPosition + ii.getSegLength)) then
    { ii with currPpos := wrap (ii.currPpos + 1) }
  else
    let ii' := { ii with currSeg := ii.currSeg + 1 }
    if ii'.atEnd then ii'
    else { ii' with csIndex := ii'.currSeg, currPpos := (ii.referent.segAt ii'.currSeg).startPosition }

def inSegment : Bool := asPosition (wsub ii.currPpos ii.cs.startPosition) < asPosition ii.getSegLength

/-- `operator+=`. -/
def advance (count : ℕ) : PayloadIterator :=
  let ii₁ := { ii with currPpos := wrap (ii.currPpos + count) }
  if ii₁.inSegment then ii₁
  else
    let ii₂ := { ii₁ with currSeg := ii₁.currSeg + 1 }
    if ii₂.atEnd then (ii₂.setPosition ii₂.currPpos).2
    else
      let ii₃ := { ii₂ with csIndex := ii₂.currSeg }
      if ii₃.inSegment then ii₃ else (ii₃.setPosition ii₃.currPpos).2

end PayloadIterator

namespace ConstRLEPayload

/-- Chained segments with values. -/
structure WellFormed (p : ConstRLEPayload) (vals : List (List UInt8)) : Prop where
  ne_nil : p.seg ≠ []
  chained : Segment.Chained vals.length p.seg
  strict : p.seg.Pairwise fun s t => s.startPosition < t.startPosition
  holds : p.Holds vals
  reason : ∀ s ∈ p.seg, s.isNull = true → s.dataIndex ≤ 127
  boolean : p.isBoolean = true → p.elemSize ≠ 0
  last_lt : (p.segAt p.nSegs).startPosition < 2 ^ 63

/-- The value at a position. -/
def cellValue (p : ConstRLEPayload) (pos : ℕ) : Value :=
  match p.getValueByPosition pos with
  | .ok (some v) => v
  | _ => .null 0

variable {p : ConstRLEPayload} {vals : List (List UInt8)} {pre post : List Segment} {s t : Segment} {pos : ℕ}

section

variable (h : p.WellFormed vals)

include h

lemma WellFormed.count_eq : p.count = (p.segAt p.nSegs).startPosition := h.chained.count_eq h.ne_nil

lemma WellFormed.start_le (hs : s ∈ p.seg) : s.startPosition ≤ p.count := by
  rw [h.count_eq]
  exact h.chained.start_le hs

lemma WellFormed.segAt_lt {i j : ℕ} (hij : i < j) (hj : j < p.seg.length) :
    (p.segAt i).startPosition < (p.segAt j).startPosition := by
  rw [segAt_eq (hij.trans hj), segAt_eq hj]
  exact pairwise_iff_getElem.mp h.strict i j _ hj hij

lemma WellFormed.split (hpos : pos < p.count) :
    ∃ pre s t post, p.seg = pre ++ s :: t :: post ∧ s.startPosition ≤ pos ∧ pos < t.startPosition :=
  h.chained.split h.ne_nil (h.count_eq ▸ hpos)

lemma WellFormed.readCell (hseg : p.seg = pre ++ s :: t :: post) (hs : s.startPosition ≤ pos) (ht : pos < t.startPosition) :
    p.readCell s pos = .ok (p.cellValue pos) ∧ (s.isNull = false → s.dataIndex ≤ Segment.maxDataIndex ∧
        ∃ v, vals[s.dataIndex + if s.isRun then 0 else pos - s.startPosition]? = some v ∧ p.cellValue pos = .data v) ∧
      (s.isNull = true → p.cellValue pos = .null s.dataIndex) := by
  have hlt : ∀ s ∈ p.seg, s.startPosition < 2 ^ 63 := fun s hs =>
    lt_of_le_of_lt (h.start_le hs) (h.count_eq ▸ h.last_lt)
  have hposlt : pos < 2 ^ 63 := ht.trans (hlt t (by simp [hseg]))
  have hread := getValueByPosition_of_split hseg h.chained.sorted hlt hs ht
  by_cases hnull : s.isNull
  · have hcell : p.readCell s pos = .ok (.null s.dataIndex) := by
      rw [ConstRLEPayload.readCell, if_pos hnull, Value.ofReason, if_pos (h.reason s (by simp [hseg]) hnull)]
    have hvalue : p.cellValue pos = .null s.dataIndex := by
      rw [cellValue, hread, hcell]
      rfl
    exact ⟨by rw [hcell, hvalue], fun h => absurd hnull (by simp [h]), fun _ => hvalue⟩
  · rw [not_eq_true] at hnull
    have hfits : s.Fits vals.length (t.startPosition - s.startPosition) := (hseg ▸ h.chained).follows.2 (by omega)
    obtain ⟨v, hv⟩ := hfits.exists_getElem? hnull pos (by omega)
    have hcell := readCell_of_getElem? h.holds hnull (hfits hnull).1 hs hposlt hv
    have hvalue : p.cellValue pos = .data v := by
      rw [cellValue, hread, hcell]
      rfl
    exact ⟨by rw [hcell, hvalue], fun _ => ⟨(hfits hnull).1, v, hv, hvalue⟩, fun h => absurd h (by simp [hnull])⟩

end

end ConstRLEPayload

namespace PayloadIterator

variable {ii : PayloadIterator} {p : ConstRLEPayload} {vals : List (List UInt8)} {pre post : List Segment}
  {s t : Segment} {pos : ℕ}

/-- At a position, or behind all. -/
inductive At (ii : PayloadIterator) : ℕ → Prop where
  | inside {pre post : List Segment} {s t : Segment} {pos : ℕ} : ii.referent.seg = pre ++ s :: t :: post →
      s.startPosition ≤ pos → pos < t.startPosition → ii.currSeg = pre.length → ii.csIndex = pre.length →
      ii.currPpos = pos → At ii pos
  | ended : ii.atEnd = true → At ii ii.referent.count

lemma segAt_split (h : p.seg = pre ++ s :: t :: post) : p.segAt pre.length = s ∧ p.segAt (pre.length + 1) = t := by
  simp [ConstRLEPayload.segAt, h]

lemma referent_next : ii.next.referent = ii.referent := by
  unfold PayloadIterator.next
  dsimp only
  split_ifs <;> rfl

lemma At.not_atEnd (h : At ii pos) (hpos : pos < ii.referent.count) : ii.atEnd = false ∧ ii.currPpos = pos := by
  cases h with
  | inside hseg hs ht hcurr _ hppos =>
    refine ⟨?_, hppos⟩
    simp [atEnd, ConstRLEPayload.nSegs, hseg, hcurr]
  | ended => exact absurd hpos (lt_irrefl _)

lemma At.atEnd_of_le (hwf : ii.referent.WellFormed vals) (h : At ii pos) (hpos : ii.referent.count ≤ pos) :
    ii.atEnd = true := by
  cases h with
  | @inside pre post s t pos hseg hs ht _ _ _ =>
    have : t.startPosition ≤ ii.referent.count := hwf.start_le (by simp [hseg])
    omega
  | ended hend => exact hend

lemma index_lt {i : ℕ} {v : List UInt8} (hwf : p.WellFormed vals) (hb : p.isBoolean = false) (he : p.elemSize = 0)
    (hv : vals[i]? = some v) : i < 2 ^ 32 := by
  obtain ⟨hlt, hget⟩ := List.getElem?_eq_some_iff.mp hv
  have hsplit : vals = vals.take i ++ v :: vals.drop (i + 1) := by
    rw [← hget, getElem_cons_drop, take_append_drop]
  have hfits := ((ConstRLEPayload.holds_var hb he).mp hwf.holds).1
  rw [hsplit] at hfits
  have hle : (vals.take i).length ≤ (varPartOf (vals.take i)).length := length_le_varPartOf
  rw [length_take_of_le hlt.le] at hle
  exact lt_of_le_of_lt hle hfits.offset

lemma getItem_of_getElem? {v : List UInt8} (hwf : ii.referent.WellFormed vals) (hnull : ii.cs.isNull = false)
    (hv : vals[ii.valueIndex]? = some v) : ii.getItem = .ok (.data v) := by
  rw [← ConstRLEPayload.getValueByIndex_of_holds hwf.holds hv, PayloadIterator.getItem, if_neg (by simp [hnull]),
    ConstRLEPayload.getValueByIndex, getRawVarValue]
  by_cases hb : ii.referent.isBoolean
  · simp only [if_pos hb, if_neg (hwf.boolean hb), bind, Except.bind]
  · rw [not_eq_true] at hb
    by_cases he : ii.referent.elemSize = 0
    · rw [if_pos he, if_neg (not_le.mpr (index_lt hwf hb he hv))]
      simp only [hb, he, ConstRLEPayload.readDatum, bind_assoc, false_eq_true, if_false, if_true]
      rfl
    · simp only [hb, if_neg he, bind, Except.bind, false_eq_true, if_false]

lemma At.getItem (hwf : ii.referent.WellFormed vals) (h : At ii pos) (hpos : pos < ii.referent.count) :
    ii.getItem = .ok (ii.referent.cellValue pos) := by
  cases h with
  | ended => exact absurd hpos (lt_irrefl _)
  | @inside pre post s t pos hseg hs ht hcurr hcs hppos =>
    have hcs' : ii.cs = s := by rw [cs, hcs, (segAt_split hseg).1]
    have hlt : pos < 2 ^ 63 := hpos.trans (hwf.count_eq ▸ hwf.last_lt)
    obtain ⟨-, hdata, hnull⟩ := hwf.readCell hseg hs ht
    by_cases hn : s.isNull
    · rw [PayloadIterator.getItem, hcs', if_pos hn, Value.ofReason, if_pos (hwf.reason s (by simp [hseg]) hn), hnull hn]
    · rw [not_eq_true] at hn
      obtain ⟨hmax, v, hv, hvalue⟩ := hdata hn
      unfold Segment.maxDataIndex at hmax
      have hindex : ii.valueIndex = s.dataIndex + if s.isRun then 0 else pos - s.startPosition := by
        rw [valueIndex, hcs', hppos, wsub_of_le (by omega) (by omega)]
        split_ifs <;> omega
      rw [hvalue]
      exact getItem_of_getElem? hwf (by rw [hcs', hn]) (hindex ▸ hv)

lemma next_eq : ii.next =
    if asPosition (wrap (ii.currPpos + 1)) < asPosition (wrap (ii.cs.startPosition + ii.getSegLength)) then
      { ii with currPpos := wrap (ii.currPpos + 1) } else ii.toNextSegment := by
  rw [PayloadIterator.next, toNextSegment]

lemma at_toNextSegment (hwf : ii.referent.WellFormed vals) (hseg : ii.referent.seg = pre ++ s :: t :: post)
    (hcurr : ii.currSeg = pre.length) : At ii.toNextSegment t.startPosition := by
  unfold toNextSegment
  rw [hcurr]
  cases post with
  | nil =>
    have hend : PayloadIterator.atEnd { ii with currSeg := pre.length + 1 } = true := by
      simp [atEnd, ConstRLEPayload.nSegs, hseg]
    have hlast : ii.referent.count = t.startPosition := by
      rw [hwf.count_eq, segAt_nSegs hwf.ne_nil]
      simp [hseg]
    rw [if_pos hend, ← hlast]
    exact .ended hend
  | cons u post =>
    have hend : PayloadIterator.atEnd { ii with currSeg := pre.length + 1 } = false := by
      simp [atEnd, ConstRLEPayload.nSegs, hseg]
    have hseg' : ii.referent.seg = (pre ++ [s]) ++ t :: u :: post := by simp [hseg]
    have htu : t.startPosition < u.startPosition := by
      have := hwf.strict
      rw [hseg', pairwise_append, pairwise_cons] at this
      exact this.2.1.1 u (by simp)
    rw [if_neg (by simp [hend]), (segAt_split hseg).2]
    exact .inside hseg' le_rfl htu (by simp) (by simp) rfl

lemma At.next (hwf : ii.referent.WellFormed vals) (h : At ii pos) (hpos : pos < ii.referent.count) : At ii.next (pos + 1) := by
  cases h with
  | ended => exact absurd hpos (lt_irrefl _)
  | @inside pre post s t pos hseg hs ht hcurr hcs hppos =>
    have hcs' : ii.cs = s := by rw [cs, hcs, (segAt_split hseg).1]
    have hcount : ii.referent.count < 2 ^ 63 := hwf.count_eq ▸ hwf.last_lt
    have htle : t.startPosition ≤ ii.referent.count := hwf.start_le (by simp [hseg])
    have hlen : ii.getSegLength = t.startPosition - s.startPosition := by
      rw [getSegLength, hcs', hcs, (segAt_split hseg).2, wsub_of_le (by omega) (by omega)]
    have hlt : pos + 1 < 2 ^ 63 := lt_of_le_of_lt ht (lt_of_le_of_lt htle hcount)
    have hwrap : wrap (ii.currPpos + 1) = pos + 1 := by rw [hppos, wrap_of_lt (by omega)]
    have hend : wrap (ii.cs.startPosition + ii.getSegLength) = t.startPosition := by
      rw [hcs', hlen, Nat.add_sub_cancel' (by omega), wrap_of_lt (by omega)]
    rw [next_eq, hwrap, hend, asPosition_of_lt hlt, asPosition_of_lt (lt_of_le_of_lt htle hcount)]
    by_cases hin : pos + 1 < t.startPosition
    · rw [if_pos (Nat.cast_lt.mpr hin)]
      exact .inside hseg (hs.trans (Nat.le_succ pos)) hin hcurr hcs rfl
    · rw [if_neg (fun h => hin (Nat.cast_lt.mp h)), le_antisymm ht (not_lt.mp hin)]
      exact at_toNextSegment hwf hseg hcurr

lemma findSegmentLoop_eq (hwf : p.WellFormed vals) (hseg : p.seg = pre ++ s :: t :: post)
    (hs : s.startPosition ≤ pos) (ht : pos < t.startPosition) {fuel l r : ℕ} (hfuel : r ≤ l + fuel)
    (hl : l ≤ pre.length) (hr : pre.length ≤ r) (hn : r ≤ p.nSegs) : findSegmentLoop p pos fuel l r = pre.length := by
  have hlen : p.seg.length = p.nSegs + 1 := by
    have := length_pos_of_ne_nil hwf.ne_nil
    unfold ConstRLEPayload.nSegs
    omega
  have hcount : p.count < 2 ^ 63 := hwf.count_eq ▸ hwf.last_lt
  have hstart : ∀ i < p.seg.length, asPosition (p.segAt i).startPosition = (p.segAt i).startPosition := fun i hi =>
    asPosition_of_lt (lt_of_le_of_lt (hwf.start_le (ConstRLEPayload.segAt_eq hi ▸ getElem_mem _)) hcount)
  obtain ⟨hats, hatt⟩ := segAt_split hseg
  induction fuel generalizing l r with
  | zero =>
    rw [findSegmentLoop]
    omega
  | succ fuel ih =>
    rw [findSegmentLoop]
    by_cases hlt : l < r
    · have hm : (l + r) / 2 + 1 < p.seg.length := by omega
      rw [if_pos hlt]
      dsimp only
      rw [hstart _ hm]
      -- the segment behind the middle starts at the position, before it or behind it
      rcases lt_trichotomy ((l + r) / 2 + 1) pre.length with hk | hk | hk
      · have := hwf.segAt_lt hk (by omega)
        rw [hats] at this
        rw [if_neg (by omega), if_pos (by omega)]
        exact ih (by omega) hk.le hr hn
      · rw [hk, hats]
        by_cases heq : s.startPosition = pos
        · rw [if_pos (by rw [heq])]
        · rw [if_neg (by omega), if_pos (by omega)]
          exact ih (by omega) le_rfl hr hn
      · have : t.startPosition ≤ (p.segAt ((l + r) / 2 + 1)).startPosition := by
          rcases (Nat.succ_le_of_lt hk).eq_or_lt with heq | hlt'
          · rw [← heq, hatt]
          · have := hwf.segAt_lt hlt' hm
            rw [hatt] at this
            exact this.le
        rw [if_neg (by omega), if_neg (by omega)]
        exact ih (by omega) hl (by omega) (by omega)
    · rw [if_neg hlt]
      omega

lemma setPosition_of_lt (hwf : ii.referent.WellFormed vals) (hpos : pos < ii.referent.count) :
    (ii.setPosition pos).1 = true ∧ At (ii.setPosition pos).2 pos ∧ (ii.setPosition pos).2.referent = ii.referent := by
  obtain ⟨pre, s, t, post, hseg, hs, ht⟩ := hwf.split hpos
  have hlt : pos < 2 ^ 63 := hpos.trans (hwf.count_eq ▸ hwf.last_lt)
  have hn : ii.referent.nSegs = pre.length + 1 + post.length := by
    rw [ConstRLEPayload.nSegs, hseg, length_append, length_cons, length_cons]
    omega
  have hfind : findSegment ii.referent (asPosition pos) = pre.length := by
    rw [asPosition_of_lt hlt]
    exact findSegmentLoop_eq hwf hseg hs ht (by omega) (Nat.zero_le _) (by omega) le_rfl
  unfold PayloadIterator.setPosition
  rw [hfind, if_neg (by simp only [atEnd, hn, decide_eq_true_eq]; omega)]
  exact ⟨rfl, .inside hseg hs ht rfl rfl rfl, rfl⟩

lemma at_ofPayload (hwf : p.WellFormed vals) : At (ofPayload p) 0 := by
  by_cases hpos : 0 < p.count
  · obtain ⟨pre, s, t, post, hseg, hs, ht⟩ := hwf.split hpos
    -- the first segment starts at the first position, and no other one does
    have hpre : pre = [] := by
      cases pre with
      | nil => rfl
      | cons u pre =>
        have hstrict := hwf.strict
        rw [hseg, cons_append, pairwise_cons] at hstrict
        have := hstrict.1 s (by simp)
        omega
    subst hpre
    refine .inside hseg hs ht rfl rfl ?_
    show (p.segAt 0).startPosition = 0
    rw [show p.segAt 0 = s from (segAt_split hseg).1]
    omega
  · have h0 : p.count = 0 := by omega
    have hend : (ofPayload p).atEnd = true := by
      by_contra hne
      have hlt : 0 < p.nSegs := pos_of_ne_zero (by simpa [atEnd, ofPayload] using hne)
      have := hwf.segAt_lt hlt (by unfold ConstRLEPayload.nSegs at hlt ⊢; omega)
      rw [← hwf.count_eq, h0] at this
      exact Nat.not_lt_zero _ this
    have := At.ended hend
    rwa [show (ofPayload p).referent.count = 0 from h0] at this

end PayloadIterator

end SciDB.Array
