import SciDB.Array.RLEPayloadIterator

/-!
# Building payloads

`RLEPayload::append_iterator`; a segment is kept open while it can be extended (`Opened`). `build prior adds` is its life, on a
payload that may have been used before.
-/

namespace SciDB.Array

open SciDB.Lib List

structure RLEPayload extends ConstRLEPayload where
  valuesCount : ℕ
deriving DecidableEq

namespace RLEPayload

/-- The constructor from a size. -/
def ofBitSize (bitSize : ℕ) : RLEPayload where
  seg := []
  payload := []
  elemSize := (bitSize + 7) / 8
  dataSize := 0
  varOffs := 0
  isBoolean := bitSize = 1
  valuesCount := 0

variable (p : RLEPayload)

def clear : RLEPayload := { p with seg := [], payload := [], dataSize := 0, valuesCount := 0 }

def addSegment (s : Segment) : RLEPayload := { p with seg := p.seg ++ [s] }

def setVarPart (varPart : List UInt8) : Except RLEFailure RLEPayload :=
  if p.elemSize ≠ 0 then .error .assertException
  else .ok { p with
    varOffs := p.payload.length
    payload := p.payload ++ varPart
    dataSize := p.payload.length + varPart.length }

def flush (chunkSize : ℕ) : RLEPayload := { p with seg := p.seg ++ [{ startPosition := chunkSize }] }

/-- The byte with one more bit. -/
def setBit (b : UInt8) (k : ℕ) : UInt8 := b ||| UInt8.ofNat (2 ^ k)

def appendValue (varPart : List UInt8) (val : Value) (valueIndex : ℕ) : Except RLEFailure (RLEPayload × List UInt8) :=
  if p.isBoolean then
    let data := if valueIndex % 8 = 0 then p.payload ++ [0] else p.payload
    let data := if val.getBool then data.modify (data.length - 1) (setBit · (valueIndex % 8)) else data
    .ok ({ p with payload := data, dataSize := if valueIndex % 8 = 0 then p.dataSize + 1 else p.dataSize }, varPart)
  else if p.elemSize = 0 then
    if rleMaxVarpartOffset < varPart.length then .error (.chunkTooHuge varPart.length)
    else .ok ({ p with payload := p.payload ++ encodeLE 4 varPart.length, dataSize := p.dataSize + 4 },
      varPart ++ datum val.bytes)
  else if p.elemSize < val.bytes.length then .error (.truncation val.bytes.length p.elemSize)
  else .ok ({ p with
    payload := p.payload ++ (val.bytes ++ List.replicate (p.elemSize - val.bytes.length) 0)
    dataSize := p.dataSize + p.elemSize }, varPart)

end RLEPayload

structure AppendIterator where
  result : RLEPayload
  varPart : List UInt8
  segm : Segment
  prevVal : Value
  valueIndex : ℕ
  segLength : ℕ

namespace AppendIterator

/-- The constructor. -/
def ofPayload (dstPayload : RLEPayload) : AppendIterator where
  result := dstPayload.clear
  varPart := []
  segm := {}
  prevVal := .data []
  valueIndex := 0
  segLength := 0

variable (it : AppendIterator)

/-- Closes the open segment. -/
def closeSegment : AppendIterator := { it with
  result := it.result.addSegment it.segm
  segm := it.segm.addToPPosition it.segLength
  segLength := 0 }

def appendValue (val : Value) : Except RLEFailure AppendIterator := do
  let r ← it.result.appendValue it.varPart val it.valueIndex
  .ok { it with result := r.1, varPart := r.2, valueIndex := it.valueIndex + 1, prevVal := val }

/-- Nulls with one reason. -/
def addNull (reason count : ℕ) : Except RLEFailure AppendIterator := do
  let it := if it.segLength ≠ 0 ∧ (it.segm.isNull = false ∨ it.segm.dataIndex ≠ reason) then it.closeSegment else it
  let segm ← Segment.setValueIndex { it.segm with isNull := true, isRun := true } reason
  .ok { it with segm, segLength := wrap (it.segLength + count) }

def openFor (count : ℕ) : Except RLEFailure AppendIterator :=
  if it.segLength = 0 ∨ it.segm.isNull ∨ 1 < count then do
    let it := if it.segLength ≠ 0 then it.closeSegment else it
    let segm ← Segment.setValueIndex { it.segm with isRun := true, isNull := false } it.valueIndex
    .ok { it with segm }
  else if 1 < it.segLength ∧ it.segm.isRun then do
    let it := it.closeSegment
    let segm ← it.segm.setValueIndex it.valueIndex
    .ok { it with segm }
  else .ok { it with segm := { it.segm with isRun := false } }

/-- The previous value again. -/
def repeatPrev (count : ℕ) : Except RLEFailure AppendIterator :=
  if it.segm.isRun then .ok { it with segLength := wrap (it.segLength + count) }
  else do
    let last := it.segm.addToPPosition (it.segLength - 1)
    let segm ← Segment.setValueIndex { last with isRun := true } (it.valueIndex - 1)
    .ok { it with result := it.result.addSegment it.segm, segm, segLength := wrap (1 + count) }

/-- `add(Value const&, count)`. -/
def addValue (v : Value) (count : ℕ) : Except RLEFailure AppendIterator :=
  match v with
  | .null reason => it.addNull reason count
  | .data _ =>
    if it.segLength ≠ 0 ∧ it.segm.isNull = false ∧ v = it.prevVal then it.repeatPrev count
    else do
      let it ← it.openFor count
      { it with segLength := wrap (it.segLength + count) }.appendValue v

/-- Appends values one by one. -/
def appendItems (it : AppendIterator) : ℕ → PayloadIterator → Except RLEFailure (AppendIterator × PayloadIterator)
  | 0, ii => .ok (it, ii)
  | n + 1, ii => do
    let item ← ii.getItem
    let it ← it.appendValue item
    appendItems it n ii.next

variable (ii : PayloadIterator)

/-- Copies the next `n` values. -/
def copyValues (n : ℕ) : Except RLEFailure AppendIterator :=
  if 2 ^ 32 ≤ n then .error .badStaticCast
  else do
    let bytes ← readBytes ii.referent.payload (ii.valueIndex * ii.referent.elemSize) (it.result.elemSize * n)
    let result := { it.result with
      payload := it.result.payload ++ bytes
      dataSize := it.result.dataSize + it.result.elemSize * n }
    .ok { it with result, valueIndex := it.valueIndex + n }

variable (count : ℕ)

def copyFixed (setupPrevVal : Bool) : Except RLEFailure (AppendIterator × PayloadIterator) := do
  let it ← it.copyValues ii (if it.segm.isRun then 1 else count)
  if setupPrevVal then do
    let ii := if 1 < count then ii.advance (count - 1) else ii
    let prevVal ← ii.getItem
    .ok ({ it with prevVal }, ii.advance 1)
  else .ok (it, ii.advance count)

def closeForSegment : AppendIterator :=
  if it.segLength ≠ 0 ∧ (it.segm.isNull ∨ (it.segm.isRun ∧ 1 < it.segLength) ∨ (ii.cs.isRun ∧ 1 < count)) then
    it.closeSegment
  else it

def segmForSegment : Except RLEFailure Segment :=
  if it.segLength = 0 then
    Segment.setValueIndex { it.segm with isRun := decide (count = 1) || ii.cs.isRun, isNull := false } it.valueIndex
  else .ok { it.segm with isRun := false }

/-- Prepares the open segment. -/
def openForSegment : Except RLEFailure AppendIterator := do
  let it := it.closeForSegment ii count
  let segm ← it.segmForSegment ii count
  .ok { it with segm, segLength := wrap (it.segLength + count) }

/-- `add(iterator&, limit, setupPrevVal)`: at most `limit` values of the segment. -/
def addFrom (limit : ℕ) (setupPrevVal : Bool) : Except RLEFailure (AppendIterator × PayloadIterator) :=
  if ii.atEnd then .error .outOfRange
  else
    let count := min limit ii.available
    if ii.cs.isNull then do
      let it ← it.addNull ii.cs.dataIndex count
      .ok (it, ii.advance count)
    else do
      let it ← it.openForSegment ii count
      if it.result.isBoolean = false ∧ it.result.elemSize ≠ 0 then it.copyFixed ii count setupPrevVal
      else if it.segm.isRun then do
        let item ← ii.getItem
        let it ← it.appendValue item
        .ok (it, ii.advance count)
      else it.appendItems count ii

/-- `append_iterator::flush`. -/
def flush : Except RLEFailure RLEPayload := do
  let result := if it.segLength ≠ 0 then it.result.addSegment it.segm else it.result
  let result := { result with valuesCount := it.valueIndex }
  let result ← (if it.varPart ≠ [] then result.setVarPart it.varPart else .ok result)
  .ok (result.flush (wrap (it.segm.startPosition + it.segLength)))

end AppendIterator

/-- A call of `add`. -/
inductive Add where
  | value (v : Value) (count : ℕ)
  | segment (ii : PayloadIterator) (limit : ℕ) (setupPrevVal : Bool)

/-- How many cells a call adds. -/
def Add.count : Add → ℕ
  | .value _ count => count
  | .segment ii limit _ => min limit ii.available

/-- What a call does. -/
def AppendIterator.add (it : AppendIterator) : Add → Except RLEFailure AppendIterator
  | .value v count => it.addValue v count
  | .segment ii limit setupPrevVal => (it.addFrom ii limit setupPrevVal).map Prod.fst

/-- Calls of `add`, in order. -/
def AppendIterator.addAll (it : AppendIterator) : List Add → Except RLEFailure AppendIterator
  | [] => .ok it
  | a :: adds => do
    let it ← it.add a
    it.addAll adds

/-- The number of cells added. -/
def cellCount (adds : List Add) : ℕ := (adds.map Add.count).sum

/-- Clears, fills and flushes. -/
def build (prior : RLEPayload) (adds : List Add) : Except RLEFailure RLEPayload := do
  let it ← (AppendIterator.ofPayload prior).addAll adds
  it.flush

/-- As many values as counted. -/
def Filled (p : RLEPayload) (varPart : List UInt8) (n : ℕ) : Prop :=
  p.dataSize = p.payload.length ∧
    if p.isBoolean then varPart = [] ∧ p.payload.length = (n + 7) / 8
    else if p.elemSize = 0 then ∃ vals : List (List UInt8), vals.length = n ∧ VarFits vals ∧
      p.payload = offsetsFrom 0 vals ∧ varPart = varPartOf vals
    else varPart = [] ∧ p.payload.length = n * p.elemSize

/-- `n` cells have been added, and `k` values of the open segment are still to be appended. -/
structure Opened (it : AppendIterator) (n k : ℕ) : Prop where
  chained : Segment.Chained it.valueIndex (it.result.seg ++ [it.segm])
  pending : it.segLength ≠ 0 → it.segm.Fits (it.valueIndex + k) it.segLength
  total : it.segm.startPosition + it.segLength = n
  filled : Filled it.result it.varPart it.valueIndex

structure Extends (it it' : AppendIterator) (k : ℕ) : Prop where
  valueIndex : it'.valueIndex = it.valueIndex + k
  seg : it'.result.seg = it.result.seg
  segm : it'.segm = it.segm
  segLength : it'.segLength = it.segLength
  filled : Filled it.result it.varPart it.valueIndex → Filled it'.result it'.varPart it'.valueIndex

section Building

variable {it it' it'' : AppendIterator} {n k m count : ℕ}

lemma Opened.extends (h : Opened it n k) (hx : Extends it it' k) : Opened it' n 0 where
  chained := by
    rw [hx.seg, hx.segm, hx.valueIndex]
    exact h.chained.mono (Nat.le_add_right _ _)
  pending := by
    rw [hx.segLength, hx.segm, hx.valueIndex]
    exact h.pending
  total := by rw [hx.segLength, hx.segm, h.total]
  filled := hx.filled h.filled

lemma Opened.closeSegment (h : Opened it n 0) (hn : n < 2 ^ 63) : Opened it.closeSegment n 0 := by
  have hwrap : wrap (it.segm.startPosition + it.segLength) = n := by
    rw [h.total]
    exact wrap_of_lt (by omega)
  refine ⟨h.chained.snoc ⟨?_, fun hlt => ?_⟩, fun h0 => absurd rfl h0, ?_, h.filled⟩
  · show _ ≤ wrap _
    rw [hwrap, ← h.total]
    exact Nat.le_add_right _ _
  · change _ < wrap _ at hlt
    show it.segm.Fits _ (wrap _ - _)
    rw [hwrap, ← h.total] at hlt ⊢
    rw [Nat.add_sub_cancel_left]
    exact h.pending (by omega)
  · show wrap _ + 0 = n
    rw [hwrap, add_zero]

variable {s : Segment} {ii ii' : PayloadIterator} {val : Value} {setupPrevVal : Bool}

section

variable (h : Opened it n 0)

include h

lemma Opened.setSegm (hs : s.startPosition = it.segm.startPosition) (hn : n + count < 2 ^ 63)
    (hfits : it.segLength + count ≠ 0 → s.Fits (it.valueIndex + k) (it.segLength + count)) :
    Opened { it with segm := s, segLength := wrap (it.segLength + count) } (n + count) k := by
  have htotal := h.total
  have hwrap : wrap (it.segLength + count) = it.segLength + count := wrap_of_lt (by omega)
  refine ⟨h.chained.replace hs, ?_, ?_, h.filled⟩
  · show wrap _ ≠ 0 → s.Fits _ (wrap _)
    rwa [hwrap]
  · show s.startPosition + wrap _ = _
    rw [hwrap, hs]
    omega

section

variable (hn : n + count < 2 ^ 63)

include hn

lemma Opened.addNull {reason : ℕ} (hadd : it.addNull reason count = .ok it') : Opened it' (n + count) 0 := by
  obtain ⟨segm, hsegm, hit⟩ := bind_eq_ok.mp hadd
  obtain ⟨rfl, -⟩ := Segment.of_setValueIndex hsegm
  cases hit
  split_ifs
  · exact (h.closeSegment (by omega)).setSegm rfl hn fun _ hnull => absurd hnull (by simp)
  · exact h.setSegm rfl hn fun _ hnull => absurd hnull (by simp)

lemma Opened.repeatPrev (hopen : it.segLength ≠ 0) (hnull : it.segm.isNull = false)
    (hadd : it.repeatPrev count = .ok it') : Opened it' (n + count) 0 := by
  obtain ⟨hmax, hfits⟩ := h.pending hopen hnull
  have htotal := h.total
  unfold AppendIterator.repeatPrev at hadd
  by_cases hrun : it.segm.isRun
  · rw [if_pos hrun] at hadd
    cases hadd
    refine h.setSegm rfl hn fun _ _ => ⟨hmax, ?_⟩
    rw [if_pos hrun] at hfits ⊢
    exact hfits
  · rw [if_neg hrun] at hadd
    obtain ⟨segm, hsegm, hit⟩ := bind_eq_ok.mp hadd
    obtain ⟨rfl, hmax'⟩ := Segment.of_setValueIndex hsegm
    cases hit
    rw [if_neg hrun] at hfits
    have hwrap : wrap (it.segm.startPosition + (it.segLength - 1)) = it.segm.startPosition + (it.segLength - 1) :=
      wrap_of_lt (by omega)
    have hwrap' : wrap (1 + count) = 1 + count := wrap_of_lt (by omega)
    refine ⟨h.chained.snoc ⟨?_, fun hlt => ?_⟩, fun _ _ => ⟨hmax', ?_⟩, ?_, h.filled⟩
    · show _ ≤ wrap _
      rw [hwrap]
      exact Nat.le_add_right _ _
    · show it.segm.Fits _ (wrap _ - _)
      rw [hwrap, Nat.add_sub_cancel_left]
      refine fun _ => ⟨hmax, ?_⟩
      rw [if_neg hrun]
      omega
    · show it.valueIndex - 1 < it.valueIndex + 0
      omega
    · show wrap _ + wrap _ = _
      rw [hwrap, hwrap']
      omega

lemma Opened.freshRun (hrun : s.isRun = true) (hstart : s.startPosition = it.segm.startPosition)
    (hindex : s.dataIndex = it.valueIndex) (hmax : it.valueIndex ≤ Segment.maxDataIndex) :
    Opened { it with segm := s, segLength := wrap (it.segLength + count) } (n + count) 1 := by
  refine h.setSegm hstart hn fun _ _ => ⟨hindex ▸ hmax, ?_⟩
  rw [if_pos hrun, hindex]
  exact Nat.lt_succ_self _

lemma Opened.openFor (hopen : it.openFor count = .ok it') :
    Opened { it' with segLength := wrap (it'.segLength + count) } (n + count) 1 := by
  unfold AppendIterator.openFor at hopen
  split_ifs at hopen with hnew hlen hrun
  · obtain ⟨segm, hsegm, hit⟩ := bind_eq_ok.mp hopen
    obtain ⟨rfl, hmax⟩ := Segment.of_setValueIndex hsegm
    cases hit
    exact (h.closeSegment (by omega)).freshRun hn rfl rfl rfl hmax
  · obtain ⟨segm, hsegm, hit⟩ := bind_eq_ok.mp hopen
    obtain ⟨rfl, hmax⟩ := Segment.of_setValueIndex hsegm
    cases hit
    exact h.freshRun hn rfl rfl rfl hmax
  · obtain ⟨segm, hsegm, hit⟩ := bind_eq_ok.mp hopen
    obtain ⟨rfl, hmax⟩ := Segment.of_setValueIndex hsegm
    cases hit
    exact (h.closeSegment (by omega)).freshRun hn hrun.2 rfl rfl hmax
  · -- a literal, or a run of one value that becomes a literal of two
    cases hopen
    rw [not_or, not_or] at hnew
    obtain ⟨hlen, hnull, hcount⟩ := hnew
    obtain ⟨hmax, hfits⟩ := h.pending hlen (by simpa using hnull)
    refine h.setSegm rfl hn fun _ _ => ⟨hmax, ?_⟩
    show it.segm.dataIndex + (it.segLength + count) ≤ it.valueIndex + 1
    by_cases hr : it.segm.isRun
    · rw [if_pos hr] at hfits
      have : ¬ 1 < it.segLength := fun hlt => hrun ⟨hlt, hr⟩
      omega
    · rw [if_neg hr] at hfits
      omega

end

lemma Opened.closeForSegment (hn : n < 2 ^ 63) (ii : PayloadIterator) (count : ℕ) :
    Opened (it.closeForSegment ii count) n 0 ∧ ((it.closeForSegment ii count).segLength ≠ 0 →
      (it.closeForSegment ii count).segm.isNull = false ∧
      ((it.closeForSegment ii count).segm.isRun = true → (it.closeForSegment ii count).segLength = 1)) := by
  unfold AppendIterator.closeForSegment
  split_ifs with hclose
  · exact ⟨h.closeSegment hn, fun h0 => absurd rfl h0⟩
  · refine ⟨h, fun hlen => ?_⟩
    have hkeep := not_and.mp hclose hlen
    rw [not_or, not_or, not_and] at hkeep
    refine ⟨by simpa using hkeep.1, fun hr => ?_⟩
    have := hkeep.2.1 hr
    omega

lemma Opened.openForSegment (hn : n + count < 2 ^ 63) (hopen : it.openForSegment ii count = .ok it') :
    Opened it' (n + count) (if it'.segm.isRun then 1 else count) := by
  obtain ⟨h1, hkept⟩ := h.closeForSegment (by omega) ii count
  obtain ⟨segm, hsegm, hit⟩ := bind_eq_ok.mp hopen
  cases hit
  generalize it.closeForSegment ii count = it1 at *
  unfold AppendIterator.segmForSegment at hsegm
  by_cases hlen : it1.segLength = 0
  · rw [if_pos hlen] at hsegm
    obtain ⟨rfl, hmax⟩ := Segment.of_setValueIndex hsegm
    refine h1.setSegm rfl hn fun _ _ => ⟨hmax, ?_⟩
    rw [hlen]
    split_ifs <;> simp
  · rw [if_neg hlen] at hsegm
    cases hsegm
    obtain ⟨hnull, hone⟩ := hkept hlen
    obtain ⟨hmax, hfits⟩ := h1.pending hlen hnull
    refine h1.setSegm rfl hn fun _ _ => ⟨hmax, ?_⟩
    show it1.segm.dataIndex + (it1.segLength + count) ≤ it1.valueIndex + count
    by_cases hr : it1.segm.isRun
    · rw [if_pos hr] at hfits
      have := hone hr
      omega
    · rw [if_neg hr] at hfits
      omega

end

lemma datum_take (bytes : List UInt8) : datum (bytes.take (bytes.length % 2 ^ 32)) = datum bytes := by
  have hlen : (bytes.take (bytes.length % 2 ^ 32)).length = bytes.length % 2 ^ 32 := length_take_of_le (Nat.mod_le _ _)
  unfold datum
  simp only [hlen, Nat.mod_mod, take_take, Nat.min_self]

lemma VarFits.snoc {vals : List (List UInt8)} {v : List UInt8} (h : VarFits vals) (hv : v.length < 2 ^ 32)
    (hoff : (varPartOf vals).length < 2 ^ 32) : VarFits (vals ++ [v]) := by
  refine ⟨?_, by rwa [dropLast_concat]⟩
  intro w hw
  rcases mem_append.mp hw with hw | hw
  · exact h.size_lt w hw
  · rwa [mem_singleton.mp hw]

lemma Filled.appendValue {p p' : RLEPayload} {varPart varPart' : List UInt8} (h : Filled p varPart n)
    (happend : p.appendValue varPart val n = .ok (p', varPart')) : Filled p' varPart' (n + 1) ∧ p'.seg = p.seg := by
  obtain ⟨hsize, h⟩ := h
  unfold RLEPayload.appendValue at happend
  unfold Filled
  by_cases hb : p.isBoolean
  · rw [if_pos hb] at happend h
    cases happend
    obtain ⟨hvar, hlen⟩ := h
    -- a byte is added for every eight values, and bits are set in the last one
    have hbytes : (if n % 8 = 0 then p.payload ++ [0] else p.payload).length = (n + 1 + 7) / 8 := by
      split_ifs
      · rw [length_append, length_singleton]
        omega
      · omega
    dsimp only
    rw [if_pos hb, apply_ite length, length_modify, ite_self, hbytes]
    exact ⟨⟨by split_ifs <;> omega, hvar, rfl⟩, rfl⟩
  · rw [if_neg hb] at happend h
    by_cases he : p.elemSize = 0
    · rw [if_pos he] at happend h
      obtain ⟨vals, hvals, hfits, hpayload, hvar⟩ := h
      split_ifs at happend with hmax
      cases happend
      have hoff : (varPartOf vals).length < 2 ^ 32 := by
        rw [← hvar]
        unfold rleMaxVarpartOffset at hmax
        omega
      rw [if_neg hb, if_pos he]
      refine ⟨⟨by simp [hsize], vals ++ [val.bytes.take (val.bytes.length % 2 ^ 32)], by simp [hvals], ?_, ?_, ?_⟩, rfl⟩
      · refine hfits.snoc ?_ hoff
        rw [length_take_of_le (Nat.mod_le _ _)]
        exact Nat.mod_lt _ (by norm_num)
      · rw [offsetsFrom_append, hpayload, hvar, zero_add]
        rfl
      · rw [varPartOf_append, hvar, varPartOf_cons, datum_take]
        simp [varPartOf]
    · rw [if_neg he] at happend h
      obtain ⟨hvar, hlen⟩ := h
      split_ifs at happend with hmax
      cases happend
      have hlen' : (val.bytes ++ replicate (p.elemSize - val.bytes.length) 0).length = p.elemSize := by
        rw [length_append, length_replicate]
        omega
      rw [if_neg hb, if_neg he, length_append, hlen', hlen, Nat.succ_mul]
      exact ⟨⟨by rw [hsize, hlen], hvar, rfl⟩, rfl⟩

lemma Extends.refl : Extends it it 0 := ⟨rfl, rfl, rfl, rfl, id⟩

lemma Extends.trans (h : Extends it it' k) (h' : Extends it' it'' m) : Extends it it'' (k + m) where
  valueIndex := by rw [h'.valueIndex, h.valueIndex, add_assoc]
  seg := h'.seg.trans h.seg
  segm := h'.segm.trans h.segm
  segLength := h'.segLength.trans h.segLength
  filled := h'.filled ∘ h.filled

lemma Extends.appendValue (hf : Filled it.result it.varPart it.valueIndex) (h : it.appendValue val = .ok it') :
    Extends it it' 1 := by
  obtain ⟨⟨p', varPart'⟩, hr, hit⟩ := bind_eq_ok.mp h
  cases hit
  obtain ⟨hfilled, hseg⟩ := hf.appendValue hr
  exact ⟨rfl, hseg, rfl, rfl, fun _ => hfilled⟩

lemma Extends.appendItems (hf : Filled it.result it.varPart it.valueIndex)
    (h : it.appendItems count ii = .ok (it', ii')) : Extends it it' count := by
  induction count generalizing it ii with
  | zero =>
    cases h
    exact .refl
  | succ count ih =>
    obtain ⟨item, -, h⟩ := bind_eq_ok.mp h
    obtain ⟨it1, happend, h⟩ := bind_eq_ok.mp h
    have hx := Extends.appendValue hf happend
    rw [add_comm]
    exact hx.trans (ih (hx.filled hf) h)

lemma length_of_readBytes {mem bytes : List UInt8} {off : ℕ} (h : readBytes mem off n = .ok bytes) : bytes.length = n := by
  unfold readBytes at h
  split_ifs at h with hle
  cases h
  exact length_take_of_le (by rw [length_drop]; omega)

section

variable (hb : it.result.isBoolean = false) (he : it.result.elemSize ≠ 0)

include hb he

lemma Extends.copyValues (h : it.copyValues ii n = .ok it') : Extends it it' n := by
  unfold AppendIterator.copyValues at h
  split_ifs at h with hcast
  obtain ⟨bytes, hread, hit⟩ := bind_eq_ok.mp h
  cases hit
  refine ⟨rfl, rfl, rfl, rfl, fun hf => ?_⟩
  obtain ⟨hsize, hf⟩ := hf
  rw [hb, if_neg (by simp), if_neg he] at hf
  unfold Filled
  rw [hb, if_neg (by simp), if_neg he, length_append, length_of_readBytes hread, hsize, hf.2, add_mul,
    mul_comm it.result.elemSize n]
  exact ⟨rfl, hf.1, rfl⟩

lemma Extends.copyFixed
    (h : it.copyFixed ii count setupPrevVal = .ok (it', ii')) : Extends it it' (if it.segm.isRun then 1 else count) := by
  obtain ⟨it1, hcopy, h⟩ := bind_eq_ok.mp h
  have hx := Extends.copyValues hb he hcopy
  cases setupPrevVal with
  | false =>
    cases h
    exact hx
  | true =>
    obtain ⟨prevVal, -, h⟩ := bind_eq_ok.mp h
    cases h
    exact ⟨hx.valueIndex, hx.seg, hx.segm, hx.segLength, hx.filled⟩

end

section

variable (h : Opened it n 0)

include h

lemma Opened.addValue (hn : n + count < 2 ^ 63) {v : Value}
    (hadd : it.addValue v count = .ok it') : Opened it' (n + count) 0 := by
  cases v with
  | null reason => exact h.addNull hn hadd
  | data bytes =>
    unfold AppendIterator.addValue at hadd
    split_ifs at hadd with hprev
    · exact h.repeatPrev hn hprev.1 hprev.2.1 hadd
    · obtain ⟨it1, hopen, hadd⟩ := bind_eq_ok.mp hadd
      have h1 := h.openFor hn hopen
      exact h1.extends (Extends.appendValue h1.filled hadd)

lemma Opened.addFrom {limit : ℕ} (hn : n + min limit ii.available < 2 ^ 63)
    (hadd : it.addFrom ii limit setupPrevVal = .ok (it', ii')) : Opened it' (n + min limit ii.available) 0 := by
  unfold AppendIterator.addFrom at hadd
  generalize min limit ii.available = count at *
  split_ifs at hadd with hend hnull
  · obtain ⟨it1, hadd1, hit⟩ := bind_eq_ok.mp hadd
    cases hit
    exact h.addNull hn hadd1
  · obtain ⟨it1, hopen, hadd⟩ := bind_eq_ok.mp hadd
    have h1 := h.openForSegment hn hopen
    by_cases hfixed : it1.result.isBoolean = false ∧ it1.result.elemSize ≠ 0
    · rw [if_pos hfixed] at hadd
      exact h1.extends (Extends.copyFixed hfixed.1 hfixed.2 hadd)
    · rw [if_neg hfixed] at hadd
      by_cases hrun : it1.segm.isRun
      · rw [if_pos hrun] at hadd h1
        obtain ⟨item, -, hadd⟩ := bind_eq_ok.mp hadd
        obtain ⟨it2, happend, hit⟩ := bind_eq_ok.mp hadd
        cases hit
        exact h1.extends (Extends.appendValue h1.filled happend)
      · rw [if_neg hrun] at hadd h1
        exact h1.extends (Extends.appendItems h1.filled hadd)

lemma Opened.add {a : Add} (hn : n + a.count < 2 ^ 63) (hadd : it.add a = .ok it') : Opened it' (n + a.count) 0 := by
  cases a with
  | value v count => exact h.addValue hn hadd
  | segment ii limit setupPrevVal =>
    unfold AppendIterator.add at hadd
    cases hfrom : it.addFrom ii limit setupPrevVal with
    | error e => simp [hfrom, Except.map] at hadd
    | ok r =>
      simp only [hfrom, Except.map, Except.ok.injEq] at hadd
      subst hadd
      exact h.addFrom hn hfrom

lemma Opened.addAll {adds : List Add} (hn : n + cellCount adds < 2 ^ 63)
    (hadd : it.addAll adds = .ok it') : Opened it' (n + cellCount adds) 0 := by
  induction adds generalizing it n with
  | nil =>
    cases hadd
    exact h
  | cons a adds ih =>
    obtain ⟨it1, hadd1, hadd⟩ := bind_eq_ok.mp hadd
    have hcons : cellCount (a :: adds) = a.count + cellCount adds := rfl
    rw [hcons, ← add_assoc] at hn ⊢
    exact ih (h.add (by omega) hadd1) hn hadd

end

lemma Opened.ofPayload (prior : RLEPayload) : Opened (.ofPayload prior) 0 0 where
  chained := ⟨isChain_singleton _, fun s hs => by cases hs; rfl⟩
  pending := fun h0 => absurd rfl h0
  total := rfl
  filled := by
    refine ⟨rfl, ?_⟩
    split_ifs
    · exact ⟨rfl, by simp [AppendIterator.ofPayload, RLEPayload.clear]⟩
    · exact ⟨[], rfl, .nil, rfl, rfl⟩
    · exact ⟨rfl, (zero_mul _).symm⟩

end Building

/-- A flushed payload with `n` cells, whose segments point into the values that it holds. -/
structure Built (p : RLEPayload) (n : ℕ) (vals : List (List UInt8)) : Prop where
  ne_nil : p.seg ≠ []
  chained : Segment.Chained vals.length p.seg
  last : (p.segAt p.nSegs).startPosition = n
  holds : p.Holds vals
  dataSize : p.dataSize = p.payload.length
  lt : n < 2 ^ 63

section Flush

variable {it : AppendIterator} {p prior : RLEPayload} {n : ℕ}

lemma exists_flatten (size : ℕ) {bytes : List UInt8} (h : bytes.length = n * size) :
    ∃ vals : List (List UInt8), vals.length = n ∧ (∀ v ∈ vals, v.length = size) ∧ vals.flatten = bytes := by
  induction n generalizing bytes with
  | zero =>
    rw [zero_mul] at h
    exact ⟨[], rfl, by simp, (eq_nil_of_length_eq_zero h).symm⟩
  | succ n ih =>
    rw [Nat.succ_mul] at h
    have hdrop : (bytes.drop size).length = n * size := by
      rw [length_drop]
      omega
    obtain ⟨vals, hlen, hsize, hflat⟩ := ih hdrop
    refine ⟨bytes.take size :: vals, by simp [hlen], ?_, by simp [hflat]⟩
    intro v hv
    rcases mem_cons.mp hv with rfl | hv
    · exact length_take_of_le (by omega)
    · exact hsize v hv

lemma datum_ne_nil (v : List UInt8) : datum v ≠ [] := by
  unfold datum
  dsimp only
  split_ifs <;> simp

lemma varPartOf_eq_nil {vals : List (List UInt8)} : varPartOf vals = [] ↔ vals = [] := by
  cases vals with
  | nil => simp [varPartOf]
  | cons v vals => simp [varPartOf_cons, datum_ne_nil]

open ConstRLEPayload

lemma Filled.exists_holds {varPart : List UInt8} (h : Filled p varPart n) {q : RLEPayload}
    (hq : (if varPart ≠ [] then p.setVarPart varPart else .ok p) = .ok q) :
    ∃ vals, n ≤ vals.length ∧ q.Holds vals ∧ q.dataSize = q.payload.length ∧ q.seg = p.seg := by
  obtain ⟨hsize, h⟩ := h
  by_cases hb : p.isBoolean
  · rw [if_pos hb] at h
    rw [if_neg (by simp [h.1])] at hq
    cases hq
    refine ⟨_, ?_, (holds_bool hb).mpr rfl, hsize, rfl⟩
    rw [length_flatMap_bitsOf, h.2]
    omega
  · rw [if_neg hb] at h
    rw [Bool.not_eq_true] at hb
    by_cases he : p.elemSize = 0
    · rw [if_pos he] at h
      obtain ⟨vals, hlen, hfits, hpayload, hvar⟩ := h
      refine ⟨vals, hlen.ge, ?_⟩
      split_ifs at hq with hne
      · unfold RLEPayload.setVarPart at hq
        rw [if_neg (by simp [he])] at hq
        cases hq
        refine ⟨(holds_var ?_ ?_).mpr ⟨hfits, by rw [hpayload, hvar], fun _ => ?_⟩, by simp, rfl⟩
        · exact hb
        · exact he
        · rw [hpayload, length_offsetsFrom]
      · cases hq
        have hnil : vals = [] := varPartOf_eq_nil.mp (hvar ▸ not_not.mp hne)
        subst hnil
        exact ⟨(holds_var hb he).mpr ⟨hfits, hpayload, fun h0 => absurd rfl h0⟩, hsize, rfl⟩
    · rw [if_neg he] at h
      rw [if_neg (by simp [h.1])] at hq
      cases hq
      obtain ⟨vals, hlen, hsizes, hflat⟩ := exists_flatten p.elemSize h.2
      exact ⟨vals, hlen.ge, (holds_fixed hb he).mpr ⟨hsizes, hflat.symm⟩, hsize, rfl⟩

lemma Opened.flush (h : Opened it n 0) (hn : n < 2 ^ 63) (hflush : it.flush = .ok p) : ∃ vals, Built p n vals := by
  unfold AppendIterator.flush at hflush
  set closed := if it.segLength ≠ 0 then it.result.addSegment it.segm else it.result with hclosed
  have hseg : Segment.Chained it.valueIndex (closed.seg ++ [{ startPosition := n }]) := by
    by_cases hlen : it.segLength = 0
    · rw [hclosed, if_neg (by simp [hlen])]
      exact h.chained.replace (by rw [← h.total, hlen, add_zero])
    · rw [hclosed, if_pos hlen]
      refine h.chained.snoc ⟨?_, fun _ => ?_⟩
      · rw [← h.total]
        exact Nat.le_add_right _ _
      · rw [← h.total, Nat.add_sub_cancel_left]
        exact h.pending hlen
  have hfilled : Filled { closed with valuesCount := it.valueIndex } it.varPart it.valueIndex := by
    rw [hclosed]
    split_ifs <;> exact h.filled
  rw [h.total, wrap_of_lt (by omega)] at hflush
  obtain ⟨q, hq, hflush⟩ := bind_eq_ok.mp hflush
  cases hflush
  obtain ⟨vals, hlen, hholds, hsize, hsegq⟩ := hfilled.exists_holds hq
  refine ⟨vals, ?_, ?_, ?_, hholds, hsize, hn⟩
  · simp [RLEPayload.flush]
  · show Segment.Chained _ (q.seg ++ _)
    rw [hsegq]
    exact hseg.mono hlen
  · simp [RLEPayload.flush, segAt, nSegs]

lemma built_build {adds : List Add} (h : build prior adds = .ok p) (hn : cellCount adds < 2 ^ 63) :
    ∃ vals, Built p (cellCount adds) vals := by
  obtain ⟨it, hadd, hflush⟩ := bind_eq_ok.mp h
  rw [← zero_add (cellCount adds)] at hn ⊢
  exact ((Opened.ofPayload prior).addAll hn hadd).flush hn hflush

end Flush

end SciDB.Array
