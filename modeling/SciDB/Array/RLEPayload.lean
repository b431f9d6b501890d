import SciDB.Lib.Bisect
import SciDB.Lib.Bytes
import SciDB.Lib.Outcome
import SciDB.Lib.Words

/-!
# RLE payloads

The values of a chunk or a tile: segments, each a run, a literal or a run of nulls, and the bytes they point into. The last
segment only ends the one before. Positions are 64-bit words, read as `position_t` where they are compared. Touching memory
outside of the bytes is `outOfRange`.
-/

namespace SciDB.Array

open SciDB.Lib List Option Nat

/-- Why an operation fails. -/
inductive RLEFailure where
  | chunkTooPopulated (index : ℕ)
  | chunkTooHuge (size : ℕ)
  | truncation (size fixedSize : ℕ)
  | badStaticCast
  | assertException
  /-- No exception: memory outside of a vector is touched. -/
  | outOfRange
deriving DecidableEq

/-- The failures that are exceptions. -/
def RLEFailure.IsException (e : RLEFailure) : Prop := e ≠ .outOfRange

inductive Value where
  | null (reason : ℕ)
  | data (bytes : List UInt8)
deriving DecidableEq

/-- The bytes of a value. -/
def Value.bytes : Value → List UInt8
  | .null _ => []
  | .data bytes => bytes

/-- `setBool`. -/
def Value.ofBool (b : Bool) : Value := .data [if b then 1 else 0]

def Value.getBool (v : Value) : Bool := decodeLE (v.bytes.take 1) ≠ 0

def Value.ofReason (index : ℕ) : Except RLEFailure Value :=
  if index ≤ 127 then .ok (.null index) else .error .badStaticCast

/-- A word as a `position_t`. -/
def asPosition (n : ℕ) : ℤ := if n < 2 ^ 63 then n else n - 2 ^ 64

/-- A signed number as a word. -/
def toWord (z : ℤ) : ℕ := (z % 2 ^ 64).toNat

lemma asPosition_of_lt {n : ℕ} (h : n < 2 ^ 63) : asPosition n = n := if_pos h

lemma asPosition_lt {n : ℕ} (h : n < 2 ^ 64) : asPosition n < 2 ^ 63 := by
  unfold asPosition
  split_ifs <;> omega

/-- `rle::Segment`. -/
structure Segment where
  startPosition : ℕ := 0
  dataIndex : ℕ := 0
  isRun : Bool := false
  isNull : Bool := false
deriving DecidableEq, Inhabited

namespace Segment

def maxDataIndex : ℕ := 0x3FFFFFFF

def setValueIndex (s : Segment) (vi : ℕ) : Except RLEFailure Segment :=
  if 2 ^ 32 ≤ vi then .error .badStaticCast
  else if maxDataIndex < vi then .error (.chunkTooPopulated vi)
  else .ok { s with dataIndex := vi }

def addToValueIndex (s : Segment) (incr : ℕ) : Except RLEFailure Segment :=
  if maxDataIndex < s.dataIndex + incr then .error (.chunkTooPopulated (s.dataIndex + incr))
  else .ok { s with dataIndex := s.dataIndex + incr }

def addToPPosition (s : Segment) (incr : ℕ) : Segment :=
  { s with startPosition := wrap (s.startPosition + incr) }

lemma of_setValueIndex {s s' : Segment} {vi : ℕ} (h : s.setValueIndex vi = .ok s') :
    s' = { s with dataIndex := vi } ∧ vi ≤ maxDataIndex := by
  unfold setValueIndex at h
  split_ifs at h with h1 h2
  cases h
  exact ⟨rfl, not_lt.mp h2⟩

lemma of_addToValueIndex {s s' : Segment} {incr : ℕ} (h : s.addToValueIndex incr = .ok s') :
    s' = { s with dataIndex := s.dataIndex + incr } ∧ s.dataIndex + incr ≤ maxDataIndex := by
  unfold addToValueIndex at h
  split_ifs at h with h1
  cases h
  exact ⟨rfl, not_lt.mp h1⟩

end Segment

def rleMaxVarpartOffset : ℕ := 2 ^ 32 - 1

structure ConstRLEPayload where
  seg : List Segment
  payload : List UInt8
  elemSize : ℕ
  dataSize : ℕ
  varOffs : ℕ
  isBoolean : Bool
deriving DecidableEq

def readBytes (mem : List UInt8) (off n : ℕ) : Except RLEFailure (List UInt8) :=
  if off + n ≤ mem.length then .ok ((mem.drop off).take n) else .error .outOfRange

/-- The sizes of a datum. -/
def getSizeOfVarPartForOneDatum (mem : List UInt8) (address : ℕ) : Except RLEFailure (ℕ × ℕ) := do
  let first ← readBytes mem address 1
  if decodeLE first ≠ 0 then .ok (1, decodeLE first)
  else do
    let size ← readBytes mem (address + 1) 4
    .ok (5, decodeLE size)

namespace ConstRLEPayload

variable (p : ConstRLEPayload)

def nSegs : ℕ := p.seg.length - 1

/-- `_seg[i]`. -/
def segAt (i : ℕ) : Segment := p.seg.getD i default

def count : ℕ := if p.nSegs = 0 then 0 else (p.segAt p.nSegs).startPosition

/-- The datum at an offset. -/
def readDatum (voff : ℕ) : Except RLEFailure (List UInt8) := do
  let size ← getSizeOfVarPartForOneDatum p.payload (p.varOffs + voff)
  readBytes p.payload (p.varOffs + voff + size.1) size.2

def getValueByIndex (index : ℕ) : Except RLEFailure Value :=
  if p.isBoolean then do
    let byte ← readBytes p.payload (index / 8) 1
    .ok (Value.ofBool ((decodeLE byte).testBit (index % 8)))
  else if p.elemSize = 0 then do
    let voff ← readBytes p.payload (index * 4) 4
    let bytes ← p.readDatum (decodeLE voff)
    .ok (.data bytes)
  else do
    let bytes ← readBytes p.payload (index * p.elemSize) p.elemSize
    .ok (.data bytes)

def readCell (s : Segment) (pos : ℤ) : Except RLEFailure Value :=
  if s.isNull then Value.ofReason s.dataIndex
  else p.getValueByIndex (toWord (s.dataIndex + if s.isRun then 0 else pos - asPosition s.startPosition))

/-- The value at a position, if any. -/
def getValueByPosition (pos : ℤ) : Except RLEFailure (Option Value) :=
  let r := bisect (fun m => decide (asPosition (p.segAt (m + 1)).startPosition ≤ pos)) p.nSegs 0 p.nSegs
  if r = p.nSegs then .ok none else (p.readCell (p.segAt r) pos).map some

end ConstRLEPayload

/-- A datum of variable size: its size is a byte, or zero and four bytes. -/
def datum (bytes : List UInt8) : List UInt8 :=
  let len := bytes.length % 2 ^ 32
  if len = 0 ∨ 255 < len then 0 :: encodeLE 4 len ++ bytes.take len else UInt8.ofNat len :: bytes.take len

/-- Data one after another. -/
def varPartOf (vals : List (List UInt8)) : List UInt8 := vals.flatMap datum

/-- The offsets of data. -/
def offsetsFrom : ℕ → List (List UInt8) → List UInt8
  | _, [] => []
  | off, v :: vals => encodeLE 4 off ++ offsetsFrom (off + (datum v).length) vals

/-- The bits of a byte. -/
def bitsOf (b : UInt8) : List (List UInt8) :=
  (List.range 8).map fun k => (Value.ofBool (b.toNat.testBit k)).bytes

structure VarFits (vals : List (List UInt8)) : Prop where
  size_lt : ∀ v ∈ vals, v.length < 2 ^ 32
  offset_lt : (varPartOf vals.dropLast).length < 2 ^ 32

def ConstRLEPayload.Holds (p : ConstRLEPayload) (vals : List (List UInt8)) : Prop :=
  if p.isBoolean then vals = p.payload.flatMap bitsOf
  else if p.elemSize = 0 then
    VarFits vals ∧ p.payload = offsetsFrom 0 vals ++ varPartOf vals ∧ (vals ≠ [] → p.varOffs = 4 * vals.length)
  else (∀ v ∈ vals, v.length = p.elemSize) ∧ p.payload = vals.flatten

section Layout

variable {v : List UInt8} {vals vals' : List (List UInt8)} {off n : ℕ}

lemma readBytes_middle (pre v post : List UInt8) (hoff : off = pre.length) (hn : n = v.length) :
    readBytes (pre ++ (v ++ post)) off n = .ok v := by
  subst hoff hn
  rw [readBytes, if_pos (by simp), drop_left, take_left]

@[simp] lemma varPartOf_append : varPartOf (vals ++ vals') = varPartOf vals ++ varPartOf vals' :=
  flatMap_append

@[simp] lemma varPartOf_cons : varPartOf (v :: vals) = datum v ++ varPartOf vals := rfl

@[simp] lemma length_offsetsFrom : (offsetsFrom off vals).length = 4 * vals.length := by
  induction vals generalizing off with
  | nil => rfl
  | cons v vals ih =>
    rw [offsetsFrom, length_append, ih, length_encodeLE, length_cons]
    omega

lemma offsetsFrom_append :
    offsetsFrom off (vals ++ vals') = offsetsFrom off vals ++ offsetsFrom (off + (varPartOf vals).length) vals' := by
  induction vals generalizing off with
  | nil => rfl
  | cons v vals ih =>
    rw [cons_append, offsetsFrom, offsetsFrom, ih, varPartOf_cons, length_append, append_assoc, add_assoc]

lemma varPartOf_length_mono (h : vals <+: vals') : (varPartOf vals).length ≤ (varPartOf vals').length := by
  obtain ⟨rest, rfl⟩ := h
  simp

lemma VarFits.nil : VarFits [] := ⟨by simp, by simp [varPartOf]⟩

lemma VarFits.offset (h : VarFits (vals ++ v :: vals')) : (varPartOf vals).length < 2 ^ 32 := by
  have hpre : vals <+: (vals ++ v :: vals').dropLast := by
    rw [dropLast_append_of_ne_nil (cons_ne_nil v vals')]
    exact prefix_append _ _
  exact lt_of_le_of_lt (varPartOf_length_mono hpre) h.offset_lt

lemma getSizeOfVarPartForOneDatum_datum (pre post : List UInt8) (hoff : off = pre.length)
    (hv : v.length < 2 ^ 32) : ∃ header : List UInt8, datum v = header ++ v ∧
      getSizeOfVarPartForOneDatum (pre ++ (datum v ++ post)) off = .ok (header.length, v.length) := by
  unfold datum
  simp only [mod_eq_of_lt hv, take_length]
  by_cases hlen : v.length = 0 ∨ 255 < v.length
  · refine ⟨0 :: encodeLE 4 v.length, by rw [if_pos hlen], ?_⟩
    have hfirst := readBytes_middle pre [0] (encodeLE 4 v.length ++ v ++ post) hoff rfl
    have hsize := readBytes_middle (pre ++ [0]) (encodeLE 4 v.length) (v ++ post)
      (show off + 1 = _ by simp [hoff]) (length_encodeLE 4 _).symm
    simp only [cons_append, nil_append, append_assoc, length_singleton] at hfirst hsize
    rw [if_pos hlen, getSizeOfVarPartForOneDatum]
    simp only [cons_append, append_assoc, hfirst, hsize, Except.bind, bind]
    rw [if_neg (by decide), decodeLE_encodeLE (by omega)]
    simp
  · have hone : (UInt8.ofNat v.length).toNat = v.length := by
      rw [UInt8.toNat_ofNat']
      omega
    refine ⟨[UInt8.ofNat v.length], by rw [if_neg hlen]; rfl, ?_⟩
    have hfirst := readBytes_middle pre [UInt8.ofNat v.length] (v ++ post) hoff rfl
    simp only [cons_append, nil_append, length_singleton] at hfirst
    rw [if_neg hlen, getSizeOfVarPartForOneDatum]
    simp only [cons_append, hfirst, Except.bind, bind, decodeLE, hone, mul_zero, add_zero]
    rw [if_pos (by omega)]
    rfl

lemma length_datum_le (v : List UInt8) : 1 ≤ (datum v).length ∧ (datum v).length ≤ v.length + 5 := by
  have htake : (v.take (v.length % 2 ^ 32)).length ≤ v.length := length_take_le' _ _
  unfold datum
  dsimp only
  split_ifs <;> simp only [length_cons, length_append, length_encodeLE] <;> omega

lemma length_le_varPartOf : vals.length ≤ (varPartOf vals).length := by
  induction vals with
  | nil => exact zero_le _
  | cons v vals ih =>
    have := (length_datum_le v).1
    rw [length_cons, varPartOf_cons, length_append]
    omega

lemma length_flatten_of_size (h : ∀ v ∈ vals, v.length = n) : vals.flatten.length = vals.length * n := by
  rw [length_flatten, map_congr_left h, map_const', sum_replicate]
  rfl

lemma length_bitsOf (b : UInt8) : (bitsOf b).length = 8 := by simp [bitsOf]

lemma length_flatMap_bitsOf (bytes : List UInt8) : (bytes.flatMap bitsOf).length = 8 * bytes.length := by
  induction bytes with
  | nil => rfl
  | cons b bytes ih =>
    rw [flatMap_cons, length_append, ih, length_bitsOf, length_cons]
    omega

lemma getElem?_flatMap_bitsOf (bytes : List UInt8) (i : ℕ) :
    (bytes.flatMap bitsOf)[i]? = (bytes[i / 8]?).map fun b => (Value.ofBool (b.toNat.testBit (i % 8))).bytes := by
  induction bytes generalizing i with
  | nil => rfl
  | cons b bytes ih =>
    rw [flatMap_cons]
    by_cases hi : i < 8
    · rw [getElem?_append_left (by rwa [length_bitsOf]), div_eq_of_lt hi, mod_eq_of_lt hi]
      simp [bitsOf, hi]
    · have hdiv : i / 8 = (i - 8) / 8 + 1 := by omega
      have hmod : i % 8 = (i - 8) % 8 := by omega
      rw [getElem?_append_right (by rw [length_bitsOf]; omega), length_bitsOf, ih, hdiv, hmod]
      rfl

end Layout

namespace ConstRLEPayload

variable {p : ConstRLEPayload} {vals : List (List UInt8)} {v : List UInt8} {s t : Segment}

lemma holds_bool (hb : p.isBoolean = true) : p.Holds vals ↔ vals = p.payload.flatMap bitsOf := by
  rw [Holds, if_pos hb]

lemma holds_var (hb : p.isBoolean = false) (he : p.elemSize = 0) :
    p.Holds vals ↔ VarFits vals ∧ p.payload = offsetsFrom 0 vals ++ varPartOf vals ∧
      (vals ≠ [] → p.varOffs = 4 * vals.length) := by
  rw [Holds, hb, if_neg (by simp), if_pos he]

lemma holds_fixed (hb : p.isBoolean = false) (he : p.elemSize ≠ 0) :
    p.Holds vals ↔ (∀ v ∈ vals, v.length = p.elemSize) ∧ p.payload = vals.flatten := by
  rw [Holds, hb, if_neg (by simp), if_neg he]

variable {pre post : List (List UInt8)} {i pos : ℕ}

lemma readDatum_of_fits (hfits : VarFits (pre ++ v :: post))
    (hdata : p.payload = offsetsFrom 0 (pre ++ v :: post) ++ varPartOf (pre ++ v :: post))
    (hoffs : p.varOffs = 4 * (pre ++ v :: post).length) : p.readDatum (varPartOf pre).length = .ok v := by
  set table := offsetsFrom 0 (pre ++ v :: post)
  have hv : v.length < 2 ^ 32 := hfits.size_lt v (by simp)
  have haddress : p.varOffs + (varPartOf pre).length = (table ++ varPartOf pre).length := by
    rw [length_append, length_offsetsFrom, hoffs]
  obtain ⟨header, hdatum, hsize⟩ := getSizeOfVarPartForOneDatum_datum _ (varPartOf post) haddress hv
  have hpayload : p.payload = (table ++ varPartOf pre) ++ (datum v ++ varPartOf post) := by simp [hdata]
  rw [readDatum, hpayload, hsize]
  have hread := readBytes_middle (table ++ varPartOf pre ++ header) v (varPartOf post)
    (show p.varOffs + (varPartOf pre).length + header.length = _ by rw [haddress, ← length_append]) rfl
  rw [hdatum]
  simpa [bind, Except.bind] using hread

lemma getValueByIndex_bool (hb : p.isBoolean = true) (hi : (p.payload.flatMap bitsOf)[i]? = some v) :
    p.getValueByIndex i = .ok (.data v) := by
  rw [getElem?_flatMap_bitsOf] at hi
  obtain ⟨b, hbyte, hv⟩ := map_eq_some_iff.mp hi
  obtain ⟨hlt, hget⟩ := List.getElem?_eq_some_iff.mp hbyte
  have hread : readBytes p.payload (i / 8) 1 = .ok [b] := by
    rw [readBytes, if_pos (by omega), take_one_drop_eq_of_lt_length hlt, get_eq_getElem, hget]
  rw [getValueByIndex, if_pos hb, hread, ← hv]
  simp [bind, Except.bind, decodeLE, Value.ofBool, Value.bytes]

lemma getValueByIndex_var (hb : p.isBoolean = false) (he : p.elemSize = 0) (h : p.Holds (pre ++ v :: post)) :
    p.getValueByIndex pre.length = .ok (.data v) := by
  obtain ⟨hfits, hdata, hoffs⟩ := (holds_var hb he).mp h
  have hword : readBytes p.payload (pre.length * 4) 4 = .ok (encodeLE 4 (varPartOf pre).length) := by
    have hread := readBytes_middle (offsetsFrom 0 pre) (encodeLE 4 (varPartOf pre).length)
      (offsetsFrom ((varPartOf pre).length + (datum v).length) post ++ varPartOf (pre ++ v :: post))
      (show pre.length * 4 = _ by rw [length_offsetsFrom, mul_comm]) (length_encodeLE 4 _).symm
    rw [hdata, offsetsFrom_append, offsetsFrom, zero_add]
    simpa using hread
  have hdatum : p.readDatum (varPartOf pre).length = .ok v := readDatum_of_fits hfits hdata (hoffs (by simp))
  rw [getValueByIndex, if_neg (by simp [hb]), if_pos he, hword]
  simp only [bind, Except.bind, decodeLE_encodeLE (show _ < 256 ^ 4 from hfits.offset), hdatum]

lemma getValueByIndex_fixed (hb : p.isBoolean = false) (he : p.elemSize ≠ 0) (h : p.Holds (pre ++ v :: post)) :
    p.getValueByIndex pre.length = .ok (.data v) := by
  obtain ⟨hsizes, hdata⟩ := (holds_fixed hb he).mp h
  have hpre : pre.length * p.elemSize = pre.flatten.length := by
    rw [length_flatten_of_size fun w hw => hsizes w (mem_append_left _ hw)]
  have hread := readBytes_middle pre.flatten v post.flatten hpre (hsizes v (by simp)).symm
  have hall : p.payload = pre.flatten ++ (v ++ post.flatten) := by simp [hdata]
  rw [getValueByIndex, if_neg (by simp [hb]), if_neg he, hall, hread]
  rfl

lemma getValueByIndex_of_holds (h : p.Holds vals) (hi : vals[i]? = some v) : p.getValueByIndex i = .ok (.data v) := by
  by_cases hb : p.isBoolean
  · rw [(holds_bool hb).mp h] at hi
    exact getValueByIndex_bool hb hi
  · rw [Bool.not_eq_true] at hb
    obtain ⟨hlt, hget⟩ := List.getElem?_eq_some_iff.mp hi
    have hsplit : vals = vals.take i ++ v :: vals.drop (i + 1) := by
      rw [← hget, getElem_cons_drop, take_append_drop]
    have hlen : (vals.take i).length = i := length_take_of_le hlt.le
    rw [hsplit] at h
    rw [← hlen]
    by_cases he : p.elemSize = 0
    · exact getValueByIndex_var hb he h
    · exact getValueByIndex_fixed hb he h

/-- Segments in order. -/
def Sorted (segs : List Segment) : Prop := segs.Pairwise fun s t => s.startPosition ≤ t.startPosition

lemma exists_split {segs : List Segment} (hne : segs ≠ []) (hfirst : (segs.head hne).startPosition ≤ pos)
    (hlast : pos < (segs.getLast hne).startPosition) :
    ∃ pre s t post, segs = pre ++ s :: t :: post ∧ s.startPosition ≤ pos ∧ pos < t.startPosition := by
  induction segs with
  | nil => exact absurd rfl hne
  | cons s segs ih =>
    cases segs with
    | nil => exact absurd hlast (not_lt_of_ge hfirst)
    | cons t segs =>
      by_cases hpos : pos < t.startPosition
      · exact ⟨[], s, t, segs, rfl, hfirst, hpos⟩
      · obtain ⟨pre, s', t', post, hsegs, hs, ht⟩ := ih (cons_ne_nil _ _) (not_lt.mp hpos) hlast
        exact ⟨s :: pre, s', t', post, by rw [hsegs]; rfl, hs, ht⟩

lemma segAt_eq (h : i < p.seg.length) : p.segAt i = p.seg[i] := getD_eq_getElem _ _ h

lemma Sorted.segAt_le (h : Sorted p.seg) {j : ℕ} (hij : i ≤ j) (hj : j < p.seg.length) :
    (p.segAt i).startPosition ≤ (p.segAt j).startPosition := by
  rcases hij.eq_or_lt with rfl | hlt
  · exact le_rfl
  · rw [segAt_eq (hlt.trans hj), segAt_eq hj]
    exact pairwise_iff_getElem.mp h i j _ hj hlt

lemma getValueByPosition_of_split {pre post : List Segment} (hseg : p.seg = pre ++ s :: t :: post)
    (hsorted : Sorted p.seg) (hlt : ∀ s ∈ p.seg, s.startPosition < 2 ^ 63) (hs : s.startPosition ≤ pos)
    (ht : pos < t.startPosition) : p.getValueByPosition pos = (p.readCell s pos).map some := by
  have hlen : p.seg.length = pre.length + 2 + post.length := by
    rw [hseg]
    simp only [length_append, length_cons]
    omega
  have hn : p.nSegs = pre.length + 1 + post.length := by
    rw [nSegs, hlen]
    omega
  have hats : p.segAt pre.length = s := by simp [segAt, hseg]
  have hatt : p.segAt (pre.length + 1) = t := by simp [segAt, hseg]
  have hposition : ∀ i < p.seg.length, asPosition (p.segAt i).startPosition = (p.segAt i).startPosition :=
    fun i hi => asPosition_of_lt (hlt _ (segAt_eq hi ▸ getElem_mem _))
  have hr : bisect (fun m => decide (asPosition (p.segAt (m + 1)).startPosition ≤ pos)) p.nSegs 0 p.nSegs = pre.length := by
    apply bisect_eq (by omega) (zero_le _) (by omega)
    · intro i _ hi
      have hle := hsorted.segAt_le (i := i + 1) (j := pre.length) (by omega) (by omega)
      rw [hats] at hle
      rw [hposition _ (by omega), decide_eq_true_eq, cast_le]
      omega
    · intro i hi hi'
      have hle := hsorted.segAt_le (i := pre.length + 1) (j := i + 1) (by omega) (by omega)
      rw [hatt] at hle
      rw [hposition _ (by omega), decide_eq_false_iff_not, cast_le]
      omega
  rw [getValueByPosition, hr, if_neg (by omega), hats]

lemma getValueByPosition_max (hlt : ∀ s ∈ p.seg, s.startPosition < 2 ^ 64) : p.getValueByPosition (2 ^ 63 - 1) = .ok none := by
  have hr : bisect (fun m => decide (asPosition (p.segAt (m + 1)).startPosition ≤ 2 ^ 63 - 1)) p.nSegs 0 p.nSegs
      = p.nSegs := by
    apply bisect_eq (by omega) (zero_le _) le_rfl
    · intro i _ hi
      have hmem : p.segAt (i + 1) ∈ p.seg := by
        unfold nSegs at hi
        rw [segAt_eq (by omega)]
        exact getElem_mem _
      have := asPosition_lt (hlt _ hmem)
      rw [decide_eq_true_eq]
      omega
    · intro i hi hi'
      omega
  rw [getValueByPosition, hr, if_pos rfl]

end ConstRLEPayload

namespace Segment

/-- The values are among the first `n`. -/
def Fits (s : Segment) (n len : ℕ) : Prop :=
  s.isNull = false → s.dataIndex ≤ maxDataIndex ∧ if s.isRun then s.dataIndex < n else s.dataIndex + len ≤ n

/-- A segment and the next one. -/
def Follows (n : ℕ) (s t : Segment) : Prop :=
  s.startPosition ≤ t.startPosition ∧ (s.startPosition < t.startPosition → s.Fits n (t.startPosition - s.startPosition))

variable {s t t' : Segment} {n n' len : ℕ}

lemma Fits.mono (h : s.Fits n len) (hn : n ≤ n') : s.Fits n' len := by
  intro hnull
  obtain ⟨hmax, hfits⟩ := h hnull
  refine ⟨hmax, ?_⟩
  split_ifs at hfits ⊢ <;> omega

lemma Follows.mono (h : Follows n s t) (hn : n ≤ n') : Follows n' s t := ⟨h.1, fun hlt => (h.2 hlt).mono hn⟩

lemma Follows.of_start_eq (h : Follows n s t) (ht : t'.startPosition = t.startPosition) : Follows n s t' := by
  unfold Follows
  rwa [ht]

structure Chained (n : ℕ) (segs : List Segment) : Prop where
  chain : segs.IsChain (Follows n)
  first : ∀ s ∈ segs.head?, s.startPosition = 0

namespace Chained

variable {segs : List Segment}

lemma mono (h : Chained n segs) (hn : n ≤ n') : Chained n' segs :=
  ⟨h.chain.imp fun _ _ hst => hst.mono hn, h.first⟩

lemma replace (h : Chained n (segs ++ [t])) (ht : t'.startPosition = t.startPosition) : Chained n (segs ++ [t']) := by
  refine ⟨?_, ?_⟩
  · have hchain := h.chain
    rw [isChain_append] at hchain ⊢
    refine ⟨hchain.1, isChain_singleton _, ?_⟩
    intro x hx y hy
    rw [head?_singleton, mem_some_iff] at hy
    exact hy ▸ (hchain.2.2 x hx t rfl).of_start_eq ht
  · intro x hx
    cases segs with
    | nil =>
      rw [nil_append, head?_singleton, mem_some_iff] at hx
      rw [← hx, ht]
      exact h.first t rfl
    | cons s segs => exact h.first x hx

lemma snoc (h : Chained n (segs ++ [s])) (hst : Follows n s t) : Chained n (segs ++ [s] ++ [t]) := by
  refine ⟨?_, ?_⟩
  · rw [append_assoc]
    exact isChain_append_cons_cons.mpr ⟨h.chain, hst, isChain_singleton t⟩
  · intro x hx
    apply h.first x
    rwa [head?_append_of_ne_nil _ (by simp)] at hx

lemma sorted (h : Chained n segs) : ConstRLEPayload.Sorted segs := by
  exact (h.chain.imp fun _ _ hst => hst.1).pairwise

lemma follows {pre post : List Segment} (h : Chained n (pre ++ s :: t :: post)) : Follows n s t :=
  (isChain_append_cons_cons.mp h.chain).2.1

end Chained

end Segment

section Cells

variable {p : ConstRLEPayload} {vals : List (List UInt8)} {s : Segment} {pos : ℕ}

lemma segAt_nSegs (hne : p.seg ≠ []) : p.segAt p.nSegs = p.seg.getLast hne := by
  have hpos := length_pos_of_ne_nil hne
  rw [ConstRLEPayload.segAt_eq (by unfold ConstRLEPayload.nSegs; omega), getLast_eq_getElem]
  rfl

section

variable {n : ℕ} (h : Segment.Chained n p.seg)

include h

lemma Segment.Chained.start_le (hs : s ∈ p.seg) : s.startPosition ≤ (p.segAt p.nSegs).startPosition := by
  obtain ⟨i, hi, rfl⟩ := getElem_of_mem hs
  have hle := h.sorted.segAt_le (p := p) (i := i) (j := p.nSegs) (by unfold ConstRLEPayload.nSegs; omega)
    (by unfold ConstRLEPayload.nSegs; omega)
  rwa [ConstRLEPayload.segAt_eq hi] at hle

lemma Segment.Chained.count_eq (hne : p.seg ≠ []) : p.count = (p.segAt p.nSegs).startPosition := by
  rw [ConstRLEPayload.count]
  split_ifs with h0
  · have hhead : p.seg.head? = some (p.segAt 0) := by
      rw [ConstRLEPayload.segAt_eq (length_pos_of_ne_nil hne), head?_eq_getElem?, getElem?_eq_getElem]
    rw [h0]
    exact (h.first _ hhead).symm
  · rfl

lemma Segment.Chained.split (hne : p.seg ≠ []) (hpos : pos < (p.segAt p.nSegs).startPosition) :
    ∃ pre s t post, p.seg = pre ++ s :: t :: post ∧ s.startPosition ≤ pos ∧ pos < t.startPosition := by
  apply ConstRLEPayload.exists_split hne
  · rw [h.first _ (head?_eq_some_head hne)]
    exact zero_le _
  · rwa [← segAt_nSegs]

end

lemma readCell_of_getElem? {v : List UInt8} (h : p.Holds vals) (hnull : s.isNull = false)
    (hmax : s.dataIndex ≤ Segment.maxDataIndex) (hs : s.startPosition ≤ pos) (hpos : pos < 2 ^ 63)
    (hv : vals[s.dataIndex + if s.isRun then 0 else pos - s.startPosition]? = some v) : p.readCell s pos = .ok (.data v) := by
  have hindex : toWord (s.dataIndex + if s.isRun then 0 else (pos : ℤ) - asPosition s.startPosition)
      = s.dataIndex + if s.isRun then 0 else pos - s.startPosition := by
    unfold Segment.maxDataIndex at hmax
    rw [asPosition_of_lt (by omega), toWord]
    split_ifs <;> omega
  rw [ConstRLEPayload.readCell, if_neg (by simp [hnull]), hindex]
  exact ConstRLEPayload.getValueByIndex_of_holds h hv

lemma Segment.Fits.exists_getElem? {len : ℕ} (h : s.Fits vals.length len) (hnull : s.isNull = false) (pos : ℕ)
    (hlen : pos - s.startPosition < len) : ∃ v, vals[s.dataIndex + if s.isRun then 0 else pos - s.startPosition]? = some v := by
  obtain ⟨-, hfits⟩ := h hnull
  have hlt : (s.dataIndex + if s.isRun then 0 else pos - s.startPosition) < vals.length := by
    split_ifs at hfits ⊢ <;> omega
  exact ⟨_, getElem?_eq_getElem hlt⟩

end Cells

end SciDB.Array
