import SciDB.Array.RLEAppender

/-!
# Appending payloads

`RLEPayload::append` is concatenation, unless a payload of nulls only keeps the `_varOffs` of its earlier use (`Stale`) or
there are too many positions.
-/

namespace SciDB.Array

open SciDB.Lib List

namespace RLEPayload

def adjustOffsets (varHead : ℕ) : List UInt8 → List UInt8
  | b₀ :: b₁ :: b₂ :: b₃ :: rest => encodeLE 4 (decodeLE [b₀, b₁, b₂, b₃] + varHead) ++ adjustOffsets varHead rest
  | rest => rest

/-- The data of both payloads. -/
def spliceData (p q : RLEPayload) : Except RLEFailure (List UInt8 × ℕ × ℕ) :=
  if p.isBoolean then .ok (p.payload ++ q.payload, p.varOffs, p.dataSize * 8)
  else if p.elemSize = 0 then
    -- `_data.begin() + _varOffs` has to be in the vector or at its end
    if p.payload.length < p.varOffs ∨ q.payload.length < q.varOffs then .error .outOfRange
    else
      let table := q.payload.take q.varOffs
      let varHead := wsub p.dataSize p.varOffs
      let last := decodeLE (table.drop (table.length - 4))
      if table ≠ [] ∧ rleMaxVarpartOffset < varHead + last then .error (.chunkTooHuge (varHead + last))
      else .ok (p.payload.take p.varOffs ++ adjustOffsets varHead table ++ p.payload.drop p.varOffs
        ++ q.payload.drop q.varOffs, p.varOffs + q.varOffs, p.varOffs / 4)
  else .ok (p.payload ++ q.payload, p.varOffs, p.dataSize / p.elemSize)

/-- Moves the segments. -/
def shiftSegments (headItems lastHeadPosition : ℕ) : List Segment → Except RLEFailure (List Segment)
  | [] => .ok []
  | s :: segs => do
    let s ← (if s.isNull then .ok s else s.addToValueIndex headItems)
    let rest ← shiftSegments headItems lastHeadPosition segs
    .ok (s.addToPPosition lastHeadPosition :: rest)

def append (p q : RLEPayload) : Except RLEFailure RLEPayload :=
  if q.count < 1 ∨ q.seg = [] then .ok p
  else if p.seg.dropLast = [] then
    .ok { p with seg := q.seg, payload := q.payload, varOffs := q.varOffs, dataSize := p.dataSize + q.dataSize }
  else do
    let d ← p.spliceData q
    let tail ← shiftSegments d.2.2 (p.segAt p.nSegs).startPosition q.seg
    .ok { p with
      seg := p.seg.dropLast ++ tail
      payload := d.1
      varOffs := d.2.1
      dataSize := p.dataSize + q.dataSize
      valuesCount := if p.isBoolean then p.valuesCount + q.valuesCount else p.valuesCount }

/-- The type is of variable size. -/
def VarSize (p : RLEPayload) : Prop := p.isBoolean = false ∧ p.elemSize = 0

/-- A payload that is filled with nulls only and keeps an offset from its earlier use. -/
def Stale (p : RLEPayload) : Prop := p.payload = [] ∧ p.varOffs ≠ 0

end RLEPayload

open RLEPayload

section Splice

variable {a b : RLEPayload} {na nb : ℕ} {va vb vals : List (List UInt8)}

lemma adjustOffsets_offsetsFrom (varHead : ℕ) {off : ℕ} (h : off + (varPartOf vals.dropLast).length < 2 ^ 32) :
    adjustOffsets varHead (offsetsFrom off vals) = offsetsFrom (off + varHead) vals := by
  induction vals generalizing off with
  | nil => rfl
  | cons v vals ih =>
    have hword : adjustOffsets varHead (offsetsFrom off (v :: vals))
        = encodeLE 4 (decodeLE (encodeLE 4 off) + varHead)
          ++ adjustOffsets varHead (offsetsFrom (off + (datum v).length) vals) := rfl
    rw [hword, decodeLE_encodeLE (by omega), offsetsFrom]
    congr 1
    cases vals with
    | nil => rfl
    | cons w vals =>
      rw [dropLast_cons_of_ne_nil (cons_ne_nil w vals), varPartOf_cons, length_append] at h
      rw [ih (by omega), add_right_comm]

lemma last_offsetsFrom (hne : vals ≠ []) (h : VarFits vals) :
    decodeLE ((offsetsFrom 0 vals).drop ((offsetsFrom 0 vals).length - 4)) = (varPartOf vals.dropLast).length := by
  have hsplit := dropLast_append_getLast hne
  have htable : offsetsFrom 0 vals = offsetsFrom 0 vals.dropLast ++ encodeLE 4 (varPartOf vals.dropLast).length := by
    conv_lhs => rw [← hsplit]
    rw [offsetsFrom_append, zero_add]
    simp [offsetsFrom]
  rw [htable, length_append, length_encodeLE, Nat.add_sub_cancel, drop_left, decodeLE_encodeLE h.offset_lt]

lemma VarFits.length_lt (h : VarFits vals) : (varPartOf vals).length < 2 ^ 34 := by
  by_cases hne : vals = []
  · subst hne
    simp [varPartOf]
  · have hsplit := dropLast_append_getLast hne
    have hlast : (datum (vals.getLast hne)).length ≤ _ := (length_datum_le _).2
    have hv := h.size_lt _ (getLast_mem hne)
    have hoff := h.offset_lt
    rw [← hsplit, varPartOf_append, length_append, varPartOf_cons, length_append]
    simp only [varPartOf, flatMap_nil, length_nil] at *
    omega

open ConstRLEPayload

lemma Built.varOffs_eq (h : Built a na va) (hvar : a.VarSize) (hstale : ¬ a.Stale) : a.varOffs = 4 * va.length := by
  obtain ⟨-, hpayload, hoffs⟩ := (holds_var hvar.1 hvar.2).mp h.holds
  by_cases hne : va = []
  · subst hne
    by_contra hvo
    exact hstale ⟨hpayload, hvo⟩
  · exact hoffs hne

lemma Built.parts (h : Built a na va) (hvar : a.VarSize) (hstale : ¬ a.Stale) :
    a.varOffs ≤ a.payload.length ∧ a.payload.take a.varOffs = offsetsFrom 0 va ∧
      a.payload.drop a.varOffs = varPartOf va ∧ wsub a.dataSize a.varOffs = (varPartOf va).length := by
  obtain ⟨hfits, hpayload, -⟩ := (holds_var hvar.1 hvar.2).mp h.holds
  have hoffs : a.varOffs = (offsetsFrom 0 va).length := by rw [h.varOffs_eq hvar hstale, length_offsetsFrom]
  have hsize : a.dataSize = a.varOffs + (varPartOf va).length := by
    rw [h.dataSize, hpayload, length_append, hoffs]
  have hlt : a.dataSize < 2 ^ 64 := by
    have := hfits.length_lt
    have : va.length ≤ _ := length_le_varPartOf
    rw [length_offsetsFrom] at hoffs
    omega
  refine ⟨?_, ?_, ?_, ?_⟩
  · rw [← h.dataSize, hsize]
    exact Nat.le_add_right _ _
  · rw [hpayload, hoffs, take_left]
  · rw [hpayload, hoffs, drop_left]
  · rw [wsub_of_le (by omega) hlt, hsize, Nat.add_sub_cancel_left]

lemma spliceData_var (ha : Built a na va) (hb : Built b nb vb) (hvara : a.VarSize) (hvarb : b.VarSize)
    (hsa : ¬ a.Stale) (hsb : ¬ b.Stale) : (∃ size, a.spliceData b = .error (.chunkTooHuge size)) ∨
      VarFits (va ++ vb) ∧ a.spliceData b
        = .ok (offsetsFrom 0 (va ++ vb) ++ varPartOf (va ++ vb), 4 * (va ++ vb).length, va.length) := by
  obtain ⟨hlea, hta, hda, hhead⟩ := ha.parts hvara hsa
  obtain ⟨hleb, htb, hdb, -⟩ := hb.parts hvarb hsb
  have hfa := ((holds_var hvara.1 hvara.2).mp ha.holds).1
  have hfb := ((holds_var hvarb.1 hvarb.2).mp hb.holds).1
  unfold spliceData
  rw [if_neg (by simp [hvara.1]), if_pos hvara.2, if_neg (by omega), hta, htb, hda, hdb, hhead,
    ha.varOffs_eq hvara hsa, hb.varOffs_eq hvarb hsb]
  dsimp only
  rw [adjustOffsets_offsetsFrom _ (by rw [zero_add]; exact hfb.offset_lt), zero_add]
  by_cases hne : vb = []
  · subst hne
    right
    refine ⟨by rwa [append_nil], ?_⟩
    rw [if_neg (by simp [offsetsFrom])]
    simp [offsetsFrom, varPartOf]
  · rw [last_offsetsFrom hne hfb]
    split_ifs with hhuge
    · exact .inl ⟨_, rfl⟩
    · right
      have htable : offsetsFrom 0 vb ≠ [] := by
        intro hnil
        have hlen : (offsetsFrom 0 vb).length = 4 * vb.length := length_offsetsFrom
        have hpos := length_pos_of_ne_nil hne
        rw [hnil, length_nil] at hlen
        omega
      have hmax := not_lt.mp (not_and.mp hhuge htable)
      unfold rleMaxVarpartOffset at hmax
      refine ⟨⟨?_, ?_⟩, ?_⟩
      · intro v hv
        rcases mem_append.mp hv with hv | hv
        · exact hfa.size_lt v hv
        · exact hfb.size_lt v hv
      · rw [dropLast_append_of_ne_nil hne, varPartOf_append, length_append]
        omega
      · rw [offsetsFrom_append, zero_add, varPartOf_append, length_append]
        congr 2
        · simp
        · congr 1 <;> omega

lemma spliceData_cases (ha : Built a na va) (hb : Built b nb vb) (hbool : a.isBoolean = b.isBoolean)
    (helem : a.elemSize = b.elemSize) (hstale : a.VarSize → ¬ a.Stale ∧ ¬ b.Stale) :
    (∃ size, a.spliceData b = .error (.chunkTooHuge size)) ∨
      ∃ data varOffs, a.spliceData b = .ok (data, varOffs, va.length) ∧ ∀ p : ConstRLEPayload,
        p.isBoolean = a.isBoolean → p.elemSize = a.elemSize → p.payload = data → p.varOffs = varOffs → p.Holds (va ++ vb) := by
  by_cases hbo : a.isBoolean
  · have hva := (holds_bool hbo).mp ha.holds
    have hvb := (holds_bool (hbool ▸ hbo)).mp hb.holds
    refine .inr ⟨a.payload ++ b.payload, a.varOffs, ?_, ?_⟩
    · rw [spliceData, if_pos hbo, ha.dataSize, hva, length_flatMap_bitsOf, mul_comm]
    · intro p hp _ hpayload _
      rw [holds_bool (hp.trans hbo), hpayload, flatMap_append, hva, hvb]
  · rw [Bool.not_eq_true] at hbo
    have hbo' : b.isBoolean = false := hbool ▸ hbo
    by_cases he : a.elemSize = 0
    · obtain ⟨hsa, hsb⟩ := hstale ⟨hbo, he⟩
      refine (spliceData_var ha hb ⟨hbo, he⟩ ⟨hbo', helem ▸ he⟩ hsa hsb).imp_right fun h => ?_
      refine ⟨_, _, h.2, ?_⟩
      intro p hp hpe hpayload hoffs
      exact (holds_var (hp.trans hbo) (hpe.trans he)).mpr ⟨h.1, hpayload, fun _ => hoffs⟩
    · obtain ⟨hsa, hpa⟩ := (holds_fixed hbo he).mp ha.holds
      obtain ⟨hsb, hpb⟩ := (holds_fixed hbo' (helem ▸ he)).mp hb.holds
      have hitems : a.dataSize / a.elemSize = va.length := by
        rw [ha.dataSize, hpa, length_flatten_of_size hsa, Nat.mul_div_cancel _ (pos_of_ne_zero he)]
      refine .inr ⟨a.payload ++ b.payload, a.varOffs, ?_, ?_⟩
      · rw [spliceData, if_neg (by simp [hbo]), if_neg he, hitems]
      · intro p hp hpe hpayload _
        refine (holds_fixed (hp.trans hbo) (by rwa [hpe])).mpr ⟨?_, ?_⟩
        · intro v hv
          rcases mem_append.mp hv with hv | hv
          · rw [hsa v hv, hpe]
          · rw [hsb v hv, hpe, helem]
        · rw [hpayload, hpa, hpb, flatten_append]

end Splice

section Segments

variable {a b p : RLEPayload} {n na nb : ℕ} {va vb vals : List (List UInt8)} {s : Segment} {pos : ℕ}
  {headItems lastHeadPosition : ℕ}

section

variable (h : Built p n vals)

include h

lemma Built.start_le (hs : s ∈ p.seg) : s.startPosition ≤ n := by
  rw [← h.last]
  exact h.chained.start_le hs

lemma Built.count_eq : p.count = n := (h.chained.count_eq h.ne_nil).trans h.last

lemma Built.split (hpos : pos < n) :
    ∃ pre s t post, p.seg = pre ++ s :: t :: post ∧ s.startPosition ≤ pos ∧ pos < t.startPosition :=
  h.chained.split h.ne_nil (h.last.symm ▸ hpos)

lemma Built.getValueByPosition {pre post : List Segment} {t : Segment} (hseg : p.seg = pre ++ s :: t :: post)
    (hs : s.startPosition ≤ pos) (ht : pos < t.startPosition) : p.getValueByPosition pos = (p.readCell s pos).map some := by
  apply ConstRLEPayload.getValueByPosition_of_split hseg h.chained.sorted _ hs ht
  intro s hs
  exact lt_of_le_of_lt (h.start_le hs) h.lt

end

def shifted (headItems lastHeadPosition : ℕ) (s : Segment) : Segment := { s with
  dataIndex := if s.isNull then s.dataIndex else s.dataIndex + headItems
  startPosition := wrap (s.startPosition + lastHeadPosition) }

lemma of_shiftSegments {segs tail : List Segment}
    (h : shiftSegments headItems lastHeadPosition segs = .ok tail) : tail = segs.map (shifted headItems lastHeadPosition) ∧
      ∀ s ∈ segs, s.isNull = false → s.dataIndex + headItems ≤ Segment.maxDataIndex := by
  induction segs generalizing tail with
  | nil =>
    cases h
    exact ⟨rfl, by simp⟩
  | cons s segs ih =>
    obtain ⟨s', hs, h⟩ := bind_eq_ok.mp h
    obtain ⟨rest, hrest, h⟩ := bind_eq_ok.mp h
    cases h
    obtain ⟨rfl, hmax⟩ := ih hrest
    have hs' : s'.addToPPosition lastHeadPosition = shifted headItems lastHeadPosition s ∧
        (s.isNull = false → s.dataIndex + headItems ≤ Segment.maxDataIndex) := by
      by_cases hnull : s.isNull
      · rw [if_pos hnull] at hs
        cases hs
        refine ⟨?_, fun h => absurd h (by simp [hnull])⟩
        rw [shifted, if_pos hnull]
        rfl
      · rw [if_neg hnull] at hs
        obtain ⟨rfl, hle⟩ := Segment.of_addToValueIndex hs
        refine ⟨?_, fun _ => hle⟩
        rw [shifted, if_neg hnull]
        rfl
    refine ⟨by rw [hs'.1, map_cons], ?_⟩
    intro t ht
    rcases mem_cons.mp ht with rfl | ht
    · exact hs'.2
    · exact hmax t ht

lemma shiftSegments_error {segs : List Segment} {e : RLEFailure}
    (h : shiftSegments headItems lastHeadPosition segs = .error e) : e.IsException := by
  induction segs with
  | nil => cases h
  | cons s segs ih =>
    unfold shiftSegments at h
    cases hs : (if s.isNull then Except.ok s else s.addToValueIndex headItems) with
    | error e' =>
      rw [hs] at h
      cases h
      unfold Segment.addToValueIndex at hs
      split_ifs at hs
      cases hs
      exact fun h => nomatch h
    | ok s' =>
      rw [hs] at h
      cases hrest : shiftSegments headItems lastHeadPosition segs with
      | error e' =>
        simp only [hrest, bind, Except.bind, Except.error.injEq] at h
        exact ih (h ▸ hrest)
      | ok rest => simp [hrest, bind, Except.bind] at h

end Segments

section Append

variable {a b a' : RLEPayload} {na nb : ℕ} {va vb : List (List UInt8)} {pos : ℕ}

lemma of_append (hcount : b.count ≠ 0) (hne : b.seg ≠ []) (hhead : a.seg.dropLast ≠ [])
    (h : a.append b = .ok a') : ∃ headItems, a.spliceData b = .ok (a'.payload, a'.varOffs, headItems) ∧
      a'.seg = a.seg.dropLast ++ b.seg.map (shifted headItems (a.segAt a.nSegs).startPosition) ∧
      (∀ s ∈ b.seg, s.isNull = false → s.dataIndex + headItems ≤ Segment.maxDataIndex) ∧
      a'.isBoolean = a.isBoolean ∧ a'.elemSize = a.elemSize := by
  rw [append, if_neg (by simp [hcount, hne]), if_neg hhead] at h
  obtain ⟨d, hd, h⟩ := bind_eq_ok.mp h
  obtain ⟨tail, htail, h⟩ := bind_eq_ok.mp h
  cases h
  obtain ⟨rfl, hmax⟩ := of_shiftSegments htail
  exact ⟨d.2.2, hd, rfl, hmax, rfl, rfl⟩

lemma append_of_noSegments (hcount : b.count ≠ 0) (hne : b.seg ≠ []) (hhead : a.seg.dropLast = []) : a.append b = .ok { a with
      seg := b.seg, payload := b.payload, varOffs := b.varOffs, dataSize := a.dataSize + b.dataSize } := by
  rw [append, if_neg (by simp [hcount, hne]), if_pos hhead]

lemma append_of_stale (hb : Built b nb vb) (hcount : b.count ≠ 0)
    (hhead : a.seg.dropLast ≠ []) (hvar : a.VarSize) (hstale : a.Stale ∨ b.Stale) : a.append b = .error .outOfRange := by
  have hlt : a.payload.length < a.varOffs ∨ b.payload.length < b.varOffs := by
    refine hstale.imp ?_ ?_
    · intro h
      rw [h.1]
      exact pos_of_ne_zero h.2
    · intro h
      rw [h.1]
      exact pos_of_ne_zero h.2
  have hsplice : a.spliceData b = .error .outOfRange := by
    rw [spliceData, if_neg (by simp [hvar.1]), if_pos hvar.2, if_pos hlt]
  rw [append, if_neg (by simp [hcount, hb.ne_nil]), if_neg hhead, hsplice]
  rfl

section

variable (ha : Built a na va)

include ha

section

variable (hb : Built b nb vb) {headItems : ℕ}

include hb

lemma sorted_append (hseg : a'.seg = a.seg.dropLast ++ b.seg.map (shifted headItems na)) :
    ConstRLEPayload.Sorted a'.seg ∧ ∀ s ∈ a'.seg, s.startPosition ≤ na + nb := by
  have hstart : ∀ s ∈ b.seg, (shifted headItems na s).startPosition = s.startPosition + na := fun s hs =>
    wrap_of_lt (by have := hb.start_le hs; have := ha.lt; have := hb.lt; omega)
  have hle : ∀ s ∈ a.seg.dropLast, s.startPosition ≤ na := fun s hs => ha.start_le (mem_of_mem_dropLast hs)
  rw [hseg]
  refine ⟨pairwise_append.mpr ⟨?_, ?_, ?_⟩, ?_⟩
  · exact ha.chained.sorted.sublist (dropLast_sublist _)
  · refine pairwise_map.mpr (hb.chained.sorted.imp_of_mem fun {s t} hs ht hst => ?_)
    rw [hstart s hs, hstart t ht]
    omega
  · intro s hs t ht
    obtain ⟨u, hu, rfl⟩ := mem_map.mp ht
    rw [hstart u hu]
    exact (hle s hs).trans (Nat.le_add_left _ _)
  · intro s hs
    rcases mem_append.mp hs with hs | hs
    · exact (hle s hs).trans (Nat.le_add_right _ _)
    · obtain ⟨t, ht, rfl⟩ := mem_map.mp hs
      rw [hstart t ht]
      have := hb.start_le ht
      omega

section

variable (hseg : a'.seg = a.seg.dropLast ++ b.seg.map (shifted va.length na))

include hseg

lemma getValueByPosition_append_left (hholds : a'.Holds (va ++ vb)) (hn : na + nb < 2 ^ 63) (hpos : pos < na) :
    a'.getValueByPosition pos = a.getValueByPosition pos := by
  obtain ⟨hsorted, hle⟩ := sorted_append ha hb hseg
  obtain ⟨pre, s, t, post, hsplit, hs, ht⟩ := ha.split hpos
  -- the segment is followed by one that starts where its successor in `a` does
  obtain ⟨t', post', hsplit', ht'⟩ : ∃ t' post', a'.seg = pre ++ s :: t' :: post' ∧ t'.startPosition = t.startPosition := by
    cases post with
    | nil =>
      obtain ⟨u, us, hus⟩ := exists_cons_of_ne_nil hb.ne_nil
      refine ⟨shifted va.length na u, us.map (shifted va.length na), ?_, ?_⟩
      · rw [hseg, hsplit, hus, show pre ++ [s, t] = (pre ++ [s]) ++ [t] by simp, dropLast_concat]
        simp
      · have hzero := hb.chained.first u (by rw [hus]; rfl)
        have hlast : t.startPosition = na := by
          rw [← ha.last, segAt_nSegs ha.ne_nil]
          simp [hsplit]
        show wrap (u.startPosition + na) = _
        rw [hzero, zero_add, wrap_of_lt (by omega), hlast]
    | cons u post =>
      refine ⟨t, (u :: post).dropLast ++ b.seg.map (shifted va.length na), ?_, rfl⟩
      rw [hseg, hsplit, dropLast_append_of_ne_nil (by simp), dropLast_cons_of_ne_nil (by simp), dropLast_cons_of_ne_nil (by simp)]
      simp
  have hfits : s.Fits va.length (t.startPosition - s.startPosition) := (hsplit ▸ ha.chained).follows.2 (by omega)
  rw [ha.getValueByPosition hsplit hs ht, ConstRLEPayload.getValueByPosition_of_split hsplit' hsorted
    (fun s hs => lt_of_le_of_lt (hle s hs) hn) hs (by omega)]
  congr 1
  by_cases hnull : s.isNull
  · rw [ConstRLEPayload.readCell, if_pos hnull, ConstRLEPayload.readCell, if_pos hnull]
  · rw [Bool.not_eq_true] at hnull
    have hmax := (hfits hnull).1
    obtain ⟨v, hv⟩ := hfits.exists_getElem? hnull pos (by omega)
    rw [readCell_of_getElem? ha.holds hnull hmax hs (by omega) hv]
    apply readCell_of_getElem? hholds hnull hmax hs (by omega)
    rw [getElem?_append_left (List.getElem?_eq_some_iff.mp hv).1, hv]

lemma getValueByPosition_append_right (hholds : a'.Holds (va ++ vb))
    (hmax : ∀ s ∈ b.seg, s.isNull = false → s.dataIndex + va.length ≤ Segment.maxDataIndex) (hn : na + nb < 2 ^ 63)
    (hpos : pos < nb) : a'.getValueByPosition ((na + pos : ℕ) : ℤ) = b.getValueByPosition pos := by
  obtain ⟨hsorted, hle⟩ := sorted_append ha hb hseg
  obtain ⟨pre, s, t, post, hsplit, hs, ht⟩ := hb.split hpos
  have hmems : s ∈ b.seg := by simp [hsplit]
  have hstart : ∀ u ∈ b.seg, (shifted va.length na u).startPosition = u.startPosition + na := fun u hu =>
    wrap_of_lt (by have := hb.start_le hu; omega)
  have hsplit' : a'.seg = (a.seg.dropLast ++ pre.map (shifted va.length na)) ++ shifted va.length na s
      :: shifted va.length na t :: post.map (shifted va.length na) := by
    rw [hseg, hsplit]
    simp
  have hfits : s.Fits vb.length (t.startPosition - s.startPosition) := (hsplit ▸ hb.chained).follows.2 (by omega)
  rw [hb.getValueByPosition hsplit hs ht, ConstRLEPayload.getValueByPosition_of_split hsplit' hsorted
    (fun s hs => lt_of_le_of_lt (hle s hs) hn) (by rw [hstart s hmems]; omega)
    (by rw [hstart t (by simp [hsplit])]; omega)]
  congr 1
  by_cases hnull : s.isNull
  · rw [ConstRLEPayload.readCell, if_pos (by exact hnull), ConstRLEPayload.readCell, if_pos hnull, shifted, if_pos hnull]
  · obtain ⟨v, hv⟩ := hfits.exists_getElem? (by simpa using hnull) pos (by omega)
    have hindex : (shifted va.length na s).dataIndex = s.dataIndex + va.length := if_neg hnull
    rw [Bool.not_eq_true] at hnull
    rw [readCell_of_getElem? hb.holds hnull (hfits hnull).1 hs (by omega) hv]
    refine readCell_of_getElem? hholds hnull ?_ ?_ (by omega) ?_
    · rw [hindex]
      exact hmax s hmems hnull
    · rw [hstart s hmems]
      omega
    · rw [hindex, hstart s hmems]
      have hlen : va.length ≤ s.dataIndex + va.length + if s.isRun then 0 else na + pos - (s.startPosition + na) := by
        omega
      show (va ++ vb)[s.dataIndex + va.length + if s.isRun then 0 else na + pos - (s.startPosition + na)]? = some v
      rw [getElem?_append_right hlen, ← hv]
      congr 1
      split_ifs <;> omega

end

/-- What is read by position is the sequence of `a`, followed by that of `b`. -/
def Concatenates (a b : RLEPayload) : Prop :=
  ∃ a', a.append b = .ok a' ∧ a'.count = a.count + b.count ∧
    (∀ pos : ℕ, pos < a.count → a'.getValueByPosition pos = a.getValueByPosition pos) ∧
    ∀ pos : ℕ, pos < b.count → a'.getValueByPosition ((a.count + pos : ℕ) : ℤ) = b.getValueByPosition pos

lemma count_append (hseg : a'.seg = a.seg.dropLast ++ b.seg.map (shifted headItems na))
    (hhead : a.seg.dropLast ≠ []) : a'.count = na + nb := by
  have hne : a'.seg ≠ [] := by simp [hseg, hhead]
  have hn : a'.nSegs ≠ 0 := by
    have hpos := length_pos_of_ne_nil hhead
    have hpos' := length_pos_of_ne_nil hb.ne_nil
    rw [ConstRLEPayload.nSegs, hseg, length_append, length_map]
    omega
  have hlast : a'.seg.getLast hne = shifted headItems na (b.seg.getLast hb.ne_nil) := by
    simp only [hseg]
    rw [getLast_append_of_ne_nil _ (by simp [hb.ne_nil]), getLast_map]
  rw [ConstRLEPayload.count, if_neg hn, segAt_nSegs hne, hlast]
  show wrap (_ + na) = _
  rw [← segAt_nSegs, hb.last, wrap_of_lt (by have := ha.lt; have := hb.lt; omega), add_comm]

lemma concatenates_of_segments (hbool : a.isBoolean = b.isBoolean) (helem : a.elemSize = b.elemSize)
    (hcount : b.count ≠ 0) (hhead : a.seg.dropLast ≠ []) (hstale : a.VarSize → ¬ a.Stale ∧ ¬ b.Stale)
    (hn : na + nb < 2 ^ 63) (hthrow : ∀ e, a.append b = .error e → ¬ e.IsException) : Concatenates a b := by
  cases happend : a.append b with
  | error e =>
    -- both parts of `append` fail with exceptions only
    refine absurd ?_ (hthrow e happend)
    rw [append, if_neg (by simp [hcount, hb.ne_nil]), if_neg hhead] at happend
    rcases spliceData_cases ha hb hbool helem hstale with ⟨size, hsplice⟩ | ⟨data, varOffs, hsplice, -⟩
    · rw [hsplice] at happend
      cases happend
      exact fun h => nomatch h
    · rw [hsplice] at happend
      cases hshift : shiftSegments va.length (a.segAt a.nSegs).startPosition b.seg with
      | error e' =>
        simp only [bind, Except.bind, hshift, Except.error.injEq] at happend
        exact shiftSegments_error (happend ▸ hshift)
      | ok tail => simp [bind, Except.bind, hshift] at happend
  | ok a' =>
    obtain ⟨headItems, hsplice, hseg, hmax, hbool', helem'⟩ := of_append hcount hb.ne_nil hhead happend
    rcases spliceData_cases ha hb hbool helem hstale with ⟨size, hsplice'⟩ | ⟨data, varOffs, hsplice', hholds⟩
    · rw [hsplice'] at hsplice
      cases hsplice
    · rw [hsplice'] at hsplice
      cases hsplice
      rw [ha.last] at hseg
      have hholds' := hholds a'.toConstRLEPayload hbool' helem' rfl rfl
      refine ⟨a', happend, ?_, ?_, ?_⟩
      · rw [count_append ha hb hseg hhead, ha.count_eq, hb.count_eq]
      · intro pos hpos
        rw [ha.count_eq] at hpos
        exact getValueByPosition_append_left ha hb hseg hholds' hn hpos
      · intro pos hpos
        rw [hb.count_eq] at hpos
        rw [ha.count_eq]
        exact getValueByPosition_append_right ha hb hseg hholds' hmax hn hpos

end

end

lemma concatenates_of_noSegments (hb : Built b nb vb) (hbool : a.isBoolean = b.isBoolean)
    (helem : a.elemSize = b.elemSize) (hcount : b.count ≠ 0) (hhead : a.seg.dropLast = []) : Concatenates a b := by
  have hzero : a.count = 0 := by
    have hlen : a.nSegs = 0 := by rw [ConstRLEPayload.nSegs, ← length_dropLast, hhead, length_nil]
    rw [ConstRLEPayload.count, if_pos hlen]
  refine ⟨_, append_of_noSegments hcount hb.ne_nil hhead, ?_, ?_, ?_⟩
  · rw [hzero, zero_add]
    rfl
  · intro pos hpos
    rw [hzero] at hpos
    exact absurd hpos (Nat.not_lt_zero _)
  · intro pos _
    rw [hzero, zero_add]
    have hcopy : { a.toConstRLEPayload with
        seg := b.seg, payload := b.payload, varOffs := b.varOffs, dataSize := a.dataSize + b.dataSize }
        = { b.toConstRLEPayload with dataSize := a.dataSize + b.dataSize } := by
      dsimp only
      rw [hbool, helem]
    rw [hcopy]
    rfl

lemma not_concatenates_of_overflow (ha : Built a na va) (hb : Built b nb vb) (hcount : b.count ≠ 0)
    (hhead : a.seg.dropLast ≠ []) (hn : 2 ^ 63 ≤ na + nb) : ¬ Concatenates a b := by
  rintro ⟨a', happend, -, -, hright⟩
  have hlt := ha.lt
  obtain ⟨headItems, -, hseg, -⟩ := of_append hcount hb.ne_nil hhead happend
  rw [ha.last] at hseg
  have hmax : a'.getValueByPosition (2 ^ 63 - 1) = .ok none := by
    apply ConstRLEPayload.getValueByPosition_max
    intro s hs
    have := (sorted_append ha hb hseg).2 s hs
    have := hb.lt
    omega
  have hpos : 2 ^ 63 - 1 - na < nb := by omega
  have hread := hright (2 ^ 63 - 1 - na) (by rwa [hb.count_eq])
  obtain ⟨pre, s, t, post, hsplit, hs, ht⟩ := hb.split hpos
  rw [ha.count_eq, show ((na + (2 ^ 63 - 1 - na) : ℕ) : ℤ) = 2 ^ 63 - 1 by omega, hmax,
    hb.getValueByPosition hsplit hs ht] at hread
  cases hcell : b.readCell s ((2 ^ 63 - 1 - na : ℕ) : ℤ) with
  | error e => rw [hcell] at hread; cases hread
  | ok v => rw [hcell] at hread; cases hread

end Append

/-- **Appending is concatenation** exactly if nothing is appended, or all cells have positions and no stale offset is used. -/
theorem append_concatenates_iff {prior prior' a b : RLEPayload} {adds adds' : List Add}
    (ha : build prior adds = .ok a) (hb : build prior' adds' = .ok b) (hadds : cellCount adds < 2 ^ 63)
    (hadds' : cellCount adds' < 2 ^ 63) (hbool : a.isBoolean = b.isBoolean) (helem : a.elemSize = b.elemSize)
    (hthrow : ∀ e, a.append b = .error e → ¬ e.IsException) :
    Concatenates a b ↔ b.count = 0 ∨ a.count + b.count < 2 ^ 63 ∧ (a.VarSize → a.nSegs ≠ 0 → ¬ a.Stale ∧ ¬ b.Stale) := by
  obtain ⟨va, ha⟩ := built_build ha hadds
  obtain ⟨vb, hb⟩ := built_build hb hadds'
  have hnSegs : a.nSegs = 0 ↔ a.seg.dropLast = [] := by
    rw [← length_eq_zero_iff, length_dropLast]
    rfl
  by_cases hcount : b.count = 0
  · refine iff_of_true ⟨a, ?_, by rw [hcount, Nat.add_zero], fun _ _ => rfl, ?_⟩ (.inl hcount)
    · rw [append, if_pos (.inl (by omega))]
    · intro pos hpos
      omega
  · rw [or_iff_right hcount]
    by_cases hhead : a.seg.dropLast = []
    · refine iff_of_true (concatenates_of_noSegments hb hbool helem hcount hhead) ⟨?_, fun _ h => ?_⟩
      · have hlt := hb.lt
        rw [← hb.count_eq] at hlt
        rw [ConstRLEPayload.count, if_pos (hnSegs.mpr hhead), Nat.zero_add]
        exact hlt
      · exact absurd (hnSegs.mpr hhead) h
    · have hsegs : a.nSegs ≠ 0 := fun h0 => hhead (hnSegs.mp h0)
      rw [ha.count_eq, hb.count_eq]
      constructor
      · intro hconcat
        refine ⟨?_, fun hvar _ => ?_⟩
        · by_contra hn
          exact not_concatenates_of_overflow ha hb hcount hhead (not_lt.mp hn) hconcat
        · by_contra hstale
          rw [← not_or, not_not] at hstale
          obtain ⟨a', happend, -⟩ := hconcat
          rw [append_of_stale hb hcount hhead hvar hstale] at happend
          cases happend
      · rintro ⟨hn, hstale⟩
        exact concatenates_of_segments ha hb hbool helem hcount hhead (fun hvar => hstale hvar hsegs) hn hthrow

def oneString (c : UInt8) : RLEPayload where
  seg := [{ isRun := true }, { startPosition := 1 }]
  payload := [0, 0, 0, 0, 1, c]
  elemSize := 0
  dataSize := 6
  varOffs := 4
  isBoolean := false
  valuesCount := 1

def reusedForNull : RLEPayload where
  seg := [{ isRun := true, isNull := true }, { startPosition := 1 }]
  payload := []
  elemSize := 0
  dataSize := 0
  varOffs := 4
  isBoolean := false
  valuesCount := 0

/-- Appending a string to a payload that held a string before and holds a null now. -/
theorem reusedForNull_append : build (RLEPayload.ofBitSize 0) [.value (.data [120]) 1] = .ok (oneString 120) ∧
      build (oneString 120) [.value (.null 0) 1] = .ok reusedForNull ∧
      build (RLEPayload.ofBitSize 0) [.value (.data [121]) 1] = .ok (oneString 121) ∧
      reusedForNull.append (oneString 121) = .error .outOfRange ∧ ¬ Concatenates reusedForNull (oneString 121) := by
  have happend : reusedForNull.append (oneString 121) = .error .outOfRange := rfl
  refine ⟨rfl, rfl, rfl, happend, ?_⟩
  rintro ⟨a', h, -⟩
  rw [happend] at h
  cases h

theorem oneString_concatenates : build (RLEPayload.ofBitSize 0) [.value (.data [120]) 1] = .ok (oneString 120) ∧
      build (RLEPayload.ofBitSize 0) [.value (.data [121]) 1] = .ok (oneString 121) ∧
      Concatenates (oneString 120) (oneString 121) := by
  have hx : build (RLEPayload.ofBitSize 0) [.value (.data [120]) 1] = .ok (oneString 120) := rfl
  have hy : build (RLEPayload.ofBitSize 0) [.value (.data [121]) 1] = .ok (oneString 121) := rfl
  refine ⟨hx, hy, ?_⟩
  refine (append_concatenates_iff hx hy (by decide) (by decide) rfl rfl ?_).mpr
    (.inr ⟨by decide, fun _ _ => ⟨fun h => ?_, fun h => ?_⟩⟩)
  · intro e h
    cases h
  · cases h.1
  · cases h.1

end SciDB.Array
