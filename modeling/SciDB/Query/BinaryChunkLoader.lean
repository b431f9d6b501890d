import SciDB.Lib.Bytes
import SciDB.Smgr.TemplateParser

/-!
# Saving and loading binary files with a template

`saveUsingTemplate` and `BinaryChunkLoader::loadChunk`, for templates whose types are those of the attributes; the empty tag
has no column. Padding beyond the buffer is what stands behind it (`heap`). A chunk is the number of cells that it has room
for. Left out: conversions of values, and `ferror`.
-/

namespace SciDB.Query

open SciDB.Lib SciDB.Smgr SciDB.Smgr.TemplateParser List Prod

/-- A value of an attribute. -/
inductive BinaryValue where
  | null (missingReason : Fin 128)
  | data (bytes : List UInt8)
deriving DecidableEq, Repr

/-- A value for each attribute. -/
abbrev BinaryCell := List BinaryValue

/-- What a writer throws. -/
inductive WriteError where
  | nullToNonNullable
  | truncation (size limit : ℕ)
  | arity
deriving DecidableEq, Repr

variable (c : TemplateColumn)

/-- The size of a field. -/
def fieldSize : ℕ := if c.fixedSize = 0 then 4 else c.fixedSize

def skipBytes : ℕ := fieldSize c + if c.nullable then 1 else 0

/-- The size of `padBuffer`. -/
def padBufferSize (cols : List TemplateColumn) : ℕ :=
  cols.foldl (fun size c => if c.skip then max size (skipBytes c) else size) 9

/-- Padding, from a buffer. -/
def padding (size : ℕ) (heap : ℕ → UInt8) (n : ℕ) : List UInt8 :=
  (List.range n).map fun i => if i < size then 0 else heap i

/-- The missing reason, if any. -/
def reasonByte (b : UInt8) : List UInt8 := if c.nullable then [b] else []

/-- What is written for a value. -/
def writeValue (size : ℕ) (heap : ℕ → UInt8) (c : TemplateColumn) : BinaryValue → Except WriteError (List UInt8)
  | .null missingReason =>
    if c.nullable then .ok (reasonByte c (UInt8.ofNat missingReason) ++ padding size heap (fieldSize c))
    else .error .nullToNonNullable
  | .data bytes =>
    if 2 ^ 32 ≤ bytes.length then .error (.truncation bytes.length (2 ^ 32 - 1))
    else if c.fixedSize = 0 then .ok (reasonByte c 255 ++ (encodeLE 4 bytes.length ++ bytes))
    else if c.fixedSize < bytes.length then .error (.truncation bytes.length c.fixedSize)
    else .ok (reasonByte c 255 ++ (bytes ++ padding size heap (c.fixedSize - bytes.length)))

/-- The loop over the columns. -/
def writeCell (size : ℕ) (heap : ℕ → UInt8) : List TemplateColumn → BinaryCell → Except WriteError (List UInt8)
  | [], cell => if cell.isEmpty then .ok [] else .error .arity
  | c :: cols, cell =>
    if c.skip then (writeCell size heap cols cell).map (padding size heap (skipBytes c) ++ ·)
    else
      match cell with
      | [] => .error .arity
      | v :: cell => (writeValue size heap c v).bind fun bytes => (writeCell size heap cols cell).map (bytes ++ ·)

def saveUsingTemplate (heap : ℕ → UInt8) (cols : List TemplateColumn) : List BinaryCell → Except WriteError (List UInt8)
  | [] => .ok []
  | cell :: cells =>
    (writeCell (padBufferSize cols) heap cols cell).bind fun bytes =>
      (saveUsingTemplate heap cols cells).map (bytes ++ ·)

inductive LoadStop where
  | initialEOF
  | fileReadError
  | nextChunkOOB
deriving DecidableEq, Repr

/-- The file and the reads. -/
structure Reader where
  input : List UInt8
  rowReads : ℕ

/-- Reads some bytes. -/
def readBytes (n : ℕ) (r : Reader) : Except LoadStop (List UInt8 × Reader) :=
  if n = 0 then .ok ([], ⟨r.input, r.rowReads + 1⟩)
  else if n ≤ r.input.length then .ok (r.input.take n, ⟨r.input.drop n, r.rowReads + 1⟩)
  else if r.rowReads + 1 < 2 ∧ r.input = [] then .error .initialEOF
  else .error .fileReadError

variable (r : Reader)

/-- Reads the missing reason. -/
def readReason : Except LoadStop (ℤ × Reader) :=
  if c.nullable then (readBytes 1 r).map fun (bytes, r) => ((decodeLE bytes : ℤ).bmod (2 ^ 8), r) else .ok (-1, r)

/-- The size of a field. -/
def readSize : Except LoadStop (ℕ × Reader) :=
  if c.fixedSize = 0 then (readBytes 4 r).map fun (bytes, r) => (decodeLE bytes, r) else .ok (c.fixedSize, r)

/-- Bytes that are not used. -/
def skipSize (n : ℕ) (r : Reader) : Except LoadStop Reader := if n = 0 then .ok r else (readBytes n r).map Prod.snd

/-- A column that is skipped. -/
def readSkip : Except LoadStop Reader :=
  (readReason c r).bind fun (_, r) => (readSize c r).bind fun (n, r) => skipSize n r

/-- A column of an attribute. -/
def readValue : Except LoadStop (BinaryValue × Reader) :=
  (readReason c r).bind fun (reason, r) =>
    (readSize c r).bind fun (n, r) =>
      if h : 0 ≤ reason ∧ reason < 128 then (skipSize n r).map fun r => (.null ⟨reason.toNat, by omega⟩, r)
      else (readBytes n r).map fun (bytes, r) => (.data bytes, r)

def loadAttrs : List TemplateColumn → ℕ → Reader → Except LoadStop (BinaryCell × Reader)
  | [], _, r => .ok ([], r)
  | _ :: _, 0, r => .ok ([], r)
  | c :: cols, n + 1, r =>
    if c.skip then (readSkip c r).bind fun r => loadAttrs cols (n + 1) r
    else (readValue c r).bind fun (v, r) => (loadAttrs cols n r).map fun (vs, r) => (v :: vs, r)

/-- The loop over cells. -/
def loadCells (cols : List TemplateColumn) (nAttrs : ℕ) : ℕ → List UInt8 → Except LoadStop (List BinaryCell × List UInt8)
  | 0, input => .ok ([], input)
  | room + 1, input =>
    match loadAttrs cols nAttrs ⟨input, 0⟩ with
    | .error .initialEOF => .ok ([], input)
    | .error e => .error e
    | .ok (cell, r) => (loadCells cols nAttrs room r.input).map fun (cells, input) => (cell :: cells, input)

/-- Loads chunks to the end. -/
def loadChunks (cols : List TemplateColumn) (nAttrs : ℕ) : List ℕ → List UInt8 → Except LoadStop (List BinaryCell × List UInt8)
  | [], input => if input.isEmpty then .ok ([], []) else .error .nextChunkOOB
  | room :: rooms, input =>
    if input.isEmpty then .ok ([], [])
    else
      (loadCells cols nAttrs room input).bind fun (cells, input) =>
        (loadChunks cols nAttrs rooms input).map fun (cells', input) => (cells ++ cells', input)

/-- The number of attributes. -/
def loaderAttrs (attrs : List (List Char)) (emptyTag : Bool) : ℕ := attrs.length + if emptyTag then 1 else 0

variable {size n k : ℕ} {heap : ℕ → UInt8} {c : TemplateColumn} {cols : List TemplateColumn} {v : BinaryValue}
  {cell : BinaryCell} {rest rest' : List UInt8}

lemma padding_eq (h : n ≤ size) : padding size heap n = replicate n 0 := by
  refine eq_replicate_iff.mpr ⟨by rw [padding, length_map, length_range], fun b hb => ?_⟩
  obtain ⟨i, hi, rfl⟩ := mem_map.mp hb
  rw [if_pos (by have := mem_range.mp hi; omega)]

@[simp] lemma length_padding : (padding size heap n).length = n := by rw [padding, length_map, length_range]

def CanWrite (c : TemplateColumn) : BinaryValue → Prop
  | .null _ => c.nullable = true
  | .data bytes => bytes.length < 2 ^ 32 ∧ (c.fixedSize = 0 ∨ bytes.length ≤ c.fixedSize)

/-- What a field holds. -/
def payload (size : ℕ) (heap : ℕ → UInt8) (c : TemplateColumn) : BinaryValue → List UInt8
  | .null _ => padding size heap (fieldSize c)
  | .data bytes =>
    if c.fixedSize = 0 then encodeLE 4 bytes.length ++ bytes else bytes ++ padding size heap (c.fixedSize - bytes.length)

/-- The reason as a byte. -/
def reasonOf : BinaryValue → UInt8
  | .null missingReason => UInt8.ofNat missingReason
  | .data _ => 255

/-- The bytes of a field. -/
def fieldBytes (size : ℕ) (heap : ℕ → UInt8) (c : TemplateColumn) (v : BinaryValue) : List UInt8 :=
  reasonByte c (reasonOf v) ++ payload size heap c v

variable {bytes bs input : List UInt8} {ε α β : Type} {x : Except ε α} {b : β} {cells cells' : List BinaryCell}
  {r r₁ r₂ r' : Reader} {room s m : ℕ} {rooms : List ℕ} {cell' : BinaryCell} {v' : BinaryValue} {reason : ℤ}

open Except

lemma writeValue_ok_iff : writeValue size heap c v = .ok bytes ↔ CanWrite c v ∧ bytes = fieldBytes size heap c v := by
  cases v with
  | null missingReason =>
    rw [writeValue, CanWrite]
    by_cases hnull : c.nullable = true
    · rw [if_pos hnull]
      exact ⟨fun h => ⟨hnull, (ok.inj h).symm⟩, fun h => congrArg ok h.2.symm⟩
    · rw [if_neg hnull]
      exact iff_of_false nofun fun h => hnull h.1
  | data d =>
    rw [writeValue, CanWrite, fieldBytes, payload]
    by_cases hbig : 2 ^ 32 ≤ d.length
    · rw [if_pos hbig]
      exact iff_of_false nofun fun h => absurd h.1.1 (by omega)
    rw [if_neg hbig]
    by_cases hfixed : c.fixedSize = 0
    · rw [if_pos hfixed, if_pos hfixed]
      exact ⟨fun h => ⟨⟨by omega, .inl hfixed⟩, (ok.inj h).symm⟩, fun h => congrArg ok h.2.symm⟩
    rw [if_neg hfixed, if_neg hfixed]
    by_cases hlong : c.fixedSize < d.length
    · rw [if_pos hlong]
      exact iff_of_false nofun fun h => absurd h.1.2 (by omega)
    · rw [if_neg hlong]
      exact ⟨fun h => ⟨⟨by omega, .inr (by omega)⟩, (ok.inj h).symm⟩, fun h => congrArg ok h.2.symm⟩

/-- The cell can be written. -/
def CanWriteCell : List TemplateColumn → BinaryCell → Prop
  | [], cell => cell = []
  | c :: cols, cell =>
    if c.skip then CanWriteCell cols cell
    else
      match cell with
      | [] => False
      | v :: cell => CanWrite c v ∧ CanWriteCell cols cell

/-- The bytes of a cell. -/
def cellBytes (size : ℕ) (heap : ℕ → UInt8) : List TemplateColumn → BinaryCell → List UInt8
  | [], _ => []
  | c :: cols, cell =>
    if c.skip then padding size heap (skipBytes c) ++ cellBytes size heap cols cell
    else
      match cell with
      | [] => []
      | v :: cell => fieldBytes size heap c v ++ cellBytes size heap cols cell

lemma writeCell_ok_iff :
    writeCell size heap cols cell = .ok bytes ↔ CanWriteCell cols cell ∧ bytes = cellBytes size heap cols cell := by
  induction cols generalizing cell bytes with
  | nil =>
    cases cell with
    | nil => exact ⟨fun h => ⟨rfl, (ok.inj h).symm⟩, fun h => congrArg ok h.2.symm⟩
    | cons v cell => exact iff_of_false nofun fun h => by cases h.1
  | cons c cols ih =>
    rw [writeCell.eq_def, CanWriteCell.eq_def, cellBytes.eq_def]
    dsimp only
    by_cases hskip : c.skip = true
    · rw [if_pos hskip, if_pos hskip, if_pos hskip, map_eq_ok]
      constructor
      · rintro ⟨b, hb, rfl⟩
        obtain ⟨hcan, rfl⟩ := ih.mp hb
        exact ⟨hcan, rfl⟩
      · rintro ⟨hcan, rfl⟩
        exact ⟨_, ih.mpr ⟨hcan, rfl⟩, rfl⟩
    · rw [if_neg hskip, if_neg hskip, if_neg hskip]
      cases cell with
      | nil => exact iff_of_false nofun fun h => h.1
      | cons v cell =>
        rw [bind_eq_ok]
        constructor
        · rintro ⟨b, hb, hrest⟩
          obtain ⟨hcan, rfl⟩ := writeValue_ok_iff.mp hb
          obtain ⟨b', hb', rfl⟩ := map_eq_ok.mp hrest
          obtain ⟨hcan', rfl⟩ := ih.mp hb'
          exact ⟨⟨hcan, hcan'⟩, rfl⟩
        · rintro ⟨⟨hcan, hcan'⟩, rfl⟩
          exact ⟨_, writeValue_ok_iff.mpr ⟨hcan, rfl⟩, map_eq_ok.mpr ⟨_, ih.mpr ⟨hcan', rfl⟩, rfl⟩⟩

lemma saveUsingTemplate_ok_iff : saveUsingTemplate heap cols cells = .ok bytes ↔
      (∀ cell ∈ cells, CanWriteCell cols cell) ∧ bytes = cells.flatMap (cellBytes (padBufferSize cols) heap cols) := by
  induction cells generalizing bytes with
  | nil => exact ⟨fun h => ⟨nofun, (ok.inj h).symm⟩, fun h => congrArg ok h.2.symm⟩
  | cons cell cells ih =>
    rw [saveUsingTemplate, bind_eq_ok, flatMap_cons]
    constructor
    · rintro ⟨b, hb, hrest⟩
      obtain ⟨hcan, rfl⟩ := writeCell_ok_iff.mp hb
      obtain ⟨b', hb', rfl⟩ := map_eq_ok.mp hrest
      obtain ⟨hcan', rfl⟩ := ih.mp hb'
      exact ⟨forall_mem_cons.mpr ⟨hcan, hcan'⟩, rfl⟩
    · rintro ⟨hcan, rfl⟩
      obtain ⟨hcan, hcan'⟩ := forall_mem_cons.mp hcan
      exact ⟨_, writeCell_ok_iff.mpr ⟨hcan, rfl⟩, map_eq_ok.mpr ⟨_, ih.mpr ⟨hcan', rfl⟩, rfl⟩⟩

/-- The value that is read. -/
def readBack (size : ℕ) (heap : ℕ → UInt8) (c : TemplateColumn) : BinaryValue → BinaryValue
  | .null missingReason => .null missingReason
  | .data bytes => .data (bytes ++ padding size heap (c.fixedSize - bytes.length))

lemma readBytes_append (h : bs.length = n) : readBytes n ⟨bs ++ rest, k⟩ = .ok (bs, ⟨rest, k + 1⟩) := by
  subst h
  rw [readBytes]
  by_cases hnil : bs.length = 0
  · rw [if_pos hnil, eq_nil_of_length_eq_zero hnil]
    rfl
  · rw [if_neg hnil, if_pos (by rw [length_append]; omega), take_left, drop_left]

lemma readReason_byte {b : UInt8} : ∃ k', readReason c ⟨reasonByte c b ++ rest, k⟩ =
      .ok (if c.nullable then (b.toNat : ℤ).bmod (2 ^ 8) else -1, ⟨rest, k'⟩) := by
  rw [readReason, reasonByte]
  split_ifs with hnull
  · rw [readBytes_append (show [b].length = 1 from rfl)]
    exact ⟨k + 1, rfl⟩
  · exact ⟨k, rfl⟩

lemma skipSize_append (h : bs.length = n) : ∃ k', skipSize n ⟨bs ++ rest, k⟩ = .ok ⟨rest, k'⟩ := by
  rw [skipSize]
  split_ifs with hnil
  · rw [eq_nil_of_length_eq_zero (h.trans hnil)]
    exact ⟨k, rfl⟩
  · rw [readBytes_append h]
    exact ⟨k + 1, rfl⟩

lemma decodeLE_replicate (n : ℕ) : decodeLE (replicate n 0) = 0 := by
  induction n with
  | zero => rfl
  | succ n ih => rw [replicate_succ, decodeLE, ih]; rfl

lemma readSize_skipSize (hlen : bs.length = fieldSize c) (hzero : c.fixedSize = 0 → bs = replicate 4 0) :
    ∃ k', (readSize c ⟨bs ++ rest, k⟩).bind (fun x => skipSize x.1 x.2) = .ok ⟨rest, k'⟩ := by
  rw [readSize]
  rw [fieldSize] at hlen
  by_cases hfixed : c.fixedSize = 0
  · rw [if_pos hfixed] at hlen ⊢
    rw [readBytes_append hlen, hzero hfixed]
    exact ⟨k + 1, rfl⟩
  · rw [if_neg hfixed] at hlen ⊢
    exact skipSize_append hlen

open List

lemma readSkip_zeros : ∃ k', readSkip c ⟨replicate (skipBytes c) 0 ++ rest, k⟩ = .ok ⟨rest, k'⟩ := by
  have hsplit : replicate (skipBytes c) (0 : UInt8) = reasonByte c 0 ++ replicate (fieldSize c) 0 := by
    rw [skipBytes, reasonByte]
    split_ifs
    · rw [add_comm, replicate_add]
      rfl
    · rfl
  rw [hsplit, append_assoc, readSkip]
  obtain ⟨k1, hreason⟩ := @readReason_byte k c (replicate (fieldSize c) 0 ++ rest) 0
  rw [hreason]
  refine readSize_skipSize (length_replicate ..) fun hfixed => ?_
  rw [fieldSize, if_pos hfixed]

lemma readValue_null {b : Fin 128} (hreason : readReason c r = .ok ((b.val : ℤ), r₁))
    (hskip : (readSize c r₁).bind (fun x => skipSize x.1 x.2) = .ok r₂) : readValue c r = .ok (.null b, r₂) := by
  obtain ⟨⟨m, r3⟩, hsize, hskip⟩ := bind_eq_ok.mp hskip
  rw [readValue]
  refine bind_eq_ok.mpr ⟨_, hreason, bind_eq_ok.mpr ⟨_, hsize, ?_⟩⟩
  dsimp only
  rw [dif_pos ⟨by omega, by omega⟩]
  exact map_eq_ok.mpr ⟨_, hskip, rfl⟩

lemma readValue_data {r3 : Reader} (hreason : readReason c r = .ok (-1, r₁)) (hsize : readSize c r₁ = .ok (n, r₂))
    (hbytes : readBytes n r₂ = .ok (bytes, r3)) : readValue c r = .ok (.data bytes, r3) := by
  rw [readValue]
  refine bind_eq_ok.mpr ⟨_, hreason, bind_eq_ok.mpr ⟨_, hsize, ?_⟩⟩
  dsimp only
  rw [dif_neg (by omega)]
  exact map_eq_ok.mpr ⟨_, hbytes, rfl⟩

lemma readValue_field (h : CanWrite c v) (hsize : 4 ≤ size) :
    ∃ k', readValue c ⟨fieldBytes size heap c v ++ rest, k⟩ = .ok (readBack size heap c v, ⟨rest, k'⟩) := by
  rw [fieldBytes, append_assoc]
  obtain ⟨k1, hreason⟩ := @readReason_byte k c (payload size heap c v ++ rest) (reasonOf v)
  cases v with
  | null r =>
    have hr : ((reasonOf (.null r)).toNat : ℤ).bmod (2 ^ 8) = r.val := by
      rw [reasonOf, UInt8.toNat_ofNat', Nat.mod_eq_of_lt (by omega), Int.bmod_eq_of_le (by omega) (by omega)]
    rw [if_pos (show c.nullable = true from h), hr] at hreason
    obtain ⟨k2, hskip⟩ := @readSize_skipSize k1 c rest (padding size heap (fieldSize c)) length_padding fun hfixed => by
      rw [fieldSize, if_pos hfixed, padding_eq hsize]
    exact ⟨k2, readValue_null hreason hskip⟩
  | data d =>
    have hr : (if c.nullable = true then ((reasonOf (.data d)).toNat : ℤ).bmod (2 ^ 8) else -1) = -1 := by
      split_ifs
      · rw [reasonOf]
        decide
      · rfl
    rw [hr] at hreason
    obtain ⟨hlen, hfit⟩ := h
    by_cases hfixed : c.fixedSize = 0
    · have hread : readSize c ⟨payload size heap c (.data d) ++ rest, k1⟩ = .ok (d.length, ⟨d ++ rest, k1 + 1⟩) := by
        rw [readSize, if_pos hfixed, payload, if_pos hfixed, append_assoc, readBytes_append (length_encodeLE 4 _)]
        change ok (decodeLE (encodeLE 4 d.length), _) = _
        rw [decodeLE_encodeLE (by omega)]
      refine ⟨k1 + 2, (readValue_data hreason hread (readBytes_append rfl)).trans ?_⟩
      rw [readBack, hfixed, Nat.zero_sub, padding_eq (Nat.zero_le _), replicate_zero, append_nil]
    · have hread : readSize c ⟨payload size heap c (.data d) ++ rest, k1⟩ =
          .ok (c.fixedSize, ⟨(d ++ padding size heap (c.fixedSize - d.length)) ++ rest, k1⟩) := by
        rw [readSize, if_neg hfixed, payload, if_neg hfixed]
      exact ⟨k1 + 1, readValue_data hreason hread (readBytes_append (by rw [length_append, length_padding]; omega))⟩

/-- Columns of attributes. -/
def valueCols (cols : List TemplateColumn) : List TemplateColumn := cols.filter fun c => !c.skip

/-- Up to the last attribute. -/
def mainBytes (size : ℕ) (heap : ℕ → UInt8) : List TemplateColumn → BinaryCell → List UInt8
  | [], _ => []
  | _ :: _, [] => []
  | c :: cols, v :: cell =>
    if c.skip then padding size heap (skipBytes c) ++ mainBytes size heap cols (v :: cell)
    else fieldBytes size heap c v ++ mainBytes size heap cols cell

def tailBytes : List TemplateColumn → BinaryCell → ℕ
  | [], _ => 0
  | c :: cols, [] => skipBytes c + tailBytes cols []
  | c :: cols, v :: cell => if c.skip then tailBytes cols (v :: cell) else tailBytes cols cell

/-- The values that are read. -/
def readBackCell (size : ℕ) (heap : ℕ → UInt8) (cols : List TemplateColumn) (cell : BinaryCell) : BinaryCell :=
  ((valueCols cols).zip cell).map fun x => readBack size heap x.1 x.2

lemma CanWriteCell.cons_skip (hskip : c.skip = true) (h : CanWriteCell (c :: cols) cell) : CanWriteCell cols cell := by
  rw [CanWriteCell.eq_def] at h
  dsimp only at h
  rwa [if_pos hskip] at h

lemma CanWriteCell.cons_value (hskip : c.skip ≠ true) (h : CanWriteCell (c :: cols) cell) :
    ∃ v cell', cell = v :: cell' ∧ CanWrite c v ∧ CanWriteCell cols cell' := by
  rw [CanWriteCell.eq_def] at h
  dsimp only at h
  rw [if_neg hskip] at h
  cases cell with
  | nil => cases h
  | cons v cell => exact ⟨v, cell, rfl, h⟩

lemma cellBytes_eq (h : CanWriteCell cols cell) (hsize : ∀ c ∈ cols, c.skip = true → skipBytes c ≤ size) :
    cellBytes size heap cols cell = mainBytes size heap cols cell ++ replicate (tailBytes cols cell) 0 := by
  induction cols generalizing cell with
  | nil => rfl
  | cons c cols ih =>
    rw [cellBytes.eq_def]
    dsimp only
    have hsize' := forall_mem_of_forall_mem_cons hsize
    by_cases hskip : c.skip = true
    · rw [if_pos hskip, ih (h.cons_skip hskip) hsize', padding_eq (hsize c mem_cons_self hskip)]
      cases cell with
      | nil =>
        have hmain : mainBytes size heap cols [] = [] := by cases cols <;> rfl
        rw [mainBytes, tailBytes, replicate_add, hmain]
        rfl
      | cons v cell =>
        rw [mainBytes, tailBytes, if_pos hskip, if_pos hskip, padding_eq (hsize c mem_cons_self hskip), append_assoc]
    · obtain ⟨v, cell, rfl, hcan, hrest⟩ := h.cons_value hskip
      rw [if_neg hskip]
      dsimp only
      rw [ih hrest hsize', mainBytes, tailBytes, if_neg hskip, if_neg hskip, append_assoc]

lemma valueCols_cons_skip (hskip : c.skip = true) : valueCols (c :: cols) = valueCols cols := by
  rw [valueCols, filter_cons_of_neg (by simp [hskip])]
  rfl

lemma valueCols_cons_value (hskip : c.skip ≠ true) : valueCols (c :: cols) = c :: valueCols cols := by
  rw [valueCols, filter_cons_of_pos (by simp [hskip])]
  rfl

lemma loadAttrs_skip (hskip : c.skip = true) (hle : skipBytes c ≤ size)
    (h : ∀ k, ∃ k', loadAttrs cols (n + 1) ⟨rest, k⟩ = .ok (cell, ⟨rest', k'⟩)) :
    ∃ k', loadAttrs (c :: cols) (n + 1) ⟨padding size heap (skipBytes c) ++ rest, k⟩ = .ok (cell, ⟨rest', k'⟩) := by
  obtain ⟨k1, hread⟩ := @readSkip_zeros k c rest
  obtain ⟨k2, hload⟩ := h k1
  rw [loadAttrs, if_pos hskip, padding_eq hle]
  exact ⟨k2, bind_eq_ok.mpr ⟨_, hread, hload⟩⟩

lemma loadAttrs_value (hskip : c.skip ≠ true) (hcan : CanWrite c v) (hbuf : 4 ≤ size)
    (h : ∀ k, ∃ k', loadAttrs cols n ⟨rest, k⟩ = .ok (cell, ⟨rest', k'⟩)) :
    ∃ k', loadAttrs (c :: cols) (n + 1) ⟨fieldBytes size heap c v ++ rest, k⟩ =
      .ok (readBack size heap c v :: cell, ⟨rest', k'⟩) := by
  obtain ⟨k1, hread⟩ := @readValue_field size k heap c v rest hcan hbuf
  obtain ⟨k2, hload⟩ := h k1
  rw [loadAttrs, if_neg hskip]
  exact ⟨k2, bind_eq_ok.mpr ⟨_, hread, map_eq_ok.mpr ⟨_, hload, rfl⟩⟩⟩

section

variable (h : CanWriteCell cols cell) (hsize : ∀ c ∈ cols, c.skip = true → skipBytes c ≤ size) (hbuf : 4 ≤ size)

include h hsize hbuf

lemma loadAttrs_main : ∃ k', loadAttrs cols cell.length ⟨mainBytes size heap cols cell ++ rest, k⟩ =
      .ok (readBackCell size heap cols cell, ⟨rest, k'⟩) := by
  induction cols generalizing cell k with
  | nil => exact ⟨k, rfl⟩
  | cons c cols ih =>
    have hsize' := forall_mem_of_forall_mem_cons hsize
    cases cell with
    | nil => exact ⟨k, by rw [readBackCell, zip_nil_right]; rfl⟩
    | cons v cell =>
      by_cases hskip : c.skip = true
      · rw [mainBytes, if_pos hskip, append_assoc, readBackCell, valueCols_cons_skip hskip]
        exact loadAttrs_skip hskip (hsize c mem_cons_self hskip) fun k => ih (h.cons_skip hskip) hsize'
      · obtain ⟨v, cell, ⟨⟩, hcan, hrest⟩ := h.cons_value hskip
        rw [mainBytes, if_neg hskip, append_assoc, readBackCell, valueCols_cons_value hskip]
        exact loadAttrs_value hskip hcan hbuf fun k => ih hrest hsize'

lemma loadAttrs_cell : ∃ k', loadAttrs cols (cell.length + 1) ⟨cellBytes size heap cols cell ++ rest, k⟩ =
      .ok (readBackCell size heap cols cell, ⟨rest, k'⟩) := by
  induction cols generalizing cell k with
  | nil => exact ⟨k, rfl⟩
  | cons c cols ih =>
    have hsize' := forall_mem_of_forall_mem_cons hsize
    rw [cellBytes.eq_def, readBackCell]
    dsimp only
    by_cases hskip : c.skip = true
    · rw [if_pos hskip, append_assoc, valueCols_cons_skip hskip]
      exact loadAttrs_skip hskip (hsize c mem_cons_self hskip) fun k => ih (h.cons_skip hskip) hsize'
    · obtain ⟨v, cell, rfl, hcan, hrest⟩ := h.cons_value hskip
      rw [if_neg hskip, valueCols_cons_value hskip]
      rw [append_assoc]
      exact loadAttrs_value hskip hcan hbuf fun k => ih hrest hsize'

end

/-- Cells are read one after the other. -/
inductive Reads (cols : List TemplateColumn) (n : ℕ) : List UInt8 → List BinaryCell → List UInt8 → Prop
  | nil (input : List UInt8) : Reads cols n input [] input
  | cons {input rest : List UInt8} {cell : BinaryCell} {cells : List BinaryCell} {r : Reader} :
    loadAttrs cols n ⟨input, 0⟩ = .ok (cell, r) → Reads cols n r.input cells rest → Reads cols n input (cell :: cells) rest

lemma Reads.append {mid : List UInt8} (h : Reads cols n input cells mid) (h' : Reads cols n mid cells' rest) :
    Reads cols n input (cells ++ cells') rest := by
  induction h with
  | nil => exact h'
  | cons hload _ ih => exact .cons hload (ih h')

lemma Reads.of_loadCells (h : loadCells cols n room input = .ok (cells, rest)) : Reads cols n input cells rest := by
  induction room generalizing input cells with
  | zero =>
    cases h
    exact .nil _
  | succ room ih =>
    rw [loadCells] at h
    split at h
    · cases h
      exact .nil _
    · cases h
    · next cell r hload =>
      obtain ⟨⟨cells', input'⟩, hcells, heq⟩ := map_eq_ok.mp h
      cases heq
      exact .cons hload (ih hcells)

lemma Reads.of_loadChunks (h : loadChunks cols n rooms input = .ok (cells, rest)) : Reads cols n input cells [] := by
  induction rooms generalizing input cells with
  | nil =>
    rw [loadChunks] at h
    split_ifs at h with hempty
    cases h
    rw [isEmpty_iff.mp hempty]
    exact .nil _
  | cons room rooms ih =>
    rw [loadChunks] at h
    split_ifs at h with hempty
    · cases h
      rw [isEmpty_iff.mp hempty]
      exact .nil _
    · obtain ⟨⟨cells1, input1⟩, hcells, hrest⟩ := bind_eq_ok.mp h
      obtain ⟨⟨cells2, input2⟩, hchunks, heq⟩ := map_eq_ok.mp hrest
      cases heq
      exact (Reads.of_loadCells hcells).append (ih hchunks)

lemma readBytes_nil (h : n ≠ 0) : readBytes n ⟨[], 0⟩ = .error .initialEOF := by
  rw [readBytes, if_neg h]
  rw [length_nil, if_neg (fun hle => h (Nat.le_zero.mp hle)), if_pos ⟨by decide, rfl⟩]

lemma readSkip_nil : readSkip c ⟨[], 0⟩ = .error .initialEOF := by
  by_cases hnull : c.nullable = true <;> by_cases hfixed : c.fixedSize = 0
  all_goals simp [readSkip, readReason, readSize, skipSize, readBytes_nil, Except.map, Except.bind, hnull, hfixed]

lemma readValue_nil : readValue c ⟨[], 0⟩ = .error .initialEOF := by
  by_cases hnull : c.nullable = true <;> by_cases hfixed : c.fixedSize = 0
  all_goals simp [readValue, readReason, readSize, readBytes_nil, Except.map, Except.bind, hnull, hfixed]

lemma loadAttrs_nil (hcols : cols ≠ []) : loadAttrs cols (n + 1) ⟨[], 0⟩ = .error .initialEOF := by
  obtain ⟨c, cols, rfl⟩ := exists_cons_of_ne_nil hcols
  rw [loadAttrs]
  by_cases hskip : c.skip = true
  · rw [if_pos hskip, readSkip_nil]
    rfl
  · rw [if_neg hskip, readValue_nil]
    rfl

lemma loadCells_reads (hcols : cols ≠ []) (h : Reads cols (n + 1) input cells []) :
    ∃ mid, loadCells cols (n + 1) room input = .ok (cells.take room, mid) ∧ Reads cols (n + 1) mid (cells.drop room) [] := by
  induction room generalizing input cells with
  | zero => exact ⟨input, rfl, h⟩
  | succ room ih =>
    rw [loadCells]
    cases h with
    | nil =>
      rw [loadAttrs_nil hcols]
      exact ⟨[], rfl, .nil _⟩
    | cons hload hrest =>
      rw [hload]
      obtain ⟨mid, hcells, hmid⟩ := ih hrest
      exact ⟨mid, map_eq_ok.mpr ⟨_, hcells, rfl⟩, hmid⟩

lemma loadChunks_reads (hcols : cols ≠ []) (h : Reads cols (n + 1) input cells [])
    (hrooms : cells.length ≤ rooms.sum) : loadChunks cols (n + 1) rooms input = .ok (cells, []) := by
  induction rooms generalizing input cells with
  | nil =>
    obtain rfl := eq_nil_of_length_eq_zero (Nat.le_zero.mp hrooms)
    cases h
    rfl
  | cons room rooms ih =>
    rw [loadChunks]
    by_cases hempty : input = []
    · subst hempty
      cases h with
      | nil => rfl
      | cons hload _ =>
        rw [loadAttrs_nil hcols] at hload
        cases hload
    · rw [if_neg (by simpa using hempty)]
      obtain ⟨mid, hcells, hmid⟩ : ∃ mid, loadCells _ _ room _ = _ ∧ _ := loadCells_reads hcols h
      rw [sum_cons] at hrooms
      refine bind_eq_ok.mpr ⟨_, hcells, map_eq_ok.mpr ⟨_, ih hmid (by rw [length_drop]; omega), ?_⟩⟩
      dsimp only
      rw [take_append_drop]

lemma reads_cells (h : ∀ cell ∈ cells, ∀ rest, ∃ k', loadAttrs cols n ⟨cellBytes size heap cols cell ++ rest, 0⟩ =
      .ok (readBackCell size heap cols cell, ⟨rest, k'⟩)) :
    Reads cols n (cells.flatMap (cellBytes size heap cols)) (cells.map (readBackCell size heap cols)) [] := by
  induction cells with
  | nil => exact .nil _
  | cons cell cells ih =>
    obtain ⟨k', hload⟩ := h cell mem_cons_self (cells.flatMap (cellBytes size heap cols))
    rw [flatMap_cons]
    exact .cons hload (ih fun cell' hcell' => h cell' (mem_cons_of_mem _ hcell'))

/-- Equal up to padding. -/
def SameValue (c : TemplateColumn) : BinaryValue → BinaryValue → Prop
  | .null missingReason, .null missingReason' => missingReason' = missingReason
  | .data bytes, .data bytes' =>
    if c.fixedSize = 0 then bytes' = bytes else ∃ k, bytes' = bytes ++ List.replicate k 0
  | _, _ => False

/-- Equal up to padding. -/
def SameCell (cols : List TemplateColumn) (cell cell' : BinaryCell) : Prop :=
  List.Forall₂ (fun x v' => SameValue x.1 x.2 v') ((valueCols cols).zip cell) cell'

/-- The buffer is large enough. -/
def PadFits (size : ℕ) (c : TemplateColumn) : BinaryValue → Prop
  | .null _ => True
  | .data bytes => c.fixedSize - bytes.length ≤ size

instance : Decidable (PadFits size c v) :=
  match v with
  | .null _ => isTrue trivial
  | .data bytes => inferInstanceAs (Decidable (c.fixedSize - bytes.length ≤ size))

lemma sameValue_readBack (h : PadFits size c v) : SameValue c v (readBack size heap c v) := by
  cases v with
  | null r => rfl
  | data d =>
    rw [readBack, SameValue, padding_eq h]
    split_ifs with hfixed
    · rw [hfixed, Nat.zero_sub, replicate_zero, append_nil]
    · exact ⟨_, rfl⟩

lemma padFits_of_sameValue (h : SameValue c v (readBack size (fun _ => 1) c v)) : PadFits size c v := by
  cases v with
  | null r => trivial
  | data d =>
    rw [readBack, SameValue] at h
    rw [PadFits]
    split_ifs at h with hfixed
    · omega
    · obtain ⟨k, hk⟩ := h
      have hpad := append_cancel_left hk
      by_contra hlt
      have hmem : (1 : UInt8) ∈ padding size (fun _ => 1) (c.fixedSize - d.length) := by
        rw [padding]
        refine mem_map.mpr ⟨size, mem_range.mpr (by omega), ?_⟩
        rw [if_neg (lt_irrefl _)]
      rw [hpad] at hmem
      exact absurd (eq_of_mem_replicate hmem) (by decide)

lemma sameCell_readBack_iff : SameCell cols cell (readBackCell size heap cols cell) ↔
      ∀ x ∈ (valueCols cols).zip cell, SameValue x.1 x.2 (readBack size heap x.1 x.2) := by
  rw [SameCell, readBackCell, forall₂_map_right_iff, forall₂_same]

lemma SameCell.cons_skip (hskip : c.skip = true) (h : SameCell (c :: cols) cell cell') :
    SameCell cols cell cell' := by rwa [SameCell, valueCols_cons_skip hskip] at h

lemma SameCell.cons_value (hskip : c.skip ≠ true) (h : SameCell (c :: cols) (v :: cell) (v' :: cell')) :
    SameValue c v v' ∧ SameCell cols cell cell' := by
  rw [SameCell, valueCols_cons_value hskip] at h
  exact forall₂_cons.mp h

lemma zeros_of_shift {x : List UInt8} (hs : 0 < s) (h : (replicate s 0 ++ (x ++ rest)).take x.length = x) :
    x = replicate x.length 0 := by
  have hzero : ∀ i < x.length, x[i]? = some 0 := by
    intro i
    induction i using Nat.strongRecOn with
    | _ i ih =>
      intro hi
      rw [← h, getElem?_take_of_lt hi]
      by_cases his : i < s
      · rw [getElem?_append_left (by rwa [length_replicate]), getElem?_replicate, if_pos his]
      · rw [getElem?_append_right (by rw [length_replicate]; omega), length_replicate,
          getElem?_append_left (by omega), ih (i - s) (by omega) (by omega)]
  refine eq_replicate_iff.mpr ⟨rfl, fun b hb => ?_⟩
  obtain ⟨i, hi, rfl⟩ := getElem_of_mem hb
  exact Option.some.inj ((getElem?_eq_getElem hi).symm.trans (hzero i hi))

lemma readBytes_ok (h : readBytes n r = .ok (bytes, r')) : bytes = r.input.take n ∧ bytes.length = n := by
  rw [readBytes] at h
  split_ifs at h with hn hle
  · cases h
    exact ⟨by rw [hn, take_zero], hn.symm⟩
  · cases h
    exact ⟨rfl, by rw [length_take]; omega⟩

lemma readReason_ok (h : readReason c r = .ok (reason, r')) :
    if c.nullable then ∃ bytes, readBytes 1 r = .ok (bytes, r') ∧ reason = (decodeLE bytes : ℤ).bmod (2 ^ 8)
    else reason = -1 ∧ r' = r := by
  rw [readReason] at h
  by_cases hnull : c.nullable = true
  · rw [if_pos hnull] at h ⊢
    obtain ⟨⟨bytes, r₁⟩, hread, heq⟩ := map_eq_ok.mp h
    obtain ⟨rfl, rfl⟩ := mk.inj heq
    exact ⟨bytes, hread, rfl⟩
  · rw [if_neg hnull] at h ⊢
    obtain ⟨rfl, rfl⟩ := mk.inj (ok.inj h)
    exact ⟨rfl, rfl⟩

lemma readSize_ok (h : readSize c r = .ok (m, r')) :
    if c.fixedSize = 0 then ∃ bytes, readBytes 4 r = .ok (bytes, r') ∧ m = decodeLE bytes else m = c.fixedSize ∧ r' = r := by
  rw [readSize] at h
  split_ifs at h ⊢
  · obtain ⟨⟨bytes, r₁⟩, hread, heq⟩ := map_eq_ok.mp h
    cases heq
    exact ⟨bytes, hread, rfl⟩
  · cases h
    exact ⟨rfl, rfl⟩

lemma readValue_ok {v : BinaryValue} (h : readValue c r = .ok (v, r')) :
    ∃ reason r₁ m r₂, readReason c r = .ok (reason, r₁) ∧ readSize c r₁ = .ok (m, r₂) ∧
      if 0 ≤ reason ∧ reason < 128 then ∃ b : Fin 128, reason = b.val ∧ v = .null b
      else ∃ bytes, readBytes m r₂ = .ok (bytes, r') ∧ v = .data bytes := by
  rw [readValue] at h
  obtain ⟨⟨reason, r₁⟩, hreason, h⟩ := bind_eq_ok.mp h
  obtain ⟨⟨m, r₂⟩, hsize, h⟩ := bind_eq_ok.mp h
  refine ⟨reason, r₁, m, r₂, hreason, hsize, ?_⟩
  dsimp only at h
  by_cases hnull : 0 ≤ reason ∧ reason < 128
  · rw [dif_pos hnull] at h
    rw [if_pos hnull]
    obtain ⟨r3, -, heq⟩ := map_eq_ok.mp h
    obtain ⟨rfl, -⟩ := mk.inj heq
    exact ⟨_, (Int.toNat_of_nonneg hnull.1).symm, rfl⟩
  · rw [dif_neg hnull] at h
    rw [if_neg hnull]
    obtain ⟨⟨bytes, r3⟩, hbytes, heq⟩ := map_eq_ok.mp h
    obtain ⟨rfl, rfl⟩ := mk.inj heq
    exact ⟨bytes, hbytes, rfl⟩

lemma padding_zeros : padding size (fun _ => 0) n = replicate n 0 := by
  refine eq_replicate_iff.mpr ⟨length_padding, fun b hb => ?_⟩
  obtain ⟨i, -, rfl⟩ := mem_map.mp hb
  exact ite_self _

lemma replicate_comm : replicate s (0 : UInt8) ++ (replicate m 0 ++ rest) = replicate m 0 ++ (replicate s 0 ++ rest) := by
  rw [← append_assoc, ← append_assoc, ← replicate_add, ← replicate_add, add_comm]

lemma readReason_zeros (hs : 0 < s) (hnull : c.nullable = true)
    (h : readReason c ⟨replicate s 0 ++ rest, k⟩ = .ok (reason, r)) : reason = 0 := by
  have hok := readReason_ok h
  rw [if_pos hnull] at hok
  obtain ⟨bytes, hread, hreason⟩ := hok
  obtain ⟨s, rfl⟩ := Nat.exists_eq_succ_of_ne_zero (Nat.pos_iff_ne_zero.mp hs)
  have hbytes : bytes = [0] := (readBytes_ok hread).1
  rw [hreason, hbytes]
  decide

lemma fieldBytes_zeros (hs : 0 < s) (hcan : CanWrite c v)
    (hread : readValue c ⟨replicate s 0 ++ (fieldBytes size (fun _ => 0) c v ++ rest), k⟩ = .ok (v', r))
    (hsame : SameValue c v v') : fieldBytes size (fun _ => 0) c v = replicate (fieldBytes size (fun _ => 0) c v).length 0 := by
  obtain ⟨reason, r₁, m, r₂, hreason, hsize, hvalue⟩ := readValue_ok hread
  by_cases hnull : c.nullable = true
  · -- the missing reason is 0, so both values are the null of that reason
    obtain rfl := readReason_zeros hs hnull hreason
    rw [if_pos (by decide)] at hvalue
    obtain ⟨b, hb, rfl⟩ := hvalue
    cases v with
    | null b' =>
      obtain rfl : b = b' := hsame
      have hzero : b.val = 0 := by omega
      rw [fieldBytes, reasonByte, if_pos hnull, reasonOf, payload, padding_zeros, hzero]
      simp [replicate_succ]
    | data d => exact hsame.elim
  · cases v with
    | null b => exact absurd hcan hnull
    | data d =>
      have hok := readReason_ok hreason
      rw [if_neg hnull] at hok
      obtain ⟨rfl, rfl⟩ := hok
      rw [if_neg (by omega)] at hvalue
      obtain ⟨d', hd', rfl⟩ := hvalue
      have hfield : fieldBytes size (fun _ => 0) c (.data d) = payload size (fun _ => 0) c (.data d) := by
        rw [fieldBytes, reasonByte, if_neg hnull, nil_append]
      have hok := readSize_ok hsize
      rw [hfield] at hok ⊢
      rw [SameValue] at hsame
      by_cases hfixed : c.fixedSize = 0
      · rw [payload, if_pos hfixed] at hok ⊢
        rw [if_pos hfixed] at hok hsame
        -- the counter that is read is the length of the value, so it is zero
        obtain ⟨counter, hcounter, rfl⟩ := hok
        obtain ⟨hcounter, hlen⟩ := readBytes_ok hcounter
        obtain ⟨-, hlen'⟩ := readBytes_ok hd'
        rw [hsame] at hlen'
        have henc : encodeLE 4 d.length = counter := by rw [hlen', ← hlen, encodeLE_decodeLE]
        have hzeros : encodeLE 4 d.length = replicate 4 0 := by
          have hshift := @zeros_of_shift (d ++ rest) s (encodeLE 4 d.length) hs
          rw [length_encodeLE, ← append_assoc (encodeLE 4 d.length)] at hshift
          exact hshift (hcounter.symm.trans henc.symm)
        have hd : d.length = 0 := by rw [hlen', ← henc, hzeros, decodeLE_replicate]
        rw [hzeros, eq_nil_of_length_eq_zero hd]
        rfl
      · rw [payload, if_neg hfixed, padding_zeros] at hok ⊢
        rw [if_neg hfixed] at hok hsame
        obtain ⟨rfl, rfl⟩ := hok
        obtain ⟨hd', hlen'⟩ := readBytes_ok hd'
        obtain ⟨j, rfl⟩ := hsame
        rw [length_append, length_replicate] at hlen'
        obtain rfl : j = c.fixedSize - d.length := by omega
        refine @zeros_of_shift rest _ _ hs ?_
        rw [length_append, length_replicate, hlen']
        exact hd'.symm

lemma loadAttrs_shifted (hs : 0 < s) (hcan : CanWriteCell cols cell)
    (hsize : ∀ c ∈ cols, c.skip = true → skipBytes c ≤ size) (hbuf : 4 ≤ size)
    (hload : loadAttrs cols cell.length ⟨replicate s 0 ++ (mainBytes size (fun _ => 0) cols cell ++ rest), k⟩ =
      .ok (cell', r)) (hsame : SameCell cols cell cell') : r.input = replicate s 0 ++ rest := by
  induction cols generalizing cell cell' k with
  | nil =>
    obtain ⟨-, rfl⟩ := mk.inj (ok.inj hload)
    rfl
  | cons c cols ih =>
    have hsize' := forall_mem_of_forall_mem_cons hsize
    cases cell with
    | nil =>
      obtain ⟨-, rfl⟩ := mk.inj (ok.inj hload)
      rfl
    | cons v cell =>
      rw [length_cons, mainBytes, loadAttrs] at hload
      by_cases hskip : c.skip = true
      · obtain ⟨k1, hread⟩ := @readSkip_zeros k c (replicate s 0 ++ (mainBytes size (fun _ => 0) cols (v :: cell) ++ rest))
        rw [if_pos hskip, if_pos hskip, append_assoc, padding_zeros, replicate_comm, hread] at hload
        exact ih (hcan.cons_skip hskip) hsize' hload (hsame.cons_skip hskip)
      · obtain ⟨v, cell, ⟨⟩, hcanv, hrest⟩ := hcan.cons_value hskip
        rw [if_neg hskip, if_neg hskip, append_assoc] at hload
        obtain ⟨⟨v', r₁⟩, hread, hbind⟩ := bind_eq_ok.mp hload
        obtain ⟨⟨cell', r₂⟩, hcell, heq⟩ := map_eq_ok.mp hbind
        obtain ⟨rfl, rfl⟩ := mk.inj heq
        obtain ⟨hsamev, hsame⟩ := hsame.cons_value hskip
        have hzeros := fieldBytes_zeros hs hcanv hread hsamev
        rw [hzeros, replicate_comm, ← hzeros] at hread
        obtain ⟨k1, hfield⟩ := @readValue_field size k (fun _ => 0) c v
          (replicate s 0 ++ (mainBytes size (fun _ => 0) cols cell ++ rest)) hcanv hbuf
        obtain ⟨-, rfl⟩ := mk.inj (ok.inj (hread.symm.trans hfield))
        exact ih hrest hsize' hcell hsame

lemma Reads.shifted (hs : 0 < s) (hcan : ∀ cell ∈ cells, CanWriteCell cols cell)
    (hlen : ∀ cell ∈ cells, cell.length = n) (hsize : ∀ c ∈ cols, c.skip = true → skipBytes c ≤ size) (hbuf : 4 ≤ size)
    (hreads : Reads cols n (replicate s 0 ++ cells.flatMap (cellBytes size (fun _ => 0) cols)) cells' rest)
    (hsame : List.Forall₂ (SameCell cols) cells cells') : rest ≠ [] := by
  induction cells generalizing s cells' with
  | nil =>
    cases hsame
    cases hreads
    rw [flatMap_nil, append_nil]
    exact fun hnil => absurd (congrArg length hnil) (by rw [length_replicate, length_nil]; omega)
  | cons cell cells ih =>
    obtain ⟨hcan, hcan'⟩ := forall_mem_cons.mp hcan
    obtain ⟨hlen, hlen'⟩ := forall_mem_cons.mp hlen
    cases hsame with
    | cons hsame hsame' =>
      cases hreads with
      | cons hload hreads =>
        rw [flatMap_cons, cellBytes_eq hcan hsize, append_assoc, ← hlen] at hload
        rw [loadAttrs_shifted hs hcan hsize hbuf hload hsame, ← append_assoc, ← replicate_add] at hreads
        exact ih (by omega) hcan' hlen' hreads hsame'

lemma skipBytes_pos : 0 < skipBytes c := by
  rw [skipBytes, fieldSize]
  split_ifs <;> omega

lemma CanWriteCell.length_eq (h : CanWriteCell cols cell) : cell.length = valueColumns cols := by
  induction cols generalizing cell with
  | nil =>
    rw [show cell = [] from h]
    rfl
  | cons c cols ih =>
    rw [valueColumns, countP_cons]
    by_cases hskip : c.skip = true
    · rw [if_neg (by simp [hskip]), ih (h.cons_skip hskip)]
      rfl
    · obtain ⟨v, cell, rfl, -, hrest⟩ := h.cons_value hskip
      rw [if_pos (by simp [hskip]), length_cons, ih hrest]
      rfl

lemma tailBytes_eq_zero_iff (h : CanWriteCell cols cell) : tailBytes cols cell = 0 ↔ ∀ c ∈ cols.getLast?, c.skip = false := by
  induction cols generalizing cell with
  | nil => exact iff_of_true rfl (by simp)
  | cons c cols ih =>
    have hlast : cols ≠ [] → (c :: cols).getLast? = cols.getLast? := fun hne => by
      rw [getLast?_cons, getLast?_eq_some_getLast hne]
      rfl
    by_cases hskip : c.skip = true
    · cases cell with
      | nil =>
        have hpos := @skipBytes_pos c
        rw [tailBytes]
        refine iff_of_false (by omega) fun hall => ?_
        by_cases hne : cols = []
        · subst hne
          exact absurd (hall c rfl) (by simp [hskip])
        · obtain ⟨c', cols, rfl⟩ := exists_cons_of_ne_nil hne
          rw [hlast hne] at hall
          have htail := (ih (h.cons_skip hskip)).mpr hall
          have hpos' := @skipBytes_pos c'
          rw [tailBytes] at htail
          omega
      | cons v cell =>
        have hne : cols ≠ [] := by
          rintro rfl
          cases h.cons_skip hskip
        rw [tailBytes, if_pos hskip, ih (h.cons_skip hskip), hlast hne]
    · obtain ⟨v, cell, rfl, -, hrest⟩ := h.cons_value hskip
      rw [tailBytes, if_neg hskip, ih hrest]
      by_cases hne : cols = []
      · subst hne
        simpa using hskip
      · rw [hlast hne]

lemma le_foldl_max (m : ℕ) : m ≤ cols.foldl (fun size c => if c.skip then max size (skipBytes c) else size) m ∧
      ∀ c ∈ cols, c.skip = true → skipBytes c ≤ cols.foldl (fun size c => if c.skip then max size (skipBytes c) else size) m := by
  induction cols generalizing m with
  | nil => exact ⟨le_refl _, by simp⟩
  | cons c cols ih =>
    rw [foldl_cons]
    obtain ⟨hm, hcols⟩ := ih (if c.skip then max m (skipBytes c) else m)
    refine ⟨le_trans ?_ hm, forall_mem_cons.mpr ⟨fun hskip => le_trans ?_ hm, hcols⟩⟩
    · split_ifs <;> omega
    · rw [if_pos hskip]
      omega

lemma four_le_padBufferSize : 4 ≤ padBufferSize cols := le_trans (by decide) (le_foldl_max 9).1

lemma skipBytes_le_padBufferSize : ∀ c ∈ cols, c.skip = true → skipBytes c ≤ padBufferSize cols := (le_foldl_max 9).2

section File

variable {emptyTag : Bool} {cells : List BinaryCell} {rooms : List ℕ}

lemma loadChunks_aligned (hcan : ∀ cell ∈ cells, CanWriteCell cols cell) (hlen : ∀ cell ∈ cells, cell.length = n + 1)
    (hcols : cols ≠ []) (hrooms : cells.length ≤ rooms.sum)
    (halign : emptyTag = true ∨ cells = [] ∨ ∀ c ∈ cols.getLast?, c.skip = false) :
    loadChunks cols (n + 1 + if emptyTag then 1 else 0) rooms (cells.flatMap (cellBytes (padBufferSize cols) heap cols)) =
      .ok (cells.map (readBackCell (padBufferSize cols) heap cols), []) := by
  have hreads : ∀ m, (∀ cell ∈ cells, ∀ rest, ∃ k',
        loadAttrs cols (m + 1) ⟨cellBytes (padBufferSize cols) heap cols cell ++ rest, 0⟩ =
          .ok (readBackCell (padBufferSize cols) heap cols cell, ⟨rest, k'⟩)) →
      loadChunks cols (m + 1) rooms (cells.flatMap (cellBytes (padBufferSize cols) heap cols)) =
        .ok (cells.map (readBackCell (padBufferSize cols) heap cols), []) := fun m h =>
    loadChunks_reads hcols (reads_cells h) (by rwa [length_map])
  cases emptyTag with
  | true =>
    refine hreads (n + 1) fun cell hcell rest => ?_
    rw [← hlen cell hcell]
    exact loadAttrs_cell (hcan cell hcell) skipBytes_le_padBufferSize four_le_padBufferSize
  | false =>
    refine hreads n fun cell hcell rest => ?_
    have hlast := (halign.resolve_left (by decide)).resolve_left (ne_nil_of_mem hcell)
    rw [← hlen cell hcell, cellBytes_eq (hcan cell hcell) skipBytes_le_padBufferSize,
      (tailBytes_eq_zero_iff (hcan cell hcell)).mpr hlast, replicate_zero, append_nil]
    exact loadAttrs_main (hcan cell hcell) skipBytes_le_padBufferSize four_le_padBufferSize

lemma not_reads_of_tail {cells' : List BinaryCell} (hcan : ∀ cell ∈ cells, CanWriteCell cols cell)
    (hlen : ∀ cell ∈ cells, cell.length = n) (hne : cells ≠ []) (hlast : ¬∀ c ∈ cols.getLast?, c.skip = false)
    (hreads : Reads cols n (cells.flatMap (cellBytes (padBufferSize cols) (fun _ => 0) cols)) cells' []) :
    ¬List.Forall₂ (SameCell cols) cells cells' := by
  intro hsame
  obtain ⟨cell, cells, rfl⟩ := exists_cons_of_ne_nil hne
  obtain ⟨hcan, hcan'⟩ := forall_mem_cons.mp hcan
  obtain ⟨hlen, hlen'⟩ := forall_mem_cons.mp hlen
  cases hsame with
  | cons hsame hsame' =>
    cases hreads with
    | cons hload hreads =>
      rw [flatMap_cons, cellBytes_eq hcan skipBytes_le_padBufferSize, append_assoc, ← hlen] at hload
      obtain ⟨k, hmain⟩ := loadAttrs_main (k := 0) hcan skipBytes_le_padBufferSize four_le_padBufferSize
      obtain ⟨-, rfl⟩ := mk.inj (ok.inj (hload.symm.trans hmain))
      have htail : 0 < tailBytes cols cell := pos_of_ne_zero fun h0 => hlast ((tailBytes_eq_zero_iff hcan).mp h0)
      exact hreads.shifted htail hcan' hlen' skipBytes_le_padBufferSize four_le_padBufferSize hsame' rfl

/-- **The round trip of a template**: exactly if nothing is left behind the last attribute and the padding is in the buffer. -/
theorem binary_roundTrip {lib : TypeLibrary} {attrs : List (List Char)} {format : List Char} {templ : ExchangeTemplate}
    (hparse : parse lib attrs format = .ok templ) (hclear : templ.isOpaque = false)
    (_htypes : ∀ c ∈ templ.columns, ∀ types ∈ c.types, types.1 = types.2)
    (hattrs : attrs ≠ []) (hsave : ∃ heap bytes, saveUsingTemplate heap templ.columns cells = .ok bytes)
    (hrooms : cells.length ≤ rooms.sum) : (∀ heap bytes, saveUsingTemplate heap templ.columns cells = .ok bytes →
      ∃ cells', loadChunks templ.columns (loaderAttrs attrs emptyTag) rooms bytes = .ok (cells', []) ∧
        List.Forall₂ (SameCell templ.columns) cells cells') ↔
      (emptyTag = true ∨ cells = [] ∨ ∀ c ∈ templ.columns.getLast?, c.skip = false) ∧
        ∀ cell ∈ cells, ∀ x ∈ (valueCols templ.columns).zip cell, PadFits (padBufferSize templ.columns) x.1 x.2 := by
  obtain ⟨-, hcount⟩ := parse_columns hparse hclear
  obtain ⟨heap₀, bytes₀, hsave⟩ := hsave
  obtain ⟨hcan, -⟩ := saveUsingTemplate_ok_iff.mp hsave
  obtain ⟨n, hn⟩ := Nat.exists_eq_succ_of_ne_zero (mt eq_nil_of_length_eq_zero hattrs)
  have hlen : ∀ cell ∈ cells, cell.length = n + 1 := fun cell hcell => by rw [(hcan cell hcell).length_eq, hcount, hn]
  have hcols : templ.columns ≠ [] := fun hnil => by
    rw [hnil, hn] at hcount
    cases hcount
  rw [loaderAttrs, hn]
  constructor
  · intro hround
    have halign : emptyTag = true ∨ cells = [] ∨ ∀ c ∈ templ.columns.getLast?, c.skip = false := by
      by_contra hnot
      obtain ⟨htag, hne, hlast⟩ : emptyTag = false ∧ cells ≠ [] ∧ ¬∀ c ∈ templ.columns.getLast?, c.skip = false := by
        simpa only [not_or, Bool.not_eq_true] using hnot
      obtain ⟨cells', hload, hsame⟩ := hround (fun _ => 0) _ (saveUsingTemplate_ok_iff.mpr ⟨hcan, rfl⟩)
      rw [htag] at hload
      exact not_reads_of_tail hcan hlen hne hlast (Reads.of_loadChunks hload) hsame
    refine ⟨halign, fun cell hcell x hx => ?_⟩
    obtain ⟨cells', hload, hsame⟩ := hround (fun _ => 1) _ (saveUsingTemplate_ok_iff.mpr ⟨hcan, rfl⟩)
    rw [loadChunks_aligned hcan hlen hcols hrooms halign] at hload
    obtain ⟨rfl, -⟩ := Prod.mk.inj (ok.inj hload)
    rw [forall₂_map_right_iff, forall₂_same] at hsame
    exact padFits_of_sameValue (sameCell_readBack_iff.mp (hsame cell hcell) x hx)
  · rintro ⟨halign, hfits⟩ heap bytes hbytes
    obtain ⟨-, rfl⟩ := saveUsingTemplate_ok_iff.mp hbytes
    refine ⟨_, loadChunks_aligned hcan hlen hcols hrooms halign, ?_⟩
    rw [forall₂_map_right_iff, forall₂_same]
    exact fun cell hcell => sameCell_readBack_iff.mpr fun x hx => sameValue_readBack (hfits cell hcell x hx)

/-- An integer and a string. -/
def smallTypes : TypeLibrary := fun typeId =>
  if typeId = ['i', 'n', 't', '8'] then some ⟨typeId, 1, by decide⟩
  else if typeId = ['s', 't', 'r', 'i', 'n', 'g'] then some ⟨typeId, 0, by decide⟩
  else none

/-- The template `(int8, skip(1))`, without an empty tag: one cell is saved, two are loaded. -/
theorem lastSkip_doubles : ∃ templ, parse smallTypes [['i', 'n', 't', '8']]
        ['(', 'i', 'n', 't', '8', ',', 's', 'k', 'i', 'p', '(', '1', ')', ')'] = .ok templ ∧
      saveUsingTemplate (fun _ => 0) templ.columns [[.data [7]]] = .ok [7, 0] ∧
      loadChunks templ.columns (loaderAttrs [['i', 'n', 't', '8']] false) [10] [7, 0] = .ok ([[.data [7]], [.data [0]]], []) :=
  ⟨⟨[⟨false, false, some (⟨['i', 'n', 't', '8'], 1, by decide⟩, ⟨['i', 'n', 't', '8'], 1, by decide⟩), 1⟩,
    ⟨true, false, none, 1⟩], false⟩, by decide +kernel, rfl, rfl⟩

theorem skipFirst_roundTrip : ∃ templ, parse smallTypes [['s', 't', 'r', 'i', 'n', 'g']]
        ['(', 's', 'k', 'i', 'p', '(', '2', ')', ',', 's', 't', 'r', 'i', 'n', 'g', ' ', 'n', 'u', 'l', 'l', ')'] = .ok templ ∧
      ∀ heap bytes, saveUsingTemplate heap templ.columns [[.data [65]], [.null 3]] = .ok bytes →
        ∃ cells', loadChunks templ.columns (loaderAttrs [['s', 't', 'r', 'i', 'n', 'g']] true) [1, 1] bytes = .ok (cells', []) ∧
          List.Forall₂ (SameCell templ.columns) [[.data [65]], [.null 3]] cells' := by
  have hparse : parse smallTypes [['s', 't', 'r', 'i', 'n', 'g']]
      ['(', 's', 'k', 'i', 'p', '(', '2', ')', ',', 's', 't', 'r', 'i', 'n', 'g', ' ', 'n', 'u', 'l', 'l', ')'] = .ok ⟨[⟨true, false, none, 2⟩, ⟨false, true,
        some (⟨['s', 't', 'r', 'i', 'n', 'g'], 0, by decide⟩, ⟨['s', 't', 'r', 'i', 'n', 'g'], 0, by decide⟩), 0⟩], false⟩ := by
    decide +kernel
  exact ⟨_, hparse, (binary_roundTrip hparse rfl (by decide) (by decide) ⟨fun _ => 0, _, rfl⟩ (by decide)).mpr
    ⟨.inl rfl, by decide⟩⟩

end File

end SciDB.Query
