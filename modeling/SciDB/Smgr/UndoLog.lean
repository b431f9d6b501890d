import SciDB.Lib.AlternatingLog
import SciDB.Smgr.ChunkMap

/-!
# The undo log

Before a descriptor is written to the header file it is logged, so that `rollback` can take it back. A record of a `LogFile` has
an empty record after it as end mark. The checksum is a parameter. `Stop` says how far a write got. Left out: the loop of
`removeLocalChunkVersion` over the attributes.
-/

namespace SciDB.Smgr

open SciDB.Lib SciDB.Util List Function Bool

/-- Versions, from 1 on. -/
abbrev VersionID := ℕ

structure TransLogRecordHeader where
  /-- The unversioned array; `0` in the record that ends the log. -/
  arrayUAID : ArrayUAID
  arrayId : ArrayID
  version : VersionID
  oldSize : ℕ
  hdr : ChunkHeader
deriving DecidableEq, Repr

/-- Transaction log record. -/
structure TransLogRecord extends TransLogRecordHeader where
  hdrCRC : ℕ
deriving DecidableEq, Repr

/-- The end-of-log marker. -/
def TransLogRecord.zero : TransLogRecord := ⟨⟨0, 0, 0, 0, .zero⟩, 0⟩

/-- `sizeof(TransLogRecord)`. -/
def sizeofTransLogRecord : ℕ := 144

/-- What the log depends on. -/
structure LogConfig where
  logSizeLimit : ℕ
  calculateCRC32 : TransLogRecordHeader → ℕ

/-- How many records fit in a log file. -/
def LogConfig.capacity (cfg : LogConfig) : ℕ := cfg.logSizeLimit / sizeofTransLogRecord

/-- A log file. -/
structure LogFile where
  len : ℕ
  record : ℕ → TransLogRecord

namespace LogFile

/-- Reads a record. -/
def read (f : LogFile) (pos : ℕ) : Option TransLogRecord :=
  if pos + sizeofTransLogRecord ≤ f.len then some (f.record pos) else none

/-- Writes a record. -/
def write (f : LogFile) (r : TransLogRecord) (pos : ℕ) : LogFile :=
  { len := max f.len (pos + 2 * sizeofTransLogRecord)
    record := Function.update (Function.update f.record pos r) (pos + sizeofTransLogRecord) .zero }

/-- The records a file holds from a position on: up to the end mark, or a record that is
damaged. -/
def readFrom (cfg : LogConfig) (f : LogFile) : ℕ → ℕ → List TransLogRecord
  | 0, _ => []
  | fuel + 1, pos =>
    match f.read pos with
    | none => []
    | some r =>
      if r.arrayUAID = 0 then []
      else if cfg.calculateCRC32 r.toTransLogRecordHeader ≠ r.hdrCRC then []
      else r :: readFrom cfg f fuel (pos + sizeofTransLogRecord + r.oldSize)

/-- The records a file holds. -/
def records (cfg : LogConfig) (f : LogFile) : List TransLogRecord :=
  readFrom cfg f (f.len / sizeofTransLogRecord + 1) 0

end LogFile

/-- The two log files. -/
structure UndoLog where
  log : Bool → LogFile
  currLog : Bool
  logSize : ℕ

namespace UndoLog

/-- As `open` finds them. -/
def opened (u : UndoLog) : UndoLog := { u with currLog := false, logSize := 0 }

def makeRoom (cfg : LogConfig) (u : UndoLog) : UndoLog :=
  if u.logSize + sizeofTransLogRecord > cfg.logSizeLimit then { u with logSize := 0, currLog := !u.currLog } else u

/-- Write a record to the current file. -/
def append (cfg : LogConfig) (u : UndoLog) (r : TransLogRecord) : UndoLog :=
  let u := u.makeRoom cfg
  { u with
    log := Function.update u.log u.currLog ((u.log u.currLog).write r u.logSize)
    logSize := u.logSize + sizeofTransLogRecord }

/-- The place of the next record. -/
def next (cfg : LogConfig) (u : UndoLog) : ℕ := (u.makeRoom cfg).logSize / sizeofTransLogRecord

/-- All records, in order. -/
def records (cfg : LogConfig) (u : UndoLog) : List TransLogRecord :=
  (u.log false).records cfg ++ (u.log true).records cfg

end UndoLog

structure LoggedStorage extends CachedStorage where
  undo : UndoLog

/-- What a write reads. -/
structure VersionDesc where
  uaId : ArrayUAID
  id : ArrayID
  versionId : VersionID
deriving DecidableEq, Repr

def VersionDesc.logRecord (cfg : LogConfig) (adesc : VersionDesc) (hdr : ChunkHeader) : TransLogRecord :=
  let r : TransLogRecordHeader := ⟨adesc.uaId, adesc.id, adesc.versionId, 0, hdr⟩
  ⟨r, cfg.calculateCRC32 r⟩

/-- A new chunk. -/
structure NewChunk where
  attId : ℕ
  coords : List ℤ
  instanceId : ℕ
  offs : ℕ
  allocatedSize : ℕ
deriving DecidableEq, Repr

/-- Its descriptor. -/
def NewChunk.desc (chunk : NewChunk) (adesc : VersionDesc) : ChunkDescriptor :=
  ⟨⟨⟨adesc.uaId, 0, chunk.offs⟩, adesc.id, chunk.attId, false, chunk.coords.length, chunk.allocatedSize,
    chunk.instanceId⟩, chunk.coords⟩

def tombstoneDesc (adesc : VersionDesc) (attId : ℕ) (coords : List ℤ) (instanceId : ℕ) : ChunkDescriptor :=
  ⟨⟨⟨adesc.uaId, 0, 0⟩, adesc.id, attId, true, coords.length, 0, instanceId⟩, coords⟩

/-- At a position of the file. -/
def ChunkDescriptor.placedAt (desc : ChunkDescriptor) (hdrPos : ℕ) : ChunkDescriptor :=
  { desc with hdr := { desc.hdr with pos := { desc.hdr.pos with hdrPos := hdrPos } } }

/-- How far a write gets. -/
inductive Stop where
  | placed
  | logged
  | described
  | complete
deriving DecidableEq, Repr

namespace CachedStorage

variable (s : CachedStorage)

/-- The next position. -/
def newHdrPos : ℕ :=
  if h : s.freeHeaders.Nonempty then s.freeHeaders.min' h else s.hdr.currPos

/-- Take the spot. -/
def takeHdrPos : CachedStorage :=
  if s.freeHeaders.Nonempty then { s with freeHeaders := s.freeHeaders.erase s.newHdrPos }
  else { s with hdr := ⟨s.hdr.currPos + sizeofChunkDescriptor, s.hdr.nChunks + 1⟩ }

def enter (uaId : ArrayUAID) (desc : ChunkDescriptor) : CachedStorage :=
  s.setInner uaId ((s.inner uaId).assign desc.getAddress desc.entry)

/-- Puts a chunk in the map. -/
def createChunk (adesc : VersionDesc) (attId : ℕ) (coords : List ℤ) (instanceId : ℕ) : Except StorageError CachedStorage :=
  let desc := (NewChunk.mk attId coords instanceId 0 0).desc adesc
  match (s.inner adesc.uaId).find? desc.getAddress with
  | some _ => .error .chunkAlreadyExists
  | none => .ok (s.enter adesc.uaId desc)

end CachedStorage

namespace LoggedStorage

variable (cfg : LogConfig)

variable (s : LoggedStorage)

variable (adesc : VersionDesc)

/-- Locate a spot for the descriptor, and write it to the log and to the header file. -/
def addDescriptor (wal : Bool) (desc : ChunkDescriptor) (stop : Stop) : LoggedStorage :=
  let hdrPos := s.newHdrPos
  let desc := desc.placedAt hdrPos
  let s := { s with toCachedStorage := s.takeHdrPos.enter adesc.uaId desc }
  if stop = .placed then s
  else
    let s := if wal then { s with undo := s.undo.append cfg (adesc.logRecord cfg desc.hdr) } else s
    if stop = .logged then s else { s with hd := s.hd.writeDescriptor desc hdrPos }

/-- Update storage header. -/
def writeHdr : LoggedStorage := { s with hd := { s.hd with hdr := s.hdr } }

/-- Writes a new chunk. -/
def writeChunk (chunk : NewChunk) (stop : Stop) : LoggedStorage :=
  let s := s.addDescriptor cfg adesc (adesc.versionId ≠ 0) (chunk.desc adesc) stop
  if stop = .complete then s.writeHdr else s

/-- Writes a tombstone. -/
def writeTombstone (attId : ℕ) (coords : List ℤ) (instanceId : ℕ) (stop : Stop) : Except StorageError LoggedStorage :=
  let desc := tombstoneDesc adesc attId coords instanceId
  match (s.inner adesc.uaId).find? desc.getAddress with
  | some (.normal _) => .error .chunkAlreadyExists
  | _ => .ok (s.addDescriptor cfg adesc true desc stop)

end LoggedStorage

/-- The versions to roll back. -/
abbrev RollbackMap := OrdMap ArrayUAID (ArrayID × VersionID)

/-- The version is undone. -/
def RollbackMap.undoes (undoUpdates : RollbackMap) (uaId : ArrayUAID) (arrId : ArrayID) : Option VersionID :=
  match undoUpdates.find? uaId with
  | none => none
  | some (first, lastVersionID) => if first ≤ arrId then some lastVersionID else none

/-- Undoes a record. -/
def undoRecord (undoUpdates : RollbackMap) (s : CachedStorage) (r : TransLogRecord) : CachedStorage :=
  match undoUpdates.undoes r.arrayUAID r.arrayId with
  | none => s
  | some lastVersionID =>
    let s := s.wipe r.hdr
    if ¬ r.hdr.isTombstone ∧ lastVersionID > 0 then { s with calls := s.calls ++ [r.hdr.freeCall] } else s

/-- Undoes versions. -/
def LoggedStorage.rollback (cfg : LogConfig) (s : LoggedStorage) (undoUpdates : RollbackMap) : LoggedStorage :=
  { s with toCachedStorage := (s.undo.records cfg).foldl (undoRecord undoUpdates) s.toCachedStorage }

namespace LogFile

variable {cfg : LogConfig} {f : LogFile} {r : TransLogRecord} {i k fuel pos : ℕ}

/-- Record `i` is sound. -/
def Sound (cfg : LogConfig) (f : LogFile) (i : ℕ) : Prop :=
  (i + 1) * sizeofTransLogRecord ≤ f.len ∧ (f.record (i * sizeofTransLogRecord)).arrayUAID ≠ 0 ∧
    cfg.calculateCRC32 (f.record (i * sizeofTransLogRecord)).toTransLogRecordHeader =
      (f.record (i * sizeofTransLogRecord)).hdrCRC ∧ (f.record (i * sizeofTransLogRecord)).oldSize = 0

/-- The first `k` records. -/
def first (f : LogFile) (k : ℕ) : List TransLogRecord :=
  (List.range k).map fun i => f.record (i * sizeofTransLogRecord)

lemma length_first : (f.first k).length = k := by rw [first, length_map, length_range]

lemma first_succ : f.first (k + 1) = f.first k ++ [f.record (k * sizeofTransLogRecord)] := by
  rw [first, range_succ, map_append, map_singleton, first]

lemma Sound.readFrom (h : f.Sound cfg i) : readFrom cfg f (fuel + 1) (i * sizeofTransLogRecord) =
      f.record (i * sizeofTransLogRecord) :: readFrom cfg f fuel ((i + 1) * sizeofTransLogRecord) := by
  obtain ⟨hlen, huaid, hcrc, hold⟩ := h
  rw [LogFile.readFrom, read, ← Nat.succ_mul, if_pos hlen]
  simp only [if_neg huaid, hcrc, ne_eq, not_true_eq_false, if_false, hold, add_zero]

lemma readFrom_zero (h : ∀ i < k, f.Sound cfg i) :
    readFrom cfg f (fuel + k) 0 = f.first k ++ readFrom cfg f fuel (k * sizeofTransLogRecord) := by
  induction k generalizing fuel with
  | zero => rw [zero_mul, first, range_zero, map_nil, nil_append, add_zero]
  | succ k ih =>
    rw [← Nat.succ_add_eq_add_succ, ih fun i hi => h i (Nat.lt_succ_of_lt hi),
      (h k (Nat.lt_succ_self k)).readFrom, first_succ, append_assoc, singleton_append]

lemma take_records (h : ∀ i < k, f.Sound cfg i) : (f.records cfg).take k = f.first k := by
  have hfuel : k ≤ f.len / sizeofTransLogRecord + 1 := by
    cases k with
    | zero => exact Nat.zero_le _
    | succ k =>
      have := (h k (Nat.lt_succ_self k)).1
      rw [← Nat.le_div_iff_mul_le (by decide)] at this
      omega
  obtain ⟨fuel, hfuel⟩ := Nat.exists_eq_add_of_le' hfuel
  rw [records, hfuel, readFrom_zero h, take_left' length_first]

lemma record_write_of_lt (h : i < k) :
    (f.write r (k * sizeofTransLogRecord)).record (i * sizeofTransLogRecord) = f.record (i * sizeofTransLogRecord) := by
  have hlt : i * sizeofTransLogRecord < k * sizeofTransLogRecord := Nat.mul_lt_mul_of_pos_right h (by decide)
  simp only [write]
  rw [update_of_ne (by omega), update_of_ne hlt.ne]

lemma record_write_self : (f.write r pos).record pos = r := by
  simp only [write]
  rw [update_of_ne (by simp [sizeofTransLogRecord]), update_self]

lemma record_write_mark : (f.write r pos).record (pos + sizeofTransLogRecord) = .zero := by
  simp only [write]
  rw [update_self]

lemma Sound.write (h : f.Sound cfg i) (hi : i < k) : (f.write r (k * sizeofTransLogRecord)).Sound cfg i := by
  rw [Sound, record_write_of_lt hi]
  exact ⟨h.1.trans (le_max_left _ _), h.2⟩

lemma sound_write_self (hr : r.arrayUAID ≠ 0) (hcrc : cfg.calculateCRC32 r.toTransLogRecordHeader = r.hdrCRC)
    (hold : r.oldSize = 0) : (f.write r (k * sizeofTransLogRecord)).Sound cfg k := by
  rw [Sound, record_write_self]
  refine ⟨le_trans ?_ (le_max_right _ _), hr, hcrc, hold⟩
  rw [Nat.succ_mul]
  omega

lemma records_write (h : ∀ i < k, f.Sound cfg i) (hk : (f.write r (k * sizeofTransLogRecord)).Sound cfg k) :
    (f.write r (k * sizeofTransLogRecord)).records cfg = (f.records cfg).take k ++ [r] := by
  have hsound : ∀ i < k + 1, (f.write r (k * sizeofTransLogRecord)).Sound cfg i := by
    intro i hi
    rcases Nat.lt_succ_iff_lt_or_eq.mp hi with hi | rfl
    · exact (h i hi).write hi
    · exact hk
  have hfuel : k + 2 ≤ (f.write r (k * sizeofTransLogRecord)).len / sizeofTransLogRecord + 1 := by
    have := hk.1
    rw [← Nat.le_div_iff_mul_le (by decide)] at this
    omega
  obtain ⟨fuel, hfuel⟩ := Nat.exists_eq_add_of_le' hfuel
  rw [records, hfuel, show fuel + (k + 2) = fuel + 1 + (k + 1) by omega, readFrom_zero hsound, first_succ,
    record_write_self, take_records h, readFrom, Nat.succ_mul, read]
  have hfirst : (f.write r (k * sizeofTransLogRecord)).first k = f.first k :=
    map_congr_left fun i hi => record_write_of_lt (mem_range.mp hi)
  rw [hfirst, record_write_mark]
  split_ifs <;> simp [TransLogRecord.zero]

end LogFile

/-- The files hold the log. -/
structure Reads (cfg : LogConfig) (u : UndoLog) (l : AlternatingLog TransLogRecord) : Prop where
  other : l.other = (u.log !u.currLog).records cfg
  curr : l.curr = (u.log u.currLog).records cfg
  size : u.logSize = l.fill * sizeofTransLogRecord
  sound : ∀ i < l.fill, (u.log u.currLog).Sound cfg i

namespace Reads

variable {cfg : LogConfig} {u : UndoLog} {l : AlternatingLog TransLogRecord} {r : TransLogRecord}

lemma mem_records (h : Reads cfg u l) : r ∈ u.records cfg ↔ r ∈ l.readable := by
  rw [UndoLog.records, AlternatingLog.readable, h.other, h.curr, mem_append, mem_append]
  cases u.currLog
  · exact or_comm
  · exact Iff.rfl

lemma opened (cfg : LogConfig) (u : UndoLog) :
    Reads cfg u.opened ⟨(u.log true).records cfg, (u.log false).records cfg, 0, Nat.zero_le _⟩ :=
  ⟨rfl, rfl, (zero_mul _).symm, fun i hi => absurd hi (Nat.not_lt_zero i)⟩

lemma limit_iff (h : Reads cfg u l) : u.logSize + sizeofTransLogRecord > cfg.logSizeLimit ↔ ¬ l.fill < cfg.capacity := by
  rw [h.size, ← Nat.succ_mul, gt_iff_lt, ← Nat.div_lt_iff_lt_mul (by decide), LogConfig.capacity]
  omega

lemma next (h : Reads cfg u l) : u.next cfg = l.next cfg.capacity := by
  rw [UndoLog.next, UndoLog.makeRoom, AlternatingLog.next]
  by_cases hlt : l.fill < cfg.capacity
  · rw [if_pos hlt, if_neg fun hfull => h.limit_iff.mp hfull hlt, h.size, Nat.mul_div_cancel _ (by decide)]
  · rw [if_neg hlt, if_pos (h.limit_iff.mpr hlt), Nat.zero_div]

lemma append (h : Reads cfg u l) (hr : r.arrayUAID ≠ 0)
    (hcrc : cfg.calculateCRC32 r.toTransLogRecordHeader = r.hdrCRC) (hold : r.oldSize = 0) :
    Reads cfg (u.append cfg r) (l.push cfg.capacity r) := by
  by_cases hlt : l.fill < cfg.capacity
  · have hroom : u.makeRoom cfg = u := if_neg fun hfull => h.limit_iff.mp hfull hlt
    have hk := @LogFile.sound_write_self cfg (u.log u.currLog) r l.fill hr hcrc hold
    rw [UndoLog.append, hroom, AlternatingLog.push, if_pos hlt]
    constructor
    · simp only [update_of_ne (not_ne_self u.currLog), h.other]
    · simp only [update_self, h.size, LogFile.records_write h.sound hk, h.curr]
    · simp only [h.size, Nat.succ_mul]
    · intro i hi
      simp only [update_self, h.size]
      rcases Nat.lt_succ_iff_lt_or_eq.mp hi with hi | rfl
      · exact (h.sound i hi).write hi
      · exact hk
  · have hroom : u.makeRoom cfg = { u with logSize := 0, currLog := !u.currLog } := if_pos (h.limit_iff.mpr hlt)
    have hk := @LogFile.sound_write_self cfg (u.log !u.currLog) r 0 hr hcrc hold
    rw [zero_mul] at hk
    rw [UndoLog.append, hroom, AlternatingLog.push, if_neg hlt]
    constructor
    · simp only [Bool.not_not, update_of_ne (Bool.not_ne_self u.currLog).symm, h.curr]
    · have := @LogFile.records_write cfg (u.log !u.currLog) r 0 (fun i hi => absurd hi (Nat.not_lt_zero i))
      rw [zero_mul] at this
      simp only [update_self, this hk, take_zero, nil_append]
    · simp only [zero_add, one_mul]
    · intro i hi
      rw [Nat.lt_one_iff.mp hi]
      simp only [update_self]
      exact hk

end Reads

end SciDB.Smgr
