import SciDB.Smgr.StorageAddress
import SciDB.Util.DataStore

/-!
# The chunk map

The chunk map of `CachedStorage` and the header file it is rebuilt from. A descriptor is named by its position; one with
`arrId = 0` is free. The calls of `DataStore::freeChunk` are collected, and `runCalls` executes them, with `none` where the
process dies. Left out: flags of headers but that of tombstones, and what is logged.
-/

namespace SciDB.Smgr

open SciDB.Lib SciDB.Util

structure DiskPos where
  dsGuid : ArrayUAID
  hdrPos : ℕ
  offs : ℕ
deriving DecidableEq, Repr

/-- A header on the disk. -/
structure ChunkHeader where
  pos : DiskPos
  arrId : ArrayID
  attId : ℕ
  isTombstone : Bool
  nCoordinates : ℕ
  allocatedSize : ℕ
  instanceId : ℕ
deriving DecidableEq, Repr

/-- All fields zero. -/
def ChunkHeader.zero : ChunkHeader := ⟨⟨0, 0, 0⟩, 0, 0, false, 0, 0, 0⟩

/-- The header, marked as free. -/
def ChunkHeader.freed (hdr : ChunkHeader) : ChunkHeader := { hdr with arrId := 0 }

/-- Chunk header + coordinates. -/
structure ChunkDescriptor where
  hdr : ChunkHeader
  coords : List ℤ
deriving DecidableEq, Repr

namespace ChunkDescriptor

def getAddress (desc : ChunkDescriptor) : StorageAddress :=
  ⟨desc.hdr.attId, desc.coords.take desc.hdr.nCoordinates, desc.hdr.arrId⟩

def freed (desc : ChunkDescriptor) : ChunkDescriptor := { desc with hdr := desc.hdr.freed }

end ChunkDescriptor

def headerSize : ℕ := 4096

/-- `sizeof(ChunkHeader)`. -/
def sizeofChunkHeader : ℕ := 96

def sizeofChunkDescriptor : ℕ := 896

/-- The position of number `i`. -/
def slotPos (i : ℕ) : ℕ := headerSize + i * sizeofChunkDescriptor

/-- What changes in the header. -/
structure StorageHeader where
  currPos : ℕ
  nChunks : ℕ
deriving DecidableEq, Repr

/-- The header file. -/
structure HeaderFile where
  len : ℕ
  hdr : StorageHeader
  desc : ℕ → ChunkDescriptor

namespace HeaderFile

/-- Reads a descriptor. -/
def read (hd : HeaderFile) (pos : ℕ) : Option ChunkDescriptor :=
  if pos + sizeofChunkDescriptor ≤ hd.len then some (hd.desc pos) else none

/-- Write a descriptor. -/
def writeDescriptor (hd : HeaderFile) (desc : ChunkDescriptor) (pos : ℕ) : HeaderFile :=
  { hd with len := max hd.len (pos + sizeofChunkDescriptor), desc := Function.update hd.desc pos desc }

/-- Writes a chunk header. -/
def writeChunkHeader (hd : HeaderFile) (hdr : ChunkHeader) (pos : ℕ) : HeaderFile :=
  { hd with
    len := max hd.len (pos + sizeofChunkHeader)
    desc := Function.update hd.desc pos { hd.desc pos with hdr := hdr } }

end HeaderFile

inductive InnerChunkMapEntry where
  | normal (hdr : ChunkHeader)
  | tombstone (hdrPos : ℕ)
  | invalid (hdrPos : ℕ)
deriving DecidableEq, Repr

/-- The entry of a descriptor. -/
def ChunkDescriptor.entry (desc : ChunkDescriptor) : InnerChunkMapEntry :=
  if desc.hdr.isTombstone then .tombstone desc.hdr.pos.hdrPos else .normal desc.hdr

/-- The chunks of one array. -/
abbrev InnerChunkMap := OrdMap StorageAddress InnerChunkMapEntry

/-- A call of `freeChunk`. -/
structure FreeCall where
  dsGuid : ArrayUAID
  off : ℕ
  allocated : ℕ
deriving DecidableEq, Repr

/-- It frees a chunk. -/
def ChunkHeader.freeCall (hdr : ChunkHeader) : FreeCall := ⟨hdr.pos.dsGuid, hdr.pos.offs, hdr.allocatedSize⟩

/-- Executes calls. -/
def runCalls : (ArrayUAID → DataStore) → List FreeCall → Option (ArrayUAID → DataStore)
  | stores, [] => some stores
  | stores, c :: cs =>
    match (stores c.dsGuid).freeChunk c.off c.allocated with
    | none => none
    | some ds => runCalls (Function.update stores c.dsGuid ds) cs

/-- The storage manager. -/
structure CachedStorage where
  hdr : StorageHeader
  freeHeaders : Finset ℕ
  chunkMap : OrdMap ArrayUAID InnerChunkMap
  hd : HeaderFile
  calls : List FreeCall

inductive StorageError where
  | notUniqueChunk
  | databaseHeaderCorrupted
  | chunkAlreadyExists
  | illegalOperation
deriving DecidableEq, Repr

namespace CachedStorage

variable (s : CachedStorage)

/-- The chunks of an array. -/
def inner (uaId : ArrayUAID) : InnerChunkMap := (s.chunkMap.find? uaId).getD OrdMap.empty

def setInner (uaId : ArrayUAID) (m : InnerChunkMap) : CachedStorage :=
  { s with chunkMap := s.chunkMap.assign uaId m }

/-- Marks a descriptor as free. -/
def wipe (hdr : ChunkHeader) : CachedStorage :=
  { s with
    hd := s.hd.writeChunkHeader hdr.freed hdr.pos.hdrPos
    freeHeaders := insert hdr.pos.hdrPos s.freeHeaders }

/-- Marks a chunk as free. -/
def markChunkAsFree (entry : InnerChunkMapEntry) (ds : ArrayUAID) : CachedStorage :=
  match entry with
  | .normal hdr => wipe { s with calls := s.calls ++ [FreeCall.mk ds hdr.pos.offs hdr.allocatedSize] } hdr
  | .tombstone hdrPos => s.wipe (s.hd.desc hdrPos).hdr
  | .invalid hdrPos => s.wipe (s.hd.desc hdrPos).hdr

end CachedStorage

/-- How the check is configured. -/
structure ChunkmapConfig where
  enableChunkmapRecovery : Bool
  skipChunkmapIntegrityCheck : Bool

/-- Where a chunk is on disk. -/
abbrev ChunkExtent := ℕ ×ₗ ℕ ×ₗ ℕ ×ₗ ℕ

/-- The extents, in order. -/
abbrev Extents := OrdMap ChunkExtent Unit

/-- The extent of a chunk. -/
def ChunkHeader.extent (hdr : ChunkHeader) : ChunkExtent :=
  toLex (hdr.pos.dsGuid, toLex (hdr.pos.offs, toLex (hdr.allocatedSize, hdr.pos.hdrPos)))

/-- `ext` overlaps `curr`. -/
def ChunkExtent.overlaps (curr ext : ChunkExtent) : Bool :=
  curr.1 = ext.1 ∧ ext.2.1 < curr.2.1 + curr.2.2.1

/-- The loop of `checkExtentsForOverlaps`, with `curr` the extent being worked on. -/
def findOverlaps (curr : ChunkExtent) : List ChunkExtent → Finset ℕ
  | [] => ∅
  | ext :: exts =>
    if curr.overlaps ext then
      insert curr.2.2.2 (insert ext.2.2.2
        (findOverlaps (if curr.2.1 + curr.2.2.1 < ext.2.1 + ext.2.2.1 then ext else curr) exts))
    else findOverlaps ext exts

/-- Marks chunks as tombstones. -/
def markInvalid (hdrPos : ℕ) : ℕ → StorageAddress → InnerChunkMap → InnerChunkMap
  | 0, _, m => m
  | fuel + 1, addr, m =>
    match m.find? addr with
    | none => m
    | some _ => markInvalid hdrPos fuel { addr with attId := addr.attId + 1 } (m.assign addr (.invalid hdrPos))

/-- What recovery does. -/
def recoverOverlap (s : CachedStorage) (hdrPos : ℕ) : CachedStorage :=
  let desc := s.hd.desc hdrPos
  let m := s.inner desc.hdr.pos.dsGuid
  s.setInner desc.hdr.pos.dsGuid (markInvalid hdrPos (m.entries.length + 1) { desc.getAddress with attId := 0 } m)

/-- Checks the extents. -/
def checkExtentsForOverlaps (cfg : ChunkmapConfig) (extents : Extents) (s : CachedStorage) : Except StorageError CachedStorage :=
  if cfg.skipChunkmapIntegrityCheck then .ok s
  else
    let overlaps := match extents.entries.map Prod.fst with
      | [] => ∅
      | ext :: exts => findOverlaps ext exts
    if overlaps = ∅ then .ok s
    else if cfg.enableChunkmapRecovery then .ok (overlaps.sort.foldl recoverOverlap s)
    else .error .databaseHeaderCorrupted

/-- What the catalog answers. -/
structure Catalog where
  hasArray : ArrayUAID → Bool
  /-- `getOldestArrayVersion`: the oldest version of an array; `0` when it has none. -/
  oldestVersion : ArrayUAID → ArrayID

/-- The variables of the loop. -/
structure ScanState where
  store : CachedStorage
  extents : Extents
  removedArrays : Finset ArrayUAID

namespace ScanState

variable (cfg : ChunkmapConfig)

variable (st : ScanState)

def recordExtent (hdr : ChunkHeader) : ScanState :=
  if cfg.skipChunkmapIntegrityCheck then st else { st with extents := st.extents.assign hdr.extent () }

def eraseExtent (hdr : ChunkHeader) : ScanState :=
  if cfg.skipChunkmapIntegrityCheck then st else { st with extents := st.extents.erase hdr.extent }

/-- Mark a position as free. -/
def freePos (pos : ℕ) : ScanState :=
  { st with store := { st.store with freeHeaders := insert pos st.store.freeHeaders } }

variable (desc : ChunkDescriptor)

/-- Put a chunk in the map. -/
def putChunk : ScanState :=
  let g := desc.hdr.pos.dsGuid
  let st := { st with store := st.store.setInner g ((st.store.inner g).assign desc.getAddress desc.entry) }
  if desc.hdr.isTombstone then st else recordExtent cfg st desc.hdr

def insertChunk : Except StorageError ScanState :=
  match (st.store.inner desc.hdr.pos.dsGuid).find? desc.getAddress with
  | some (.normal _) => .error .notUniqueChunk
  | _ => .ok (putChunk cfg st desc)

def eraseEntryExtent : InnerChunkMapEntry → ScanState
  | .normal hdr => eraseExtent cfg st hdr
  | .tombstone _ => st
  | .invalid _ => st

/-- The oldest chunk is dead. -/
def killOldest (g : ArrayUAID) (victim : StorageAddress × InnerChunkMapEntry) : ScanState :=
  let st := eraseEntryExtent cfg st victim.2
  let store := st.store.markChunkAsFree victim.2 g
  { st with store := store.setInner g ((store.inner g).erase victim.1) }

/-- Chunk is dead, wipe it out. -/
def wipeDead : ScanState :=
  let store := st.store.wipe desc.hdr
  { st with store := { store with calls := store.calls ++ [desc.hdr.freeCall] } }

def wipeRemoved : ScanState :=
  { st with
    store := st.store.wipe desc.hdr
    removedArrays := insert desc.hdr.pos.dsGuid st.removedArrays }

/-- A descriptor of an array. -/
def scanLive (cat : Catalog) (cfg : ChunkmapConfig) (st : ScanState) (desc : ChunkDescriptor) : Except StorageError ScanState :=
  let g := desc.hdr.pos.dsGuid
  let oldest := cat.oldestVersion g
  -- the storage address of the chunk currently in use by the oldest version
  let oldestLiveChunk := StorageAddress.visible? (st.store.inner g) (desc.getAddress.withVersion oldest)
  match oldestLiveChunk with
  | none =>
    if desc.hdr.arrId > 0 then insertChunk cfg st desc else .ok (wipeDead st desc)
  | some victim =>
    -- live if and only if newer than the chunk pointed to by the oldest version
    if desc.hdr.arrId > victim.1.arrId then
      match insertChunk cfg st desc with
      | .error e => .error e
      | .ok st =>
        if victim.1.arrId ≠ 0 ∧ desc.hdr.arrId ≤ oldest then .ok (killOldest cfg st g victim) else .ok st
    else .ok (wipeDead st desc)

/-- One descriptor. -/
def scanSlot (cat : Catalog) (cfg : ChunkmapConfig) (st : ScanState) (chunkPos : ℕ) (desc : ChunkDescriptor) :
    Except StorageError ScanState :=
  if desc.hdr.pos.hdrPos ≠ chunkPos then .ok (st.freePos chunkPos)
  else if desc.hdr.arrId ≠ 0 then
    if cat.hasArray desc.hdr.pos.dsGuid then scanLive cat cfg st desc else .ok (wipeRemoved st desc)
  else .ok (st.freePos chunkPos)

end ScanState

/-- The loop over descriptors. -/
def scanFrom (cat : Catalog) (cfg : ChunkmapConfig) : ℕ → ℕ → ScanState → Except StorageError (ScanState × ℕ)
  | 0, i, st => .ok (st, i)
  | n + 1, i, st =>
    match st.store.hd.read (slotPos i) with
    | none =>
      -- inconsistency in storage header
      .ok ({ st with store := { st.store with hdr := ⟨slotPos i, i⟩ } }, i)
    | some desc =>
      match st.scanSlot cat cfg (slotPos i) desc with
      | .error e => .error e
      | .ok st => scanFrom cat cfg n (i + 1) st

/-- Reads the header file. -/
def initChunkMap (cat : Catalog) (cfg : ChunkmapConfig) (stores : ArrayUAID → DataStore) (s : CachedStorage) :
    Option (Except StorageError (CachedStorage × (ArrayUAID → DataStore))) :=
  match scanFrom cat cfg s.hdr.nChunks 0 ⟨s, OrdMap.empty, ∅⟩ with
  | .error e => some (.error e)
  | .ok (st, i) =>
    match runCalls stores st.store.calls with
    | none => none
    | some stores =>
      -- some simple validation for storage header
      let store := { st.store with hdr := { st.store.hdr with currPos := slotPos i } }
      match checkExtentsForOverlaps cfg st.extents store with
      | .error e => some (.error e)
      | .ok store => some (.ok (store, stores))

end SciDB.Smgr
