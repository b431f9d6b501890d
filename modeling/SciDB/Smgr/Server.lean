import SciDB.Lib.Runs
import SciDB.Smgr.RemoveVersions
import SciDB.Smgr.Rollback

/-!
# The storage manager across crashes

The storage manager with the header file as it is on the disk and the locks of the catalog. The log files are always on the
disk; the header file gets there as a whole, when it is flushed. An `Action` is a section under the mutex, or a crash. A
rollback may be repeated. Ids of versions are never used again. `UpdateLock.held` is not in the source.
-/

namespace SciDB.Smgr

open SciDB.Lib SciDB.Util

/-- Forgets a version. -/
def CachedStorage.removeVersionFromMemory (s : CachedStorage) (uaId : ArrayUAID) (arrId : ArrayID) : CachedStorage :=
  match s.chunkMap.find? uaId with
  | none => s
  | some innerMap =>
    let victims := innerMap.entries.filter fun e => e.1.arrId = arrId
    let innerMap := victims.foldl (fun m e => m.erase e.1) innerMap
    if innerMap.entries.length = 0 then { s with chunkMap := s.chunkMap.erase uaId } else s.setInner uaId innerMap

/-- The header file is opened. Without the magic number `open` fails. -/
def LoggedStorage.openStorage (hd : HeaderFile) (undo : UndoLog) : Option (LoggedStorage × Bool) :=
  let initialized : LoggedStorage := ⟨⟨⟨headerSize, 0⟩, ∅, OrdMap.empty, hd, []⟩, undo.opened⟩
  if hd.len = 0 then some (initialized, false)
  else if hd.hdr.currPos = 0 then none
  else if hd.hdr.currPos < headerSize then some (initialized, false)
  else some (⟨⟨hd.hdr, ∅, OrdMap.empty, hd, []⟩, undo.opened⟩, true)

structure UpdateLock where
  id : ArrayID
  versionId : VersionID
  failed : Bool
  undone : Bool
  held : Finset ℕ

/-- What to roll back. -/
def UpdateLock.undoArray (l : UpdateLock) (uaId : ArrayUAID) : RollbackMap :=
  OrdMap.empty.assign uaId (l.id, l.versionId - 1)

/-- Storage, disk and catalog. -/
structure Server where
  mem : LoggedStorage
  disk : HeaderFile
  locks : ArrayUAID → Option UpdateLock
  nextId : ArrayID
  running : Bool

/-- What happens to the server. -/
inductive Action where
  | lockArray (uaId : ArrayUAID) (id : ArrayID) (versionId : VersionID)
  | write (op : WriteOp)
  | flush
  | commit (uaId : ArrayUAID)
  | rollback (uaId : ArrayUAID)
  | release (uaId : ArrayUAID)
  | removeVersions (uaId : ArrayUAID) (lastLiveArrId : ArrayID)
  | crash
  | recover (undoUpdates : RollbackMap)
  | start (cat : Catalog) (stores : ArrayUAID → DataStore)

/-- The version of a call. -/
def WriteOp.versionDesc? : WriteOp → Option VersionDesc
  | .writeChunk adesc _ _ => some adesc
  | .writeTombstone adesc _ _ _ _ => some adesc
  | .writeHdr => none

/-- What a call does to the lock it is made under: it takes a position, and it may fail. -/
def UpdateLock.after (l : UpdateLock) (mem : LoggedStorage) (op : WriteOp) : UpdateLock :=
  match op.addition? mem with
  | none => { l with failed := true }
  | some a => { l with failed := l.failed || a.stop ≠ .complete, held := insert mem.newHdrPos l.held }

namespace Server

/-- A server that was just set up. -/
def init : Server := ⟨emptyStorage, emptyStorage.hd, fun _ => none, 1, true⟩

/-- Change the lock on an array. -/
def setLock (s : Server) (uaId : ArrayUAID) (l : Option UpdateLock) : Server :=
  { s with locks := Function.update s.locks uaId l }

/-- Change the storage manager. -/
def setMem (s : Server) (mem : LoggedStorage) : Server := { s with mem := mem }

def setFlushed (s : Server) (mem : LoggedStorage) : Server := { s with mem := mem, disk := mem.hd }

/-- What an action does. -/
def step (cfg : LogConfig) (ccfg : ChunkmapConfig) (s : Server) : Action → Option Server
  | .lockArray uaId id versionId =>
    if s.running ∧ s.locks uaId = none ∧ uaId ≠ 0 ∧ s.nextId ≤ id then
      some { s.setLock uaId (some ⟨id, versionId, false, false, ∅⟩) with nextId := id + 1 }
    else none
  | .write op =>
    if s.running then
      match op.versionDesc? with
      | none => some (s.setMem (op.exec cfg s.mem))
      | some adesc =>
        match s.locks adesc.uaId with
        | none => none
        | some l =>
          -- the query is validated under the mutex: a version that was rolled back is not written
          if l.id = adesc.id ∧ l.versionId = adesc.versionId ∧ ¬ l.undone then
            some ((s.setMem (op.exec cfg s.mem)).setLock adesc.uaId (some (l.after s.mem op)))
          else none
    else none
  | .flush => if s.running then some (s.setFlushed s.mem) else none
  | .commit uaId =>
    match s.locks uaId with
    | none => none
    | some l => if s.running ∧ ¬ l.failed ∧ ¬ l.undone then some ((s.setFlushed s.mem).setLock uaId none) else none
  | .rollback uaId =>
    match s.locks uaId with
    | none => none
    | some l =>
      if s.running then
        some ((s.setFlushed (s.mem.rollback cfg (l.undoArray uaId))).setLock uaId (some { l with undone := true }))
      else none
  | .release uaId =>
    match s.locks uaId with
    | none => none
    | some l =>
      if s.running ∧ l.undone then
        some ((s.setMem { s.mem with
          toCachedStorage := s.mem.removeVersionFromMemory uaId l.id }).setLock uaId none)
      else none
  | .removeVersions uaId lastLiveArrId =>
    if s.running ∧ s.locks uaId = none then
      some (s.setFlushed { s.mem with toCachedStorage := s.mem.removeVersions uaId lastLiveArrId })
    else none
  | .crash =>
    match LoggedStorage.openStorage s.disk s.mem.undo with
    | none => none
    | some (mem, recovering) => some { s with mem := mem, locks := fun _ => none, running := !recovering }
  | .recover undoUpdates => if s.running then none else some (s.setFlushed (s.mem.rollback cfg undoUpdates))
  | .start cat stores =>
    if s.running then none
    else
      match initChunkMap cat ccfg stores s.mem.toCachedStorage with
      | some (.ok (st, _)) => some { s.setMem { s.mem with toCachedStorage := st } with running := true }
      | _ => none

/-- Execute actions, in order. -/
abbrev exec (cfg : LogConfig) (ccfg : ChunkmapConfig) : Server → List Action → Option Server :=
  runActions (step cfg ccfg)

end Server

end SciDB.Smgr
