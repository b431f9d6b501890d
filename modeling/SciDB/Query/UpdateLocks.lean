import SciDB.Lib.Runs

/-!
# New versions of arrays and the locks of their queries

`UpdateErrorHandler`, `doTxnRecoveryOnStartup`, the making of new versions by `PhysicalUpdate`, and the table of array locks.
The coordinator of a query writes the new version into its lock; the workers copy it. When the query is aborted, or after a
crash, each instance decides on its own what to undo. A call of the catalog is one step. Any instance may crash and keeps its
data. `assigned`, `held`, `written` and `decided` are not in the source. Left out: locks of readers, and the chunks of a
version: a rollback is one step.
-/

namespace SciDB.Query

open SciDB.Lib

structure QueryID where
  coordinatorId : ℕ
  id : ℕ
deriving DecidableEq, Repr

/-- A query and an array. -/
structure Update where
  arrayName : String
  queryId : QueryID
deriving DecidableEq, Repr

/-- Who coordinates the query. -/
def Update.coordinator (u : Update) : ℕ := u.queryId.coordinatorId

/-- The modes of locks. -/
inductive LockMode where
  | wr
  | crt
deriving DecidableEq, Repr

/-- The mark of a version. -/
structure ArrayVersion where
  arrayId : ℕ
  versionId : ℕ
  versionArrayId : ℕ
deriving DecidableEq, Repr

/-- `version` is what `getArrayId`, `getArrayVersion` and `getArrayVersionId` give. -/
structure LockDesc where
  update : Update
  instanceId : ℕ
  lockMode : LockMode
  version : ArrayVersion
deriving DecidableEq, Repr

namespace LockDesc

def isCoord (l : LockDesc) : Bool := l.instanceId == l.update.coordinator

def unset (u : Update) (i versionId : ℕ) : LockDesc := ⟨u, i, .wr, ⟨0, versionId, 0⟩⟩

def isTransientArray (l : LockDesc) : Bool :=
  0 < l.version.arrayId && l.version.arrayId == l.version.versionArrayId && l.version.versionId == 0

end LockDesc

/-- The tables of the catalog. -/
structure Catalog where
  arrays : String → Option ℕ
  versions : List ArrayVersion
  locks : List LockDesc
  nextArrayId : ℕ

namespace Catalog

variable (c : Catalog)

variable (u : Update)

/-- The lock of the coordinator. -/
def checkForCoordinatorLock : Option LockDesc :=
  c.locks.find? fun l => l.update = u ∧ l.instanceId = u.coordinator

/-- The last version. -/
def getLastVersion (arrayId : ℕ) : ℕ :=
  ((c.versions.filter fun v => v.arrayId = arrayId).map ArrayVersion.versionId).foldr max 0

def lockCoordinator : Option Catalog :=
  if ∃ l ∈ c.locks, l.update.arrayName = u.arrayName ∧ l.update.queryId ≠ u.queryId then none
  else some { c with locks := .unset u u.coordinator 0 :: c.locks }

/-- `lockArray` for a worker. -/
def lockWorker (i : ℕ) : Option (LockDesc × Catalog) :=
  (c.checkForCoordinatorLock u).map fun l =>
    ({ l with instanceId := i }, { c with locks := { l with instanceId := i } :: c.locks })

/-- Writes the ids into a lock. -/
def updateArrayLock (lock : LockDesc) : Catalog :=
  { c with locks := c.locks.map fun l => if l.update = lock.update ∧ l.instanceId = lock.instanceId then lock else l }

/-- Removes a lock. -/
def unlockArray (i : ℕ) : Catalog :=
  { c with locks := c.locks.filter fun l => ¬(l.update = u ∧ l.instanceId = i) }

/-- Removes locks. -/
def deleteArrayLocks (i : ℕ) (isCoord : Bool) : Catalog :=
  { c with locks := c.locks.filter fun l => ¬(l.instanceId = i ∧ l.isCoord = isCoord) }

/-- The locks of one role. -/
def readArrayLocks (i : ℕ) (isCoord : Bool) : List LockDesc :=
  c.locks.filter fun l => l.instanceId = i ∧ l.isCoord = isCoord

def addArrayVersion (lock : LockDesc) : Catalog :=
  { c with
    arrays := if lock.lockMode = .crt then Function.update c.arrays lock.update.arrayName (some lock.version.arrayId) else c.arrays
    versions := lock.version :: c.versions }

end Catalog

/-- Where an error handler is. -/
inductive Handler where
  | checkCoord (lock : LockDesc)
  | readCoord (lock : LockDesc)
  | waitCoord (lock : LockDesc)
  | readWorker (lock : LockDesc)
  | finished (lock : LockDesc) (rollback : Option ℕ)
  | failed
deriving DecidableEq, Repr

namespace Handler

/-- The handler for a lock. -/
def start (lock : LockDesc) : Handler :=
  if lock.isCoord then checkCoord lock else if lock.version.versionId ≠ 0 then waitCoord lock else finished lock none

/-- One call of a handler. -/
def step (c : Catalog) : Handler → Handler
  | checkCoord lock =>
    match c.checkForCoordinatorLock lock.update with
    | none => finished lock none
    | some coordLock =>
      if coordLock.isTransientArray then finished coordLock none
      -- the query has not made much progress, there is nothing to roll back
      else if coordLock.version.arrayId = 0 then finished coordLock none
      else if coordLock.version.versionId = 0 ∨ coordLock.version.versionArrayId = 0 then failed
      else readCoord coordLock
  | readCoord lock =>
    if c.getLastVersion lock.version.arrayId = lock.version.versionId then finished lock none
    else finished lock (some (c.getLastVersion lock.version.arrayId))
  | waitCoord lock => if (c.checkForCoordinatorLock lock.update).isSome then waitCoord lock else readWorker lock
  | readWorker lock =>
    if c.getLastVersion lock.version.arrayId < lock.version.versionId ∧ 0 < lock.version.versionArrayId then
      finished lock (some (c.getLastVersion lock.version.arrayId))
    else finished lock none
  | finished lock rollback => finished lock rollback
  | failed => failed

end Handler

abbrev RollbackMap : Type := ℕ → Option (ℕ × ℕ)

namespace RollbackMap

/-- Nothing to roll back. -/
def empty : RollbackMap := fun _ => none

/-- `collectArraysToRollback`. -/
def collect (m : RollbackMap) (v : ArrayVersion) (lastVersion : ℕ) : RollbackMap :=
  Function.update m v.arrayId (some (v.versionArrayId, lastVersion))

/-- The map undoes the version. -/
def undoes (m : RollbackMap) (v : ArrayVersion) : Bool := (m v.arrayId).any fun e => e.1 == v.versionArrayId

end RollbackMap

/-- `CachedStorage::rollback`. -/
def rollback (undoUpdates : RollbackMap) (stored : List (ℕ × ℕ)) : List (ℕ × ℕ) :=
  stored.filter fun e => (undoUpdates e.1).all fun undo => e.2 < undo.1 ∧ undo.2 ≠ 0

/-- What an instance does. -/
inductive Process where
  | fresh
  | locked (lock : LockDesc)
  | lookedUp (lock : LockDesc) (arrayId : Option ℕ) (lastVersion : ℕ)
  | requested (lock : LockDesc)
  | executing (lock : LockDesc)
  | recorded
  | handling (handler : Handler)
  | releasing
  | committed
  | done

namespace Process

/-- Nothing more is stored. -/
def Ended : Process → Prop
  | recorded | handling _ | releasing | committed | done => True
  | _ => False

/-- The process does nothing. -/
def Quiet : Process → Prop
  | fresh | committed | done => True
  | _ => False

/-- A crash of the instance. -/
def crash : Process → Process
  | fresh => fresh
  | committed => committed
  | _ => done

/-- The lock of a live process. -/
def lock? : Process → Option LockDesc
  | locked lock => some lock
  | lookedUp lock _ _ => some lock
  | requested lock => some lock
  | executing lock => some lock
  | _ => none

end Process

/-- Where recovery is. -/
inductive RecoveryPc where
  | next
  | handler (h : Handler)
  | delete

/-- `doTxnRecoveryOnStartup`. -/
structure Recovery where
  isCoord : Bool
  pc : RecoveryPc
  todo : List LockDesc
  workerLocks : List LockDesc
  arraysToRollback : RollbackMap
  examined : List LockDesc

/-- The state of an instance. -/
inductive Node where
  | up
  | down
  | recovering (r : Recovery)

structure Cluster where
  catalog : Catalog
  process : Update → ℕ → Process
  node : ℕ → Node
  stored : ℕ → List (ℕ × ℕ)
  assigned : Update → Option ArrayVersion
  /-- Every lock with the id of a version that was in the catalog. -/
  held : List LockDesc
  written : ℕ → List (ℕ × ℕ)
  /-- The locks whose handlers have come to an end, and whether they have rolled back. -/
  decided : List (LockDesc × Bool)

/-- One step of the cluster. -/
inductive UpdateAction where
  | requestLock (u : Update)
  | lookUp (u : Update)
  | updateArrayLock (u : Update)
  | startWorker (u : Update) (i versionId : ℕ)
  | lockArray (u : Update) (i : ℕ)
  | store (u : Update) (i : ℕ)
  | record (u : Update)
  | commitWorker (u : Update) (i : ℕ)
  | abort (u : Update) (i : ℕ)
  | handle (u : Update) (i : ℕ)
  | release (u : Update) (i : ℕ)
  | crash (i : ℕ)
  | restart (i : ℕ)
  | recover (i : ℕ)

namespace Cluster

/-- Nothing has happened. -/
def init : Cluster where
  catalog := ⟨fun _ => none, [], [], 1⟩
  process _ _ := .fresh
  node _ := .up
  stored _ := []
  assigned _ := none
  held := []
  written _ := []
  decided := []

variable (s : Cluster)

variable (u : Update)

variable (i : ℕ)

/-- A process changes. -/
def setProcess (p : Process) : Cluster :=
  { s with process := Function.update s.process u (Function.update (s.process u) i p) }

/-- An instance changes. -/
def setNode (n : Node) : Cluster := { s with node := Function.update s.node i n }

/-- The process, if up. -/
def running : Option Process :=
  match s.node i with
  | .up => some (s.process u i)
  | _ => none

def requestLock : Option Cluster :=
  match s.running u u.coordinator with
  | some .fresh => (s.catalog.lockCoordinator u).map fun c =>
      { s with catalog := c }.setProcess u u.coordinator (.locked (.unset u u.coordinator 0))
  | _ => none

/-- Looks for the last version. -/
def lookUp : Option Cluster :=
  match s.running u u.coordinator with
  | some (.locked lock) =>
    some (s.setProcess u u.coordinator (.lookedUp lock (s.catalog.arrays u.arrayName)
      (((s.catalog.arrays u.arrayName).map s.catalog.getLastVersion).getD 0)))
  | _ => none

/-- The new version. -/
def newVersion (nextArrayId : ℕ) (arrayId : Option ℕ) (lastVersion : ℕ) : ArrayVersion :=
  match arrayId with
  | none => ⟨nextArrayId, lastVersion + 1, nextArrayId + 1⟩
  | some id => ⟨id, lastVersion + 1, nextArrayId⟩

def updateArrayLock (s : Cluster) (u : Update) : Option Cluster :=
  match s.running u u.coordinator with
  | some (.lookedUp lock arrayId lastVersion) =>
    let version := newVersion s.catalog.nextArrayId arrayId lastVersion
    let lock' : LockDesc := { lock with lockMode := if arrayId.isSome then .wr else .crt, version := version }
    some ({ s with
      catalog := { s.catalog.updateArrayLock lock' with nextArrayId := version.versionArrayId + 1 }
      assigned := Function.update s.assigned u (some version)
      held := lock' :: s.held }.setProcess u u.coordinator (.executing lock'))
  | _ => none

/-- A worker makes its lock. -/
def startWorker (i versionId : ℕ) : Option Cluster :=
  match s.running u i with
  | some .fresh => if i = u.coordinator then none else some (s.setProcess u i (.requested (.unset u i versionId)))
  | _ => none

/-- A worker calls `lockArray`. -/
def lockArray : Option Cluster :=
  match s.running u i with
  | some (.requested _) => (s.catalog.lockWorker u i).map fun r =>
      { s with
        catalog := r.2
        held := if r.1.version.versionArrayId = 0 then s.held else r.1 :: s.held }.setProcess u i (.executing r.1)
  | _ => none

/-- Stores chunks. -/
def store : Option Cluster :=
  match s.running u i with
  | some (.executing lock) =>
    if lock.version.versionArrayId = 0 then none else
      some { s with
        stored := Function.update s.stored i ((lock.version.arrayId, lock.version.versionArrayId) :: s.stored i)
        written := Function.update s.written i ((lock.version.arrayId, lock.version.versionArrayId) :: s.written i) }
  | _ => none

/-- `recordPersistent`. -/
def record : Option Cluster :=
  match s.running u u.coordinator with
  | some (.executing lock) =>
    some ({ s with catalog := s.catalog.addArrayVersion lock }.setProcess u u.coordinator .recorded)
  | _ => none

/-- A worker releases its lock. -/
def commitWorker : Option Cluster :=
  match s.running u i, s.process u u.coordinator with
  | some (.executing _), .committed => some ({ s with catalog := s.catalog.unlockArray u i }.setProcess u i .committed)
  | _, _ => none

/-- The error handler begins. -/
def abort : Option Cluster :=
  ((s.running u i).bind Process.lock?).map fun lock => s.setProcess u i (.handling (.start lock))

/-- The error handler goes on. -/
def handle : Option Cluster :=
  match s.running u i with
  | some (.handling (.finished lock undo)) =>
    some ({ s with
      stored := match undo with
        | none => s.stored
        | some lastVersion =>
          Function.update s.stored i (rollback (RollbackMap.empty.collect lock.version lastVersion) (s.stored i))
      decided := (lock, undo.isSome) :: s.decided }.setProcess u i .releasing)
  | some (.handling .failed) => none
  | some (.handling h) => some (s.setProcess u i (.handling (h.step s.catalog)))
  | _ => none

def release : Option Cluster :=
  match s.running u i with
  | some .recorded => some ({ s with catalog := s.catalog.unlockArray u i }.setProcess u i .committed)
  | some .releasing => some ({ s with catalog := s.catalog.unlockArray u i }.setProcess u i .done)
  | _ => none

/-- An instance goes down. -/
def crash (s : Cluster) (i : ℕ) : Cluster :=
  { s with process := fun u j => if j = i then (s.process u j).crash else s.process u j }.setNode i .down

/-- Reads the locks. -/
def restart : Option Cluster :=
  match s.node i with
  | .down => some (s.setNode i (.recovering
      ⟨true, .next, s.catalog.readArrayLocks i true, s.catalog.readArrayLocks i false, .empty, []⟩))
  | _ => none

/-- One step of recovery. -/
def recover : Option Cluster :=
  match s.node i with
  | .recovering r =>
    match r.pc, r.todo with
    | .next, lock :: rest => some (s.setNode i (.recovering { r with pc := .handler (.start lock), todo := rest }))
    | .handler (.finished lock undo), _ =>
      some (s.setNode i (.recovering { r with
        pc := .next
        arraysToRollback := match undo with
          | none => r.arraysToRollback
          | some lastVersion => r.arraysToRollback.collect lock.version lastVersion
        examined := lock :: r.examined }))
    | .handler .failed, _ => none
    | .handler h, _ => some (s.setNode i (.recovering { r with pc := .handler (h.step s.catalog) }))
    | .next, [] =>
      some ({ s with
        stored := Function.update s.stored i (rollback r.arraysToRollback (s.stored i))
        decided := r.examined.map (fun l : LockDesc => (l, r.arraysToRollback.undoes l.version)) ++ s.decided }.setNode i
          (.recovering { r with pc := .delete }))
    | .delete, _ =>
      some ({ s with catalog := s.catalog.deleteArrayLocks i r.isCoord }.setNode i
        (if r.isCoord then .recovering ⟨false, .next, r.workerLocks, [], .empty, []⟩ else .up))
  | _ => none

/-- What an action does. -/
def step : UpdateAction → Option Cluster
  | .requestLock u => s.requestLock u
  | .lookUp u => s.lookUp u
  | .updateArrayLock u => s.updateArrayLock u
  | .startWorker u i versionId => s.startWorker u i versionId
  | .lockArray u i => s.lockArray u i
  | .store u i => s.store u i
  | .record u => s.record u
  | .commitWorker u i => s.commitWorker u i
  | .abort u i => s.abort u i
  | .handle u i => s.handle u i
  | .release u i => s.release u i
  | .crash i => some (s.crash i)
  | .restart i => s.restart i
  | .recover i => s.recover i

end Cluster

end SciDB.Query
