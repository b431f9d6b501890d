import SciDB.Smgr.ChunkMapScan
import SciDB.Smgr.UndoLog

/-!
# Rolling back a version

The writes between are any list of calls (`WriteOp`) of any arrays, each ending early or not.
-/

namespace SciDB.Smgr

open SciDB.Lib SciDB.Util List Function Option Finset

variable {cfg : LogConfig} {s s' t : LoggedStorage} {U : RollbackMap} {p : ℕ} {uaId : ArrayUAID}

section Undo

variable {st : CachedStorage} {r : TransLogRecord} {rs : List TransLogRecord}

lemma undoRecord_of_undoes_eq_none (h : U.undoes r.arrayUAID r.arrayId = none) : undoRecord U st r = st := by
  rw [undoRecord, h]

lemma hd_undoRecord (h : U.undoes r.arrayUAID r.arrayId ≠ none) :
    (undoRecord U st r).hd = st.hd.writeChunkHeader r.hdr.freed r.hdr.pos.hdrPos := by
  obtain ⟨last, hlast⟩ := ne_none_iff_exists'.mp h
  rw [undoRecord, hlast]
  simp only
  split_ifs <;> rfl

lemma desc_undoRecord (h : U.undoes r.arrayUAID r.arrayId ≠ none) : (undoRecord U st r).hd.desc p =
      if p = r.hdr.pos.hdrPos then { st.hd.desc p with hdr := r.hdr.freed } else st.hd.desc p := by
  rw [hd_undoRecord h]
  by_cases hp : p = r.hdr.pos.hdrPos
  · rw [if_pos hp, hp]
    exact update_self _ _ _
  · rw [if_neg hp]
    exact update_of_ne hp _ _

lemma arrId_undoRecord_of_eq_zero (h : (st.hd.desc p).hdr.arrId = 0) : ((undoRecord U st r).hd.desc p).hdr.arrId = 0 := by
  by_cases hr : U.undoes r.arrayUAID r.arrayId = none
  · rwa [undoRecord_of_undoes_eq_none hr]
  · rw [desc_undoRecord hr]
    split_ifs
    · rfl
    · exact h

lemma desc_foldl_undoRecord (h : ∀ r ∈ rs, U.undoes r.arrayUAID r.arrayId ≠ none → r.hdr.pos.hdrPos ≠ p) :
    (rs.foldl (undoRecord U) st).hd.desc p = st.hd.desc p := by
  induction rs generalizing st with
  | nil => rfl
  | cons r rs ih =>
    rw [foldl_cons, ih fun r' hr' => h r' (mem_cons_of_mem r hr')]
    by_cases hr : U.undoes r.arrayUAID r.arrayId = none
    · rw [undoRecord_of_undoes_eq_none hr]
    · rw [desc_undoRecord hr, if_neg (h r mem_cons_self hr).symm]

lemma arrId_foldl_undoRecord
    (h : (st.hd.desc p).hdr.arrId = 0 ∨ ∃ r ∈ rs, U.undoes r.arrayUAID r.arrayId ≠ none ∧ r.hdr.pos.hdrPos = p) :
    ((rs.foldl (undoRecord U) st).hd.desc p).hdr.arrId = 0 := by
  induction rs generalizing st with
  | nil =>
    rcases h with h | ⟨r, hr, -⟩
    · exact h
    · cases hr
  | cons r rs ih =>
    refine ih ?_
    rcases h with h | ⟨r', hr', hsel, hpos⟩
    · exact .inl (arrId_undoRecord_of_eq_zero h)
    · rcases mem_cons.mp hr' with rfl | hr'
      · rw [desc_undoRecord hsel, if_pos hpos.symm]
        exact .inl rfl
      · exact .inr ⟨r', hr', hsel, hpos⟩

end Undo

lemma LoggedStorage.desc_rollback (h : ∀ r ∈ s.undo.records cfg, U.undoes r.arrayUAID r.arrayId ≠ none → r.hdr.pos.hdrPos ≠ p) :
    (s.rollback cfg U).hd.desc p = s.hd.desc p := desc_foldl_undoRecord h

lemma LoggedStorage.arrId_rollback {r : TransLogRecord} (hr : r ∈ s.undo.records cfg)
    (hsel : U.undoes r.arrayUAID r.arrayId ≠ none) (hpos : r.hdr.pos.hdrPos = p) :
    ((s.rollback cfg U).hd.desc p).hdr.arrId = 0 := arrId_foldl_undoRecord (.inr ⟨r, hr, hsel, hpos⟩)

/-- The calls that write descriptors. -/
inductive WriteOp where
  | writeChunk (adesc : VersionDesc) (chunk : NewChunk) (stop : Stop)
  | writeTombstone (adesc : VersionDesc) (attId : ℕ) (coords : List ℤ) (instanceId : ℕ) (stop : Stop)
  | writeHdr
deriving DecidableEq, Repr

namespace WriteOp

/-- Executes a call. -/
def exec (cfg : LogConfig) (s : LoggedStorage) : WriteOp → LoggedStorage
  | .writeChunk adesc chunk stop =>
    match s.createChunk adesc chunk.attId chunk.coords chunk.instanceId with
    | .error _ => s
    | .ok st => LoggedStorage.writeChunk cfg { s with toCachedStorage := st } adesc chunk stop
  | .writeTombstone adesc attId coords instanceId stop =>
    match s.writeTombstone cfg adesc attId coords instanceId stop with
    | .error _ => s
    | .ok s => s
  | .writeHdr => s.writeHdr

/-- The version has a property. -/
def By (P : VersionDesc → Prop) : WriteOp → Prop
  | .writeChunk adesc _ _ => P adesc
  | .writeTombstone adesc _ _ _ _ => P adesc
  | .writeHdr => True

end WriteOp

/-- Execute calls, in order. -/
def run (cfg : LogConfig) (s : LoggedStorage) (ops : List WriteOp) : LoggedStorage := ops.foldl (WriteOp.exec cfg) s

/-- A descriptor without position. -/
structure Addition where
  adesc : VersionDesc
  desc : ChunkDescriptor
  wal : Bool
  stop : Stop
  dsGuid_eq : desc.hdr.pos.dsGuid = adesc.uaId
  arrId_eq : desc.hdr.arrId = adesc.id
  wal_of_versionId : adesc.versionId ≠ 0 → wal = true

namespace Addition

/-- What `writeChunk` adds. -/
def chunk (adesc : VersionDesc) (chunk : NewChunk) (stop : Stop) : Addition :=
  ⟨adesc, chunk.desc adesc, adesc.versionId ≠ 0, stop, rfl, rfl, fun h => decide_eq_true h⟩

def tombstone (adesc : VersionDesc) (attId : ℕ) (coords : List ℤ) (instanceId : ℕ) (stop : Stop) : Addition :=
  ⟨adesc, tombstoneDesc adesc attId coords instanceId, true, stop, rfl, rfl, fun _ => rfl⟩

/-- The descriptor, in its position. -/
def placed (a : Addition) (s : LoggedStorage) : ChunkDescriptor := a.desc.placedAt s.newHdrPos

def record? (cfg : LogConfig) (a : Addition) (s : LoggedStorage) : Option TransLogRecord :=
  if a.wal ∧ a.stop ≠ .placed then some (a.adesc.logRecord cfg (a.placed s).hdr) else none

/-- Does it get to the header file? -/
def Described (a : Addition) : Prop := a.stop = .described ∨ a.stop = .complete

instance (a : Addition) : Decidable a.Described := inferInstanceAs (Decidable (_ ∨ _))

end Addition

/-- The descriptor that a call adds; `none` if it throws at once or adds none. -/
def WriteOp.addition? (s : LoggedStorage) : WriteOp → Option Addition
  | .writeChunk adesc chunk stop =>
    match (s.inner adesc.uaId).find? (chunk.desc adesc).getAddress with
    | some _ => none
    | none => some (.chunk adesc chunk stop)
  | .writeTombstone adesc attId coords instanceId stop =>
    match (s.inner adesc.uaId).find? (tombstoneDesc adesc attId coords instanceId).getAddress with
    | some (.normal _) => none
    | _ => some (.tombstone adesc attId coords instanceId stop)
  | .writeHdr => none

/-- What an adding call does. -/
structure Adds (cfg : LogConfig) (a : Addition) (s s' : LoggedStorage) : Prop where
  hdr : s'.hdr = s.takeHdrPos.hdr
  free : s'.freeHeaders = s.takeHdrPos.freeHeaders
  undo : s'.undo = (a.record? cfg s).elim s.undo (s.undo.append cfg)
  desc : s'.hd.desc = if a.Described then Function.update s.hd.desc s.newHdrPos (a.placed s) else s.hd.desc
  map : ∀ g addr, (s'.inner g).find? addr =
    if g = a.adesc.uaId ∧ addr = a.desc.getAddress then some (a.placed s).entry else (s.inner g).find? addr
  file : s'.hd.hdr = s.hd.hdr ∨ s'.hd.hdr = s'.hdr

structure AddsNone (s s' : LoggedStorage) : Prop where
  hdr : s'.hdr = s.hdr
  free : s'.freeHeaders = s.freeHeaders
  undo : s'.undo = s.undo
  desc : s'.hd.desc = s.hd.desc
  map : s'.chunkMap = s.chunkMap
  file : s'.hd.hdr = s.hd.hdr ∨ s'.hd.hdr = s'.hdr

namespace CachedStorage

variable {st : CachedStorage} {g : ArrayUAID} {addr : StorageAddress} {desc : ChunkDescriptor}

lemma find?_enter : ((st.enter uaId desc).inner g).find? addr =
    if g = uaId ∧ addr = desc.getAddress then some desc.entry else (st.inner g).find? addr := by
  rw [enter, inner_setInner]
  by_cases hg : g = uaId
  · subst hg
    rw [if_pos rfl, OrdMap.find?_assign]
    by_cases ha : addr = desc.getAddress
    · rw [if_pos ha, if_pos ⟨rfl, ha⟩]
    · rw [if_neg ha, if_neg fun h => ha h.2]
  · rw [if_neg hg, if_neg fun h => hg h.1]

variable (st)

lemma takeHdrPos_chunkMap : st.takeHdrPos.chunkMap = st.chunkMap := by
  rw [takeHdrPos]
  split_ifs <;> rfl

lemma takeHdrPos_hd : st.takeHdrPos.hd = st.hd := by
  rw [takeHdrPos]
  split_ifs <;> rfl

lemma takeHdrPos_enter (uaId : ArrayUAID) (desc : ChunkDescriptor) : (st.enter uaId desc).takeHdrPos.hdr = st.takeHdrPos.hdr ∧
      (st.enter uaId desc).takeHdrPos.freeHeaders = st.takeHdrPos.freeHeaders := by
  rw [takeHdrPos, takeHdrPos]
  by_cases h : st.freeHeaders.Nonempty
  · rw [if_pos h, if_pos (show (st.enter uaId desc).freeHeaders.Nonempty from h)]
    exact ⟨rfl, rfl⟩
  · rw [if_neg h, if_neg (show ¬ (st.enter uaId desc).freeHeaders.Nonempty from h)]
    exact ⟨rfl, rfl⟩

variable {st}

end CachedStorage

open LoggedStorage

lemma adds_addDescriptor (s : LoggedStorage) (a : Addition) :
    Adds cfg a s (s.addDescriptor cfg a.adesc a.wal a.desc a.stop) := by
  have hmap : ∀ g addr, ((s.takeHdrPos.enter a.adesc.uaId (a.placed s)).inner g).find? addr =
      if g = a.adesc.uaId ∧ addr = a.desc.getAddress then some (a.placed s).entry else (s.inner g).find? addr := by
    intro g addr
    rw [CachedStorage.find?_enter, CachedStorage.inner, CachedStorage.takeHdrPos_chunkMap]
    rfl
  have hhd : (s.takeHdrPos.enter a.adesc.uaId (a.placed s)).hd = s.hd := s.takeHdrPos_hd
  have hdesc := congrArg HeaderFile.desc hhd
  have hfile := congrArg HeaderFile.hdr hhd
  by_cases hp : a.stop = .placed
  · have hrec : a.record? cfg s = none := if_neg fun h => h.2 hp
    have hnot : ¬ a.Described := by
      rw [Addition.Described, hp]
      decide
    rw [addDescriptor, if_pos hp]
    exact ⟨rfl, rfl, by rw [hrec]; rfl, by rw [if_neg hnot]; exact hdesc, hmap, .inl hfile⟩
  · have hrec : ∀ u : UndoLog, (a.record? cfg s).elim u (u.append cfg) =
        if a.wal then u.append cfg (a.adesc.logRecord cfg (a.placed s).hdr) else u := by
      intro u
      rw [Addition.record?]
      cases a.wal <;> simp [hp]
    rw [addDescriptor, if_neg hp]
    by_cases hl : a.stop = .logged
    · have hnot : ¬ a.Described := by
        rw [Addition.Described, hl]
        decide
      rw [if_pos hl]
      refine ⟨?_, ?_, ?_, ?_, ?_, .inl ?_⟩
      · split_ifs <;> rfl
      · split_ifs <;> rfl
      · rw [hrec]
        split_ifs <;> rfl
      · rw [if_neg hnot, ← hdesc]
        split_ifs <;> rfl
      · split_ifs <;> exact hmap
      · split_ifs <;> exact hfile
    · have hd : a.Described := by
        rw [Addition.Described]
        cases hs : a.stop <;> simp_all
      rw [if_neg hl]
      refine ⟨?_, ?_, ?_, ?_, ?_, .inl ?_⟩
      · split_ifs <;> rfl
      · split_ifs <;> rfl
      · rw [hrec]
        split_ifs <;> rfl
      · rw [if_pos hd, ← hdesc]
        split_ifs <;> rfl
      · split_ifs <;> exact hmap
      · split_ifs <;> exact hfile

lemma Adds.of_enter (s : LoggedStorage) {a : Addition} {desc : ChunkDescriptor} (haddr : desc.getAddress = a.desc.getAddress)
    (h : Adds cfg a { s with toCachedStorage := s.enter a.adesc.uaId desc } s') : Adds cfg a s s' := by
  obtain ⟨hhdr, hfree⟩ := s.takeHdrPos_enter a.adesc.uaId desc
  refine ⟨h.hdr.trans hhdr, h.free.trans hfree, h.undo, h.desc, fun g addr => ?_, h.file⟩
  rw [h.map g addr]
  by_cases hga : g = a.adesc.uaId ∧ addr = a.desc.getAddress
  · rw [if_pos hga, if_pos hga]
    rfl
  · rw [if_neg hga, if_neg hga, CachedStorage.find?_enter, if_neg (haddr ▸ hga)]

lemma WriteOp.exec_spec (cfg : LogConfig) (s : LoggedStorage) (op : WriteOp) : match op.addition? s with
    | none => AddsNone s (op.exec cfg s)
    | some a => Adds cfg a s (op.exec cfg s) := by
  cases op with
  | writeHdr => exact ⟨rfl, rfl, rfl, rfl, rfl, .inr rfl⟩
  | writeTombstone adesc attId coords instanceId stop =>
    simp only [addition?, exec, LoggedStorage.writeTombstone]
    rcases (s.inner adesc.uaId).find? (tombstoneDesc adesc attId coords instanceId).getAddress with
      _ | hdr | pos | pos
    · exact adds_addDescriptor s (.tombstone adesc attId coords instanceId stop)
    · exact ⟨rfl, rfl, rfl, rfl, rfl, .inl rfl⟩
    · exact adds_addDescriptor s (.tombstone adesc attId coords instanceId stop)
    · exact adds_addDescriptor s (.tombstone adesc attId coords instanceId stop)
  | writeChunk adesc chunk stop =>
    simp only [addition?, exec, CachedStorage.createChunk]
    have haddr : ((NewChunk.mk chunk.attId chunk.coords chunk.instanceId 0 0).desc adesc).getAddress =
      (chunk.desc adesc).getAddress := rfl
    rw [haddr]
    cases (s.inner adesc.uaId).find? (chunk.desc adesc).getAddress with
    | some e => exact ⟨rfl, rfl, rfl, rfl, rfl, .inl rfl⟩
    | none =>
      have h := Adds.of_enter s haddr (@adds_addDescriptor cfg _ (.chunk adesc chunk stop))
      simp only [LoggedStorage.writeChunk]
      split_ifs
      · exact ⟨h.hdr, h.free, h.undo, h.desc, h.map, .inr rfl⟩
      · exact h

namespace CachedStorage

variable {st : CachedStorage}

/-- Free positions are inside. -/
def SlotsBelow (st : CachedStorage) : Prop := ∀ q ∈ st.freeHeaders, q < st.hdr.currPos

/-- Not free, and inside. -/
def Taken (st : CachedStorage) (p : ℕ) : Prop := p ∉ st.freeHeaders ∧ p < st.hdr.currPos

lemma newHdrPos_of_nonempty (h : st.freeHeaders.Nonempty) : st.newHdrPos ∈ st.freeHeaders := by
  rw [newHdrPos, dif_pos h]
  exact min'_mem _ h

lemma newHdrPos_of_not_nonempty (h : ¬ st.freeHeaders.Nonempty) : st.newHdrPos = st.hdr.currPos := by
  rw [newHdrPos, dif_neg h]

lemma newHdrPos_cases (st : CachedStorage) : st.newHdrPos ∈ st.freeHeaders ∨ st.newHdrPos = st.hdr.currPos := by
  by_cases h : st.freeHeaders.Nonempty
  · exact .inl (newHdrPos_of_nonempty h)
  · exact .inr (newHdrPos_of_not_nonempty h)

lemma mem_takeHdrPos : p ∈ st.takeHdrPos.freeHeaders ↔ p ≠ st.newHdrPos ∧ p ∈ st.freeHeaders := by
  rw [takeHdrPos]
  split_ifs with h
  · exact mem_erase
  · rw [not_nonempty_iff_eq_empty] at h
    simp only [h, notMem_empty, and_false]

lemma currPos_le_takeHdrPos : st.hdr.currPos ≤ st.takeHdrPos.hdr.currPos := by
  rw [takeHdrPos]
  split_ifs
  · exact le_rfl
  · exact Nat.le_add_right _ _

lemma SlotsBelow.newHdrPos_lt (h : st.SlotsBelow) : st.newHdrPos < st.takeHdrPos.hdr.currPos := by
  by_cases hne : st.freeHeaders.Nonempty
  · exact (h _ (newHdrPos_of_nonempty hne)).trans_le currPos_le_takeHdrPos
  · rw [newHdrPos_of_not_nonempty hne, takeHdrPos, if_neg hne]
    exact Nat.lt_add_of_pos_right (by decide)

lemma Taken.ne_newHdrPos (h : st.Taken p) : st.newHdrPos ≠ p := by
  rintro rfl
  rcases st.newHdrPos_cases with hfree | hend
  · exact h.1 hfree
  · exact h.2.ne hend

lemma Taken.takeHdrPos (h : st.Taken p) : st.takeHdrPos.Taken p :=
  ⟨fun hp => h.1 (mem_takeHdrPos.mp hp).2, h.2.trans_le currPos_le_takeHdrPos⟩

lemma SlotsBelow.taken_newHdrPos (h : st.SlotsBelow) : st.takeHdrPos.Taken st.newHdrPos :=
  ⟨fun hp => (mem_takeHdrPos.mp hp).1 rfl, h.newHdrPos_lt⟩

lemma Taken.congr {st' : CachedStorage} (h : st.Taken p) (hhdr : st'.hdr = st.hdr)
    (hfree : st'.freeHeaders = st.freeHeaders) : st'.Taken p := by
  rwa [Taken, hhdr, hfree]

end CachedStorage

/-- The records that calls leave. -/
def logged (cfg : LogConfig) : LoggedStorage → List WriteOp → List TransLogRecord
  | _, [] => []
  | s, op :: ops => ((op.addition? s).bind (·.record? cfg s)).toList ++ logged cfg (op.exec cfg s) ops

/-- Positions that calls write to. -/
def written (cfg : LogConfig) : LoggedStorage → List WriteOp → List ℕ
  | _, [] => []
  | s, op :: ops =>
    ((op.addition? s).bind fun a => if a.Described then some s.newHdrPos else none).toList ++ written cfg (op.exec cfg s) ops

lemma run_cons (op : WriteOp) (ops : List WriteOp) : run cfg s (op :: ops) = run cfg (op.exec cfg s) ops := rfl

section Runs

variable {P : VersionDesc → Prop} {op : WriteOp} {ops : List WriteOp} {a : Addition} {r : TransLogRecord}
  {v : VersionDesc} {l : AlternatingLog TransLogRecord}

lemma WriteOp.By.addition (h : op.By P) (ha : op.addition? s = some a) : P a.adesc := by
  cases op with
  | writeHdr => cases ha
  | writeChunk adesc chunk stop =>
    simp only [addition?] at ha
    split at ha
    · cases ha
    · cases ha
      exact h
  | writeTombstone adesc attId coords instanceId stop =>
    simp only [addition?] at ha
    split at ha
    · cases ha
    · cases ha
      exact h

lemma Addition.record?_eq_some_iff :
    a.record? cfg s = some r ↔ (a.wal ∧ a.stop ≠ .placed) ∧ r = a.adesc.logRecord cfg (a.placed s).hdr := by
  rw [record?, ite_none_right_eq_some, some_inj, @eq_comm _ r]

lemma Addition.Described.record? (hd : a.Described) (hv : a.adesc.versionId ≠ 0) :
    a.record? cfg s = some (a.adesc.logRecord cfg (a.placed s).hdr) := by
  refine Addition.record?_eq_some_iff.mpr ⟨⟨a.wal_of_versionId hv, fun hp => ?_⟩, rfl⟩
  rw [Addition.Described, hp] at hd
  rcases hd with hd | hd <;> cases hd

lemma WriteOp.By.mono {Q : VersionDesc → Prop} (h : op.By P) (hPQ : ∀ a, P a → Q a) : op.By Q := by
  cases op with
  | writeHdr => trivial
  | writeChunk adesc chunk stop => exact hPQ adesc h
  | writeTombstone adesc attId coords instanceId stop => exact hPQ adesc h

open AlternatingLog

lemma Reads.run (h : Reads cfg s.undo l) (hops : ∀ op ∈ ops, op.By (·.uaId ≠ 0)) :
    Reads cfg (run cfg s ops).undo (l.pushAll cfg.capacity (logged cfg s ops)) := by
  induction ops generalizing s l with
  | nil => exact h
  | cons op ops ih =>
    have hspec := op.exec_spec cfg s
    rw [run_cons, logged, pushAll, foldl_append]
    refine ih ?_ fun o ho => hops o (mem_cons_of_mem op ho)
    cases ha : op.addition? s with
    | none =>
      rw [ha] at hspec
      rwa [hspec.undo]
    | some a =>
      rw [ha] at hspec
      rw [hspec.undo, bind_some]
      cases hr : a.record? cfg s with
      | none => exact h
      | some r =>
        obtain ⟨-, rfl⟩ := Addition.record?_eq_some_iff.mp hr
        exact h.append ((hops op mem_cons_self).addition ha) rfl rfl

lemma Adds.reads (h : Adds cfg a s s') (huaId : a.adesc.uaId ≠ 0) (hl : Reads cfg s.undo l) : (∃ l', Reads cfg s'.undo l') ∧
      ∀ r ∈ s'.undo.records cfg, r ∈ s.undo.records cfg ∨ r = a.adesc.logRecord cfg (a.placed s).hdr := by
  rw [h.undo]
  cases hr : a.record? cfg s with
  | none => exact ⟨⟨l, hl⟩, fun r hr => .inl hr⟩
  | some r =>
    obtain ⟨-, rfl⟩ := Addition.record?_eq_some_iff.mp hr
    have hl' := @Reads.append cfg s.undo l (a.adesc.logRecord cfg (a.placed s).hdr) hl huaId rfl rfl
    refine ⟨⟨_, hl'⟩, fun r hr => ?_⟩
    rcases mem_readable_push (hl'.mem_records.mp hr) with rfl | hr
    · exact .inr rfl
    · exact .inl (hl.mem_records.mpr hr)

lemma CachedStorage.Taken.run (h : s.Taken p) :
    (run cfg s ops).hd.desc p = s.hd.desc p ∧ ∀ r ∈ logged cfg s ops, r.hdr.pos.hdrPos ≠ p := by
  induction ops generalizing s with
  | nil => exact ⟨rfl, fun r hr => absurd hr not_mem_nil⟩
  | cons op ops ih =>
    have hspec := op.exec_spec cfg s
    rw [run_cons, logged]
    cases ha : op.addition? s with
    | none =>
      rw [ha] at hspec
      obtain ⟨hdesc, hlog⟩ := ih (h.congr hspec.hdr hspec.free)
      rw [hdesc, hspec.desc]
      exact ⟨rfl, hlog⟩
    | some a =>
      rw [ha] at hspec
      obtain ⟨hdesc, hlog⟩ := ih (h.takeHdrPos.congr hspec.hdr hspec.free)
      rw [hdesc, hspec.desc]
      refine ⟨?_, fun r hr => ?_⟩
      · split_ifs
        · exact update_of_ne h.ne_newHdrPos.symm _ _
        · rfl
      · rcases mem_append.mp hr with hr | hr
        · rw [Option.bind_some, Option.mem_toList] at hr
          obtain ⟨-, rfl⟩ := Addition.record?_eq_some_iff.mp hr
          exact h.ne_newHdrPos
        · exact hlog r hr

/-- The descriptor is one of a version. -/
def ChunkDescriptor.IsOf (desc : ChunkDescriptor) (v : VersionDesc) : Prop :=
  desc.hdr.pos.dsGuid = v.uaId ∧ desc.hdr.arrId = v.id

instance (desc : ChunkDescriptor) (v : VersionDesc) : Decidable (desc.IsOf v) := inferInstanceAs (Decidable (_ ∧ _))

lemma isOf_run (hv : v.versionId ≠ 0) (hops : ∀ op ∈ ops, op.By fun a => a = v ∨ a.uaId ≠ v.uaId)
    (h : ((run cfg s ops).hd.desc p).IsOf v) :
    (s.hd.desc p).IsOf v ∨ ∃ r ∈ logged cfg s ops, r.arrayUAID = v.uaId ∧ r.arrayId = v.id ∧ r.hdr.pos.hdrPos = p := by
  induction ops generalizing s with
  | nil => exact .inl h
  | cons op ops ih =>
    have hspec := op.exec_spec cfg s
    rw [run_cons] at h
    rcases ih (fun o ho => hops o (mem_cons_of_mem op ho)) h with h | ⟨r, hr, hrest⟩
    · cases ha : op.addition? s with
      | none =>
        rw [ha] at hspec
        rw [hspec.desc] at h
        exact .inl h
      | some a =>
        rw [ha] at hspec
        rw [hspec.desc] at h
        by_cases hp : a.Described ∧ p = s.newHdrPos
        · -- the descriptor of the call: it is of the version, and so it was logged before
          obtain ⟨hd, rfl⟩ := hp
          rw [if_pos hd, update_self] at h
          have hav : a.adesc = v := by
            rcases (hops op mem_cons_self).addition ha with hav | hav
            · exact hav
            · exact absurd (a.dsGuid_eq.symm.trans h.1) hav
          refine .inr ⟨a.adesc.logRecord cfg (a.placed s).hdr, ?_, congrArg VersionDesc.uaId hav,
            congrArg VersionDesc.id hav, rfl⟩
          rw [logged, ha, bind_some, hd.record? (hav ▸ hv)]
          exact mem_cons_self
        · refine .inl ?_
          split_ifs at h with hd
          · rwa [update_of_ne fun hpos => hp ⟨hd, hpos⟩] at h
          · exact h
    · refine .inr ⟨r, ?_, hrest⟩
      rw [logged]
      exact mem_append_right _ hr

lemma LoggedStorage.isOf_rollback (hv : v.id ≠ 0) (h : ((s.rollback cfg U).hd.desc p).IsOf v) :
    (s.hd.desc p).IsOf v ∧ ∀ r ∈ s.undo.records cfg, U.undoes r.arrayUAID r.arrayId ≠ none → r.hdr.pos.hdrPos ≠ p := by
  have hnot : ∀ r ∈ s.undo.records cfg, U.undoes r.arrayUAID r.arrayId ≠ none → r.hdr.pos.hdrPos ≠ p :=
    fun r hr hsel hpos => hv (h.2.symm.trans (arrId_rollback hr hsel hpos))
  rw [desc_rollback hnot] at h
  exact ⟨h, hnot⟩

/-- **A version is rolled back completely if and only if the log did not start over twice since its first record.** -/
theorem rollback_complete_iff (hs : s.SlotsBelow) {l : AlternatingLog TransLogRecord} (hl : Reads cfg s.undo l)
    (hv : v.uaId ≠ 0 ∧ v.id ≠ 0 ∧ v.versionId ≠ 0) (hnew : ∀ p, ¬ (s.hd.desc p).IsOf v)
    (hop : ∃ a, op.addition? s = some a ∧ a.adesc = v ∧ a.Described)
    (hops : ∀ o ∈ op :: ops, o.By fun a => a = v ∨ a.uaId ≠ v.uaId ∧ a.uaId ≠ 0) (hU : U.undoes v.uaId v.id ≠ none) :
    (∀ p, ¬ (((run cfg s (op :: ops)).rollback cfg U).hd.desc p).IsOf v) ↔
      s.undo.next cfg + (logged cfg s (op :: ops)).length ≤ 2 * max 1 cfg.capacity := by
  have huaId : ∀ o ∈ op :: ops, o.By (·.uaId ≠ 0) := fun o ho => (hops o ho).mono fun a ha => by
    rcases ha with rfl | ha
    · exact hv.1
    · exact ha.2
  have hreads := hl.run huaId
  rw [hl.next]
  constructor
  · intro hgone
    by_contra hlt
    rw [not_le] at hlt
    obtain ⟨a, ha, rfl, hd⟩ := hop
    have hspec := op.exec_spec cfg s
    rw [ha] at hspec
    rw [logged, ha, bind_some, hd.record? hv.2.2] at hlt hreads
    -- the first descriptor keeps its position, and no record left in the logs names it
    obtain ⟨hdesc, hlog⟩ := (hs.taken_newHdrPos.congr hspec.hdr hspec.free).run
    refine hgone s.newHdrPos ?_
    rw [desc_rollback fun r hr _ => hlog r
      (readable_pushAll_subset hlt (hreads.mem_records.mp hr)), run_cons, hdesc, hspec.desc,
      if_pos hd, update_self]
    exact ⟨a.dsGuid_eq, a.arrId_eq⟩
  · intro hle p hof
    obtain ⟨hof, hnot⟩ := isOf_rollback hv.2.1 hof
    rcases isOf_run hv.2.2 (fun o ho => (hops o ho).mono fun a ha => ha.imp_right And.left) hof with
      hold | ⟨r, hr, huaid, hid, hpos⟩
    · exact hnew p hold
    · refine hnot r ?_ ?_ hpos
      · exact hreads.mem_records.mpr (mem_readable_pushAll hle hr)
      · rw [huaid, hid]
        exact hU

lemma by_of_mem_logged (hops : ∀ op ∈ ops, op.By P) (h : r ∈ logged cfg s ops) :
    ∃ adesc, P adesc ∧ r.arrayUAID = adesc.uaId ∧ r.arrayId = adesc.id := by
  induction ops generalizing s with
  | nil => cases h
  | cons op ops ih =>
    rw [logged] at h
    rcases mem_append.mp h with h | h
    · obtain ⟨a, ha, hr⟩ := bind_eq_some_iff.mp (mem_toList.mp h)
      obtain ⟨-, rfl⟩ := Addition.record?_eq_some_iff.mp hr
      exact ⟨a.adesc, (hops op mem_cons_self).addition ha, rfl, rfl⟩
    · exact ih (fun o ho => hops o (mem_cons_of_mem op ho)) h

lemma desc_run (hops : ∀ op ∈ ops, op.By P) :
    if p ∈ written cfg s ops then ∃ adesc, P adesc ∧ ((run cfg s ops).hd.desc p).IsOf adesc
    else (run cfg s ops).hd.desc p = s.hd.desc p := by
  induction ops generalizing s with
  | nil => rfl
  | cons op ops ih =>
    have hspec := op.exec_spec cfg s
    have ih := @ih (op.exec cfg s) fun o ho => hops o (mem_cons_of_mem op ho)
    rw [run_cons, written]
    by_cases hlater : p ∈ written cfg (op.exec cfg s) ops
    · rw [if_pos hlater] at ih
      rwa [if_pos (mem_append_right _ hlater)]
    · rw [if_neg hlater] at ih
      rw [ih]
      cases ha : op.addition? s with
      | none =>
        rw [ha] at hspec
        rw [bind_none, toList_none, nil_append, if_neg hlater, hspec.desc]
      | some a =>
        rw [ha] at hspec
        rw [bind_some, hspec.desc]
        by_cases hd : a.Described
        · rw [if_pos hd, if_pos hd, toList_some, singleton_append]
          by_cases hp : p = s.newHdrPos
          · rw [if_pos (List.mem_cons.mpr (Or.inl hp)), hp, Function.update_self]
            exact ⟨a.adesc, (hops op mem_cons_self).addition ha, a.dsGuid_eq, a.arrId_eq⟩
          · rw [if_neg fun hmem => (mem_cons.mp hmem).elim hp hlater, update_of_ne hp]
        · rw [if_neg hd, if_neg hd, toList_none, nil_append, if_neg hlater]

/-- A rollback is not about it. -/
def Foreign (U : RollbackMap) (desc : ChunkDescriptor) : Prop :=
  desc.hdr.arrId ≠ 0 ∧ U.undoes desc.hdr.pos.dsGuid desc.hdr.arrId = none

instance (U : RollbackMap) (desc : ChunkDescriptor) : Decidable (Foreign U desc) := inferInstanceAs (Decidable (_ ∧ _))

lemma RollbackMap.undoes_eq_none {arrId : ArrayID} (h : U.find? uaId = none) : U.undoes uaId arrId = none := by
  rw [undoes, h]

/-- **Repeating a rollback leaves the other arrays alone if and only if no record in the logs names a position which was written
again.** -/
theorem rollback_again_iff {l : AlternatingLog TransLogRecord} (hl : Reads cfg s.undo l)
    (hops : ∀ op ∈ ops, op.By fun a => a.uaId ≠ 0 ∧ a.id ≠ 0 ∧ U.find? a.uaId = none)
    (hhd : t.hd = (run cfg (s.rollback cfg U) ops).hd) (hlog : t.undo.log = (run cfg (s.rollback cfg U) ops).undo.log) :
    (∀ p, Foreign U (t.hd.desc p) → (t.rollback cfg U).hd.desc p = t.hd.desc p) ↔
      ∀ r ∈ t.undo.records cfg, U.undoes r.arrayUAID r.arrayId ≠ none →
        r.hdr.pos.hdrPos ∉ written cfg (s.rollback cfg U) ops := by
  have hreads := @Reads.run cfg (s.rollback cfg U) ops l hl fun o ho => (hops o ho).mono fun a ha => ha.1
  have hrecords : t.undo.records cfg = (run cfg (s.rollback cfg U) ops).undo.records cfg := by
    rw [UndoLog.records, UndoLog.records, hlog]
  constructor
  · intro hsame r hr hsel hmem
    have hdesc := @desc_run cfg (s.rollback cfg U) r.hdr.pos.hdrPos _ _ hops
    rw [if_pos hmem, ← hhd] at hdesc
    obtain ⟨adesc, ⟨-, hid, hfind⟩, hof⟩ := hdesc
    -- the descriptor written there is of another array, and it is marked free
    have harr : (t.hd.desc r.hdr.pos.hdrPos).hdr.arrId ≠ 0 := by
      rw [hof.2]
      exact hid
    have hforeign : Foreign U (t.hd.desc r.hdr.pos.hdrPos) := ⟨harr, RollbackMap.undoes_eq_none (hof.1.symm ▸ hfind)⟩
    refine harr ?_
    rw [← hsame _ hforeign]
    exact arrId_rollback hr hsel rfl
  · intro hnot p hforeign
    refine desc_rollback fun r hr hsel hpos => ?_
    have hdesc := @desc_run cfg (s.rollback cfg U) p _ _ hops
    rw [if_neg (hpos ▸ hnot r hr hsel), ← hhd] at hdesc
    -- the record was there at the first rollback, which marked the position free
    have hfirst : r ∈ s.undo.records cfg := by
      rw [hrecords, hreads.mem_records] at hr
      rcases mem_of_mem_readable_pushAll hr with hr | hr
      · obtain ⟨adesc, ⟨-, -, hfind⟩, huaid, -⟩ := by_of_mem_logged hops hr
        exact absurd (RollbackMap.undoes_eq_none (huaid.symm ▸ hfind)) hsel
      · exact hl.mem_records.mpr hr
    refine hforeign.1 ?_
    rw [hdesc]
    exact arrId_rollback hfirst hsel hpos

end Runs

def sampleLog : LogConfig := ⟨2 * sizeofTransLogRecord, fun r => r.arrayId⟩

/-- Nothing is stored. -/
def emptyStorage : LoggedStorage :=
  ⟨⟨⟨headerSize, 0⟩, ∅, OrdMap.empty, ⟨0, ⟨0, 0⟩, fun _ => ⟨.zero, []⟩⟩, []⟩, ⟨fun _ => ⟨0, fun _ => .zero⟩, false, 0⟩⟩

def sampleVersion : VersionDesc := ⟨7, 8, 1⟩

def otherVersion : VersionDesc := ⟨9, 10, 1⟩

def sampleWrite (v : VersionDesc) (c : ℤ) : WriteOp := .writeChunk v ⟨0, [c], 0, 0, 512⟩ .complete

def sampleUndo : RollbackMap := OrdMap.empty.assign 7 (8, 0)

theorem sampleVersion_undone :
    ((run sampleLog emptyStorage [sampleWrite sampleVersion 0, sampleWrite otherVersion 0]).hd.desc (slotPos 0)).IsOf
        sampleVersion ∧ ∀ p, ¬ (((run sampleLog emptyStorage [sampleWrite sampleVersion 0,
        sampleWrite otherVersion 0]).rollback sampleLog sampleUndo).hd.desc p).IsOf sampleVersion := by
  have hadd : (sampleWrite sampleVersion 0).addition? emptyStorage =
      some (.chunk sampleVersion ⟨0, [0], 0, 0, 512⟩ .complete) := rfl
  refine ⟨by decide +kernel, (@rollback_complete_iff sampleLog emptyStorage sampleUndo (sampleWrite sampleVersion 0) _
    sampleVersion (fun q hq => absurd hq (notMem_empty q)) _ (Reads.opened sampleLog emptyStorage.undo) (by decide)
    (fun p => of_decide_eq_true rfl) ⟨_, hadd, rfl, Or.inr rfl⟩ (fun o ho => ?_) (by decide)).mpr (by decide +kernel)⟩
  rcases mem_cons.mp ho with rfl | ho
  · exact Or.inl rfl
  · rw [List.mem_singleton.mp ho]
    exact Or.inr (by decide)

/-- After four more records, the chunk of the version is still in the header file. -/
theorem sampleVersion_left : (((run sampleLog emptyStorage (sampleWrite sampleVersion 0 ::
    [0, 1, 2, 3].map (sampleWrite otherVersion))).rollback sampleLog sampleUndo).hd.desc (slotPos 0)).IsOf sampleVersion := by
  decide +kernel

def sampleUndone : LoggedStorage :=
  (run sampleLog emptyStorage [sampleWrite sampleVersion 0]).rollback sampleLog sampleUndo

theorem sampleUndone_again :
    Foreign sampleUndo ((run sampleLog sampleUndone ([0, 1, 2, 3].map (sampleWrite otherVersion))).hd.desc (slotPos 0)) ∧
      ∀ p, Foreign sampleUndo ((run sampleLog sampleUndone ([0, 1, 2, 3].map (sampleWrite otherVersion))).hd.desc p) →
        ((run sampleLog sampleUndone ([0, 1, 2, 3].map (sampleWrite otherVersion))).rollback sampleLog
          sampleUndo).hd.desc p = (run sampleLog sampleUndone ([0, 1, 2, 3].map (sampleWrite otherVersion))).hd.desc p := by
  have hreads := @Reads.run sampleLog emptyStorage [sampleWrite sampleVersion 0] _
    (Reads.opened sampleLog emptyStorage.undo) fun o ho => by
      rw [List.mem_singleton.mp ho]
      exact (by decide : sampleVersion.uaId ≠ 0)
  refine ⟨by decide +kernel, (@rollback_again_iff sampleLog (run sampleLog emptyStorage [sampleWrite sampleVersion 0]) _
    sampleUndo _ _ hreads (fun o ho => ?_) rfl rfl).mpr (by decide +kernel)⟩
  obtain ⟨c, -, rfl⟩ := mem_map.mp ho
  exact ⟨by decide, by decide, rfl⟩

/-- The second rollback destroys the descriptor of a chunk that was written in between. -/
theorem sampleUndone_again_destroys :
    Foreign sampleUndo ((run sampleLog sampleUndone [sampleWrite otherVersion 0]).hd.desc (slotPos 0)) ∧
      ((run sampleLog sampleUndone [sampleWrite otherVersion 0]).rollback sampleLog sampleUndo).hd.desc (slotPos 0) ≠
        (run sampleLog sampleUndone [sampleWrite otherVersion 0]).hd.desc (slotPos 0) := by
  decide +kernel

end SciDB.Smgr
