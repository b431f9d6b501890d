import SciDB.Smgr.Slots

/-!
# Slots over whole runs

After a crash the log may name positions that the storage header does not count, and they are handed out twice
(`sharedRun_shares`).
-/

namespace SciDB.Smgr

open SciDB.Lib SciDB.Util Option Finset Bool

namespace Server

/-- The entry is not one that waits for its removal after a rollback. -/
def Live (s : Server) (g : ArrayUAID) (addr : StorageAddress) : Prop :=
  ∀ l, s.locks g = some l → l.undone = true → addr.arrId ≠ l.id

/-- A live chunk at `p`. -/
def LiveAt (s : Server) (p : ℕ) : Prop :=
  ∃ g addr e, s.mem.Has g addr e ∧ s.Live g addr ∧ e.hdrPos = p

end Server

/-- What keeps the slots safe. -/
def Action.Safe (cfg : LogConfig) (s : Server) : Action → Prop
  | .rollback uaId => ∀ l, s.locks uaId = some l → l.undone = true → ∀ r ∈ s.mem.undo.records cfg,
      (l.undoArray uaId).undoes r.arrayUAID r.arrayId ≠ none → r.hdr.pos.hdrPos ∈ s.mem.freeHeaders
  | .recover undoUpdates => ∀ r ∈ s.mem.undo.records cfg, undoUpdates.undoes r.arrayUAID r.arrayId ≠ none →
      r.hdr.pos.hdrPos < s.mem.hdr.currPos ∧ r.hdr.pos.hdrPos + sizeofChunkDescriptor ≤ s.mem.hd.len
  | _ => True

/-- Reached by safe actions. -/
abbrev Server.Reachable (cfg : LogConfig) (ccfg : ChunkmapConfig) : Server → Prop :=
  Reaches (Server.step cfg ccfg) (fun s a => a.Safe cfg s) .init

/-- Never written, or counting. -/
def StorageHeader.Known (hdr : StorageHeader) : Prop := hdr = ⟨0, 0⟩ ∨ hdr.currPos = slotPos hdr.nChunks

namespace Server

/-- The entry is not one of a query that failed. -/
def Settled (s : Server) (g : ArrayUAID) (addr : StorageAddress) : Prop :=
  ∀ l, s.locks g = some l → l.failed = true → addr.arrId ≠ l.id

/-- What a lock accounts for. -/
structure LockOk (cfg : LogConfig) (s : Server) (g : ArrayUAID) (l : UpdateLock) : Prop where
  uaId : g ≠ 0
  id : l.id < s.nextId
  held : l.undone = false → ∀ p ∈ l.held, (∃ j < s.mem.hdr.nChunks, p = slotPos j) ∧ p ∉ s.mem.freeHeaders
  own : l.undone = false → ∀ g' addr e, s.mem.Has g' addr e → s.Live g' addr → e.hdrPos ∈ l.held → g' = g ∧ addr.arrId = l.id
  records : l.undone = false → ∀ r ∈ s.mem.undo.records cfg, r.arrayUAID = g → l.id ≤ r.arrayId → r.hdr.pos.hdrPos ∈ l.held

/-- While the server runs. -/
structure Running (cfg : LogConfig) (s : Server) : Prop where
  aligned : s.mem.Aligned
  placed : Placed s.Live s.Settled s.mem.hdr.nChunks s.mem.toCachedStorage
  lock : ∀ g l, s.locks g = some l → s.LockOk cfg g l
  disjoint : ∀ g g' l l', s.locks g = some l → s.locks g' = some l' → g ≠ g' → l.undone = false →
    l'.undone = false → Disjoint l.held l'.held

structure Recovering (s : Server) : Prop where
  empty : s.mem.chunkMap = OrdMap.empty
  currPos : s.mem.hdr.currPos = slotPos s.mem.hdr.nChunks
  free : ∀ p ∈ s.mem.freeHeaders, ∃ j < s.mem.hdr.nChunks, p = slotPos j ∧ p + sizeofChunkDescriptor ≤ s.mem.hd.len
  unused : ∀ p ∈ s.mem.freeHeaders, (s.mem.hd.desc p).hdr.arrId = 0
  noLocks : ∀ g, s.locks g = none

/-- The invariant. -/
structure Inv (cfg : LogConfig) (s : Server) : Prop where
  log : ∃ l, Reads cfg s.mem.undo l
  slots : ∀ r ∈ s.mem.undo.records cfg, ∃ j, r.hdr.pos.hdrPos = slotPos j
  ids : ∀ r ∈ s.mem.undo.records cfg, r.arrayId < s.nextId
  file : s.mem.hd.hdr.Known
  disk : s.disk.hdr.Known
  running : s.running = true → s.Running cfg
  recovering : s.running = false → s.Recovering

end Server

variable {cfg : LogConfig} {ccfg : ChunkmapConfig} {s s' : Server} {g uaId : ArrayUAID} {l : UpdateLock}
  {addr : StorageAddress} {U : RollbackMap} {m m' : LoggedStorage}

lemma CachedStorage.Aligned.known {st : CachedStorage} (h : st.Aligned) : st.hdr.Known := .inr h.currPos

lemma AddsNone.known (h : AddsNone m m') (hfile : m.hd.hdr.Known) (hhdr : m.hdr.Known) : m'.hd.hdr.Known := by
  rcases h.file with hf | hf
  · rwa [hf]
  · rwa [hf, h.hdr]

lemma Adds.known {a : Addition} (h : Adds cfg a m m') (hfile : m.hd.hdr.Known) (hhdr : m'.hdr.Known) : m'.hd.hdr.Known := by
  rcases h.file with hf | hf
  · rwa [hf]
  · rwa [hf]

lemma UpdateLock.undoes_undoArray {arrId : ArrayID} : (l.undoArray uaId).undoes g arrId ≠ none ↔ g = uaId ∧ l.id ≤ arrId := by
  rw [RollbackMap.undoes, undoArray, OrdMap.find?_assign]
  by_cases hg : g = uaId
  · simp [hg]
  · simp [hg]

namespace Server

lemma locks_setLock {l' : Option UpdateLock} : (s.setLock uaId l').locks g = if g = uaId then l' else s.locks g :=
  Function.update_apply _ _ _ _

lemma locks_setLock_or {l l' : UpdateLock} {new : Option UpdateLock} (hl : s.locks uaId = some l) (hl' : s.locks g = some l') :
    g = uaId ∧ l' = l ∨ (s.setLock uaId new).locks g = some l' := by
  by_cases hg : g = uaId
  · rw [hg, hl] at hl'
    exact .inl ⟨hg, (some_inj.mp hl').symm⟩
  · exact .inr (by rw [locks_setLock, if_neg hg, hl'])

lemma live_of_locks_eq_none (h : s.locks g = none) : s.Live g addr := fun l hl => by
  rw [h] at hl
  cases hl

lemma settled_of_locks_eq_none (h : s.locks g = none) : s.Settled g addr := fun l hl => by
  rw [h] at hl
  cases hl

lemma Running.shrink (h : s.Running cfg) (ps : Set ℕ) (hhdr : s'.mem.hdr = s.mem.hdr)
    (hundo : s'.mem.undo = s.mem.undo) (hnext : s'.nextId = s.nextId)
    (hfree : ∀ p ∈ s'.mem.freeHeaders, p ∈ s.mem.freeHeaders ∨ p ∈ ps) (hslot : ∀ p ∈ ps, ∃ j < s.mem.hdr.nChunks, p = slotPos j)
    (hhas : ∀ g addr e, s'.mem.Has g addr e → s'.Live g addr → s.mem.Has g addr e ∧ s.Live g addr ∧ e.hdrPos ∉ ps)
    (hsound : ∀ g addr e, s'.mem.Has g addr e → s'.Live g addr → s'.Settled g addr →
      s.Settled g addr ∧ (e.Sound s.mem.hd → e.Sound s'.mem.hd))
    (hlock : ∀ g l, s'.locks g = some l → ∃ l0, s.locks g = some l0 ∧ l.id = l0.id ∧
      (l.undone = false → l0.undone = false ∧ l.held = l0.held ∧ ∀ p ∈ l.held, p ∉ ps)) : s'.Running cfg := by
  refine ⟨⟨?_, fun p hp => ?_⟩, ?_, fun g l hl => ?_, fun g g' l l' hl hl' hne hu hu' => ?_⟩
  · rw [hhdr]
    exact h.aligned.currPos
  · rw [hhdr]
    rcases hfree p hp with hp | hp
    · exact h.aligned.free p hp
    · exact hslot p hp
  · rw [hhdr]
    refine h.placed.of_subset le_rfl (fun g addr e he hl => ?_) (fun g addr e he hl hmem => ?_) hsound
    · obtain ⟨he, hl, -⟩ := hhas g addr e he hl
      exact ⟨he, hl⟩
    · obtain ⟨he, hl, hps⟩ := hhas g addr e he hl
      exact (hfree _ hmem).elim (h.placed.notFree g addr e he hl) hps
  · obtain ⟨l0, hl0, hid, hkeep⟩ := hlock g l hl
    have hok := h.lock g l0 hl0
    refine ⟨hok.uaId, by rw [hid, hnext]; exact hok.id, fun hu p hp => ?_, fun hu g' addr e he hlive hp => ?_, fun hu r hr => ?_⟩
    · obtain ⟨hu0, hheld, hps⟩ := hkeep hu
      obtain ⟨hpos, hnot⟩ := hok.held hu0 p (hheld ▸ hp)
      rw [hhdr]
      exact ⟨hpos, fun hmem => (hfree p hmem).elim hnot (hps p hp)⟩
    · obtain ⟨hu0, hheld, -⟩ := hkeep hu
      obtain ⟨he, hlive, -⟩ := hhas g' addr e he hlive
      rw [hid]
      exact hok.own hu0 g' addr e he hlive (hheld ▸ hp)
    · obtain ⟨hu0, hheld, -⟩ := hkeep hu
      rw [hundo] at hr
      rw [hid, hheld]
      exact hok.records hu0 r hr
  · obtain ⟨l0, hl0, -, hkeep⟩ := hlock g l hl
    obtain ⟨l0', hl0', -, hkeep'⟩ := hlock g' l' hl'
    obtain ⟨hu0, hheld, -⟩ := hkeep hu
    obtain ⟨hu0', hheld', -⟩ := hkeep' hu'
    rw [hheld, hheld']
    exact h.disjoint g g' l0 l0' hl0 hl0' hne hu0 hu0'

section

variable (h : s.Inv cfg)

include h

lemma Inv.of_running (hundo : s'.mem.undo = s.mem.undo) (hnext : s.nextId ≤ s'.nextId) (hfile : s'.mem.hd.hdr.Known)
    (hdisk : s'.disk.hdr.Known) (hrun : s'.running = true) (hR : s'.Running cfg) : s'.Inv cfg := by
  refine ⟨?_, ?_, ?_, hfile, hdisk, fun _ => hR, fun hr => ?_⟩
  · rw [hundo]
    exact h.log
  · rw [hundo]
    exact h.slots
  · rw [hundo]
    exact fun r hr => (h.ids r hr).trans_le hnext
  · rw [hrun] at hr
    cases hr

lemma Inv.flush (hstep : s.step cfg ccfg .flush = some s') : s'.Inv cfg := by
  rw [step] at hstep
  split_ifs at hstep with hrun
  cases hstep
  refine h.of_running rfl le_rfl h.file h.file hrun ?_
  exact (h.running hrun).shrink ∅ rfl rfl rfl (fun _ hp => .inl hp) (fun _ hp => absurd hp (Set.notMem_empty _))
    (fun _ _ _ he hl => ⟨he, hl, Set.notMem_empty _⟩) (fun _ _ _ _ _ hs => ⟨hs, id⟩)
    fun g l hl => ⟨l, hl, rfl, fun hu => ⟨hu, rfl, fun _ _ => Set.notMem_empty _⟩⟩

lemma Inv.commit (hstep : s.step cfg ccfg (.commit uaId) = some s') : s'.Inv cfg := by
  rw [step] at hstep
  split at hstep
  case h_1 => cases hstep
  case h_2 l hl =>
    split_ifs at hstep with hcond
    obtain ⟨hrun, hfailed, hundone⟩ := hcond
    cases hstep
    refine h.of_running rfl le_rfl h.file h.file hrun ?_
    refine (h.running hrun).shrink ∅ rfl rfl rfl (fun _ hp => .inl hp) (fun _ hp => absurd hp (Set.notMem_empty _))
      (fun g addr e he hlive => ⟨he, fun l' hl' hu => ?_, Set.notMem_empty _⟩)
      (fun g addr e _ _ hs => ⟨fun l' hl' hf => ?_, id⟩) fun g l' hl' => ?_
    · rcases locks_setLock_or hl hl' with ⟨-, rfl⟩ | hl'
      · exact absurd hu hundone
      · exact hlive l' hl' hu
    · rcases locks_setLock_or hl hl' with ⟨-, rfl⟩ | hl'
      · exact absurd hf hfailed
      · exact hs l' hl' hf
    · rw [locks_setLock] at hl'
      split_ifs at hl'
      exact ⟨l', hl', rfl, fun hu => ⟨hu, rfl, fun _ _ => Set.notMem_empty _⟩⟩

lemma Inv.release (hstep : s.step cfg ccfg (.release uaId) = some s') : s'.Inv cfg := by
  rw [step] at hstep
  split at hstep
  case h_1 => cases hstep
  case h_2 l hl =>
    split_ifs at hstep with hcond
    obtain ⟨hrun, hundone⟩ := hcond
    cases hstep
    obtain ⟨hhdr, hfree, hhd⟩ := @removeVersionFromMemory_spec s.mem.toCachedStorage uaId l.id
    refine h.of_running rfl le_rfl (congrArg HeaderFile.hdr hhd ▸ h.file) h.disk hrun ?_
    refine (h.running hrun).shrink ∅ hhdr rfl rfl (fun p hp => .inl (hfree ▸ hp))
      (fun _ hp => absurd hp (Set.notMem_empty _)) (fun g addr e he hlive => ?_) (fun g addr e he _ hs => ?_)
      fun g l' hl' => ?_
    · obtain ⟨he, hnot⟩ := has_removeVersionFromMemory he
      refine ⟨he, fun l' hl' hu => ?_, Set.notMem_empty _⟩
      rcases locks_setLock_or hl hl' with ⟨hg, rfl⟩ | hl'
      · exact fun haddr => hnot ⟨hg, haddr⟩
      · exact hlive l' hl' hu
    · obtain ⟨-, hnot⟩ := has_removeVersionFromMemory he
      refine ⟨fun l' hl' hf => ?_, fun hsnd => hsnd.congr (congrFun (congrArg HeaderFile.desc hhd) _)⟩
      rcases locks_setLock_or hl hl' with ⟨hg, rfl⟩ | hl'
      · exact fun haddr => hnot ⟨hg, haddr⟩
      · exact hs l' hl' hf
    · rw [locks_setLock] at hl'
      split_ifs at hl'
      exact ⟨l', hl', rfl, fun hu => ⟨hu, rfl, fun _ _ => Set.notMem_empty _⟩⟩

lemma Inv.rollback (hsafe : (Action.rollback uaId).Safe cfg s) (hstep : s.step cfg ccfg (.rollback uaId) = some s') :
    s'.Inv cfg := by
  rw [step] at hstep
  split at hstep
  case h_1 => cases hstep
  case h_2 l hl =>
    split_ifs at hstep with hrun
    cases hstep
    have hR := h.running hrun
    have hok := hR.lock uaId l hl
    have hf := @Freed.foldl_undoRecord s.mem.toCachedStorage (l.undoArray uaId) (s.mem.undo.records cfg)
    -- what is freed is held by this lock, or has been freed before
    have hps : ∀ p, (∃ r ∈ s.mem.undo.records cfg, (l.undoArray uaId).undoes r.arrayUAID r.arrayId ≠ none ∧
        r.hdr.pos.hdrPos = p) → l.undone = false ∧ p ∈ l.held ∨ p ∈ s.mem.freeHeaders := by
      rintro p ⟨r, hr, hsel, rfl⟩
      cases hu : l.undone with
      | true => exact .inr (hsafe l hl hu r hr hsel)
      | false =>
        obtain ⟨hg, hid⟩ := UpdateLock.undoes_undoArray.mp hsel
        exact .inl ⟨rfl, hok.records hu r hr hg hid⟩
    have hlive : ∀ g addr, ((s.setFlushed (s.mem.rollback cfg (l.undoArray uaId))).setLock uaId
        (some { l with undone := true })).Live g addr → s.Live g addr ∧ (g = uaId → addr.arrId ≠ l.id) := by
      intro g addr hlive
      by_cases hg : g = uaId
      · have hne : addr.arrId ≠ l.id := hlive { l with undone := true } (by rw [locks_setLock, if_pos hg]) rfl
        refine ⟨fun l' hl' _ => ?_, fun _ => hne⟩
        rw [hg, hl] at hl'
        cases hl'
        exact hne
      · refine ⟨fun l' hl' hu => hlive l' ?_ hu, fun hg' => absurd hg' hg⟩
        rwa [locks_setLock, if_neg hg]
    have hknown : (s.mem.rollback cfg (l.undoArray uaId)).hd.hdr.Known := by
      rw [LoggedStorage.rollback, hf.file]
      exact h.file
    refine h.of_running rfl le_rfl hknown hknown hrun ?_
    refine hR.shrink _ hf.hdr rfl rfl (fun p hp => (hf.free p).mp hp) (fun p hp => ?_) (fun g addr e he hl' => ?_)
      (fun g addr e he hl' hs => ⟨fun l' hl' hfail => ?_, hf.sound e⟩) fun g l' hl' => ?_
    · rcases hps p hp with ⟨hu, hheld⟩ | hfree
      · exact (hok.held hu p hheld).1
      · exact hR.aligned.free p hfree
    · have he : s.mem.Has g addr e := (CachedStorage.Has.congr hf.map).mp he
      obtain ⟨hlive', hne⟩ := hlive g addr hl'
      refine ⟨he, hlive', fun hp => ?_⟩
      rcases hps _ hp with ⟨hu, hheld⟩ | hfree
      · obtain ⟨hg, haddr⟩ := hok.own hu g addr e he hlive' hheld
        exact hne hg haddr
      · exact hR.placed.notFree g addr e he hlive' hfree
    · rcases locks_setLock_or hl hl' with ⟨hg, rfl⟩ | hl'
      · exact hs { l' with undone := true } (by rw [locks_setLock, if_pos hg]) hfail
      · exact hs l' hl' hfail
    · rw [locks_setLock] at hl'
      split_ifs at hl' with hg
      · cases hl'
        exact ⟨l, hg ▸ hl, rfl, fun hu => by cases hu⟩
      · refine ⟨l', hl', rfl, fun hu => ⟨hu, rfl, fun p hp hmem => ?_⟩⟩
        have hheld' := (hR.lock g l' hl').held hu p hp
        rcases hps p hmem with ⟨hu', hheld⟩ | hfree
        · exact disjoint_left.mp (hR.disjoint g uaId l' l hl' hl hg hu hu') hp hheld
        · exact hheld'.2 hfree

lemma Inv.removeVersions {lastLiveArrId : ArrayID}
    (hstep : s.step cfg ccfg (.removeVersions uaId lastLiveArrId) = some s') : s'.Inv cfg := by
  rw [step] at hstep
  split_ifs at hstep with hcond
  obtain ⟨hrun, hnone⟩ := hcond
  cases hstep
  have hR := h.running hrun
  have hlive : ∀ v ∈ gone s.mem.toCachedStorage uaId lastLiveArrId, s.mem.Has uaId v.1 v.2 ∧ s.Live uaId v.1 :=
    fun v hv => ⟨has_of_mem_gone hv, live_of_locks_eq_none hnone⟩
  obtain ⟨st1, hf, hfree, hdesc, hhdr, hfile, hhas⟩ := @removeVersions_spec s.mem.toCachedStorage uaId lastLiveArrId
    fun v hv => hR.placed.sound _ _ _ (hlive v hv).1 (hlive v hv).2 (settled_of_locks_eq_none hnone)
  have hknown : (s.mem.removeVersions uaId lastLiveArrId).hd.hdr.Known := by
    rcases hfile with hfile | hfile
    · rw [hfile]
      exact h.file
    · rw [hfile]
      exact hR.aligned.known
  refine h.of_running rfl le_rfl hknown hknown hrun ?_
  refine hR.shrink _ hhdr rfl rfl (fun p hp => (hf.free p).mp (hfree ▸ hp)) ?_ (fun g addr e he hl => ?_)
    (fun g addr e _ _ hs => ⟨hs, fun hsnd => (hf.sound e hsnd).congr (congrFun hdesc _)⟩) fun g l hl => ?_
  · rintro p ⟨v, hv, rfl⟩
    exact hR.placed.slot _ _ _ (hlive v hv).1 (hlive v hv).2
  · obtain ⟨he, hnot⟩ := hhas g addr e he
    refine ⟨he, hl, ?_⟩
    rintro ⟨v, hv, hpos⟩
    obtain ⟨hg, haddr⟩ := hR.placed.inj _ _ _ _ _ _ he hl (hlive v hv).1 (hlive v hv).2 hpos.symm
    exact hnot hg v hv haddr
  · refine ⟨l, hl, rfl, fun hu => ⟨hu, rfl, ?_⟩⟩
    rintro p hp ⟨v, hv, rfl⟩
    -- the array is not locked, so no lock holds positions of its entries
    obtain ⟨rfl, -⟩ := (hR.lock g l hl).own hu _ _ _ (hlive v hv).1 (hlive v hv).2 hp
    cases hnone.symm.trans hl

lemma Inv.lockArray {id : ArrayID} {versionId : VersionID}
    (hstep : s.step cfg ccfg (.lockArray uaId id versionId) = some s') : s'.Inv cfg := by
  rw [step] at hstep
  split_ifs at hstep with hcond
  obtain ⟨hrun, hnone, huaId, hid⟩ := hcond
  cases hstep
  have hR := h.running hrun
  have hlocks : ∀ g, ({ s.setLock uaId (some ⟨id, versionId, false, false, ∅⟩) with nextId := id + 1 } : Server).locks g =
      if g = uaId then some ⟨id, versionId, false, false, ∅⟩ else s.locks g := fun g => locks_setLock
  have hlive : ∀ g addr, ({ s.setLock uaId (some ⟨id, versionId, false, false, ∅⟩) with
      nextId := id + 1 } : Server).Live g addr → s.Live g addr := by
    intro g addr hlive l hl hu
    by_cases hg : g = uaId
    · rw [hg, hnone] at hl
      cases hl
    · exact hlive l (by rw [hlocks, if_neg hg]; exact hl) hu
  refine h.of_running rfl (hid.trans (Nat.le_succ id)) h.file h.disk hrun ⟨hR.aligned, ?_, fun g l hl => ?_,
    fun g g' l l' hl hl' hne hu hu' => ?_⟩
  · refine hR.placed.of_subset le_rfl (fun g addr e he hl => ⟨he, hlive g addr hl⟩)
      (fun g addr e he hl => hR.placed.notFree g addr e he (hlive g addr hl)) fun g addr e _ _ hs => ⟨?_, fun h => h⟩
    intro l hl hf
    by_cases hg : g = uaId
    · rw [hg, hnone] at hl
      cases hl
    · exact hs l (by rw [hlocks, if_neg hg]; exact hl) hf
  · rw [hlocks] at hl
    split_ifs at hl with hg
    · cases hl
      refine ⟨hg ▸ huaId, Nat.lt_succ_self id, fun _ p hp => absurd hp (notMem_empty p),
        fun _ g' addr e _ _ hp => absurd hp (notMem_empty _), fun _ r hr _ hle => ?_⟩
      -- no record has the new id
      exact absurd ((h.ids r hr).trans_le hid) (not_lt.mpr hle)
    · have hok := hR.lock g l hl
      exact ⟨hok.uaId, hok.id.trans (Nat.lt_succ_of_le hid), hok.held,
        fun hu g' addr e he hl' => hok.own hu g' addr e he (hlive g' addr hl'), hok.records⟩
  · rw [hlocks] at hl hl'
    split_ifs at hl with hg
    · cases hl
      exact disjoint_empty_left _
    · split_ifs at hl' with hg'
      · cases hl'
        exact disjoint_empty_right _
      · exact hR.disjoint g g' l l' hl hl' hne hu hu'

end

lemma openStorage_spec {hd : HeaderFile} {undo : UndoLog} {mem : LoggedStorage} {recovering : Bool}
    (h : LoggedStorage.openStorage hd undo = some (mem, recovering)) :
    mem.undo = undo.opened ∧ mem.hd = hd ∧ mem.freeHeaders = ∅ ∧ mem.chunkMap = OrdMap.empty ∧
      (recovering = false ∧ mem.hdr = ⟨headerSize, 0⟩ ∨ recovering = true ∧ mem.hdr = hd.hdr ∧ hd.hdr.currPos ≠ 0) := by
  unfold LoggedStorage.openStorage at h
  simp only at h
  split_ifs at h with hlen hmagic hpos
  · cases h
    exact ⟨rfl, rfl, rfl, rfl, .inl ⟨rfl, rfl⟩⟩
  · cases h
    exact ⟨rfl, rfl, rfl, rfl, .inl ⟨rfl, rfl⟩⟩
  · cases h
    exact ⟨rfl, rfl, rfl, rfl, .inr ⟨rfl, rfl, hmagic⟩⟩

lemma Inv.crash (h : s.Inv cfg) (hstep : s.step cfg ccfg .crash = some s') : s'.Inv cfg := by
  rw [step] at hstep
  split at hstep
  case h_1 => cases hstep
  case h_2 mem recovering hopen =>
    cases hstep
    obtain ⟨hundo, hhd, hfree, hempty, hmem⟩ := openStorage_spec hopen
    have hrecords : mem.undo.records cfg = s.mem.undo.records cfg := by
      rw [hundo]
      rfl
    refine ⟨?_, ?_, ?_, ?_, h.disk, fun hrun => ?_, fun hrun => ?_⟩
    · rw [hundo]
      exact ⟨_, Reads.opened cfg s.mem.undo⟩
    · rw [hrecords]
      exact h.slots
    · rw [hrecords]
      exact h.ids
    · rw [hhd]
      exact h.disk
    · rcases hmem with ⟨-, hhdr⟩ | ⟨rfl, -⟩
      · refine ⟨⟨by rw [hhdr]; rfl, fun p hp => ?_⟩, placed_of_empty hempty, fun g l hl => ?_,
          fun g g' l l' hl => ?_⟩
        · rw [hfree] at hp
          exact absurd hp (notMem_empty p)
        · cases hl
        · cases hl
      · cases hrun
    · rcases hmem with ⟨rfl, -⟩ | ⟨-, hhdr, hpos⟩
      · cases hrun
      · refine ⟨hempty, ?_, fun p hp => ?_, fun p hp => ?_, fun g => rfl⟩
        · rw [hhdr]
          rcases h.disk with hzero | hknown
          · exact absurd (congrArg StorageHeader.currPos hzero) hpos
          · exact hknown
        · rw [hfree] at hp
          exact absurd hp (notMem_empty p)
        · rw [hfree] at hp
          exact absurd hp (notMem_empty p)

lemma Inv.recover (h : s.Inv cfg) (hsafe : (Action.recover U).Safe cfg s)
    (hstep : s.step cfg ccfg (.recover U) = some s') : s'.Inv cfg := by
  rw [step] at hstep
  split_ifs at hstep with hrun
  cases hstep
  rw [not_eq_true] at hrun
  have hrec := h.recovering hrun
  have hf := @Freed.foldl_undoRecord s.mem.toCachedStorage U (s.mem.undo.records cfg)
  have hknown : (s.mem.rollback cfg U).hd.hdr.Known := by
    rw [LoggedStorage.rollback, hf.file]
    exact h.file
  refine ⟨h.log, h.slots, h.ids, hknown, hknown, fun hr => absurd (hr.symm.trans hrun) (by decide), fun _ => ?_⟩
  refine ⟨hf.map.trans hrec.empty, ?_, fun p hp => ?_, fun p hp => ?_, hrec.noLocks⟩
  · rw [setFlushed, LoggedStorage.rollback, hf.hdr]
    exact hrec.currPos
  · have hlen := hf.len
    rw [setFlushed, LoggedStorage.rollback, hf.hdr]
    rcases (hf.free p).mp hp with hp | ⟨r, hr, hsel, rfl⟩
    · obtain ⟨j, hj, hpos, hin⟩ := hrec.free p hp
      exact ⟨j, hj, hpos, hin.trans hlen⟩
    · obtain ⟨j, hpos⟩ := h.slots r hr
      obtain ⟨hlt, hin⟩ := hsafe r hr hsel
      refine ⟨j, ?_, hpos, hin.trans hlen⟩
      rw [hrec.currPos, hpos] at hlt
      exact not_le.mp fun hle => not_lt.mpr (slotPos_mono hle) hlt
  · rcases (hf.free p).mp hp with hp | ⟨r, hr, hsel, rfl⟩
    · exact hf.unused p (hrec.unused p hp)
    · exact LoggedStorage.arrId_rollback hr hsel rfl

lemma Inv.start {cat : Catalog} {stores : ArrayUAID → DataStore} (hccfg : ccfg.enableChunkmapRecovery = false)
    (h : s.Inv cfg) (hstep : s.step cfg ccfg (.start cat stores) = some s') : s'.Inv cfg := by
  rw [step] at hstep
  split_ifs at hstep with hrun
  rw [not_eq_true] at hrun
  have hrec := h.recovering hrun
  split at hstep
  · rename_i st stores' hinit
    cases hstep
    obtain ⟨haligned, hplaced, hfile⟩ := placed_initChunkMap hccfg hrec.empty hrec.free hrec.unused hinit
    refine h.of_running rfl le_rfl (hfile.symm ▸ h.file) h.disk rfl ⟨haligned, ?_, fun g l hl => ?_, fun g g' l l' hl => ?_⟩
    · exact hplaced.of_subset le_rfl (fun _ _ _ he _ => ⟨he, trivial⟩) (fun g addr e he _ => hplaced.notFree g addr e he
        trivial) fun _ _ _ _ _ _ => ⟨trivial, fun h => h⟩
    · cases (hrec.noLocks g).symm.trans hl
    · cases (hrec.noLocks g).symm.trans hl
  · cases hstep

lemma Running.addsNone (h : s.Running cfg) (ha : AddsNone s.mem s'.mem) (hnext : s'.nextId = s.nextId)
    (hlock : ∀ g l, s'.locks g = some l → ∃ l0, s.locks g = some l0 ∧ l.id = l0.id ∧ l.undone = l0.undone ∧ l.held = l0.held)
    (hlive : ∀ g addr, s'.Live g addr → s.Live g addr) (hsettled : ∀ g addr, s'.Settled g addr → s.Settled g addr) :
    s'.Running cfg := by
  refine h.shrink ∅ ha.hdr ha.undo hnext (fun p hp => .inl (ha.free ▸ hp)) (fun p hp => absurd hp (Set.notMem_empty p))
    (fun g addr e he hl => ⟨(CachedStorage.Has.congr ha.map).mp he, hlive g addr hl, Set.notMem_empty _⟩)
    (fun g addr e _ _ hs => ⟨hsettled g addr hs, fun hsnd => hsnd.congr (congrFun ha.desc _)⟩) fun g l hl => ?_
  obtain ⟨l0, hl0, hid, hu, hheld⟩ := hlock g l hl
  exact ⟨l0, hl0, hid, fun hu' => ⟨hu ▸ hu', hheld, fun _ _ => Set.notMem_empty _⟩⟩

lemma Running.adds (h : s.Running cfg) {a : Addition} {l' : UpdateLock} (hadds : Adds cfg a s.mem s'.mem)
    (hnext : s'.nextId = s.nextId) (hl : s.locks a.adesc.uaId = some l) (hl' : s'.locks a.adesc.uaId = some l')
    (hothers : ∀ g, g ≠ a.adesc.uaId → s'.locks g = s.locks g) (hid : l.id = a.adesc.id) (hid' : l'.id = l.id)
    (hu : l.undone = false) (hheld : l'.held = insert s.mem.newHdrPos l.held)
    (hfailed : l'.failed = false → l.failed = false ∧ a.stop = .complete)
    (hrecords : ∀ r ∈ s'.mem.undo.records cfg, r ∈ s.mem.undo.records cfg ∨ r = a.adesc.logRecord cfg (a.placed s.mem).hdr) :
    s'.Running cfg := by
  have hok := h.lock _ l hl
  have haddr : a.desc.getAddress.arrId = l.id := a.arrId_eq.trans hid.symm
  have hlive : ∀ g addr, s'.Live g addr → s.Live g addr := by
    intro g addr hlive l1 hl1 hu1
    by_cases hg : g = a.adesc.uaId
    · rw [hg, hl] at hl1
      cases hl1
      cases hu.symm.trans hu1
    · exact hlive l1 ((hothers g hg).trans hl1) hu1
  have hsettled : ∀ g addr, s'.Settled g addr → s.Settled g addr := by
    intro g addr hs l1 hl1 hf
    by_cases hg : g = a.adesc.uaId
    · rw [hg, hl] at hl1
      cases hl1
      rw [← hid']
      refine hs l' (hg ▸ hl') ?_
      by_contra hf'
      exact absurd (hfailed (not_eq_true _ ▸ hf')).1 (by rw [hf]; decide)
    · exact hs l1 ((hothers g hg).trans hl1) hf
  have hdescribed : s'.Settled a.adesc.uaId a.desc.getAddress → a.Described := by
    intro hs
    cases hf : l'.failed with
    | true => exact absurd (haddr.trans hid'.symm) (hs l' hl' hf)
    | false => exact Or.inr (hfailed hf).2
  have hentry : (a.placed s.mem).entry.hdrPos = s.mem.newHdrPos := ChunkDescriptor.hdrPos_entry _
  have hhas : ∀ g addr e, s'.mem.Has g addr e → s'.Live g addr →
      (g = a.adesc.uaId ∧ addr = a.desc.getAddress) ∧ e.hdrPos = s.mem.newHdrPos ∨
        s.mem.Has g addr e ∧ s.Live g addr ∧ e.hdrPos ≠ s.mem.newHdrPos := by
    intro g addr e he hl
    rw [CachedStorage.Has, hadds.map] at he
    split_ifs at he with hga
    · exact Or.inl ⟨hga, by rw [← some_inj.mp he, hentry]⟩
    · exact Or.inr ⟨he, hlive g addr hl, h.placed.hdrPos_ne h.aligned he (hlive g addr hl)⟩
  -- what a lock holds stays held, and is not taken
  have hheldOk : ∀ g l1, s.locks g = some l1 → l1.undone = false → ∀ p ∈ l1.held, p ≠ s.mem.newHdrPos ∧
      (∃ j < s'.mem.hdr.nChunks, p = slotPos j) ∧ p ∉ s'.mem.freeHeaders := by
    intro g l1 hl1 hu1 p hp
    obtain ⟨⟨j, hj, hpos⟩, hnot⟩ := (h.lock g l1 hl1).held hu1 p hp
    rw [hadds.hdr, hadds.free]
    exact ⟨(h.aligned.taken hj hpos hnot).ne_newHdrPos.symm,
      ⟨j, hj.trans_le (CachedStorage.Aligned.nChunks_le_takeHdrPos _), hpos⟩,
      fun hmem => hnot (CachedStorage.mem_takeHdrPos.mp hmem).2⟩
  refine ⟨h.aligned.takeHdrPos.congr hadds.hdr hadds.free, h.placed.adds h.aligned hadds
    (fun g addr hl _ => hlive g addr hl) (fun g addr hs _ => hsettled g addr hs) hdescribed, fun g l1 hl1 => ?_,
    fun g g' l1 l2 hl1 hl2 hne hu1 hu2 => ?_⟩
  · by_cases hg : g = a.adesc.uaId
    · subst hg
      obtain rfl := some_inj.mp (hl'.symm.trans hl1)
      refine ⟨hok.uaId, by rw [hid', hnext]; exact hok.id, fun _ p hp => ?_, fun _ g' addr e he hlive' hp => ?_,
        fun _ r hr hguid hle => ?_⟩
      · rw [hheld, mem_insert] at hp
        rcases hp with rfl | hp
        · rw [hadds.hdr, hadds.free]
          exact ⟨h.aligned.newHdrPos, fun hmem => (CachedStorage.mem_takeHdrPos.mp hmem).1 rfl⟩
        · exact (hheldOk _ l hl hu p hp).2
      · rw [hid']
        rcases hhas g' addr e he hlive' with ⟨⟨rfl, rfl⟩, -⟩ | ⟨he, hlive', hne⟩
        · exact ⟨rfl, haddr⟩
        · rw [hheld, mem_insert] at hp
          exact hok.own hu g' addr e he hlive' (hp.resolve_left hne)
      · rw [hheld, mem_insert]
        rcases hrecords r hr with hr | rfl
        · exact Or.inr (hok.records hu r hr hguid (hid' ▸ hle))
        · exact Or.inl rfl
    · rw [hothers g hg] at hl1
      have hok1 := h.lock g l1 hl1
      refine ⟨hok1.uaId, by rw [hnext]; exact hok1.id, fun hu1 p hp => (hheldOk g l1 hl1 hu1 p hp).2,
        fun hu1 g' addr e he hlive' hp => ?_, fun hu1 r hr hguid hle => ?_⟩
      · rcases hhas g' addr e he hlive' with ⟨-, hpos⟩ | ⟨he, hlive', -⟩
        · exact absurd hpos (hheldOk g l1 hl1 hu1 _ hp).1
        · exact hok1.own hu1 g' addr e he hlive' hp
      · rcases hrecords r hr with hr | rfl
        · exact hok1.records hu1 r hr hguid hle
        · exact absurd hguid.symm hg
  · have hdisj : ∀ g1 l1, g1 ≠ a.adesc.uaId → s'.locks g1 = some l1 → l1.undone = false → Disjoint l1.held l'.held := by
      intro g1 l1 hg1 hl1 hu1
      rw [hothers g1 hg1] at hl1
      rw [hheld, disjoint_insert_right]
      exact ⟨fun hp => (hheldOk g1 l1 hl1 hu1 _ hp).1 rfl, h.disjoint _ _ _ _ hl1 hl hg1 hu1 hu⟩
    by_cases hg : g = a.adesc.uaId
    · subst hg
      obtain rfl := some_inj.mp (hl'.symm.trans hl1)
      exact (hdisj g' l2 hne.symm hl2 hu2).symm
    · by_cases hg' : g' = a.adesc.uaId
      · subst hg'
        obtain rfl := some_inj.mp (hl'.symm.trans hl2)
        exact hdisj g l1 hg hl1 hu1
      · rw [hothers g hg] at hl1
        rw [hothers g' hg'] at hl2
        exact h.disjoint g g' l1 l2 hl1 hl2 hne hu1 hu2

lemma Inv.write {op : WriteOp} (h : s.Inv cfg) (hstep : s.step cfg ccfg (.write op) = some s') : s'.Inv cfg := by
  rw [step] at hstep
  split_ifs at hstep with hrun
  have hR := h.running hrun
  have hspec := op.exec_spec cfg s.mem
  have hby : op.By fun adesc => op.versionDesc? = some adesc := by
    cases op <;> trivial
  cases hv : op.versionDesc? with
  | none =>
    rw [hv] at hstep
    cases hstep
    cases ha : op.addition? s.mem with
    | some a => cases hv.symm.trans (hby.addition ha)
    | none =>
      rw [ha] at hspec
      exact h.of_running hspec.undo le_rfl (hspec.known h.file hR.aligned.known) h.disk hrun (hR.addsNone hspec rfl
        (fun g l hl => ⟨l, hl, rfl, rfl, rfl⟩) (fun _ _ hl => hl) fun _ _ hs => hs)
  | some adesc =>
    rw [hv] at hstep
    simp only at hstep
    split at hstep
    case h_1 => cases hstep
    case h_2 l hl =>
      split_ifs at hstep with hcond
      obtain ⟨hid, -, hu⟩ := hcond
      rw [not_eq_true] at hu
      cases hstep
      cases ha : op.addition? s.mem with
      | none =>
        rw [ha] at hspec
        have hafter : l.after s.mem op = { l with failed := true } := by rw [UpdateLock.after, ha]
        refine h.of_running hspec.undo le_rfl (hspec.known h.file hR.aligned.known) h.disk hrun (hR.addsNone hspec rfl
          (fun g l1 hl1 => ?_) (fun g addr hlive l1 hl1 hu1 => ?_) fun g addr hs l1 hl1 hf => ?_)
        · rw [locks_setLock, hafter] at hl1
          split_ifs at hl1 with hg
          · cases hl1
            exact ⟨l, hg ▸ hl, rfl, rfl, rfl⟩
          · exact ⟨l1, hl1, rfl, rfl, rfl⟩
        · rcases locks_setLock_or hl hl1 with ⟨-, rfl⟩ | hl1
          · cases hu.symm.trans hu1
          · exact hlive l1 hl1 hu1
        · rcases locks_setLock_or hl hl1 with ⟨hg, rfl⟩ | hl1
          · exact hs { l1 with failed := true } (by rw [locks_setLock, if_pos hg, hafter]) rfl
          · exact hs l1 hl1 hf
      | some a =>
        rw [ha] at hspec
        obtain rfl := some_inj.mp (hv.symm.trans (hby.addition ha))
        have hafter : l.after s.mem op = { l with
            failed := l.failed || a.stop ≠ .complete, held := insert s.mem.newHdrPos l.held } := by
          rw [UpdateLock.after, ha]
        have hok := hR.lock _ l hl
        obtain ⟨log, hlog⟩ := h.log
        obtain ⟨hreads, hrecords⟩ := hspec.reads hok.uaId hlog
        have hnew : (op.exec cfg s.mem).Aligned := hR.aligned.takeHdrPos.congr hspec.hdr hspec.free
        refine ⟨hreads, fun r hr => ?_, fun r hr => ?_, hspec.known h.file hnew.known, h.disk, fun _ => ?_,
          fun hr => absurd (hr.symm.trans hrun) (by decide)⟩
        · rcases hrecords r hr with hr | rfl
          · exact h.slots r hr
          · obtain ⟨j, -, hpos⟩ := hR.aligned.newHdrPos
            exact ⟨j, hpos⟩
        · rcases hrecords r hr with hr | rfl
          · exact h.ids r hr
          · exact hid.symm.trans_lt hok.id
        · refine hR.adds hspec rfl hl (by rw [locks_setLock, if_pos rfl]) (fun g hg => ?_) hid ?_ hu ?_ ?_ hrecords
          · rw [locks_setLock, if_neg hg]
            rfl
          · rw [hafter]
          · rw [hafter]
          · rw [hafter]
            simp

lemma inv_init : init.Inv cfg := by
  have hrecords : emptyStorage.undo.records cfg = [] := rfl
  refine ⟨⟨_, Reads.opened cfg emptyStorage.undo⟩, fun r hr => ?_, fun r hr => ?_, .inl rfl, .inl rfl, fun _ => ?_,
    fun hr => by cases hr⟩
  · cases hrecords ▸ hr
  · cases hrecords ▸ hr
  · refine ⟨⟨rfl, fun p hp => absurd hp (notMem_empty p)⟩, placed_of_empty rfl, fun g l hl => ?_,
      fun g g' l l' hl => ?_⟩
    · cases hl
    · cases hl

lemma Inv.step {a : Action} (hccfg : ccfg.enableChunkmapRecovery = false) (h : s.Inv cfg)
    (hsafe : a.Safe cfg s) (hstep : s.step cfg ccfg a = some s') : s'.Inv cfg := by
  cases a with
  | lockArray uaId id versionId => exact h.lockArray hstep
  | write op => exact h.write hstep
  | flush => exact h.flush hstep
  | commit uaId => exact h.commit hstep
  | rollback uaId => exact h.rollback hsafe hstep
  | release uaId => exact h.release hstep
  | removeVersions uaId lastLiveArrId => exact h.removeVersions hstep
  | crash => exact h.crash hstep
  | recover undoUpdates => exact h.recover hsafe hstep
  | start cat stores => exact h.start hccfg hstep

lemma Reachable.inv (hccfg : ccfg.enableChunkmapRecovery = false) (h : Reachable cfg ccfg s) : s.Inv cfg :=
  h.invariant inv_init fun _ _ _ ih hsafe hstep => ih.step hccfg hsafe hstep

end Server

/-- **Descriptor slots are never shared**, in every run with crashes whose rollbacks are safe. -/
theorem reachable_slots (hccfg : ccfg.enableChunkmapRecovery = false)
    (h : Server.Reachable cfg ccfg s) (hrun : s.running = true) : (∀ p ∈ s.mem.freeHeaders, p < s.mem.hdr.currPos) ∧
      ∀ (op : WriteOp) (a : Addition), op.addition? s.mem = some a → ¬ s.LiveAt (a.placed s.mem).hdr.pos.hdrPos := by
  have hR := (h.inv hccfg).running hrun
  refine ⟨hR.aligned.slotsBelow, fun op a _ hlive => ?_⟩
  obtain ⟨g, addr, e, he, hl, hpos⟩ := hlive
  exact hR.placed.hdrPos_ne hR.aligned he hl hpos

/-- A version of array 11. -/
def thirdVersion : VersionDesc := ⟨11, 12, 1⟩

def sharedRun : List Action :=
  [.lockArray 7 8 1, .write (sampleWrite sampleVersion 0), .commit 7, .lockArray 9 10 1,
    .write (sampleWrite otherVersion 0), .crash, .recover (OrdMap.empty.assign 9 (10, 0)),
    .start sampleCatalog fun _ => fullStore, .lockArray 11 12 1, .write (sampleWrite thirdVersion 0)]

/-- The next chunk of array 11 is placed on the one just written. -/
theorem sharedRun_shares : ∃ s, Server.init.exec sampleLog ⟨false, false⟩ sharedRun = some s ∧ s.running = true ∧
    ∃ a, (sampleWrite thirdVersion 1).addition? s.mem = some a ∧ s.LiveAt (a.placed s.mem).hdr.pos.hdrPos := by
  obtain ⟨s, hs⟩ := isSome_iff_exists.mp (by decide +kernel : (Server.init.exec sampleLog ⟨false, false⟩ sharedRun).isSome = true)
  have hfacts : (Server.init.exec sampleLog ⟨false, false⟩ sharedRun).map (fun s => (s.running, s.mem.newHdrPos,
      (s.locks 11).map UpdateLock.undone, ((s.mem.inner 11).find? ⟨0, [0], 12⟩).map InnerChunkMapEntry.hdrPos,
      ((s.mem.inner 11).find? ⟨0, [1], 12⟩).isNone)) =
      some (true, slotPos 1, some false, some (slotPos 1), true) := by
    decide +kernel
  rw [hs, map_some, some_inj] at hfacts
  simp only [Prod.mk.injEq, map_eq_some_iff] at hfacts
  obtain ⟨hrun, hpos, ⟨l, hl, hu⟩, ⟨e, he, hepos⟩, hnone⟩ := hfacts
  refine ⟨s, hs, hrun, .chunk thirdVersion ⟨0, [1], 0, 0, 512⟩ .complete, ?_, 11, ⟨0, [0], 12⟩, e, he, ?_, ?_⟩
  · have hfind : (s.mem.inner thirdVersion.uaId).find? ((NewChunk.mk 0 [1] 0 0 512).desc thirdVersion).getAddress =
        none := isNone_iff_eq_none.mp hnone
    rw [sampleWrite, WriteOp.addition?, hfind]
  · intro l' hl' hu'
    rw [hl] at hl'
    cases hl'
    cases hu.symm.trans hu'
  · exact hepos.trans hpos.symm

theorem flushedRun_slots : ∃ s, Server.init.exec sampleLog ⟨false, false⟩ [.lockArray 9 10 1,
      .write (sampleWrite otherVersion 0), .flush, .crash, .recover (OrdMap.empty.assign 9 (10, 0)),
      .start sampleCatalog fun _ => fullStore] = some s ∧ (∀ p ∈ s.mem.freeHeaders, p < s.mem.hdr.currPos) ∧
      ∀ (op : WriteOp) (a : Addition), op.addition? s.mem = some a → ¬ s.LiveAt (a.placed s.mem).hdr.pos.hdrPos := by
  have h₀ : Server.Reachable sampleLog ⟨false, false⟩ .init := .start
  have h₁ := h₀.step (a := Action.lockArray 9 10 1) trivial rfl
  have h₂ := h₁.step (a := Action.write (sampleWrite otherVersion 0)) trivial rfl
  have h₃ := h₂.step (a := Action.flush) trivial rfl
  have h₄ := h₃.step (a := Action.crash) trivial rfl
  have h₅ := h₄.step (a := Action.recover (OrdMap.empty.assign 9 (10, 0))) (by unfold Action.Safe; decide +kernel) rfl
  have h₆ := h₅.step (a := Action.start sampleCatalog fun _ => fullStore) trivial rfl
  exact ⟨_, rfl, reachable_slots rfl h₆ rfl⟩

end SciDB.Smgr
