import SciDB.Smgr.RemoveVersions
import SciDB.Smgr.Rollback

/-!
# What is given back to the data stores

Four places call `DataStore::freeChunk`. Each decides for itself whether the descriptor is a tombstone, which has no block, but
for the branch of `initChunkMap` for those that are dead on arrival.
-/

namespace SciDB.Smgr

open SciDB.Lib SciDB.Util List

/-- The header as `writeChunk` or `removeLocalChunkVersion` writes it. -/
structure ChunkHeader.Written (hdr : ChunkHeader) : Prop where
  size : hdr.isTombstone = false → ∃ k, hdr.allocatedSize = 2 ^ k
  tombstone : hdr.isTombstone = true → hdr.pos.offs = 0 ∧ hdr.allocatedSize = 0

/-- It frees a chunk of `hdrs`. -/
def FreeCall.Proper (hdrs : ChunkHeader → Prop) (c : FreeCall) : Prop :=
  ∃ hdr, hdrs hdr ∧ hdr.isTombstone = false ∧ c = hdr.freeCall ∧ ∃ k, c.allocated = 2 ^ k

/-- A header of the file. -/
def HeaderFile.Has (hd : HeaderFile) (hdr : ChunkHeader) : Prop := ∃ i, InUse hd i ∧ hdr = (hd.slot i).hdr

/-- The headers in the logs. -/
def UndoLog.Has (cfg : LogConfig) (u : UndoLog) (hdr : ChunkHeader) : Prop := ∃ r ∈ u.records cfg, hdr = r.hdr

/-- The calls of `freeChunk` that the scan of `initChunkMap` makes if all of them return, and none if the scan throws. -/
def initCalls (cat : Catalog) (cfg : ChunkmapConfig) (hd : HeaderFile) : List FreeCall :=
  match scanFrom cat cfg hd.hdr.nChunks 0 ⟨beforeRecovery hd, OrdMap.empty, ∅⟩ with
  | .error _ => []
  | .ok (st, _) => st.store.calls

variable {cat : Catalog} {ccfg : ChunkmapConfig} {cfg : LogConfig} {hd : HeaderFile} {k i : ℕ} {calls : List FreeCall}
  {c : FreeCall} {s : LoggedStorage} {U : RollbackMap} {uaId : ArrayUAID} {lastLiveArrId : ArrayID}

lemma proper_freeCall (hw : ∀ i, InUse hd i → (hd.slot i).hdr.Written) (hi : InUse hd i)
    (ht : (hd.slot i).hdr.isTombstone = false) : (hd.slot i).hdr.freeCall.Proper hd.Has :=
  ⟨_, ⟨i, hi, rfl⟩, ht, rfl, (hw i hi).size ht⟩

lemma Trace.proper_iff (hw : ∀ i, InUse hd i → (hd.slot i).hdr.Written) (h : Trace cat hd k calls) :
    (∀ c ∈ calls, c.Proper hd.Has) ↔ ∀ i < k, ¬ (DeadOnArrival cat hd i ∧ (hd.slot i).hdr.isTombstone = true) := by
  induction h with
  | zero => simp
  | succ _ heff ih =>
    rw [forall_mem_append, ih, Nat.forall_lt_succ_right]
    refine and_congr_right fun _ => ?_
    rcases heff.cases with ⟨rfl, -, hnot⟩ | ⟨j, hj, hjt, -, rfl, -, hnot⟩ | ⟨rfl, -, hdoa, ht⟩
    · exact iff_of_true (fun c hc => absurd hc not_mem_nil) hnot
    · refine iff_of_true (fun c hc => ?_) hnot
      rw [mem_singleton.mp hc]
      exact proper_freeCall hw ⟨hj.1, hj.2.1⟩ hjt
    · -- a tombstone has no block
      refine iff_of_false (fun hall => ?_) fun hnot => hnot ⟨hdoa, ht⟩
      obtain ⟨-, -, -, -, e, he⟩ := hall _ mem_cons_self
      have hzero : (2 : ℕ) ^ e = 0 := he.symm.trans ((hw _ ⟨hdoa.1.1, hdoa.1.2.1⟩).tombstone ht).2
      exact (Nat.two_pow_pos e).ne' hzero

lemma initCalls_proper_iff (hu : UniqueSlots cat hd) (hw : ∀ i, InUse hd i → (hd.slot i).hdr.Written)
    (hlen : slotPos hd.hdr.nChunks ≤ hd.len) : (∀ c ∈ initCalls cat ccfg hd, c.Proper hd.Has) ↔
      ∀ i < hd.hdr.nChunks, ¬ (DeadOnArrival cat hd i ∧ (hd.slot i).hdr.isTombstone = true) := by
  obtain ⟨st, calls, hscan, -, hcalls, htrace⟩ := @scan_spec cat ccfg (beforeRecovery hd) hu rfl _ hlen
  rw [initCalls, hscan]
  simp only [hcalls]
  exact htrace.proper_iff hw

lemma mem_calls_markChunkAsFree {e : StorageAddress × InnerChunkMapEntry} (hw : (s.hd.slot i).hdr.Written)
    (he : EntryAt s.hd uaId i e) (hc : c ∈ (s.markChunkAsFree e.2 uaId).calls) : c ∈ s.calls ∨ c.Proper s.hd.Has := by
  obtain ⟨hi, rfl, -, hentry⟩ := he
  have hdesc : s.hd.desc (s.hd.slot i).hdr.pos.hdrPos = s.hd.slot i := by
    rw [hi.1]
    rfl
  rw [← hentry, CachedStorage.markChunkAsFree_entry _ _ hdesc] at hc
  refine (mem_append.mp hc).imp_right fun hc => ?_
  split_ifs at hc with ht
  · cases hc
  · rw [mem_singleton.mp hc]
    rw [Bool.not_eq_true] at ht
    exact ⟨_, ⟨i, hi, rfl⟩, ht, rfl, hw.size ht⟩

lemma mem_calls_removeVersions (hm : Mirrors s.toCachedStorage)
    (hw : ∀ i, InUse s.hd i → (s.hd.slot i).hdr.Written) (hc : c ∈ (s.removeVersions uaId lastLiveArrId).calls) :
    c ∈ s.calls ∨ c.Proper s.hd.Has := by
  obtain ⟨s', hmarked, -, hcalls, -, -⟩ := hm.removeVersions_marked uaId lastLiveArrId
  rw [hcalls] at hc
  refine (hmarked.calls c hc).imp_right ?_
  rintro ⟨i, hi, ht, rfl⟩
  exact proper_freeCall hw hi ht

lemma mem_calls_foldl_undoRecord {st : CachedStorage} {rs : List TransLogRecord} (hc : c ∈ (rs.foldl (undoRecord U) st).calls) :
    c ∈ st.calls ∨ ∃ r ∈ rs, r.hdr.isTombstone = false ∧ c = r.hdr.freeCall := by
  induction rs generalizing st with
  | nil => exact .inl hc
  | cons r rs ih =>
    rcases ih hc with hc | ⟨r', hr', hrest⟩
    · rw [undoRecord] at hc
      cases hsel : U.undoes r.arrayUAID r.arrayId with
      | none =>
        rw [hsel] at hc
        exact .inl hc
      | some last =>
        rw [hsel] at hc
        simp only at hc
        split_ifs at hc with hcond
        · rcases mem_append.mp hc with hc | hc
          · exact .inl hc
          · exact .inr ⟨r, mem_cons_self, Bool.not_eq_true _ ▸ hcond.1, mem_singleton.mp hc⟩
        · exact .inl hc
    · exact .inr ⟨r', mem_cons_of_mem r hr', hrest⟩

lemma mem_calls_rollback (hw : ∀ r ∈ s.undo.records cfg, r.hdr.Written) (hc : c ∈ (s.rollback cfg U).calls) :
    c ∈ s.calls ∨ c.Proper (s.undo.Has cfg) := by
  refine (mem_calls_foldl_undoRecord hc).imp_right ?_
  rintro ⟨r, hr, ht, rfl⟩
  exact ⟨r.hdr, ⟨r, hr, rfl⟩, ht, rfl, (hw r hr).size ht⟩

/-- **Only blocks of chunks are given back if and only if no tombstone is dead on arrival.** -/
theorem freeCalls_proper_iff (hm : Mirrors s.toCachedStorage) (hu : UniqueSlots cat s.hd)
    (hw : ∀ i, InUse s.hd i → (s.hd.slot i).hdr.Written) (hlog : ∀ r ∈ s.undo.records cfg, r.hdr.Written) :
    ((∀ c ∈ initCalls cat ccfg s.hd, c.Proper s.hd.Has) ∧
      (∀ uaId i e, EntryAt s.hd uaId i e → ∀ c ∈ (s.markChunkAsFree e.2 uaId).calls, c ∈ s.calls ∨ c.Proper s.hd.Has) ∧
      (∀ uaId lastLiveArrId, ∀ c ∈ (s.removeVersions uaId lastLiveArrId).calls, c ∈ s.calls ∨ c.Proper s.hd.Has) ∧
      ∀ U, ∀ c ∈ (s.rollback cfg U).calls, c ∈ s.calls ∨ c.Proper (s.undo.Has cfg)) ↔
      ∀ i < s.hdr.nChunks, ¬ (DeadOnArrival cat s.hd i ∧ (s.hd.slot i).hdr.isTombstone = true) := by
  have hinit := @initCalls_proper_iff cat ccfg s.hd hu hw (by rw [hm.hdr]; exact hm.len)
  rw [hm.hdr] at hinit
  constructor
  · intro h
    exact hinit.mp h.1
  · intro h
    exact ⟨hinit.mpr h, fun _ i _ he _ hc => mem_calls_markChunkAsFree (hw i he.1) he hc,
      fun _ _ _ hc => mem_calls_removeVersions hm hw hc, fun _ _ hc => mem_calls_rollback hlog hc⟩

theorem tombstoneFirst_initCalls_proper : WellFormed sampleCatalog tombstoneFirst ∧
    ∀ c ∈ initCalls sampleCatalog ⟨false, false⟩ tombstoneFirst, c.Proper tombstoneFirst.Has := by
  have hw : ∀ i, InUse tombstoneFirst i → (tombstoneFirst.slot i).hdr.Written := by
    intro i hi
    have hlive : LiveSlot sampleCatalog tombstoneFirst i := ⟨hi.1, hi.2, rfl⟩
    exact ⟨wellFormed_tombstoneFirst.size i hlive, wellFormed_tombstoneFirst.tombstone i hlive⟩
  refine ⟨wellFormed_tombstoneFirst, ((@freeCalls_proper_iff sampleCatalog ⟨false, false⟩ sampleLog
    ⟨sampleStorage, emptyStorage.undo⟩ mirrors_sampleStorage wellFormed_tombstoneFirst.unique hw
    fun r hr => ?_).mpr fun i hi hdoa => ?_).1⟩
  · exact absurd hr not_mem_nil
  · obtain ⟨⟨hlive, j, hj, -⟩, ht⟩ := hdoa
    rcases liveSlot_twoSlotFile hlive with rfl | rfl
    · exact Nat.not_lt_zero j hj
    · exact absurd ht (by decide)

/-- In the other order, recovery frees offset `0` on behalf of the tombstone, with size `0`. -/
theorem chunkFirst_initCalls :
    WellFormed sampleCatalog chunkFirst ∧ FreeCall.mk 7 0 0 ∈ initCalls sampleCatalog ⟨false, false⟩ chunkFirst ∧
      ¬ (FreeCall.mk 7 0 0).Proper chunkFirst.Has := by
  refine ⟨wellFormed_chunkFirst, by decide +kernel, ?_⟩
  rintro ⟨-, -, -, -, k, hk⟩
  exact (Nat.two_pow_pos k).ne hk

end SciDB.Smgr
