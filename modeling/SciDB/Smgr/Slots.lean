import SciDB.Smgr.Server

/-!
# Positions of descriptors

`Placed`: no two entries of the chunk map share a position in the header file, and none of the positions is free; entries that
wait to be removed are left out by a predicate `L`. Writes that failed may violate `S`.
-/

namespace SciDB.Smgr

open SciDB.Lib SciDB.Util List Function Nat

/-- Where its descriptor is. -/
def InnerChunkMapEntry.hdrPos : InnerChunkMapEntry → ℕ
  | .normal hdr => hdr.pos.hdrPos
  | .tombstone hdrPos => hdrPos
  | .invalid hdrPos => hdrPos

/-- Freeing the entry frees its position: a tombstone is freed as its descriptor says. -/
def InnerChunkMapEntry.Sound (hd : HeaderFile) : InnerChunkMapEntry → Prop
  | .normal _ => True
  | .tombstone hdrPos => (hd.desc hdrPos).hdr.pos.hdrPos = hdrPos
  | .invalid hdrPos => (hd.desc hdrPos).hdr.pos.hdrPos = hdrPos

/-- The entry is in the chunk map. -/
def CachedStorage.Has (st : CachedStorage) (g : ArrayUAID) (addr : StorageAddress) (e : InnerChunkMapEntry) : Prop :=
  (st.inner g).find? addr = some e

/-- The entries with `L` have positions of their own, among the first `n`. -/
structure Placed (L S : ArrayUAID → StorageAddress → Prop) (n : ℕ) (st : CachedStorage) : Prop where
  slot : ∀ g addr e, st.Has g addr e → L g addr → ∃ j < n, e.hdrPos = slotPos j
  notFree : ∀ g addr e, st.Has g addr e → L g addr → e.hdrPos ∉ st.freeHeaders
  inj : ∀ g addr e g' addr' e', st.Has g addr e → L g addr → st.Has g' addr' e' → L g' addr' →
    e.hdrPos = e'.hdrPos → g = g' ∧ addr = addr'
  sound : ∀ g addr e, st.Has g addr e → L g addr → S g addr → e.Sound st.hd

variable {L L' S S' : ArrayUAID → StorageAddress → Prop} {n n' k : ℕ} {st st' : CachedStorage} {g : ArrayUAID}
  {addr : StorageAddress} {e : InnerChunkMapEntry} {p : ℕ}

lemma CachedStorage.Has.congr (h : st'.chunkMap = st.chunkMap) : st'.Has g addr e ↔ st.Has g addr e := by
  rw [Has, Has, inner, inner, h]

lemma InnerChunkMapEntry.Sound.congr {hd hd' : HeaderFile} (h : e.Sound hd) (hdesc : hd'.desc e.hdrPos = hd.desc e.hdrPos) :
    e.Sound hd' := by
  cases e with
  | normal hdr => trivial
  | tombstone q =>
    rwa [Sound, show hd'.desc q = hd.desc q from hdesc]
  | invalid q =>
    rwa [Sound, show hd'.desc q = hd.desc q from hdesc]

lemma ChunkDescriptor.hdrPos_entry (desc : ChunkDescriptor) : desc.entry.hdrPos = desc.hdr.pos.hdrPos := by
  unfold entry
  split_ifs <;> rfl

lemma ChunkDescriptor.sound_entry {desc : ChunkDescriptor} {hd : HeaderFile}
    (h : hd.desc desc.hdr.pos.hdrPos = desc) : desc.entry.Sound hd := by
  unfold entry
  split_ifs
  · rw [InnerChunkMapEntry.Sound, h]
  · trivial

open CachedStorage

lemma placed_of_empty (h : st.chunkMap = OrdMap.empty) : Placed L S n st := by
  have hnone : ∀ g addr e, ¬ st.Has g addr e := by
    intro g addr e he
    rw [CachedStorage.Has, CachedStorage.inner, h] at he
    cases he
  exact ⟨fun g addr e he => absurd he (hnone g addr e), fun g addr e he => absurd he (hnone g addr e),
    fun g addr e _ _ _ he => absurd he (hnone g addr e), fun g addr e he => absurd he (hnone g addr e)⟩

namespace Placed

lemma of_subset (h : Placed L S n st) (hn : n ≤ n')
    (hsub : ∀ g addr e, st'.Has g addr e → L' g addr → st.Has g addr e ∧ L g addr)
    (hfree : ∀ g addr e, st'.Has g addr e → L' g addr → e.hdrPos ∉ st'.freeHeaders)
    (hsound : ∀ g addr e, st'.Has g addr e → L' g addr → S' g addr → S g addr ∧ (e.Sound st.hd → e.Sound st'.hd)) :
    Placed L' S' n' st' := by
  refine ⟨fun g addr e he hl => ?_, hfree, fun g addr e g' addr' e' he hl he' hl' => ?_, fun g addr e he hl hs => ?_⟩
  · obtain ⟨he, hl⟩ := hsub g addr e he hl
    obtain ⟨j, hj, hpos⟩ := h.slot g addr e he hl
    exact ⟨j, hj.trans_le hn, hpos⟩
  · obtain ⟨he, hl⟩ := hsub g addr e he hl
    obtain ⟨he', hl'⟩ := hsub g' addr' e' he' hl'
    exact h.inj g addr e g' addr' e' he hl he' hl'
  · obtain ⟨hs, hkeep⟩ := hsound g addr e he hl hs
    obtain ⟨he, hl⟩ := hsub g addr e he hl
    exact hkeep (h.sound g addr e he hl hs)

lemma mono (h : Placed L S n st) (hn : n ≤ n') : Placed L S n' st :=
  h.of_subset hn (fun _ _ _ he hl => ⟨he, hl⟩) h.notFree fun _ _ _ _ _ hs => ⟨hs, id⟩

lemma insert_entry (h : Placed L S n st) (g0 : ArrayUAID) (a0 : StorageAddress) (e0 : InnerChunkMapEntry)
    (hpos : ∃ j < n', e0.hdrPos = slotPos j) (hn : n ≤ n')
    (hmap : ∀ g addr e, st'.Has g addr e → (g = g0 ∧ addr = a0) ∧ e = e0 ∨ ¬ (g = g0 ∧ addr = a0) ∧ st.Has g addr e)
    (hL : ∀ g addr, L' g addr → ¬ (g = g0 ∧ addr = a0) → L g addr)
    (hfree : st'.freeHeaders ⊆ st.freeHeaders) (hnew : e0.hdrPos ∉ st'.freeHeaders)
    (hother : ∀ g addr e, st.Has g addr e → L g addr → e.hdrPos ≠ e0.hdrPos)
    (hS : ∀ g addr, S' g addr → ¬ (g = g0 ∧ addr = a0) → S g addr)
    (hsound : ∀ g addr e, st.Has g addr e → L g addr → e.Sound st.hd → e.Sound st'.hd) (hsound0 : S' g0 a0 → e0.Sound st'.hd) :
    Placed L' S' n' st' := by
  refine ⟨fun g addr e he hl => ?_, fun g addr e he hl => ?_, fun g addr e g' addr' e' he hl he' hl' heq => ?_,
    fun g addr e he hl hs => ?_⟩
  · rcases hmap g addr e he with ⟨-, rfl⟩ | ⟨hne, he⟩
    · exact hpos
    · obtain ⟨j, hj, hpos⟩ := h.slot g addr e he (hL g addr hl hne)
      exact ⟨j, hj.trans_le hn, hpos⟩
  · rcases hmap g addr e he with ⟨-, rfl⟩ | ⟨hne, he⟩
    · exact hnew
    · exact fun hmem => h.notFree g addr e he (hL g addr hl hne) (hfree hmem)
  · rcases hmap g addr e he with ⟨⟨rfl, rfl⟩, rfl⟩ | ⟨hne, he⟩ <;>
      rcases hmap g' addr' e' he' with ⟨⟨rfl, rfl⟩, rfl⟩ | ⟨hne', he'⟩
    · exact ⟨rfl, rfl⟩
    · exact absurd heq.symm (hother g' addr' e' he' (hL g' addr' hl' hne'))
    · exact absurd heq (hother g addr e he (hL g addr hl hne))
    · exact h.inj g addr e g' addr' e' he (hL g addr hl hne) he' (hL g' addr' hl' hne') heq
  · rcases hmap g addr e he with ⟨⟨rfl, rfl⟩, rfl⟩ | ⟨hne, he⟩
    · exact hsound0 hs
    · have hl := hL g addr hl hne
      exact hsound g addr e he hl (h.sound g addr e he hl (hS g addr hs hne))

end Placed

section Wipe

variable {hdr : ChunkHeader}

lemma CachedStorage.desc_wipe : (st.wipe hdr).hd.desc p =
    if p = hdr.pos.hdrPos then { st.hd.desc p with hdr := hdr.freed } else st.hd.desc p := by
  by_cases hp : p = hdr.pos.hdrPos
  · rw [if_pos hp, hp]
    exact update_self _ _ _
  · rw [if_neg hp]
    exact update_of_ne hp _ _

lemma InnerChunkMapEntry.Sound.wipe (h : e.Sound st.hd) : e.Sound (st.wipe hdr).hd := by
  cases e with
  | normal hdr' => trivial
  | tombstone q =>
    rw [Sound, desc_wipe]
    split_ifs with hq
    · exact hq.symm
    · exact h
  | invalid q =>
    rw [Sound, desc_wipe]
    split_ifs with hq
    · exact hq.symm
    · exact h

lemma CachedStorage.markChunkAsFree_eq_wipe (h : e.Sound st.hd) (g : ArrayUAID) :
    ∃ hdr calls, hdr.pos.hdrPos = e.hdrPos ∧ st.markChunkAsFree e g = wipe { st with calls := calls } hdr := by
  cases e with
  | normal hdr => exact ⟨hdr, _, rfl, rfl⟩
  | tombstone q => exact ⟨(st.hd.desc q).hdr, st.calls, h, rfl⟩
  | invalid q => exact ⟨(st.hd.desc q).hdr, st.calls, h, rfl⟩

end Wipe

/-- What freeing does. -/
structure Freed (ps : Set ℕ) (st st' : CachedStorage) : Prop where
  free : ∀ p, p ∈ st'.freeHeaders ↔ p ∈ st.freeHeaders ∨ p ∈ ps
  desc : ∀ p, p ∉ ps → st'.hd.desc p = st.hd.desc p
  unused : ∀ p, (st.hd.desc p).hdr.arrId = 0 → (st'.hd.desc p).hdr.arrId = 0
  sound : ∀ e : InnerChunkMapEntry, e.Sound st.hd → e.Sound st'.hd
  map : st'.chunkMap = st.chunkMap
  hdr : st'.hdr = st.hdr
  file : st'.hd.hdr = st.hd.hdr
  len : st.hd.len ≤ st'.hd.len

lemma freed_wipe (hdr : ChunkHeader) (calls : List FreeCall) :
    Freed {hdr.pos.hdrPos} st (CachedStorage.wipe { st with calls := calls } hdr) := by
  refine ⟨fun p => ?_, fun p hp => ?_, fun p hp => ?_, fun e he => ?_, rfl, rfl, rfl, le_max_left _ _⟩
  · exact Finset.mem_insert.trans or_comm
  · exact desc_wipe.trans (if_neg hp)
  · rw [desc_wipe]
    split_ifs
    · rfl
    · exact hp
  · exact @InnerChunkMapEntry.Sound.wipe { st with calls := calls } e hdr he

namespace Freed

variable {ps qs : Set ℕ} {st'' : CachedStorage}

lemma refl : Freed ∅ st st :=
  ⟨fun _ => (or_false _).to_iff.symm, fun _ _ => rfl, fun _ h => h, fun _ h => h, rfl, rfl, rfl, le_rfl⟩

lemma trans (h : Freed ps st st') (h' : Freed qs st' st'') : Freed (ps ∪ qs) st st'' := by
  refine ⟨fun p => ?_, fun p hp => ?_, fun p hp => h'.unused p (h.unused p hp), fun e he => h'.sound e (h.sound e he),
    h'.map.trans h.map, h'.hdr.trans h.hdr, h'.file.trans h.file, h.len.trans h'.len⟩
  · rw [h'.free, h.free, or_assoc]
    rfl
  · rw [h'.desc p fun hq => hp (Or.inr hq), h.desc p fun hq => hp (Or.inl hq)]

lemma of_iff (h : Freed ps st st') (hp : ∀ p, p ∈ qs ↔ p ∈ ps) : Freed qs st st' := by
  rwa [Set.ext hp]

lemma foldl_markChunkAsFree (vs : List (StorageAddress × InnerChunkMapEntry)) (hs : ∀ v ∈ vs, v.2.Sound st.hd) (g : ArrayUAID) :
    Freed {p | ∃ v ∈ vs, v.2.hdrPos = p} st (vs.foldl (fun s v => s.markChunkAsFree v.2 g) st) := by
  induction vs generalizing st with
  | nil => exact refl.of_iff fun p => by simp
  | cons v vs ih =>
    obtain ⟨hdr, calls, hpos, heq⟩ := markChunkAsFree_eq_wipe (hs v mem_cons_self) g
    have hw := @freed_wipe st hdr calls
    rw [← heq] at hw
    refine (hw.trans (ih fun v' hv' => hw.sound _ (hs v' (mem_cons_of_mem v hv')))).of_iff fun p => ?_
    simp only [mem_cons, exists_eq_or_imp, Set.mem_union, Set.mem_singleton_iff, Set.mem_ofPred_eq, hpos, @eq_comm _ p]

lemma foldl_undoRecord {U : RollbackMap} (rs : List TransLogRecord) :
    Freed {p | ∃ r ∈ rs, U.undoes r.arrayUAID r.arrayId ≠ none ∧ r.hdr.pos.hdrPos = p} st (rs.foldl (undoRecord U) st) := by
  induction rs generalizing st with
  | nil => exact refl.of_iff fun p => by simp
  | cons r rs ih =>
    rw [foldl_cons]
    by_cases hsel : U.undoes r.arrayUAID r.arrayId = none
    · rw [undoRecord_of_undoes_eq_none hsel]
      refine ih.of_iff fun p => ?_
      simp only [mem_cons, exists_eq_or_imp, hsel, ne_eq, not_true_eq_false, false_and, false_or]
    · have hw : Freed {r.hdr.pos.hdrPos} st (undoRecord U st r) := by
        obtain ⟨last, hlast⟩ := Option.ne_none_iff_exists'.mp hsel
        rw [undoRecord, hlast]
        simp only
        split_ifs
        · exact freed_wipe r.hdr (st.calls ++ [r.hdr.freeCall])
        · exact freed_wipe r.hdr st.calls
      refine (hw.trans ih).of_iff fun p => ?_
      simp only [mem_cons, exists_eq_or_imp, Set.mem_union, Set.mem_singleton_iff, Set.mem_ofPred_eq, hsel, ne_eq,
        not_false_eq_true, true_and, @eq_comm _ p]

end Freed

lemma Placed.freed {ps : Set ℕ} (h : Placed L S n st) (hf : Freed ps st st')
    (hL : ∀ g addr, L' g addr → L g addr) (hps : ∀ g addr e, st.Has g addr e → L' g addr → e.hdrPos ∉ ps) :
    Placed L' S n st' := by
  have hhas : ∀ g addr e, st'.Has g addr e → L' g addr → st.Has g addr e ∧ L g addr := fun g addr e he hl =>
    ⟨(CachedStorage.Has.congr hf.map).mp he, hL g addr hl⟩
  refine h.of_subset le_rfl hhas (fun g addr e he hl => ?_) fun g addr e _ _ hs => ⟨hs, hf.sound e⟩
  obtain ⟨he, hl'⟩ := hhas g addr e he hl
  rw [hf.free]
  rintro (hfree | hmem)
  · exact h.notFree g addr e he hl' hfree
  · exact hps g addr e he hl hmem

section Remove

variable {uaId : ArrayUAID} {lastLiveArrId : ArrayID} {arrId : ArrayID} {m : InnerChunkMap}

lemma CachedStorage.inner_of_find? (h : st.chunkMap.find? uaId = some m) : st.inner uaId = m := by
  rw [CachedStorage.inner, h]
  rfl

lemma CachedStorage.inner_of_find?_eq_none (h : st.chunkMap.find? uaId = none) : st.inner uaId = OrdMap.empty := by
  rw [CachedStorage.inner, h]
  rfl

lemma CachedStorage.inner_erase : CachedStorage.inner { st with chunkMap := st.chunkMap.erase uaId } g =
    if g = uaId then OrdMap.empty else st.inner g := by
  simp only [CachedStorage.inner, OrdMap.find?_erase]
  split_ifs <;> rfl

lemma has_foldl_erase (st : CachedStorage) {vs : List (StorageAddress × InnerChunkMapEntry)}
    (hm : st.inner uaId = m) (h : (st.setInner uaId (vs.foldl (fun m v => m.erase v.1) m)).Has g addr e) :
    st.Has g addr e ∧ (g = uaId → ∀ v ∈ vs, addr ≠ v.1) := by
  rw [CachedStorage.Has, inner_setInner] at h
  split_ifs at h with hg
  · rw [OrdMap.find?_eq_some_iff, foldl_erase] at h
    refine ⟨?_, fun _ => h.2⟩
    rw [CachedStorage.Has, hg, hm, OrdMap.find?_eq_some_iff]
    exact h.1
  · exact ⟨h, fun hg' => absurd hg' hg⟩

def gone (st : CachedStorage) (uaId : ArrayUAID) (lastLiveArrId : ArrayID) :
    List (StorageAddress × InnerChunkMapEntry) := victims lastLiveArrId ⟨0, [], 0⟩ true (st.inner uaId).entries

lemma has_of_mem_gone {v : StorageAddress × InnerChunkMapEntry} (hv : v ∈ gone st uaId lastLiveArrId) :
    st.Has uaId v.1 v.2 := OrdMap.find?_eq_some_iff.mpr ((victims_sublist _ _ _ _).subset hv)

lemma removeVersions_spec (hs : ∀ v ∈ gone st uaId lastLiveArrId, v.2.Sound st.hd) :
    ∃ st1, Freed {p | ∃ v ∈ gone st uaId lastLiveArrId, v.2.hdrPos = p} st st1 ∧
      (st.removeVersions uaId lastLiveArrId).freeHeaders = st1.freeHeaders ∧
      (st.removeVersions uaId lastLiveArrId).hd.desc = st1.hd.desc ∧ (st.removeVersions uaId lastLiveArrId).hdr = st.hdr ∧
      ((st.removeVersions uaId lastLiveArrId).hd.hdr = st.hd.hdr ∨ (st.removeVersions uaId lastLiveArrId).hd.hdr = st.hdr) ∧
      ∀ g addr e, (st.removeVersions uaId lastLiveArrId).Has g addr e →
        st.Has g addr e ∧ (g = uaId → ∀ v ∈ gone st uaId lastLiveArrId, addr ≠ v.1) := by
  have hfreed := Freed.foldl_markChunkAsFree _ hs uaId
  refine ⟨_, hfreed, ?_⟩
  unfold removeVersions
  cases hf : st.chunkMap.find? uaId with
  | none =>
    rw [gone, inner_of_find?_eq_none hf]
    exact ⟨rfl, rfl, rfl, .inl rfl, fun g addr e he => ⟨he, fun _ v hv => absurd hv not_mem_nil⟩⟩
  | some m =>
    rw [gone, inner_of_find? hf] at hfreed ⊢
    simp only
    generalize (victims lastLiveArrId ⟨0, [], 0⟩ true m.entries).foldl (fun s v => s.markChunkAsFree v.2 uaId) st = st1
      at hfreed ⊢
    have hinner : CachedStorage.inner { st1 with hd := { st1.hd with hdr := st1.hdr } } uaId = m := by
      rw [CachedStorage.inner, hfreed.map, hf]
      rfl
    refine ⟨?_, ?_, ?_, .inr ?_, fun g addr e he => ?_⟩
    · split_ifs <;> rfl
    · split_ifs <;> rfl
    · split_ifs <;> exact hfreed.hdr
    · split_ifs <;> exact hfreed.hdr
    · split_ifs at he
      · rw [CachedStorage.Has, inner_erase] at he
        split_ifs at he with hg
        · cases he
        · rw [inner_setInner, if_neg hg] at he
          exact ⟨(CachedStorage.Has.congr hfreed.map).mp he, fun hg' => absurd hg' hg⟩
      · obtain ⟨he, hnot⟩ := has_foldl_erase _ hinner he
        exact ⟨(CachedStorage.Has.congr hfreed.map).mp he, hnot⟩

lemma removeVersionFromMemory_spec : (st.removeVersionFromMemory uaId arrId).hdr = st.hdr ∧
      (st.removeVersionFromMemory uaId arrId).freeHeaders = st.freeHeaders ∧
      (st.removeVersionFromMemory uaId arrId).hd = st.hd := by
  unfold removeVersionFromMemory
  cases st.chunkMap.find? uaId with
  | none => exact ⟨rfl, rfl, rfl⟩
  | some m =>
    simp only
    split_ifs <;> exact ⟨rfl, rfl, rfl⟩

lemma has_removeVersionFromMemory (h : (st.removeVersionFromMemory uaId arrId).Has g addr e) :
    st.Has g addr e ∧ ¬ (g = uaId ∧ addr.arrId = arrId) := by
  unfold removeVersionFromMemory at h
  cases hf : st.chunkMap.find? uaId with
  | none =>
    rw [hf] at h
    refine ⟨h, fun hg => ?_⟩
    rw [CachedStorage.Has, hg.1, inner_of_find?_eq_none hf] at h
    cases h
  | some m =>
    rw [hf] at h
    simp only at h
    have hinner := inner_of_find? hf
    split_ifs at h
    · rw [CachedStorage.Has, inner_erase] at h
      split_ifs at h with hg
      · cases h
      · exact ⟨h, fun hg' => hg hg'.1⟩
    · obtain ⟨he, hnot⟩ := has_foldl_erase st hinner h
      refine ⟨he, fun hg => hnot hg.1 (addr, e) ?_ rfl⟩
      rw [mem_filter]
      refine ⟨?_, decide_eq_true hg.2⟩
      rw [CachedStorage.Has, hg.1, hinner] at he
      exact OrdMap.find?_eq_some_iff.mp he

end Remove

/-- All positions are counted. -/
structure CachedStorage.Aligned (st : CachedStorage) : Prop where
  currPos : st.hdr.currPos = slotPos st.hdr.nChunks
  free : ∀ p ∈ st.freeHeaders, ∃ j < st.hdr.nChunks, p = slotPos j

lemma slotPos_lt {i j : ℕ} (h : i < j) : slotPos i < slotPos j :=
  lt_of_le_of_ne (slotPos_mono h.le) fun heq => h.ne (slotPos_injective heq)

namespace CachedStorage.Aligned

lemma slotsBelow (h : st.Aligned) : st.SlotsBelow := by
  intro p hp
  obtain ⟨j, hj, rfl⟩ := h.free p hp
  rw [h.currPos]
  exact slotPos_lt hj

lemma taken (h : st.Aligned) {j : ℕ} (hj : j < st.hdr.nChunks) (hp : p = slotPos j) (hfree : p ∉ st.freeHeaders) :
    st.Taken p := by
  refine ⟨hfree, ?_⟩
  rw [h.currPos, hp]
  exact slotPos_lt hj

lemma nChunks_le_takeHdrPos (st : CachedStorage) : st.hdr.nChunks ≤ st.takeHdrPos.hdr.nChunks := by
  rw [takeHdrPos]
  split_ifs
  · exact le_rfl
  · exact le_succ _

lemma newHdrPos (h : st.Aligned) : ∃ j < st.takeHdrPos.hdr.nChunks, st.newHdrPos = slotPos j := by
  by_cases hne : st.freeHeaders.Nonempty
  · obtain ⟨j, hj, hpos⟩ := h.free _ (newHdrPos_of_nonempty hne)
    exact ⟨j, hj.trans_le (nChunks_le_takeHdrPos st), hpos⟩
  · refine ⟨st.hdr.nChunks, ?_, by rw [newHdrPos_of_not_nonempty hne, h.currPos]⟩
    rw [takeHdrPos, if_neg hne]
    exact lt_succ_self _

lemma takeHdrPos (h : st.Aligned) : st.takeHdrPos.Aligned := by
  constructor
  · rw [CachedStorage.takeHdrPos]
    split_ifs
    · exact h.currPos
    · simp only [h.currPos, slotPos_succ]
  · intro p hp
    obtain ⟨j, hj, hpos⟩ := h.free p (mem_takeHdrPos.mp hp).2
    exact ⟨j, hj.trans_le (nChunks_le_takeHdrPos st), hpos⟩

lemma congr (h : st.Aligned) (hhdr : st'.hdr = st.hdr) (hfree : st'.freeHeaders = st.freeHeaders) : st'.Aligned := by
  constructor
  · rw [hhdr]
    exact h.currPos
  · rw [hhdr, hfree]
    exact h.free

end CachedStorage.Aligned

section Adds

variable {cfg : LogConfig} {a : Addition} {s s' : LoggedStorage}

section

variable (h : Placed L S s.hdr.nChunks s.toCachedStorage) (ha : s.Aligned)

include h ha

lemma Placed.hdrPos_ne (he : s.Has g addr e) (hl : L g addr) : e.hdrPos ≠ s.newHdrPos := by
  obtain ⟨j, hj, hpos⟩ := h.slot g addr e he hl
  exact (ha.taken hj hpos (h.notFree g addr e he hl)).ne_newHdrPos.symm

lemma Placed.adds (hadds : Adds cfg a s s')
    (hL : ∀ g addr, L' g addr → ¬ (g = a.adesc.uaId ∧ addr = a.desc.getAddress) → L g addr)
    (hS : ∀ g addr, S' g addr → ¬ (g = a.adesc.uaId ∧ addr = a.desc.getAddress) → S g addr)
    (hd : S' a.adesc.uaId a.desc.getAddress → a.Described) : Placed L' S' s'.hdr.nChunks s'.toCachedStorage := by
  have hpos : (a.placed s).entry.hdrPos = s.newHdrPos := ChunkDescriptor.hdrPos_entry _
  have hdesc : ∀ q, q ≠ s.newHdrPos → s'.hd.desc q = s.hd.desc q := by
    intro q hq
    rw [hadds.desc]
    split_ifs
    · exact update_of_ne hq _ _
    · rfl
  refine h.insert_entry a.adesc.uaId a.desc.getAddress (a.placed s).entry ?_ ?_ ?_ hL ?_ ?_ ?_ hS ?_ ?_
  · rw [hpos, hadds.hdr]
    exact ha.newHdrPos
  · rw [hadds.hdr]
    exact CachedStorage.Aligned.nChunks_le_takeHdrPos _
  · intro g addr e he
    rw [CachedStorage.Has, hadds.map] at he
    split_ifs at he with hga
    · exact .inl ⟨hga, (Option.some_inj.mp he).symm⟩
    · exact .inr ⟨hga, he⟩
  · rw [hadds.free]
    exact fun q hq => (mem_takeHdrPos.mp hq).2
  · rw [hpos, hadds.free]
    exact fun hq => (mem_takeHdrPos.mp hq).1 rfl
  · intro g addr e he hl
    rw [hpos]
    exact h.hdrPos_ne ha he hl
  · intro g addr e he hl hs
    exact hs.congr (hdesc _ (h.hdrPos_ne ha he hl))
  · intro hs
    refine ChunkDescriptor.sound_entry ?_
    rw [hadds.desc, if_pos (hd hs)]
    exact update_self _ _ _

end

end Adds

section Scan

variable {cat : Catalog} {cfg : ChunkmapConfig} {st₀ : CachedStorage} {sc sc' : ScanState} {desc : ChunkDescriptor}

/-- The loop of `initChunkMap`: positions that were free from the start are not in use. -/
structure SlotScan (st₀ : CachedStorage) (k : ℕ) (sc : ScanState) : Prop where
  placed : Placed (fun _ _ => True) (fun _ _ => True) k sc.store
  free : ∀ p ∈ sc.store.freeHeaders, p ∈ st₀.freeHeaders ∨ ∃ j < k, p = slotPos j
  unused : ∀ p ∈ st₀.freeHeaders, (sc.store.hd.desc p).hdr.arrId = 0
  hdr : sc.store.hdr = st₀.hdr
  file : sc.store.hd.hdr = st₀.hd.hdr
  len : st₀.hd.len ≤ sc.store.hd.len

namespace SlotScan

section

variable (h : SlotScan st₀ k sc)

include h

lemma notMem_free (harr : (sc.store.hd.desc (slotPos k)).hdr.arrId ≠ 0) : slotPos k ∉ sc.store.freeHeaders := by
  intro hmem
  rcases h.free _ hmem with hF | ⟨j, hj, hpos⟩
  · exact harr (h.unused _ hF)
  · exact hj.ne (slotPos_injective hpos).symm

lemma hdrPos_ne (he : sc.store.Has g addr e) : e.hdrPos ≠ slotPos k := by
  obtain ⟨j, hj, hpos⟩ := h.placed.slot g addr e he trivial
  rw [hpos]
  exact fun heq => hj.ne (slotPos_injective heq)

lemma freed (hf : Freed {slotPos k} sc.store sc'.store) : SlotScan st₀ (k + 1) sc' := by
  refine ⟨?_, fun p hp => ?_, fun p hp => hf.unused p (h.unused p hp), hf.hdr.trans h.hdr,
    hf.file.trans h.file, h.len.trans hf.len⟩
  · exact (h.placed.freed hf (fun _ _ h => h) fun g addr e he _ hpos => h.hdrPos_ne he hpos).mono (le_succ k)
  · rcases (hf.free p).mp hp with hp | hp
    · exact (h.free p hp).imp_right fun ⟨j, hj, hpos⟩ => ⟨j, lt_succ_of_lt hj, hpos⟩
    · exact .inr ⟨k, lt_succ_self k, hp⟩

lemma putChunk (hdesc : sc.store.hd.desc (slotPos k) = desc) (hpos : desc.hdr.pos.hdrPos = slotPos k)
    (harr : desc.hdr.arrId ≠ 0) : SlotScan st₀ (k + 1) (sc.putChunk cfg desc) := by
  have hstore : (sc.putChunk cfg desc).store = sc.store.enter desc.hdr.pos.dsGuid desc := ScanState.putChunk_store _ _
  have hentry : desc.entry.hdrPos = slotPos k := desc.hdrPos_entry.trans hpos
  refine ⟨?_, ?_, ?_, ?_, ?_, ?_⟩
  · rw [hstore]
    refine h.placed.insert_entry desc.hdr.pos.dsGuid desc.getAddress desc.entry ⟨k, lt_succ_self k, hentry⟩
      (le_succ k) ?_ (fun _ _ _ _ => trivial) (Finset.Subset.refl _) ?_ ?_ (fun _ _ _ _ => trivial)
      (fun _ _ _ _ _ hs => hs) ?_
    · intro g addr e he
      rw [CachedStorage.Has, find?_enter] at he
      split_ifs at he with hga
      · exact .inl ⟨hga, (Option.some_inj.mp he).symm⟩
      · exact .inr ⟨hga, he⟩
    · rw [hentry]
      exact h.notMem_free (hdesc.symm ▸ harr)
    · intro g addr e he _
      rw [hentry]
      exact h.hdrPos_ne he
    · intro _
      refine ChunkDescriptor.sound_entry ?_
      rwa [hpos]
  · rw [hstore]
    intro p hp
    exact (h.free p hp).imp_right fun ⟨j, hj, hpos⟩ => ⟨j, lt_succ_of_lt hj, hpos⟩
  · rw [hstore]
    exact h.unused
  · rw [hstore]
    exact h.hdr
  · rw [hstore]
    exact h.file
  · rw [hstore]
    exact h.len

lemma killOldest {victim : StorageAddress × InnerChunkMapEntry} (hv : sc.store.Has g victim.1 victim.2) :
    SlotScan st₀ k (sc.killOldest cfg g victim) := by
  obtain ⟨hdr, calls, hpos, hmark⟩ := markChunkAsFree_eq_wipe (h.placed.sound g _ _ hv trivial trivial) g
  have hf := @freed_wipe sc.store hdr calls
  rw [← hmark, hpos] at hf
  have hstore : (sc.killOldest cfg g victim).store = (sc.store.markChunkAsFree victim.2 g).setInner g
      ((((sc.store.markChunkAsFree victim.2 g).inner g)).erase victim.1) := by
    simp only [ScanState.killOldest, ScanState.eraseEntryExtent_store]
  have hhas : ∀ g' addr e, (sc.killOldest cfg g victim).store.Has g' addr e →
      sc.store.Has g' addr e ∧ ¬ (g' = g ∧ addr = victim.1) := by
    intro g' addr e he
    rw [hstore] at he
    obtain ⟨he, hnot⟩ := @has_foldl_erase _ _ _ _ _ _ [victim] rfl he
    exact ⟨(CachedStorage.Has.congr hf.map).mp he, fun hg => hnot hg.1 victim mem_cons_self hg.2⟩
  refine ⟨?_, ?_, ?_, ?_, ?_, ?_⟩
  · refine h.placed.of_subset le_rfl (fun g' addr e he hl => ⟨(hhas g' addr e he).1, hl⟩) (fun g' addr e he hl => ?_)
      fun g' addr e _ _ hs => ⟨hs, fun hsnd => ?_⟩
    · obtain ⟨he, hnot⟩ := hhas g' addr e he
      rw [hstore]
      intro hmem
      rcases (hf.free _).mp hmem with hmem | hmem
      · exact h.placed.notFree g' addr e he trivial hmem
      · exact hnot (h.placed.inj _ _ _ _ _ _ he trivial hv trivial hmem)
    · rw [hstore]
      exact hf.sound e hsnd
  · rw [hstore]
    intro p hp
    rcases (hf.free p).mp hp with hp | hp
    · exact h.free p hp
    · obtain ⟨j, hj, hjpos⟩ := h.placed.slot _ _ _ hv trivial
      exact .inr ⟨j, hj, hp.trans hjpos⟩
  · rw [hstore]
    exact fun p hp => hf.unused p (h.unused p hp)
  · rw [hstore]
    exact hf.hdr.trans h.hdr
  · rw [hstore]
    exact hf.file.trans h.file
  · rw [hstore]
    exact h.len.trans hf.len

lemma wipeDead (hpos : desc.hdr.pos.hdrPos = slotPos k) : SlotScan st₀ (k + 1) (sc.wipeDead desc) := by
  refine h.freed ?_
  rw [← hpos]
  exact freed_wipe desc.hdr (sc.store.calls ++ [desc.hdr.freeCall])

lemma freePos : SlotScan st₀ (k + 1) (sc.freePos (slotPos k)) := by
  refine h.freed ⟨fun p => ?_, fun _ _ => rfl, fun _ hp => hp, fun _ he => he, rfl, rfl, rfl, le_rfl⟩
  exact Finset.mem_insert.trans or_comm

end

lemma eq_putChunk_of_insertChunk (h : sc.insertChunk cfg desc = .ok sc') : sc' = sc.putChunk cfg desc := by
  unfold ScanState.insertChunk at h
  split at h
  · cases h
  · exact (Except.ok.inj h).symm

section

variable (h : SlotScan st₀ k sc) (hdesc : sc.store.hd.desc (slotPos k) = desc)

include h hdesc

lemma scanLive
    (hpos : desc.hdr.pos.hdrPos = slotPos k) (harr : desc.hdr.arrId ≠ 0) (hok : sc.scanLive cat cfg desc = .ok sc') :
    SlotScan st₀ (k + 1) sc' := by
  have hput := @putChunk _ cfg _ _ _ h hdesc hpos harr
  unfold ScanState.scanLive at hok
  simp only at hok
  split at hok
  · split_ifs at hok
    · rwa [eq_putChunk_of_insertChunk hok]
    · cases hok
      exact h.wipeDead hpos
  · rename_i victim hvis
    by_cases hlt : desc.hdr.arrId > victim.1.arrId
    · rw [if_pos hlt] at hok
      cases hins : sc.insertChunk cfg desc with
      | error err =>
        rw [hins] at hok
        cases hok
      | ok sc1 =>
        rw [hins] at hok
        obtain rfl := eq_putChunk_of_insertChunk hins
        simp only at hok
        split_ifs at hok
        · cases hok
          refine hput.killOldest ?_
          -- the victim has another version than the chunk, and is still in the map
          rw [ScanState.putChunk_store, CachedStorage.Has, ← enter, find?_enter, if_neg]
          · exact OrdMap.find?_eq_some_iff.mpr (StorageAddress.visible?_eq_some_iff.mp hvis).1
          · intro hv
            rw [hv.2] at hlt
            exact lt_irrefl _ hlt
        · cases hok
          exact hput
    · rw [if_neg hlt] at hok
      cases hok
      exact h.wipeDead hpos

lemma scanSlot (hok : sc.scanSlot cat cfg (slotPos k) desc = .ok sc') : SlotScan st₀ (k + 1) sc' := by
  unfold ScanState.scanSlot at hok
  split_ifs at hok with hpos harr hcat
  · cases hok
    exact h.freePos
  · rw [ne_eq, not_not] at hpos
    exact h.scanLive hdesc hpos harr hok
  · rw [ne_eq, not_not] at hpos
    cases hok
    refine h.freed ?_
    rw [← hpos]
    exact freed_wipe desc.hdr sc.store.calls
  · cases hok
    exact h.freePos

end

lemma scanFrom (n k : ℕ) (sc : ScanState) (h : SlotScan st₀ k sc) {i : ℕ} (hok : scanFrom cat cfg n k sc = .ok (sc', i)) :
    SlotScan st₀ i sc' ∧ i = k + n ∨
      (∃ sc1, SlotScan st₀ i sc1 ∧ sc' = { sc1 with store := { sc1.store with hdr := ⟨slotPos i, i⟩ } }) ∧
        st₀.hd.len < slotPos i + sizeofChunkDescriptor := by
  induction n generalizing k sc with
  | zero =>
    cases hok
    exact .inl ⟨h, rfl⟩
  | succ n ih =>
    rw [Smgr.scanFrom] at hok
    cases hread : sc.store.hd.read (slotPos k) with
    | none =>
      rw [hread] at hok
      cases hok
      refine .inr ⟨⟨sc, h, rfl⟩, ?_⟩
      unfold HeaderFile.read at hread
      split_ifs at hread with hlen
      exact h.len.trans_lt (not_le.mp hlen)
    | some desc =>
      rw [hread] at hok
      simp only at hok
      have hdesc : sc.store.hd.desc (slotPos k) = desc := by
        unfold HeaderFile.read at hread
        split_ifs at hread
        exact Option.some_inj.mp hread
      split at hok
      case h_1 => cases hok
      case h_2 sc1 hslot =>
        rcases ih (k + 1) sc1 (h.scanSlot hdesc hslot) hok with ⟨hres, hi⟩ | hres
        · exact .inl ⟨hres, by omega⟩
        · exact .inr hres

lemma finish {i : ℕ} {hdr : StorageHeader} (h : SlotScan st₀ i sc)
    (hfree : ∀ p ∈ st₀.freeHeaders, ∃ j < i, p = slotPos j) (hn : hdr.nChunks = i)
    (hst : st' = { sc.store with hdr := { hdr with currPos := slotPos i } }) :
    st'.Aligned ∧ Placed (fun _ _ => True) (fun _ _ => True) st'.hdr.nChunks st' ∧ st'.hd.hdr = st₀.hd.hdr := by
  subst hst hn
  refine ⟨⟨rfl, fun p hp => ?_⟩, ?_, h.file⟩
  · rcases h.free p hp with hp | hp
    · exact hfree p hp
    · exact hp
  · exact h.placed.of_subset le_rfl (fun _ _ _ he hl => ⟨he, hl⟩) h.placed.notFree fun _ _ _ _ _ hs => ⟨hs, id⟩

end SlotScan

lemma eq_of_checkExtentsForOverlaps {extents : Extents} (hcfg : cfg.enableChunkmapRecovery = false)
    (h : checkExtentsForOverlaps cfg extents st = .ok st') : st' = st := by
  unfold checkExtentsForOverlaps at h
  simp only [hcfg, Bool.false_eq_true, if_false] at h
  split_ifs at h
  · exact (Except.ok.inj h).symm
  · exact (Except.ok.inj h).symm

/-- **Rebuilding the map puts every entry in a position of its own.** -/
lemma placed_initChunkMap {stores stores' : ArrayUAID → DataStore} (hcfg : cfg.enableChunkmapRecovery = false)
    (hempty : st.chunkMap = OrdMap.empty)
    (hfree : ∀ p ∈ st.freeHeaders, ∃ j < st.hdr.nChunks, p = slotPos j ∧ p + sizeofChunkDescriptor ≤ st.hd.len)
    (hunused : ∀ p ∈ st.freeHeaders, (st.hd.desc p).hdr.arrId = 0)
    (h : initChunkMap cat cfg stores st = some (.ok (st', stores'))) :
    st'.Aligned ∧ Placed (fun _ _ => True) (fun _ _ => True) st'.hdr.nChunks st' ∧ st'.hd.hdr = st.hd.hdr := by
  have h0 : SlotScan st 0 ⟨st, OrdMap.empty, ∅⟩ := ⟨placed_of_empty hempty, fun p hp => .inl hp, hunused, rfl, rfl, le_rfl⟩
  unfold initChunkMap at h
  cases hscan : scanFrom cat cfg st.hdr.nChunks 0 ⟨st, OrdMap.empty, ∅⟩ with
  | error err =>
    rw [hscan] at h
    cases h
  | ok res =>
    obtain ⟨sc, i⟩ := res
    rw [hscan] at h
    simp only at h
    split at h
    case h_1 => cases h
    case h_2 stores1 hcalls =>
      cases hcheck : checkExtentsForOverlaps cfg sc.extents
          { sc.store with hdr := { sc.store.hdr with currPos := slotPos i } } with
      | error err =>
        rw [hcheck] at h
        cases h
      | ok st1 =>
        rw [hcheck] at h
        cases h
        obtain rfl := eq_of_checkExtentsForOverlaps hcfg hcheck
        rcases SlotScan.scanFrom _ _ _ h0 hscan with ⟨hsc, hi⟩ | ⟨⟨sc1, hsc, rfl⟩, hlen⟩
        · rw [zero_add] at hi
          refine hsc.finish ?_ (by rw [hsc.hdr, hi]) rfl
          intro p hp
          obtain ⟨j, hj, hpos, -⟩ := hfree p hp
          exact ⟨j, hi ▸ hj, hpos⟩
        · refine @SlotScan.finish _ _ _ _ ⟨slotPos i, i⟩ hsc ?_ rfl rfl
          intro p hp
          obtain ⟨j, -, rfl, hin⟩ := hfree p hp
          refine ⟨j, ?_, rfl⟩
          by_contra hji
          have := slotPos_mono (not_lt.mp hji)
          omega

end Scan

end SciDB.Smgr
