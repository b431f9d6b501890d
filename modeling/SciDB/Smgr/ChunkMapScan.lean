import SciDB.Smgr.ChunkMap
import SciDB.Lib.Retention

/-!
# What the scan of the header file does

`ScanInv` says what the loop of `initChunkMap` has done after `k` descriptors, whatever their order: the map holds those that
are retained (`Lib.Retained`), and the others are wiped.
-/

namespace SciDB.Smgr

open SciDB.Lib SciDB.Util List Finset

lemma slotPos_injective : Function.Injective slotPos := by
  intro i j h
  simp only [slotPos, sizeofChunkDescriptor] at h
  omega

/-- The descriptor number `i`. -/
def HeaderFile.slot (hd : HeaderFile) (i : ℕ) : ChunkDescriptor := hd.desc (slotPos i)

/-- The place of a chunk. -/
def ChunkDescriptor.place (desc : ChunkDescriptor) : ArrayUAID × ℕ × List ℤ :=
  (desc.hdr.pos.dsGuid, desc.getAddress.attId, desc.getAddress.coords)

/-- In use, of a live array. -/
def LiveSlot (cat : Catalog) (hd : HeaderFile) (i : ℕ) : Prop :=
  (hd.slot i).hdr.pos.hdrPos = slotPos i ∧ (hd.slot i).hdr.arrId ≠ 0 ∧ cat.hasArray (hd.slot i).hdr.pos.dsGuid = true

def Kept (cat : Catalog) (hd : HeaderFile) (k i : ℕ) : Prop :=
  Retained (fun i => (hd.slot i).place) (fun i => (hd.slot i).hdr.arrId) (fun p => cat.oldestVersion p.1)
    {i | i < k ∧ LiveSlot cat hd i} i

/-- Descriptors are unique. -/
def UniqueSlots (cat : Catalog) (hd : HeaderFile) : Prop :=
  ∀ i j, LiveSlot cat hd i → LiveSlot cat hd j → (hd.slot i).place = (hd.slot j).place →
    (hd.slot i).hdr.arrId = (hd.slot j).hdr.arrId → i = j

variable {cat : Catalog} {cfg : ChunkmapConfig} {hd : HeaderFile} {k i j : ℕ} {a b : ChunkDescriptor}

lemma Kept.lt (h : Kept cat hd k i) : i < k := h.mem.1

lemma Kept.live (h : Kept cat hd k i) : LiveSlot cat hd i := h.mem.2

lemma liveSet_succ_of_not (h : ¬ LiveSlot cat hd k) :
    {i | i < k + 1 ∧ LiveSlot cat hd i} = {i | i < k ∧ LiveSlot cat hd i} := by
  ext i
  simp only [Set.mem_ofPred_eq]
  refine ⟨fun ⟨hlt, hl⟩ => ⟨?_, hl⟩, fun ⟨hlt, hl⟩ => ⟨by omega, hl⟩⟩
  rcases Nat.lt_succ_iff_lt_or_eq.mp hlt with h' | rfl
  · exact h'
  · exact absurd hl h

lemma liveSet_succ (h : LiveSlot cat hd k) :
    {i | i < k + 1 ∧ LiveSlot cat hd i} = insert k {i | i < k ∧ LiveSlot cat hd i} := by
  ext i
  simp only [Set.mem_ofPred_eq, Set.mem_insert_iff]
  constructor
  · rintro ⟨hlt, hl⟩
    rcases Nat.lt_succ_iff_lt_or_eq.mp hlt with h' | rfl
    · exact .inr ⟨h', hl⟩
    · exact .inl rfl
  · rintro (rfl | ⟨hlt, hl⟩)
    · exact ⟨by omega, h⟩
    · exact ⟨by omega, hl⟩

lemma address_eq_iff :
    a.hdr.pos.dsGuid = b.hdr.pos.dsGuid ∧ a.getAddress = b.getAddress ↔ a.place = b.place ∧ a.hdr.arrId = b.hdr.arrId := by
  simp only [ChunkDescriptor.place, Prod.mk.injEq, StorageAddress.ext_iff, ChunkDescriptor.getAddress]
  tauto

open StorageAddress

lemma sameBaseAddr_iff : a.hdr.pos.dsGuid = b.hdr.pos.dsGuid ∧ a.getAddress.sameBaseAddr b.getAddress ↔ a.place = b.place := by
  simp only [ChunkDescriptor.place, Prod.mk.injEq, sameBaseAddr]

lemma exists_kept (hj : j < k) (hlive : LiveSlot cat hd j)
    (hv : (hd.slot j).hdr.arrId ≤ cat.oldestVersion (hd.slot j).place.1) :
    ∃ i, Kept cat hd k i ∧ (hd.slot i).place = (hd.slot j).place ∧
      (hd.slot i).hdr.arrId ≤ cat.oldestVersion (hd.slot j).place.1 := by
  have hfin : {i | i < k ∧ LiveSlot cat hd i}.Finite := (Set.finite_lt_nat k).subset fun i hi => hi.1
  exact Retained.exists_of_le hfin ⟨hj, hlive⟩ hv

lemma kept_succ_of_not (h : ¬ LiveSlot cat hd k) (i : ℕ) : Kept cat hd (k + 1) i ↔ Kept cat hd k i := by
  unfold Kept
  rw [liveSet_succ_of_not h]

lemma kept_succ_newer (hk : LiveSlot cat hd k) (h : cat.oldestVersion (hd.slot k).hdr.pos.dsGuid < (hd.slot k).hdr.arrId)
    (i : ℕ) : Kept cat hd (k + 1) i ↔ i = k ∨ Kept cat hd k i := by
  unfold Kept
  rw [liveSet_succ hk]
  exact Retained.insert_newer h

lemma kept_succ_first (hk : LiveSlot cat hd k) (h : ∀ j < k, LiveSlot cat hd j → (hd.slot j).place = (hd.slot k).place →
      cat.oldestVersion (hd.slot k).hdr.pos.dsGuid < (hd.slot j).hdr.arrId)
    (i : ℕ) : Kept cat hd (k + 1) i ↔ i = k ∨ Kept cat hd k i := by
  unfold Kept
  rw [liveSet_succ hk]
  exact Retained.insert_first fun j hj hp => h j hj.1 hj.2 hp

lemma kept_succ_over (hu : UniqueSlots cat hd) (hk : LiveSlot cat hd k) (hj : Kept cat hd k j)
    (hp : (hd.slot j).place = (hd.slot k).place) (hjk : (hd.slot j).hdr.arrId < (hd.slot k).hdr.arrId)
    (ho : (hd.slot k).hdr.arrId ≤ cat.oldestVersion (hd.slot k).hdr.pos.dsGuid) (i : ℕ) :
    Kept cat hd (k + 1) i ↔ i = k ∨ Kept cat hd k i ∧ i ≠ j := by
  unfold Kept at hj ⊢
  rw [liveSet_succ hk]
  exact Retained.insert_over (fun a ha b hb => hu a b ha.2 hb.2) hj hp hjk ho

lemma kept_succ_under (hk : LiveSlot cat hd k) (hj : Kept cat hd k j) (hp : (hd.slot j).place = (hd.slot k).place)
    (hkj : (hd.slot k).hdr.arrId < (hd.slot j).hdr.arrId)
    (ho : (hd.slot j).hdr.arrId ≤ cat.oldestVersion (hd.slot k).hdr.pos.dsGuid) (i : ℕ) :
    Kept cat hd (k + 1) i ↔ Kept cat hd k i := by
  have hguid : (hd.slot j).place.1 = (hd.slot k).hdr.pos.dsGuid := congrArg Prod.fst hp
  have hiff : Kept cat hd (k + 1) i ↔ Kept cat hd k i ∧ i ≠ k := by
    unfold Kept
    rw [liveSet_succ hk]
    exact Retained.insert_under hj.mem hp hkj (by rw [hguid]; exact ho)
  rw [hiff]
  exact and_iff_left_of_imp fun hi => hi.lt.ne

namespace CachedStorage

variable (s : CachedStorage) (g g' : ArrayUAID) (m : InnerChunkMap) (hdr : ChunkHeader)

lemma inner_setInner : (s.setInner g m).inner g' = if g' = g then m else s.inner g' := by
  simp only [inner, setInner, OrdMap.find?_assign]
  split_ifs <;> rfl

lemma slot_wipe {desc : ChunkDescriptor} (hpos : desc.hdr.pos.hdrPos = slotPos j) (hj : s.hd.slot j = desc) :
    (s.wipe desc.hdr).hd.slot i = if i = j then desc.freed else s.hd.slot i := by
  simp only [wipe, HeaderFile.writeChunkHeader, HeaderFile.slot, hpos, Function.update_apply, slotPos_injective.eq_iff]
  split_ifs with hij
  · rw [show s.hd.desc (slotPos j) = desc from hj]
    rfl
  · rfl

lemma markChunkAsFree_entry {desc : ChunkDescriptor} (h : s.hd.desc desc.hdr.pos.hdrPos = desc) :
    s.markChunkAsFree desc.entry g = wipe { s with
        calls := s.calls ++ if desc.hdr.isTombstone then [] else [⟨g, desc.hdr.pos.offs, desc.hdr.allocatedSize⟩] }
        desc.hdr := by
  unfold ChunkDescriptor.entry
  split_ifs with ht
  · simp only [markChunkAsFree, h, append_nil]
  · rfl

end CachedStorage

/-- **What the scan has done** after `k` descriptors, when it holds on to the descriptors `K`. -/
structure ScanInv (cat : Catalog) (cfg : ChunkmapConfig) (s₀ : CachedStorage) (K : ℕ → Prop) (k : ℕ)
    (st : ScanState) : Prop where
  sub : ∀ i, K i → i < k ∧ LiveSlot cat s₀.hd i
  map : ∀ g addr e, (st.store.inner g).find? addr = some e ↔ ∃ i, K i ∧
    (s₀.hd.slot i).hdr.pos.dsGuid = g ∧ (s₀.hd.slot i).getAddress = addr ∧ (s₀.hd.slot i).entry = e
  wiped : ∀ i < k, (s₀.hd.slot i).hdr.pos.hdrPos = slotPos i → (s₀.hd.slot i).hdr.arrId ≠ 0 →
    ¬ K i → st.store.hd.slot i = (s₀.hd.slot i).freed
  intact : ∀ i, k ≤ i ∨ K i → st.store.hd.slot i = s₀.hd.slot i
  len : s₀.hd.len ≤ st.store.hd.len
  free : ∀ p, p ∈ st.store.freeHeaders ↔ p ∈ s₀.freeHeaders ∨ ∃ i < k, ¬ K i ∧ p = slotPos i
  hdr : st.store.hdr = s₀.hdr
  extents : cfg.skipChunkmapIntegrityCheck = false → ∀ x, (∃ u, (x, u) ∈ st.extents.entries) ↔
    ∃ i, K i ∧ (s₀.hd.slot i).hdr.isTombstone = false ∧ (s₀.hd.slot i).hdr.extent = x

variable {s₀ : CachedStorage} {st : ScanState} {K : ℕ → Prop}

open CachedStorage

lemma scanInv_zero (hempty : s₀.chunkMap = OrdMap.empty) : ScanInv cat cfg s₀ (fun _ => False) 0 ⟨s₀, OrdMap.empty, ∅⟩ where
  sub := fun _ h => h.elim
  map := by simp [CachedStorage.inner, hempty]
  wiped := fun i hi => absurd hi (Nat.not_lt_zero i)
  intact := fun i _ => rfl
  len := le_rfl
  free := by simp
  hdr := rfl
  extents := by simp

lemma ScanInv.freePos (h : ScanInv cat cfg s₀ K k st)
    (hk : (s₀.hd.slot k).hdr.pos.hdrPos ≠ slotPos k ∨ (s₀.hd.slot k).hdr.arrId = 0) :
    ScanInv cat cfg s₀ K (k + 1) (st.freePos (slotPos k)) where
  sub := fun i hi => ⟨(h.sub i hi).1.trans (Nat.lt_succ_self k), (h.sub i hi).2⟩
  map := h.map
  wiped := by
    intro i hi hpos harr hnot
    rcases Nat.lt_succ_iff_lt_or_eq.mp hi with hi | rfl
    · exact h.wiped i hi hpos harr hnot
    · exact (hk.elim (fun h => h hpos) harr).elim
  intact := fun i hi => h.intact i (hi.imp_left fun h => by omega)
  len := h.len
  free := by
    intro p
    have hnk : ¬ K k := fun hK => lt_irrefl k (h.sub k hK).1
    simp only [ScanState.freePos, mem_insert, h.free p, Nat.exists_lt_succ_right, hnk, not_false_eq_true, true_and]
    rw [or_comm, or_assoc]
  hdr := h.hdr
  extents := h.extents

lemma ScanInv.wipe (h : ScanInv cat cfg s₀ K k st) (st' : ScanState) (hpos : (s₀.hd.slot k).hdr.pos.hdrPos = slotPos k)
    (hhd : st'.store.hd = (st.store.wipe (s₀.hd.slot k).hdr).hd) (hmap : st'.store.chunkMap = st.store.chunkMap)
    (hfree : st'.store.freeHeaders = insert (slotPos k) st.store.freeHeaders) (hhdr : st'.store.hdr = st.store.hdr)
    (hext : st'.extents = st.extents) : ScanInv cat cfg s₀ K (k + 1) st' := by
  have hnk : ¬ K k := fun hK => lt_irrefl k (h.sub k hK).1
  have hslot : ∀ i, st'.store.hd.slot i = if i = k then (s₀.hd.slot k).freed else st.store.hd.slot i := fun i => by
    rw [hhd]
    exact st.store.slot_wipe hpos (h.intact k (Or.inl le_rfl))
  refine ⟨fun i hi => ⟨(h.sub i hi).1.trans (Nat.lt_succ_self k), (h.sub i hi).2⟩, fun g addr e => ?_,
    fun i hi hpos harr hnot => ?_, fun i hi => ?_, ?_, fun p => ?_, hhdr.trans h.hdr, fun hs x => ?_⟩
  · unfold CachedStorage.inner
    rw [hmap]
    exact h.map g addr e
  · rw [hslot]
    split_ifs with hik
    · rw [hik]
    · exact h.wiped i (by omega) hpos harr hnot
  · rw [hslot, if_neg]
    · exact h.intact i (hi.imp_left fun h => by omega)
    · rintro rfl
      exact hi.elim (fun h => by omega) hnk
  · rw [hhd]
    exact h.len.trans (le_max_left _ _)
  · simp only [hfree, mem_insert, h.free p, Nat.exists_lt_succ_right, hnk, not_false_eq_true, true_and]
    rw [or_comm, or_assoc]
  · rw [hext]
    exact h.extents hs x

lemma ScanState.putChunk_store (st : ScanState) (desc : ChunkDescriptor) :
    (st.putChunk cfg desc).store = st.store.setInner desc.hdr.pos.dsGuid
      ((st.store.inner desc.hdr.pos.dsGuid).assign desc.getAddress desc.entry) := by
  unfold putChunk recordExtent
  split_ifs <;> rfl

lemma ScanState.mem_extents_putChunk (hs : cfg.skipChunkmapIntegrityCheck = false) (st : ScanState)
    (desc : ChunkDescriptor) (x : ChunkExtent) : (∃ u, (x, u) ∈ (st.putChunk cfg desc).extents.entries) ↔
      (∃ u, (x, u) ∈ st.extents.entries) ∨ desc.hdr.isTombstone = false ∧ desc.hdr.extent = x := by
  unfold putChunk recordExtent
  simp only [hs, Bool.false_eq_true, if_false]
  cases ht : desc.hdr.isTombstone
  · by_cases hx : x = desc.hdr.extent
    · simp [OrdMap.mem_assign, hx]
    · simp [OrdMap.mem_assign, hx, Ne.symm hx]
  · simp

open ScanState

lemma ScanInv.putChunk (h : ScanInv cat cfg s₀ K k st) (hu : UniqueSlots cat s₀.hd) (hk : LiveSlot cat s₀.hd k) :
    ScanInv cat cfg s₀ (fun i => i = k ∨ K i) (k + 1) (st.putChunk cfg (s₀.hd.slot k)) := by
  have hsub : ∀ i, i = k ∨ K i → i < k + 1 ∧ LiveSlot cat s₀.hd i := by
    rintro i (rfl | hi)
    · exact ⟨Nat.lt_succ_self i, hk⟩
    · exact ⟨(h.sub i hi).1.trans (Nat.lt_succ_self k), (h.sub i hi).2⟩
  refine ⟨hsub, fun g addr e => ?_, fun i hi hpos harr hnot => ?_, fun i hi => ?_, ?_, fun p => ?_, ?_, fun hs x => ?_⟩
  · simp only [putChunk_store, inner_setInner, or_and_right, exists_or, exists_eq_left, ← h.map g addr e]
    by_cases hg : g = (s₀.hd.slot k).hdr.pos.dsGuid
    · rw [if_pos hg, OrdMap.find?_assign, ← hg]
      by_cases haddr : addr = (s₀.hd.slot k).getAddress
      · -- the same address means the same descriptor
        have hnone : (st.store.inner g).find? addr ≠ some e := fun hf => by
          obtain ⟨i, hi, hgi, hai, -⟩ := (h.map g addr e).mp hf
          have heq := address_eq_iff.mp ⟨hgi.trans hg, hai.trans haddr⟩
          have hik := hu i k (h.sub i hi).2 hk heq.1 heq.2
          exact lt_irrefl k (hik ▸ (h.sub i hi).1)
        simp [← haddr, hnone]
      · simp [haddr, Ne.symm haddr]
    · simp [hg, Ne.symm hg]
  · rw [putChunk_store]
    push Not at hnot
    exact h.wiped i (by omega) hpos harr hnot.2
  · rw [putChunk_store]
    refine h.intact i ?_
    rcases hi with hi | rfl | hi
    · exact .inl (by omega)
    · exact .inl le_rfl
    · exact .inr hi
  · rw [putChunk_store]
    exact h.len
  · rw [putChunk_store]
    show p ∈ st.store.freeHeaders ↔ _
    have hiff : (∃ i < k, ¬ (i = k ∨ K i) ∧ p = slotPos i) ↔ ∃ i < k, ¬ K i ∧ p = slotPos i :=
      exists_congr fun i => and_congr_right fun hi => by simp [hi.ne]
    rw [h.free p, Nat.exists_lt_succ_right, hiff]
    simp
  · rw [putChunk_store]
    exact h.hdr
  · rw [mem_extents_putChunk hs, h.extents hs x]
    simp only [or_and_right, exists_or, exists_eq_left]
    exact or_comm

lemma ScanState.eraseEntryExtent_store (st : ScanState) (entry : InnerChunkMapEntry) :
    (eraseEntryExtent cfg st entry).store = st.store := by
  cases entry with
  | normal hdr =>
    unfold eraseEntryExtent eraseExtent
    split_ifs <;> rfl
  | tombstone _ => rfl
  | invalid _ => rfl

lemma ScanState.killOldest_store (st : ScanState) (g : ArrayUAID) (a : StorageAddress) {desc : ChunkDescriptor}
    (hg : desc.hdr.pos.dsGuid = g) (hdesc : st.store.hd.desc desc.hdr.pos.hdrPos = desc) :
    (st.killOldest cfg g (a, desc.entry)).store = (CachedStorage.wipe { st.store with
        calls := st.store.calls ++ if desc.hdr.isTombstone then [] else [desc.hdr.freeCall] } desc.hdr).setInner g
        ((st.store.inner g).erase a) := by
  subst hg
  simp only [killOldest, eraseEntryExtent_store, markChunkAsFree_entry _ _ hdesc]
  rfl

lemma ScanState.mem_extents_killOldest (hs : cfg.skipChunkmapIntegrityCheck = false) (st : ScanState) (g : ArrayUAID)
    (a : StorageAddress) (desc : ChunkDescriptor) (x : ChunkExtent) :
    (∃ u, (x, u) ∈ (st.killOldest cfg g (a, desc.entry)).extents.entries) ↔
      (∃ u, (x, u) ∈ st.extents.entries) ∧ ¬ (desc.hdr.isTombstone = false ∧ desc.hdr.extent = x) := by
  simp only [killOldest, ChunkDescriptor.entry]
  cases ht : desc.hdr.isTombstone
  · by_cases hx : x = desc.hdr.extent
    · simp [eraseEntryExtent, eraseExtent, hs, OrdMap.mem_erase, hx]
    · simp [eraseEntryExtent, eraseExtent, hs, OrdMap.mem_erase, hx, Ne.symm hx]
  · simp [eraseEntryExtent]

lemma ScanInv.killOldest (h : ScanInv cat cfg s₀ K k st) (hu : UniqueSlots cat s₀.hd) (hj : K j) :
    ScanInv cat cfg s₀ (fun i => K i ∧ i ≠ j) k
      (st.killOldest cfg (s₀.hd.slot j).hdr.pos.dsGuid ((s₀.hd.slot j).getAddress, (s₀.hd.slot j).entry)) := by
  obtain ⟨hjk, hjpos, hjarr, -⟩ := h.sub j hj
  have hdesc : st.store.hd.desc (s₀.hd.slot j).hdr.pos.hdrPos = s₀.hd.slot j := by
    rw [hjpos]
    exact h.intact j (Or.inr hj)
  have hstore := @ScanState.killOldest_store cfg st _ (s₀.hd.slot j).getAddress _ rfl hdesc
  have hslot : ∀ i, (st.killOldest cfg (s₀.hd.slot j).hdr.pos.dsGuid
      ((s₀.hd.slot j).getAddress, (s₀.hd.slot j).entry)).store.hd.slot i =
      if i = j then (s₀.hd.slot j).freed else st.store.hd.slot i := fun i => by
    rw [hstore]
    exact slot_wipe { st.store with calls := _ } hjpos (h.intact j (Or.inr hj))
  refine ⟨fun i hi => h.sub i hi.1, fun g addr e => ?_, fun i hi hpos harr hnot => ?_, fun i hi => ?_, ?_,
    fun p => ?_, ?_, fun hs x => ?_⟩
  · have hinner : (st.killOldest cfg (s₀.hd.slot j).hdr.pos.dsGuid
        ((s₀.hd.slot j).getAddress, (s₀.hd.slot j).entry)).store.inner g =
        if g = (s₀.hd.slot j).hdr.pos.dsGuid then
          (st.store.inner (s₀.hd.slot j).hdr.pos.dsGuid).erase (s₀.hd.slot j).getAddress
        else st.store.inner g := by
      rw [hstore, inner_setInner]
      rfl
    rw [hinner]
    by_cases hga : g = (s₀.hd.slot j).hdr.pos.dsGuid ∧ addr = (s₀.hd.slot j).getAddress
    · rw [if_pos hga.1, hga.2, OrdMap.find?_erase, if_pos rfl]
      simp only [reduceCtorEq, false_iff]
      rintro ⟨i, ⟨hi, hne⟩, hgi, hai, -⟩
      have heq := address_eq_iff.mp ⟨hgi.trans hga.1, hai⟩
      exact hne (hu i j (h.sub i hi).2 (h.sub j hj).2 heq.1 heq.2)
    · have hlook : (if g = (s₀.hd.slot j).hdr.pos.dsGuid then
          (st.store.inner (s₀.hd.slot j).hdr.pos.dsGuid).erase (s₀.hd.slot j).getAddress
          else st.store.inner g).find? addr = (st.store.inner g).find? addr := by
        split_ifs with hg
        · rw [OrdMap.find?_erase, if_neg fun haddr => hga ⟨hg, haddr⟩, hg]
        · rfl
      rw [hlook, h.map g addr e]
      refine exists_congr fun i => ?_
      constructor
      · rintro ⟨hi, hgi, hai, he⟩
        exact ⟨⟨hi, fun hij => hga ⟨by rw [← hgi, hij], by rw [← hai, hij]⟩⟩, hgi, hai, he⟩
      · rintro ⟨hi, hrest⟩
        exact ⟨hi.1, hrest⟩
  · rw [hslot]
    split_ifs with hij
    · rw [hij]
    · exact h.wiped i hi hpos harr fun hK => hnot ⟨hK, hij⟩
  · rw [hslot, if_neg]
    · exact h.intact i (hi.imp_right And.left)
    · rintro rfl
      exact hi.elim (fun h => by omega) fun h => h.2 rfl
  · rw [hstore]
    exact h.len.trans (le_max_left _ _)
  · rw [hstore]
    show p ∈ insert _ st.store.freeHeaders ↔ _
    rw [mem_insert, h.free p, hjpos]
    constructor
    · rintro (rfl | hp | ⟨i, hi, hn, rfl⟩)
      · exact Or.inr ⟨j, hjk, fun hK => hK.2 rfl, rfl⟩
      · exact Or.inl hp
      · exact Or.inr ⟨i, hi, fun hK => hn hK.1, rfl⟩
    · rintro (hp | ⟨i, hi, hn, rfl⟩)
      · exact Or.inr (Or.inl hp)
      · by_cases hij : i = j
        · exact Or.inl (by rw [hij])
        · exact Or.inr (Or.inr ⟨i, hi, fun hK => hn ⟨hK, hij⟩, rfl⟩)
  · rw [hstore]
    exact h.hdr
  · rw [mem_extents_killOldest hs, h.extents hs x]
    constructor
    · rintro ⟨⟨i, hi, ht, hx⟩, hnot⟩
      exact ⟨i, ⟨hi, fun hij => hnot (hij ▸ ⟨ht, hx⟩)⟩, ht, hx⟩
    · rintro ⟨i, ⟨hi, hne⟩, ht, hx⟩
      refine ⟨⟨i, hi, ht, hx⟩, fun hj' => hne ?_⟩
      -- an extent names the position of its descriptor
      have hpos : (s₀.hd.slot i).hdr.pos.hdrPos = (s₀.hd.slot j).hdr.pos.hdrPos :=
        congrArg (fun x : ChunkExtent => x.2.2.2) (hx.trans hj'.2.symm)
      rw [hjpos, (h.sub i hi).2.1] at hpos
      exact slotPos_injective hpos

/-- The calls of `freeChunk` for the descriptor `k`, and what becomes of the retained ones. -/
inductive Effect (cat : Catalog) (hd : HeaderFile) (k : ℕ) : List FreeCall → Prop
  | skip : ¬ LiveSlot cat hd k → (∀ i, Kept cat hd (k + 1) i ↔ Kept cat hd k i) → Effect cat hd k []
  | keep : LiveSlot cat hd k → (∀ i, Kept cat hd (k + 1) i ↔ i = k ∨ Kept cat hd k i) → Effect cat hd k []
  | kill (j : ℕ) : LiveSlot cat hd k → Kept cat hd k j →
      (∀ i, Kept cat hd (k + 1) i ↔ i = k ∨ Kept cat hd k i ∧ i ≠ j) →
      Effect cat hd k (if (hd.slot j).hdr.isTombstone then [] else [(hd.slot j).hdr.freeCall])
  | dead (j : ℕ) : LiveSlot cat hd k → Kept cat hd k j → (hd.slot j).place = (hd.slot k).place →
      (hd.slot k).hdr.arrId < (hd.slot j).hdr.arrId →
      (hd.slot j).hdr.arrId ≤ cat.oldestVersion (hd.slot k).hdr.pos.dsGuid →
      (∀ i, Kept cat hd (k + 1) i ↔ Kept cat hd k i) → Effect cat hd k [(hd.slot k).hdr.freeCall]

lemma ScanInv.congr {K K' : ℕ → Prop} (h : ScanInv cat cfg s₀ K k st) (hK : ∀ i, K' i ↔ K i) : ScanInv cat cfg s₀ K' k st := by
  rwa [show K' = K from funext fun i => propext (hK i)]

lemma ScanInv.visible (h : ScanInv cat cfg s₀ (Kept cat s₀.hd k) k st) : let desc := s₀.hd.slot k
    let oldest := cat.oldestVersion desc.hdr.pos.dsGuid
    (visible? (st.store.inner desc.hdr.pos.dsGuid) (desc.getAddress.withVersion oldest) = none ∧
        ∀ j < k, LiveSlot cat s₀.hd j → (s₀.hd.slot j).place = desc.place → oldest < (s₀.hd.slot j).hdr.arrId) ∨
      ∃ j, Kept cat s₀.hd k j ∧ (s₀.hd.slot j).place = desc.place ∧ (s₀.hd.slot j).hdr.arrId ≤ oldest ∧
        visible? (st.store.inner desc.hdr.pos.dsGuid) (desc.getAddress.withVersion oldest) =
          some ((s₀.hd.slot j).getAddress, (s₀.hd.slot j).entry) := by
  intro desc oldest
  cases hv : visible? (st.store.inner desc.hdr.pos.dsGuid) (desc.getAddress.withVersion oldest) with
  | none =>
    refine .inl ⟨rfl, fun j hj hlive hp => ?_⟩
    by_contra hle
    have hplace : (s₀.hd.slot j).place.1 = desc.hdr.pos.dsGuid := congrArg Prod.fst hp
    obtain ⟨i, hi, hpi, hvi⟩ := exists_kept hj hlive (by rw [hplace]; exact not_lt.mp hle)
    rw [hplace] at hvi
    have hbase := sameBaseAddr_iff.mpr (hpi.trans hp)
    have hmem := OrdMap.find?_eq_some_iff.mp ((h.map _ _ _).mpr ⟨i, hi, hbase.1, rfl, rfl⟩)
    have hlt := visible?_eq_none_iff.mp hv _ hmem ⟨hbase.2.1.symm, hbase.2.2.symm⟩
    exact absurd hvi (not_le.mpr hlt)
  | some e =>
    obtain ⟨hmem, hbase, hle, -⟩ := visible?_eq_some_iff.mp hv
    obtain ⟨j, hj, hg, haddr, he⟩ := (h.map _ _ _).mp (OrdMap.find?_eq_some_iff.mpr hmem)
    refine .inr ⟨j, hj, ?_, ?_, ?_⟩
    · exact sameBaseAddr_iff.mp ⟨hg, by rw [haddr]; exact ⟨hbase.1.symm, hbase.2.symm⟩⟩
    · have harr : (s₀.hd.slot j).hdr.arrId = e.1.arrId := congrArg arrId haddr
      rwa [harr]
    · rw [haddr, he]

lemma ScanInv.insertChunk_eq (h : ScanInv cat cfg s₀ K k st) (hu : UniqueSlots cat s₀.hd)
    (hk : LiveSlot cat s₀.hd k) : st.insertChunk cfg (s₀.hd.slot k) = .ok (st.putChunk cfg (s₀.hd.slot k)) := by
  have hnone : (st.store.inner (s₀.hd.slot k).hdr.pos.dsGuid).find? (s₀.hd.slot k).getAddress = none := by
    cases hf : (st.store.inner (s₀.hd.slot k).hdr.pos.dsGuid).find? (s₀.hd.slot k).getAddress with
    | none => rfl
    | some e =>
      obtain ⟨i, hi, hgi, hai, -⟩ := (h.map _ _ _).mp hf
      have heq := address_eq_iff.mp ⟨hgi, hai⟩
      have hik := hu i k (h.sub i hi).2 hk heq.1 heq.2
      exact absurd (h.sub i hi).1 (by omega)
  rw [insertChunk, hnone]

section

variable (h : ScanInv cat cfg s₀ (Kept cat s₀.hd k) k st) (hu : UniqueSlots cat s₀.hd)

include h hu

lemma ScanInv.scanLive (hk : LiveSlot cat s₀.hd k) :
    ∃ st' new, st.scanLive cat cfg (s₀.hd.slot k) = .ok st' ∧ ScanInv cat cfg s₀ (Kept cat s₀.hd (k + 1)) (k + 1) st' ∧
      st'.store.calls = st.store.calls ++ new ∧ Effect cat s₀.hd k new := by
  have hput := h.putChunk hu hk
  have hcalls : (st.putChunk cfg (s₀.hd.slot k)).store.calls = st.store.calls := by
    rw [putChunk_store]
    rfl
  rw [ScanState.scanLive]
  simp only [h.insertChunk_eq hu hk]
  rcases h.visible with ⟨hnone, hfirst⟩ | ⟨j, hj, hp, hjo, hsome⟩
  · have hK := kept_succ_first hk hfirst
    simp only [hnone, if_pos (pos_of_ne_zero hk.2.1)]
    exact ⟨_, [], rfl, hput.congr hK, by rw [hcalls, append_nil], .keep hk hK⟩
  · have hne : (s₀.hd.slot j).hdr.arrId ≠ (s₀.hd.slot k).hdr.arrId := fun heq =>
      hj.lt.ne (hu j k hj.live hk hp heq)
    have hadd : (s₀.hd.slot j).getAddress.arrId = (s₀.hd.slot j).hdr.arrId := rfl
    simp only [hsome, hadd]
    by_cases hjk : (s₀.hd.slot k).hdr.arrId > (s₀.hd.slot j).hdr.arrId
    · rw [if_pos hjk]
      by_cases ho : (s₀.hd.slot k).hdr.arrId ≤ cat.oldestVersion (s₀.hd.slot k).hdr.pos.dsGuid
      · rw [if_pos ⟨hj.live.2.1, ho⟩]
        have hK := kept_succ_over hu hk hj hp hjk ho
        have hguid : (s₀.hd.slot j).hdr.pos.dsGuid = (s₀.hd.slot k).hdr.pos.dsGuid := congrArg Prod.fst hp
        have hkill := hput.killOldest hu (.inr hj)
        have hstore := @ScanState.killOldest_store cfg (st.putChunk cfg (s₀.hd.slot k)) _ (s₀.hd.slot j).getAddress
          (s₀.hd.slot j) rfl (by rw [hj.live.1]; exact hput.intact j (.inr (.inr hj)))
        rw [hguid] at hkill hstore
        refine ⟨_, _, rfl, hkill.congr fun i => ?_, ?_, .kill j hk hj hK⟩
        · rw [hK]
          constructor
          · rintro (rfl | ⟨hi, hij⟩)
            · exact ⟨.inl rfl, hj.lt.ne'⟩
            · exact ⟨.inr hi, hij⟩
          · rintro ⟨rfl | hi, hij⟩
            · exact .inl rfl
            · exact .inr ⟨hi, hij⟩
        · rw [hstore]
          show (st.putChunk cfg (s₀.hd.slot k)).store.calls ++ _ = _
          rw [hcalls]
      · rw [if_neg fun hand => ho hand.2]
        have hK := kept_succ_newer hk (not_le.mp ho)
        exact ⟨_, [], rfl, hput.congr hK, by rw [hcalls, append_nil], .keep hk hK⟩
    · rw [if_neg hjk]
      have hkj : (s₀.hd.slot k).hdr.arrId < (s₀.hd.slot j).hdr.arrId := lt_of_le_of_ne (not_lt.mp hjk) hne.symm
      have hK := kept_succ_under hk hj hp hkj hjo
      refine ⟨_, _, rfl, (h.wipe (st.wipeDead _) hk.1 rfl rfl ?_ rfl rfl).congr hK, rfl, .dead j hk hj hp hkj hjo hK⟩
      show insert _ _ = insert _ _
      rw [hk.1]

/-- **The step**: what the loop does with the descriptor number `k`. -/
lemma ScanInv.scanSlot : ∃ st' new, st.scanSlot cat cfg (slotPos k) (s₀.hd.slot k) = .ok st' ∧
      ScanInv cat cfg s₀ (Kept cat s₀.hd (k + 1)) (k + 1) st' ∧
      st'.store.calls = st.store.calls ++ new ∧ Effect cat s₀.hd k new := by
  rw [ScanState.scanSlot]
  by_cases hpos : (s₀.hd.slot k).hdr.pos.hdrPos ≠ slotPos k
  · rw [if_pos hpos]
    have hdead : ¬ LiveSlot cat s₀.hd k := fun hl => hpos hl.1
    have hK := kept_succ_of_not hdead
    exact ⟨_, [], rfl, (h.freePos (.inl hpos)).congr hK, (append_nil _).symm, .skip hdead hK⟩
  · rw [if_neg hpos]
    by_cases harr : (s₀.hd.slot k).hdr.arrId ≠ 0
    · rw [if_pos harr]
      by_cases hex : cat.hasArray (s₀.hd.slot k).hdr.pos.dsGuid = true
      · rw [if_pos hex]
        exact h.scanLive hu ⟨not_not.mp hpos, harr, hex⟩
      · rw [if_neg hex]
        have hdead : ¬ LiveSlot cat s₀.hd k := fun hl => hex hl.2.2
        have hK := kept_succ_of_not hdead
        refine ⟨_, [], rfl, (h.wipe (st.wipeRemoved _) (not_not.mp hpos) rfl rfl ?_ rfl rfl).congr hK, (append_nil _).symm,
          .skip hdead hK⟩
        show insert _ _ = insert _ _
        rw [not_not.mp hpos]
    · rw [if_neg harr]
      have hdead : ¬ LiveSlot cat s₀.hd k := fun hl => harr hl.2.1
      have hK := kept_succ_of_not hdead
      exact ⟨_, [], rfl, (h.freePos (.inr (not_not.mp harr))).congr hK, (append_nil _).symm, .skip hdead hK⟩

end

/-- The calls of `freeChunk` made for the first `k` descriptors. -/
inductive Trace (cat : Catalog) (hd : HeaderFile) : ℕ → List FreeCall → Prop
  | zero : Trace cat hd 0 []
  | succ {k : ℕ} {calls new : List FreeCall} : Trace cat hd k calls → Effect cat hd k new →
      Trace cat hd (k + 1) (calls ++ new)

lemma slotPos_mono {i j : ℕ} (h : i ≤ j) : slotPos i ≤ slotPos j :=
  Nat.add_le_add_left (Nat.mul_le_mul_right _ h) _

lemma slotPos_succ (i : ℕ) : slotPos (i + 1) = slotPos i + sizeofChunkDescriptor := by
  simp only [slotPos, Nat.succ_mul, add_assoc]

lemma ScanInv.read (h : ScanInv cat cfg s₀ K k st) (hlen : slotPos (k + 1) ≤ s₀.hd.len) :
    st.store.hd.read (slotPos k) = some (s₀.hd.slot k) := by
  rw [slotPos_succ] at hlen
  rw [HeaderFile.read, if_pos (hlen.trans h.len)]
  exact congrArg some (h.intact k (.inl le_rfl))

lemma scanFrom_spec (hu : UniqueSlots cat s₀.hd) (n : ℕ) : ∀ (k : ℕ) (st : ScanState) (calls : List FreeCall),
    ScanInv cat cfg s₀ (Kept cat s₀.hd k) k st → st.store.calls = s₀.calls ++ calls → Trace cat s₀.hd k calls →
    slotPos (k + n) ≤ s₀.hd.len → ∃ st' calls', scanFrom cat cfg n k st = .ok (st', k + n) ∧
      ScanInv cat cfg s₀ (Kept cat s₀.hd (k + n)) (k + n) st' ∧
      st'.store.calls = s₀.calls ++ calls' ∧ Trace cat s₀.hd (k + n) calls' := by
  induction n with
  | zero =>
    intro k st calls h hcalls htrace _
    exact ⟨st, calls, rfl, h, hcalls, htrace⟩
  | succ n ih =>
    intro k st calls h hcalls htrace hlen
    obtain ⟨st1, new, hstep, h1, hnew, heff⟩ := h.scanSlot hu
    rw [scanFrom, h.read ((slotPos_mono (by omega)).trans hlen)]
    simp only [hstep]
    rw [show k + (n + 1) = k + 1 + n by omega] at hlen ⊢
    refine ih (k + 1) st1 (calls ++ new) h1 ?_ (htrace.succ heff) hlen
    rw [hnew, hcalls, append_assoc]

lemma scan_spec (hu : UniqueSlots cat s₀.hd) (hempty : s₀.chunkMap = OrdMap.empty) (n : ℕ) (hlen : slotPos n ≤ s₀.hd.len) :
    ∃ st calls, scanFrom cat cfg n 0 ⟨s₀, OrdMap.empty, ∅⟩ = .ok (st, n) ∧
      ScanInv cat cfg s₀ (Kept cat s₀.hd n) n st ∧ st.store.calls = s₀.calls ++ calls ∧ Trace cat s₀.hd n calls := by
  have h0 : ScanInv cat cfg s₀ (Kept cat s₀.hd 0) 0 ⟨s₀, OrdMap.empty, ∅⟩ :=
    (scanInv_zero hempty).congr fun i => ⟨fun h => Nat.not_lt_zero i h.lt, False.elim⟩
  have h := scanFrom_spec hu n 0 _ [] h0 (append_nil _).symm .zero (by rw [zero_add]; exact hlen)
  rwa [zero_add] at h

end SciDB.Smgr
