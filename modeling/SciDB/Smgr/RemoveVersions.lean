import SciDB.Smgr.ChunkMapRecovery

/-!
# Removing versions

`removeVersions` drops the versions of an array before `lastLiveArrId`; on restart `initChunkMap` does the same from the header
file. Whether an instance is responsible for a chunk is a parameter.
-/

namespace SciDB.Smgr

open SciDB.Lib SciDB.Util List Option Prod

/-- The loop of `removeVersions`. `currentChunkIsLive`: no chunk there was found yet that `lastLiveArrId` sees. -/
def victims (lastLiveArrId : ArrayID) : StorageAddress → Bool → List (StorageAddress × InnerChunkMapEntry) →
    List (StorageAddress × InnerChunkMapEntry)
  | _, _, [] => []
  | currentChunkAddr, currentChunkIsLive, e :: rest =>
    if lastLiveArrId ≠ 0 then
      -- move on to next coordinate
      let live := if ¬ e.1.sameBaseAddr currentChunkAddr then true else currentChunkIsLive
      let addr := if ¬ e.1.sameBaseAddr currentChunkAddr then e.1 else currentChunkAddr
      if e.1.arrId > lastLiveArrId then victims lastLiveArrId addr live rest
      else if e.1.arrId = lastLiveArrId then victims lastLiveArrId addr false rest
      else if live then victims lastLiveArrId addr false rest
      else e :: victims lastLiveArrId addr live rest
    else e :: victims lastLiveArrId currentChunkAddr currentChunkIsLive rest

namespace CachedStorage

/-- Remove all versions prior to `lastLiveArrId`, or all if that is 0. -/
def removeVersions (s : CachedStorage) (uaId : ArrayUAID) (lastLiveArrId : ArrayID) : CachedStorage :=
  match s.chunkMap.find? uaId with
  | none => s
  | some innerMap =>
    let gone := victims lastLiveArrId ⟨0, [], 0⟩ true innerMap.entries
    let s := gone.foldl (fun s e => s.markChunkAsFree e.2 uaId) s
    let s := { s with hd := { s.hd with hdr := s.hdr } }
    let s := s.setInner uaId (gone.foldl (fun m e => m.erase e.1) innerMap)
    if lastLiveArrId = 0 then { s with chunkMap := s.chunkMap.erase uaId } else s

end CachedStorage

/-- What lookups read. -/
structure ArrayDesc where
  uaId : ArrayUAID
  id : ArrayID
  chunkInterval : ℤ
  interval_pos : 0 < chunkInterval

/-- The last coordinate is moved on by the chunk interval, in `int64`. -/
def bumpLast (interval : ℤ) : List ℤ → List ℤ
  | [] => []
  | [x] => [int64 (x + interval)]
  | x :: y :: xs => x :: bumpLast interval (y :: xs)

/-- Past newer versions. -/
def nextEntry (m : InnerChunkMap) (address : StorageAddress) : Option (StorageAddress × InnerChunkMapEntry) :=
  match (m.entries.filter fun e => address ≤ e.1).find? fun e =>
      ¬ (e.1.arrId > address.arrId ∧ e.1.attId = address.attId) with
  | none => none
  | some e => if e.1.attId ≠ address.attId then none else some e

/-- The loop of `findNextChunk`. -/
def findNextLoop (responsible : ChunkHeader → Bool) (interval : ℤ) (m : InnerChunkMap) :
    ℕ → StorageAddress → Option (Bool × StorageAddress)
  | 0, _ => none
  | fuel + 1, address =>
    match nextEntry m address with
    | none => some (false, { address with coords := [] })
    | some (found, .normal hdr) =>
      if responsible hdr then some (true, found)
      else findNextLoop responsible interval m fuel { address with coords := bumpLast interval found.coords }
    | some (found, _) =>
      findNextLoop responsible interval m fuel { address with coords := bumpLast interval found.coords }

namespace CachedStorage

/-- The next chunk of an attribute after `address` that is part of a version, and whether
there is one. -/
def findNextChunk (s : CachedStorage) (desc : ArrayDesc) (responsible : ChunkHeader → Bool)
    (address : StorageAddress) : Option (Bool × StorageAddress) :=
  match s.chunkMap.find? desc.uaId with
  | none => some (false, { address with coords := [] })
  | some innerMap =>
    findNextLoop responsible desc.chunkInterval innerMap (innerMap.entries.length + 1)
      ⟨address.attId, bumpLast desc.chunkInterval address.coords, desc.id⟩

/-- The chunk of a version. -/
def findChunk (s : CachedStorage) (desc : ArrayDesc) (responsible : Option (ChunkHeader → Bool))
    (address : StorageAddress) : Bool × StorageAddress :=
  match s.chunkMap.find? desc.uaId with
  | none => (false, { address with coords := [] })
  | some innerMap =>
    match StorageAddress.visible? innerMap (address.withVersion desc.id) with
    | some (found, .normal hdr) =>
      if responsible.all (fun r => r hdr) then (true, address.withVersion found.arrId)
      else (false, ⟨address.attId, [], desc.id⟩)
    | _ => (false, ⟨address.attId, [], desc.id⟩)

end CachedStorage

/-- What version `lastLiveArrId` and the newer ones need of a list of entries. -/
abbrev Needed (lastLiveArrId : ArrayID) (l : List (StorageAddress × InnerChunkMapEntry))
    (e : StorageAddress × InnerChunkMapEntry) : Prop :=
  Retained (fun e : StorageAddress × InnerChunkMapEntry => (e.1.attId, e.1.coords)) (fun e => e.1.arrId)
    (fun _ => lastLiveArrId) {e | e ∈ l} e

variable {lastLiveArrId : ArrayID} {l : List (StorageAddress × InnerChunkMapEntry)}
  {e : StorageAddress × InnerChunkMapEntry}

lemma not_needed_iff (he : e ∈ l) :
    ¬ Needed lastLiveArrId l e ↔ ∃ e' ∈ l, e'.1.sameBaseAddr e.1 ∧ e'.1.arrId ≤ lastLiveArrId ∧ e.1.arrId < e'.1.arrId := by
  constructor
  · intro h
    by_contra hn
    push Not at hn
    refine h ⟨he, .inr fun e' he' hp hv => hn e' he' ?_ hv⟩
    exact ⟨congrArg fst hp, congrArg snd hp⟩
  · rintro ⟨e', he', hp, hv, hlt⟩ ⟨-, hnew | hmax⟩
    · exact absurd (hlt.trans_le hv) (not_lt.mpr (le_of_lt hnew))
    · exact absurd (hmax e' he' (Prod.ext hp.1 hp.2) hv) (not_le.mpr hlt)

lemma victims_sublist (lastLiveArrId : ArrayID) :
    ∀ (l : List (StorageAddress × InnerChunkMapEntry)) (cur : StorageAddress) (live : Bool),
      (victims lastLiveArrId cur live l).Sublist l
  | [], _, _ => List.Sublist.slnil
  | e :: l, cur, live => by
    simp only [victims]
    split_ifs
    all_goals first
      | exact (victims_sublist lastLiveArrId l _ _).cons e
      | exact (victims_sublist lastLiveArrId l _ _).cons_cons e

open StorageAddress

lemma mem_victims_of (hlast : lastLiveArrId ≠ 0) :
    ∀ (l seen : List (StorageAddress × InnerChunkMapEntry)) (cur : StorageAddress) (live : Bool),
      (seen ++ l).Pairwise (fun a b => a.1 < b.1) →
      (∀ x ∈ l, (∃ e' ∈ seen, e'.1.sameBaseAddr x.1 ∧ e'.1.arrId ≤ lastLiveArrId) ↔ x.1.sameBaseAddr cur ∧ live = false) →
      ∀ e ∈ l, e ∈ victims lastLiveArrId cur live l ↔ ¬ Needed lastLiveArrId (seen ++ l) e
  | [], _, _, _, _, _, e, he => absurd he not_mem_nil
  | x :: l, seen, cur, live, hsort, hseen, e, he => by
    have hsort' : ((seen ++ [x]) ++ l).Pairwise (fun a b => a.1 < b.1) := by
      rwa [append_assoc]
    have hbefore : ∀ e' ∈ seen, e'.1 < x.1 := fun e' he' =>
      (pairwise_append.mp hsort).2.2 e' he' x mem_cons_self
    have hafter : ∀ y ∈ l, x.1 < y.1 := (pairwise_cons.mp (pairwise_append.mp hsort).2.1).1
    have hnotin : x ∉ l := fun hx => lt_irrefl _ (hafter x hx)
    -- where the pass is after `x`
    set live' := if ¬ x.1.sameBaseAddr cur then true else live with hlive'
    set cur' := if ¬ x.1.sameBaseAddr cur then x.1 else cur with hcur'
    have hbase : x.1.sameBaseAddr cur' := by
      rw [hcur']
      split_ifs with hx
      · exact hx
      · exact ⟨rfl, rfl⟩
    have hflag : live' = false ↔ ∃ e' ∈ seen, e'.1.sameBaseAddr x.1 ∧ e'.1.arrId ≤ lastLiveArrId := by
      rw [hseen x mem_cons_self, hlive']
      by_cases hx : x.1.sameBaseAddr cur <;> simp [hx]
    -- what the pass knows for the rest, once its flag says whether a needed entry was seen
    have hnext : ∀ live'' : Bool, (live'' = false ↔ live' = false ∨ x.1.arrId ≤ lastLiveArrId) →
        ∀ y ∈ l, (∃ e' ∈ seen ++ [x], e'.1.sameBaseAddr y.1 ∧ e'.1.arrId ≤ lastLiveArrId) ↔
          y.1.sameBaseAddr cur' ∧ live'' = false := by
      intro live'' hl'' y hy
      rw [hl'', hflag]
      constructor
      · rintro ⟨e', he', hs, hv⟩
        have hsame : x.1.sameBaseAddr y.1 := by
          rcases mem_append.mp he' with he' | he'
          · exact (sameBaseAddr_of_between hs (hbefore e' he').le (hafter y hy).le).symm.trans hs
          · rwa [mem_singleton.mp he'] at hs
        refine ⟨hsame.symm.trans hbase, ?_⟩
        rcases mem_append.mp he' with he' | he'
        · exact .inl ⟨e', he', hs.trans hsame.symm, hv⟩
        · rw [mem_singleton.mp he'] at hv
          exact .inr hv
      · rintro ⟨hy', ⟨e', he', hs, hv⟩ | hv⟩
        · exact ⟨e', mem_append_left _ he', hs.trans (hbase.trans hy'.symm), hv⟩
        · exact ⟨x, mem_append_right _ (mem_singleton_self x), hbase.trans hy'.symm, hv⟩
    have hlist : (seen ++ [x]) ++ l = seen ++ x :: l := by rw [append_assoc]; rfl
    have ih : ∀ live'' : Bool, (live'' = false ↔ live' = false ∨ x.1.arrId ≤ lastLiveArrId) → ∀ e ∈ l,
        e ∈ victims lastLiveArrId cur' live'' l ↔ ¬ Needed lastLiveArrId (seen ++ x :: l) e := fun live'' hl'' e he => by
      rw [← hlist]
      exact mem_victims_of hlast l (seen ++ [x]) cur' live'' hsort' (hnext live'' hl'') e he
    -- `x` itself is given up when its place was already served
    have hx : ¬ Needed lastLiveArrId (seen ++ x :: l) x ↔ x.1.arrId < lastLiveArrId ∧ live' = false := by
      rw [not_needed_iff (mem_append_right _ mem_cons_self), hflag]
      constructor
      · rintro ⟨e', he', hs, hv, hlt⟩
        refine ⟨hlt.trans_le hv, e', ?_, hs, hv⟩
        rcases mem_append.mp he' with he' | he'
        · exact he'
        · exfalso
          rcases mem_cons.mp he' with rfl | he'
          · exact lt_irrefl _ hlt
          · have hle := (le_iff_of_sameBaseAddr hs.symm).mp (hafter e' he').le
            exact absurd hle (not_le.mpr hlt)
      · rintro ⟨hlt, e', he', hs, hv⟩
        refine ⟨e', mem_append_left _ he', hs, hv, ?_⟩
        have hle := (le_iff_of_sameBaseAddr hs).mp (hbefore e' he').le
        refine lt_of_le_of_ne hle fun heq => (hbefore e' he').ne ?_
        exact StorageAddress.ext hs.1 hs.2 heq.symm
    rw [victims, if_pos hlast]
    simp only [← hlive', ← hcur']
    rcases mem_cons.mp he with rfl | he
    · rw [hx]
      split_ifs with h1 h2 h3
      · exact iff_of_false (fun h => hnotin ((victims_sublist _ _ _ _).subset h)) fun h => lt_asymm h.1 h1
      · exact iff_of_false (fun h => hnotin ((victims_sublist _ _ _ _).subset h)) fun h => h.1.ne h2
      · exact iff_of_false (fun h => hnotin ((victims_sublist _ _ _ _).subset h)) fun h => by simp [h3] at h
      · exact iff_of_true mem_cons_self ⟨lt_of_le_of_ne (not_lt.mp h1) h2, by simpa using h3⟩
    · have hne : e ≠ x := fun heq => hnotin (heq ▸ he)
      split_ifs with h1 h2 h3
      · exact ih live' (by simp [not_le.mpr h1]) e he
      · exact ih false (by simp [h2]) e he
      · exact ih false (by simp [not_lt.mp h1]) e he
      · rw [mem_cons, or_iff_right hne]
        exact ih live' (by simp at h3; simp [h3]) e he

lemma mem_victims (hlast : lastLiveArrId ≠ 0) (m : InnerChunkMap) :
    e ∈ victims lastLiveArrId ⟨0, [], 0⟩ true m.entries ↔ e ∈ m.entries ∧ ¬ Needed lastLiveArrId m.entries e := by
  have hall := mem_victims_of hlast m.entries [] ⟨0, [], 0⟩ true m.sorted (by simp)
  constructor
  · intro he
    have hmem := (victims_sublist _ _ _ _).subset he
    exact ⟨hmem, (hall e hmem).mp he⟩
  · rintro ⟨hmem, hn⟩
    exact (hall e hmem).mpr hn

/-- Number `i` is in use. -/
def InUse (hd : HeaderFile) (i : ℕ) : Prop :=
  (hd.slot i).hdr.pos.hdrPos = slotPos i ∧ (hd.slot i).hdr.arrId ≠ 0

/-- `e` is that of descriptor `i`. -/
def EntryAt (hd : HeaderFile) (uaId : ArrayUAID) (i : ℕ) (e : StorageAddress × InnerChunkMapEntry) : Prop :=
  InUse hd i ∧ (hd.slot i).hdr.pos.dsGuid = uaId ∧ (hd.slot i).getAddress = e.1 ∧ (hd.slot i).entry = e.2

variable {hd : HeaderFile} {uaId : ArrayUAID} {i j : ℕ} {e' : StorageAddress × InnerChunkMapEntry}

lemma hdrPos_eq_of_entry {a b : ChunkDescriptor} (h : a.entry = b.entry) : a.hdr.pos.hdrPos = b.hdr.pos.hdrPos := by
  unfold ChunkDescriptor.entry at h
  split_ifs at h
  · exact InnerChunkMapEntry.tombstone.inj h
  · rw [InnerChunkMapEntry.normal.inj h]

lemma EntryAt.slot_unique (h : EntryAt hd uaId i e) (h' : EntryAt hd uaId j e') (he : e.2 = e'.2) : i = j := by
  have hpos := hdrPos_eq_of_entry (h.2.2.2.trans (he.trans h'.2.2.2.symm))
  rw [h.1.1, h'.1.1] at hpos
  exact slotPos_injective hpos

lemma EntryAt.entry_unique (h : EntryAt hd uaId i e) (h' : EntryAt hd uaId i e') : e = e' :=
  Prod.ext (h.2.2.1.symm.trans h'.2.2.1) (h.2.2.2.symm.trans h'.2.2.2)

/-- What marking as free does. -/
structure Marked (hd : HeaderFile) (uaId : ArrayUAID) (vs : List (StorageAddress × InnerChunkMapEntry))
    (s₁ s₂ : CachedStorage) : Prop where
  wiped : ∀ i e, e ∈ vs → EntryAt hd uaId i e → s₂.hd.slot i = (hd.slot i).freed
  others : ∀ i, (∀ e ∈ vs, ¬ EntryAt hd uaId i e) → s₂.hd.slot i = s₁.hd.slot i
  chunkMap : s₂.chunkMap = s₁.chunkMap
  hdr : s₂.hdr = s₁.hdr
  len : s₁.hd.len ≤ s₂.hd.len
  calls : ∀ c ∈ s₂.calls, c ∈ s₁.calls ∨ ∃ i, InUse hd i ∧ (hd.slot i).hdr.isTombstone = false ∧ c = (hd.slot i).hdr.freeCall

open CachedStorage

lemma foldl_markChunkAsFree (hd : HeaderFile) (uaId : ArrayUAID) :
    ∀ (vs : List (StorageAddress × InnerChunkMapEntry)) (s : CachedStorage), vs.Nodup →
      (∀ e ∈ vs, ∃ i, EntryAt hd uaId i e) → (∀ i e, e ∈ vs → EntryAt hd uaId i e → s.hd.slot i = hd.slot i) →
      Marked hd uaId vs s (vs.foldl (fun s e => s.markChunkAsFree e.2 uaId) s)
  | [], s, _, _, _ => ⟨by simp, fun _ _ => rfl, rfl, rfl, le_rfl, fun _ hc => Or.inl hc⟩
  | e :: vs, s, hnd, hvs, hint => by
    obtain ⟨hnotin, hnd⟩ := nodup_cons.mp hnd
    obtain ⟨j, hj⟩ := hvs e mem_cons_self
    have hslot : s.hd.slot j = hd.slot j := hint j e mem_cons_self hj
    have hpos : (hd.slot j).hdr.pos.hdrPos = slotPos j := hj.1.1
    have hmark := @CachedStorage.markChunkAsFree_entry s uaId (hd.slot j) (by rw [hpos]; exact hslot)
    rw [hj.2.2.2] at hmark
    have hslots : ∀ i, (s.markChunkAsFree e.2 uaId).hd.slot i = if i = j then (hd.slot j).freed else s.hd.slot i :=
      fun i => by
        rw [hmark]
        exact slot_wipe { s with calls := _ } hpos hslot
    have hne : ∀ i e', e' ∈ vs → EntryAt hd uaId i e' → i ≠ j := fun i e' he' hi hij =>
      hnotin (hj.entry_unique (hij ▸ hi) ▸ he')
    have ih := foldl_markChunkAsFree hd uaId vs (s.markChunkAsFree e.2 uaId) hnd
      (fun e' he' => hvs e' (mem_cons_of_mem e he')) fun i e' he' hi => by
        rw [hslots, if_neg (hne i e' he' hi)]
        exact hint i e' (mem_cons_of_mem e he') hi
    rw [foldl_cons]
    refine ⟨fun i e' he' hi => ?_, fun i hi => ?_, ?_, ?_, ?_, fun c hc => ?_⟩
    · rcases mem_cons.mp he' with rfl | he'
      · have hij := hi.slot_unique hj rfl
        subst hij
        rw [ih.others i fun e'' he'' hi'' => hne i e'' he'' hi'' rfl, hslots, if_pos rfl]
      · exact ih.wiped i e' he' hi
    · rw [ih.others i fun e' he' => hi e' (mem_cons_of_mem e he'), hslots, if_neg]
      rintro rfl
      exact hi e mem_cons_self hj
    · rw [ih.chunkMap, hmark]
      rfl
    · rw [ih.hdr, hmark]
      rfl
    · refine le_trans ?_ ih.len
      rw [hmark]
      exact le_max_left _ _
    · rcases ih.calls c hc with hc | hc
      · rw [hmark] at hc
        rcases mem_append.mp hc with hc | hc
        · exact .inl hc
        · cases ht : (hd.slot j).hdr.isTombstone with
          | true =>
            rw [ht] at hc
            cases hc
          | false =>
            rw [ht] at hc
            refine .inr ⟨j, hj.1, ht, ?_⟩
            rw [mem_singleton.mp hc, ← hj.2.1]
            rfl
      · exact .inr hc

/-- The map is that of the file. -/
structure Mirrors (s : CachedStorage) : Prop where
  map : ∀ g addr e, (s.inner g).find? addr = some e ↔ ∃ i < s.hdr.nChunks, EntryAt s.hd g i (addr, e)
  dims : ∀ i, InUse s.hd i → (s.hd.slot i).getAddress.coords ≠ []
  hdr : s.hd.hdr = s.hdr
  len : slotPos s.hdr.nChunks ≤ s.hd.len

variable {s : CachedStorage}

open OrdMap

lemma Mirrors.mem_entries (h : Mirrors s) {g : ArrayUAID} :
    e ∈ (s.inner g).entries ↔ ∃ i < s.hdr.nChunks, EntryAt s.hd g i e := by
  rw [← h.map g e.1 e.2, find?_eq_some_iff]

lemma foldl_erase {m : InnerChunkMap} (vs : List (StorageAddress × InnerChunkMapEntry)) :
    e ∈ (vs.foldl (fun m e => m.erase e.1) m).entries ↔ e ∈ m.entries ∧ ∀ v ∈ vs, e.1 ≠ v.1 := by
  induction vs generalizing m with
  | nil => simp
  | cons v vs ih =>
    rw [foldl_cons, ih, mem_erase]
    simp only [mem_cons, forall_eq_or_imp]
    tauto

lemma mem_removeVersions (hlast : lastLiveArrId ≠ 0) : e ∈ ((s.removeVersions uaId lastLiveArrId).inner uaId).entries ↔
      e ∈ (s.inner uaId).entries ∧ Needed lastLiveArrId (s.inner uaId).entries e := by
  unfold removeVersions
  cases hf : s.chunkMap.find? uaId with
  | none =>
    have hinner : s.inner uaId = empty := by rw [CachedStorage.inner, hf]; rfl
    simp [hinner]
  | some m =>
    have hinner : s.inner uaId = m := by rw [CachedStorage.inner, hf]; rfl
    simp only [if_neg hlast, inner_setInner, if_true, hinner]
    rw [foldl_erase]
    refine and_congr_right fun he => ⟨fun h => ?_, fun h v hv heq => ?_⟩
    · by_contra hn
      exact h e ((mem_victims hlast m).mpr ⟨he, hn⟩) rfl
    · have hve : v = e := by
        have hvm := ((mem_victims hlast m).mp hv).1
        exact Prod.ext heq.symm (eq_of_mem (k := v.1) hvm (by rw [← heq]; exact he))
      rw [hve] at hv
      exact ((mem_victims hlast m).mp hv).2 h

lemma Mirrors.removeVersions_marked (h : Mirrors s) (uaId : ArrayUAID) (lastLiveArrId : ArrayID) :
    ∃ s', Marked s.hd uaId (victims lastLiveArrId ⟨0, [], 0⟩ true (s.inner uaId).entries) s s' ∧
      (∀ i, (s.removeVersions uaId lastLiveArrId).hd.slot i = s'.hd.slot i) ∧
      (s.removeVersions uaId lastLiveArrId).calls = s'.calls ∧ (s.removeVersions uaId lastLiveArrId).hd.hdr = s.hdr ∧
      slotPos s.hdr.nChunks ≤ (s.removeVersions uaId lastLiveArrId).hd.len := by
  have hmarked := foldl_markChunkAsFree s.hd uaId (victims lastLiveArrId ⟨0, [], 0⟩ true (s.inner uaId).entries) s
    ((victims_sublist _ _ _ _).nodup ((s.inner uaId).sorted.imp fun {a b} hlt heq => by
      rw [heq] at hlt; exact lt_irrefl _ hlt))
    (fun e he => by
      obtain ⟨i, -, hi⟩ := h.mem_entries.mp ((victims_sublist _ _ _ _).subset he)
      exact ⟨i, hi⟩) (fun i e _ _ => rfl)
  unfold removeVersions
  cases hf : s.chunkMap.find? uaId with
  | none =>
    have hinner : s.inner uaId = empty := by rw [CachedStorage.inner, hf]; rfl
    rw [hinner] at hmarked ⊢
    exact ⟨s, hmarked, fun _ => rfl, rfl, h.hdr, h.len⟩
  | some m =>
    have hinner : s.inner uaId = m := by rw [CachedStorage.inner, hf]; rfl
    rw [hinner] at hmarked ⊢
    refine ⟨_, hmarked, fun i => ?_, ?_, ?_, ?_⟩
    all_goals simp only
    · split_ifs <;> rfl
    · split_ifs <;> rfl
    · split_ifs <;> exact hmarked.hdr
    · split_ifs <;> exact h.len.trans hmarked.len

lemma Mirrors.slot_removeVersions (h : Mirrors s) (hi : InUse (s.removeVersions uaId lastLiveArrId).hd i) :
    (s.removeVersions uaId lastLiveArrId).hd.slot i = s.hd.slot i := by
  obtain ⟨s', hmarked, hslot, -, -, -⟩ := h.removeVersions_marked uaId lastLiveArrId
  rw [hslot]
  refine hmarked.others i fun e he hie => hi.2 ?_
  rw [hslot, hmarked.wiped i e he hie]
  rfl

lemma Mirrors.inUse_removeVersions (h : Mirrors s) (hlast : lastLiveArrId ≠ 0) (hi : i < s.hdr.nChunks) :
    InUse (s.removeVersions uaId lastLiveArrId).hd i ↔ InUse s.hd i ∧ ((s.hd.slot i).hdr.pos.dsGuid = uaId →
      Needed lastLiveArrId (s.inner uaId).entries ((s.hd.slot i).getAddress, (s.hd.slot i).entry)) := by
  obtain ⟨s', hmarked, hslot, -, -, -⟩ := h.removeVersions_marked uaId lastLiveArrId
  by_cases hv : ∃ e ∈ victims lastLiveArrId ⟨0, [], 0⟩ true (s.inner uaId).entries, EntryAt s.hd uaId i e
  · -- a victim: its descriptor is wiped
    obtain ⟨e, he, hie⟩ := hv
    refine iff_of_false (fun hu => hu.2 ?_) fun hu => ?_
    · rw [hslot, hmarked.wiped i e he hie]
      rfl
    · have heq : e = ((s.hd.slot i).getAddress, (s.hd.slot i).entry) := Prod.ext hie.2.2.1.symm hie.2.2.2.symm
      exact ((mem_victims hlast _).mp he).2 (heq ▸ hu.2 hie.2.1)
  · push Not at hv
    unfold InUse
    rw [hslot, hmarked.others i hv]
    refine ⟨fun hu => ⟨hu, fun hg => ?_⟩, fun hu => hu.1⟩
    by_contra hn
    have hat : EntryAt s.hd uaId i ((s.hd.slot i).getAddress, (s.hd.slot i).entry) := ⟨hu, hg, rfl, rfl⟩
    exact hv _ ((mem_victims hlast _).mpr ⟨h.mem_entries.mpr ⟨i, hi, hat⟩, hn⟩) hat

variable {cat : Catalog} {cfg : ChunkmapConfig}

lemma Mirrors.liveSlot_removeVersions (h : Mirrors s) (hi : LiveSlot cat (s.removeVersions uaId lastLiveArrId).hd i) :
    LiveSlot cat s.hd i ∧ (s.removeVersions uaId lastLiveArrId).hd.slot i = s.hd.slot i := by
  have hsame := h.slot_removeVersions ⟨hi.1, hi.2.1⟩
  unfold LiveSlot at hi ⊢
  rw [hsame] at hi
  exact ⟨hi, hsame⟩

lemma Mirrors.wellFormed_removeVersions (h : Mirrors s) (hwf : WellFormed cat s.hd) :
    WellFormed cat (s.removeVersions uaId lastLiveArrId).hd := by
  refine ⟨fun i j hi hj hp harr => ?_, fun i j hi hj hit hjt hc => ?_, fun i hi ht => ?_, fun i hi ht => ?_⟩
  · obtain ⟨hi', hsi⟩ := h.liveSlot_removeVersions hi
    obtain ⟨hj', hsj⟩ := h.liveSlot_removeVersions hj
    rw [hsi, hsj] at hp harr
    exact hwf.unique i j hi' hj' hp harr
  · obtain ⟨hi', hsi⟩ := h.liveSlot_removeVersions hi
    obtain ⟨hj', hsj⟩ := h.liveSlot_removeVersions hj
    rw [hsi] at hit
    rw [hsj] at hjt
    rw [hsi, hsj] at hc
    exact hwf.own i j hi' hj' hit hjt hc
  · obtain ⟨hi', hsi⟩ := h.liveSlot_removeVersions hi
    rw [hsi] at ht ⊢
    exact hwf.size i hi' ht
  · obtain ⟨hi', hsi⟩ := h.liveSlot_removeVersions hi
    rw [hsi] at ht ⊢
    exact hwf.tombstone i hi' ht

lemma Mirrors.kept_removeVersions (h : Mirrors s) (hlast : lastLiveArrId ≠ 0)
    (hold : cat.oldestVersion uaId = lastLiveArrId) {k : ℕ} (hk : k ≤ s.hdr.nChunks) (hik : i < k)
    (hi : LiveSlot cat (s.removeVersions uaId lastLiveArrId).hd i) (hg : (s.hd.slot i).hdr.pos.dsGuid = uaId) :
    Kept cat (s.removeVersions uaId lastLiveArrId).hd k i := by
  obtain ⟨-, hsi⟩ := h.liveSlot_removeVersions hi
  have hneed := ((h.inUse_removeVersions hlast (hik.trans_le hk)).mp ⟨hi.1, hi.2.1⟩).2 hg
  refine ⟨⟨hik, hi⟩, ?_⟩
  have hplace : cat.oldestVersion ((s.removeVersions uaId lastLiveArrId).hd.slot i).place.1 = lastLiveArrId := by
    rw [hsi, ← hold, ← hg]
    rfl
  simp only [hplace]
  refine hneed.2.imp (fun hnew => by rw [hsi]; exact hnew) fun hmax j hj hp hv => ?_
  obtain ⟨hj', hsj⟩ := h.liveSlot_removeVersions hj.2
  rw [hsi, hsj] at hp
  rw [hsj] at hv
  rw [hsi, hsj]
  have hbase := sameBaseAddr_iff.mpr hp
  have hat : EntryAt s.hd uaId j ((s.hd.slot j).getAddress, (s.hd.slot j).entry) := ⟨⟨hj'.1, hj'.2.1⟩, hbase.1.trans hg, rfl, rfl⟩
  exact hmax _ (h.mem_entries.mpr ⟨j, hj.1.trans_le hk, hat⟩) (Prod.ext hbase.2.1 hbase.2.2) hv

/-- **The two removals agree**: a restart rebuilds the map that `removeVersions` left. -/
lemma Mirrors.rebuilt (h : Mirrors s) (hlast : lastLiveArrId ≠ 0) (hcat : cat.hasArray uaId = true)
    (hold : cat.oldestVersion uaId = lastLiveArrId) {s₂ : CachedStorage}
    (hrec : Recovered cat (beforeRecovery (s.removeVersions uaId lastLiveArrId).hd) s.hdr.nChunks s₂) :
    s₂.inner uaId = (s.removeVersions uaId lastLiveArrId).inner uaId := by
  refine ext_find fun addr => ext fun e => ?_
  rw [hrec.map, find?_eq_some_iff, mem_removeVersions hlast]
  constructor
  · rintro ⟨i, hi, hg, ha, he⟩
    obtain ⟨hi', hsi⟩ := h.liveSlot_removeVersions hi.live
    have hneed := (h.inUse_removeVersions hlast hi.lt).mp ⟨hi.live.1, hi.live.2.1⟩
    have hsi' : (beforeRecovery (s.removeVersions uaId lastLiveArrId).hd).hd.slot i = s.hd.slot i := hsi
    rw [hsi'] at hg ha he
    have hat : EntryAt s.hd uaId i (addr, e) := ⟨⟨hi'.1, hi'.2.1⟩, hg, ha, he⟩
    have hn := hneed.2 hg
    rw [ha, he] at hn
    exact ⟨h.mem_entries.mpr ⟨i, hi.lt, hat⟩, hn⟩
  · rintro ⟨hmem, hn⟩
    obtain ⟨i, hi, hu, hg, ha, he⟩ := h.mem_entries.mp hmem
    have huse : InUse (s.removeVersions uaId lastLiveArrId).hd i := by
      refine (h.inUse_removeVersions hlast hi).mpr ⟨hu, fun _ => ?_⟩
      rwa [ha, he]
    have hsi := h.slot_removeVersions huse
    have hlive : LiveSlot cat (s.removeVersions uaId lastLiveArrId).hd i := ⟨huse.1, huse.2, by rw [hsi, hg]; exact hcat⟩
    have hsi' : (beforeRecovery (s.removeVersions uaId lastLiveArrId).hd).hd.slot i = s.hd.slot i := hsi
    refine ⟨i, h.kept_removeVersions hlast hold le_rfl hi hlive hg, ?_⟩
    rw [hsi']
    exact ⟨hg, ha, he⟩

def Sees (a : StorageAddress) (e : StorageAddress × InnerChunkMapEntry) : Prop :=
  a ≤ e.1 ∧ e.1.attId = a.attId ∧ e.1.arrId ≤ a.arrId

instance (a : StorageAddress) (e : StorageAddress × InnerChunkMapEntry) : Decidable (Sees a e) :=
  inferInstanceAs (Decidable (_ ∧ _ ∧ _))

lemma attId_of_between {a b c : StorageAddress} (hac : a.attId = c.attId) (hab : a ≤ b) (hbc : b ≤ c) : b.attId = a.attId := by
  rw [← not_lt, lt_iff] at hab hbc
  push Not at hab hbc
  exact le_antisymm (hac ▸ hbc.1) hab.1

variable {m m' : InnerChunkMap} {a : StorageAddress} {r : Bool × StorageAddress} {responsible : ChunkHeader → Bool}

lemma nextEntry_eq_some_iff : nextEntry m a = some e ↔ e ∈ m.entries ∧ Sees a e ∧ ∀ e' ∈ m.entries, Sees a e' → e.1 ≤ e'.1 := by
  unfold nextEntry
  rw [find?_filter]
  constructor
  · intro h
    cases hf : m.entries.find? fun e => decide (decide (a ≤ e.1) = true ∧
        decide (¬ (e.1.arrId > a.arrId ∧ e.1.attId = a.attId)) = true) with
    | none => rw [hf] at h; cases h
    | some e0 =>
      rw [hf] at h
      simp only at h
      split_ifs at h with hatt
      cases h
      obtain ⟨hmem, hp, hmin⟩ := find?_entries_eq_some_iff.mp hf
      simp only [decide_eq_true_eq] at hp hmin
      refine ⟨hmem, ⟨hp.1, not_not.mp hatt, not_lt.mp fun hgt => hp.2 ⟨hgt, not_not.mp hatt⟩⟩, fun e' he' hs => ?_⟩
      exact hmin e' he' ⟨hs.1, fun hgt => absurd hs.2.2 (not_le.mpr hgt.1)⟩
  · rintro ⟨hmem, hs, hmin⟩
    obtain ⟨e0, hf⟩ : ∃ e0, m.entries.find? (fun e => decide (decide (a ≤ e.1) = true ∧
        decide (¬ (e.1.arrId > a.arrId ∧ e.1.attId = a.attId)) = true)) = some e0 := by
      rw [← isSome_iff_exists, find?_isSome]
      refine ⟨e, hmem, ?_⟩
      simp only [decide_eq_true_eq]
      exact ⟨hs.1, fun hgt => absurd hs.2.2 (not_le.mpr hgt.1)⟩
    obtain ⟨hmem0, hp0, hmin0⟩ := find?_entries_eq_some_iff.mp hf
    simp only [decide_eq_true_eq] at hp0 hmin0
    have hle := hmin0 e hmem ⟨hs.1, fun hgt => absurd hs.2.2 (not_le.mpr hgt.1)⟩
    have hatt := attId_of_between hs.2.1.symm hp0.1 hle
    have hge := hmin e0 hmem0 ⟨hp0.1, hatt, not_lt.mp fun hgt => hp0.2 ⟨hgt, hatt⟩⟩
    have heq : e0 = e := by
      have hk := le_antisymm hle hge
      exact Prod.ext hk (eq_of_mem (k := e0.1) hmem0 (by rw [hk]; exact hmem))
    rw [heq] at hatt
    rw [hf, heq]
    exact if_neg (not_not.mpr hatt)

lemma nextEntry_eq_none_iff : nextEntry m a = none ↔ ∀ e ∈ m.entries, ¬ Sees a e := by
  constructor
  · intro h e he hs
    -- the least entry of that kind would have been found
    obtain ⟨e0, hf⟩ : ∃ e0, m.entries.find? (fun e => Sees a e) = some e0 := by
      rw [← isSome_iff_exists, find?_isSome]
      exact ⟨e, he, decide_eq_true hs⟩
    obtain ⟨hmem0, hp0, hmin0⟩ := find?_entries_eq_some_iff.mp hf
    simp only [decide_eq_true_eq] at hp0 hmin0
    rw [nextEntry_eq_some_iff.mpr ⟨hmem0, hp0, fun e' he' hs' => hmin0 e' he' hs'⟩] at h
    cases h
  · intro h
    cases hn : nextEntry m a with
    | none => rfl
    | some e =>
      obtain ⟨hmem, hs, -⟩ := nextEntry_eq_some_iff.mp hn
      exact absurd hs (h e hmem)

/-- `m'` is what `lastLiveArrId` and the newer versions need of `m`. -/
def NeededPart (lastLiveArrId : ArrayID) (m m' : InnerChunkMap) : Prop :=
  ∀ e, e ∈ m'.entries ↔ e ∈ m.entries ∧ Needed lastLiveArrId m.entries e

section

variable (h : NeededPart lastLiveArrId m m')

include h

lemma NeededPart.visible (ha : lastLiveArrId ≤ a.arrId) : StorageAddress.visible? m' a = StorageAddress.visible? m a := by
  cases hv : visible? m a with
  | none =>
    rw [visible?_eq_none_iff] at hv ⊢
    exact fun e he => hv e ((h e).mp he).1
  | some e =>
    obtain ⟨hmem, hs, hle, hmax⟩ := visible?_eq_some_iff.mp hv
    refine visible?_eq_some_iff.mpr
      ⟨(h e).mpr ⟨hmem, hmem, .inr fun e' he' hp hv => ?_⟩, hs, hle, fun e' he' => hmax e' ((h e').mp he').1⟩
    refine hmax e' he' ?_ (hv.trans ha)
    exact ⟨hs.1.trans (congrArg fst hp).symm, hs.2.trans (congrArg snd hp).symm⟩

lemma NeededPart.nextEntry (ha : lastLiveArrId ≤ a.arrId) : nextEntry m' a = nextEntry m a := by
  cases hn : Smgr.nextEntry m a with
  | none =>
    rw [nextEntry_eq_none_iff] at hn ⊢
    exact fun e he => hn e ((h e).mp he).1
  | some e =>
    obtain ⟨hmem, hs, hmin⟩ := nextEntry_eq_some_iff.mp hn
    refine nextEntry_eq_some_iff.mpr
      ⟨(h e).mpr ⟨hmem, hmem, .inr fun e' he' hp hv => ?_⟩, hs, fun e' he' => hmin e' ((h e').mp he').1⟩
    -- an entry of the same place that is newer comes first, and is not before `a` either
    have hbase : e'.1.sameBaseAddr e.1 := ⟨congrArg fst hp, congrArg snd hp⟩
    by_contra hlt
    have hbefore : e'.1 ≤ e.1 := (le_iff_of_sameBaseAddr hbase).mpr (not_le.mp hlt).le
    have hae' : a ≤ e'.1 := by
      by_contra hnot
      have hsame := sameBaseAddr_of_between hbase (not_le.mp hnot).le hs.1
      exact hnot ((le_iff_of_sameBaseAddr hsame.symm).mpr (hv.trans ha))
    have hle := hmin e' he' ⟨hae', hbase.1.trans hs.2.1, hv.trans ha⟩
    exact hlt (congrArg arrId (le_antisymm hbefore hle)).le

lemma NeededPart.findNextLoop (responsible : ChunkHeader → Bool) (interval : ℤ) (fuel : ℕ) :
    ∀ a : StorageAddress, lastLiveArrId ≤ a.arrId →
      findNextLoop responsible interval m' fuel a = findNextLoop responsible interval m fuel a := by
  induction fuel with
  | zero => intro a _; rfl
  | succ fuel ih =>
    intro a ha
    rw [Smgr.findNextLoop, Smgr.findNextLoop, h.nextEntry ha]
    rcases Smgr.nextEntry m a with _ | ⟨found, entry⟩
    · rfl
    · cases entry with
      | normal hdr => simp only [ih { a with coords := bumpLast interval found.coords } ha]
      | tombstone _ => exact ih { a with coords := bumpLast interval found.coords } ha
      | invalid _ => exact ih { a with coords := bumpLast interval found.coords } ha

end

lemma findNextLoop_succ (responsible : ChunkHeader → Bool) (interval : ℤ) (m : InnerChunkMap) (fuel : ℕ) : ∀ a : StorageAddress,
      findNextLoop responsible interval m fuel a = some r → findNextLoop responsible interval m (fuel + 1) a = some r := by
  induction fuel with
  | zero => intro a h; cases h
  | succ fuel ih =>
    intro a h
    rw [findNextLoop] at h ⊢
    generalize nextEntry m a = next at h ⊢
    rcases next with _ | ⟨found, entry⟩
    · exact h
    · cases entry with
      | normal hdr =>
        simp only at h ⊢
        split_ifs at h ⊢
        · exact h
        · exact ih _ h
      | tombstone _ => exact ih _ h
      | invalid _ => exact ih _ h

lemma findNextLoop_mono (responsible : ChunkHeader → Bool) (interval : ℤ) (m : InnerChunkMap)
    {fuel fuel' : ℕ} (hle : fuel ≤ fuel') (h : findNextLoop responsible interval m fuel a = some r) :
    findNextLoop responsible interval m fuel' a = some r := by
  induction hle with
  | refl => exact h
  | step _ ih => exact findNextLoop_succ responsible interval m _ a ih

section Skips

variable (responsible : ChunkHeader → Bool) (interval : ℤ) (m : InnerChunkMap)

/-- The loop ends after it has skipped `n` entries. -/
def Skips (n : ℕ) (a : StorageAddress) : Prop :=
  findNextLoop responsible interval m n a = none ∧ ∃ r, findNextLoop responsible interval m (n + 1) a = some r

variable {responsible interval m}

lemma Skips.unique {i j : ℕ} (hi : Skips responsible interval m i a) (hj : Skips responsible interval m j a) : i = j := by
  have hnot : ∀ {i j}, Skips responsible interval m i a → Skips responsible interval m j a → ¬i < j := by
    rintro i j ⟨-, r, hr⟩ ⟨hnone, -⟩ hlt
    rw [findNextLoop_mono responsible interval m hlt hr] at hnone
    cases hnone
  have := hnot hi hj
  have := hnot hj hi
  omega

lemma Skips.step {n : ℕ} (h : Skips responsible interval m (n + 1) a) :
    ∃ e ∈ m.entries, Skips responsible interval m n { a with coords := bumpLast interval e.1.coords } := by
  obtain ⟨hnone, r, hr⟩ := h
  rw [findNextLoop] at hnone hr
  cases hnext : nextEntry m a with
  | none =>
    rw [hnext] at hnone
    cases hnone
  | some e =>
    rw [hnext] at hnone hr
    refine ⟨e, (nextEntry_eq_some_iff.mp hnext).1, ?_⟩
    obtain ⟨found, entry⟩ := e
    cases entry with
    | normal hdr =>
      dsimp only at hnone hr
      split_ifs at hnone hr
      exact ⟨hnone, r, hr⟩
    | tombstone _ => exact ⟨hnone, r, hr⟩
    | invalid _ => exact ⟨hnone, r, hr⟩

/-- The entries that are skipped are different ones, as the loop would not end otherwise. -/
lemma Skips.entries {n : ℕ} (h : Skips responsible interval m n a) :
    ∃ l : List (StorageAddress × InnerChunkMapEntry), l.Nodup ∧ l.length = n ∧ ∀ e ∈ l, e ∈ m.entries ∧
      ∃ j < n, Skips responsible interval m j { a with coords := bumpLast interval e.1.coords } := by
  induction n generalizing a with
  | zero => exact ⟨[], nodup_nil, rfl, by simp⟩
  | succ n ih =>
    obtain ⟨e, he, hskip⟩ := h.step
    obtain ⟨l, hl, hlen, hmem⟩ := ih hskip
    refine ⟨e :: l, nodup_cons.mpr ⟨fun hin => ?_, hl⟩, congrArg Nat.succ hlen, forall_mem_cons.mpr ⟨?_, fun e' he' => ?_⟩⟩
    · obtain ⟨-, j, hj, hj'⟩ := hmem e hin
      exact hj.ne (hj'.unique hskip)
    · exact ⟨he, n, Nat.lt_succ_self n, hskip⟩
    · obtain ⟨hin, j, hj, hj'⟩ := hmem e' he'
      exact ⟨hin, j, hj.trans (Nat.lt_succ_self n), hj'⟩

/-- **A pass per entry is enough**: a loop that ends at all ends with this fuel. -/
lemma findNextLoop_enough {fuel : ℕ} (h : findNextLoop responsible interval m fuel a = some r) :
    findNextLoop responsible interval m (m.entries.length + 1) a = some r := by
  induction fuel with
  | zero => cases h
  | succ fuel ih =>
    cases hprev : findNextLoop responsible interval m fuel a with
    | some r' =>
      rw [findNextLoop_succ responsible interval m fuel a hprev] at h
      exact ih (hprev.trans h)
    | none =>
      obtain ⟨l, hl, hlen, hmem⟩ := Skips.entries ⟨hprev, r, h⟩
      have hle := (hl.subperm fun e he => (hmem e he).1).length_le
      exact findNextLoop_mono responsible interval m (by omega) h

end Skips

lemma NeededPart.findNextLoop_eq (h : NeededPart lastLiveArrId m m') {interval : ℤ} (ha : lastLiveArrId ≤ a.arrId) :
    Smgr.findNextLoop responsible interval m' (m'.entries.length + 1) a =
      Smgr.findNextLoop responsible interval m (m.entries.length + 1) a := by
  refine Option.ext fun r => ⟨fun hr => ?_, fun hr => ?_⟩
  · rw [h.findNextLoop responsible interval _ a ha] at hr
    exact findNextLoop_enough hr
  · rw [← h.findNextLoop responsible interval _ a ha] at hr
    exact findNextLoop_enough hr

lemma neededPart_removeVersions (hlast : lastLiveArrId ≠ 0) :
    NeededPart lastLiveArrId (s.inner uaId) ((s.removeVersions uaId lastLiveArrId).inner uaId) :=
  fun _ => mem_removeVersions hlast

lemma chunkMap_cases (hlast : lastLiveArrId ≠ 0) :
    s.chunkMap.find? uaId = none ∧ (s.removeVersions uaId lastLiveArrId).chunkMap.find? uaId = none ∨
      ∃ m', s.chunkMap.find? uaId = some (s.inner uaId) ∧
        (s.removeVersions uaId lastLiveArrId).chunkMap.find? uaId = some m' ∧ NeededPart lastLiveArrId (s.inner uaId) m' := by
  have hpart := @neededPart_removeVersions _ uaId s hlast
  rw [CachedStorage.inner] at hpart ⊢
  unfold removeVersions at hpart ⊢
  cases hf : s.chunkMap.find? uaId with
  | none => exact .inl ⟨rfl, hf⟩
  | some m =>
    simp only [hf, if_neg hlast, inner_setInner, if_true] at hpart ⊢
    exact .inr ⟨_, rfl, find?_assign_self .., hpart⟩

lemma findChunk_removeVersions (hlast : lastLiveArrId ≠ 0) {desc : ArrayDesc}
    (hdesc : lastLiveArrId ≤ desc.id) (responsible : Option (ChunkHeader → Bool)) (address : StorageAddress) :
    (s.removeVersions desc.uaId lastLiveArrId).findChunk desc responsible address = s.findChunk desc responsible address := by
  rw [findChunk, findChunk]
  obtain ⟨hm, hm'⟩ | ⟨m', hm, hm', hpart⟩ := @chunkMap_cases _ desc.uaId s hlast
  · rw [hm, hm']
  · simp only [hm, hm', @NeededPart.visible _ _ _ (address.withVersion desc.id) hpart hdesc]

lemma findNextChunk_removeVersions (hlast : lastLiveArrId ≠ 0) {desc : ArrayDesc}
    (hdesc : lastLiveArrId ≤ desc.id) (responsible : ChunkHeader → Bool) (address : StorageAddress) :
    (s.removeVersions desc.uaId lastLiveArrId).findNextChunk desc responsible address =
      s.findNextChunk desc responsible address := by
  rw [findNextChunk, findNextChunk]
  obtain ⟨hm, hm'⟩ | ⟨m', hm, hm', hpart⟩ := @chunkMap_cases _ desc.uaId s hlast
  · rw [hm, hm']
  · simp only [hm, hm']
    exact hpart.findNextLoop_eq hdesc

/-- **Removal at run time agrees with recovery**, unless a dead tombstone of another array prevents it, and no lookup in a
remaining version sees a difference. -/
theorem removeVersions_agrees {stores : ArrayUAID → DataStore} {live : ArrayUAID → Finset Block} (h : Mirrors s)
    (hwf : WellFormed cat s.hd) (hlast : lastLiveArrId ≠ 0) (hcat : cat.hasArray uaId = true)
    (hold : cat.oldestVersion uaId = lastLiveArrId) (hst : StoresOk cat (s.removeVersions uaId lastLiveArrId).hd stores live) :
    (∀ s₂ stores₂, initChunkMap cat cfg stores (beforeRecovery (s.removeVersions uaId lastLiveArrId).hd) =
        some (.ok (s₂, stores₂)) → s₂.inner uaId = (s.removeVersions uaId lastLiveArrId).inner uaId) ∧
      ((∀ i < s.hdr.nChunks, DeadOnArrival cat (s.removeVersions uaId lastLiveArrId).hd i →
          (s.hd.slot i).hdr.isTombstone = true → (s.hd.slot i).hdr.pos.dsGuid = uaId ∨
          ZeroFree cat (s.removeVersions uaId lastLiveArrId).hd live i (s.hd.slot i).hdr.pos.dsGuid) →
        ∃ s₂ stores₂, initChunkMap cat cfg stores (beforeRecovery (s.removeVersions uaId lastLiveArrId).hd) =
          some (.ok (s₂, stores₂))) ∧
      ∀ (desc : ArrayDesc) (address : StorageAddress), desc.uaId = uaId → lastLiveArrId ≤ desc.id →
        (∀ responsible, (s.removeVersions uaId lastLiveArrId).findChunk desc responsible address =
          s.findChunk desc responsible address) ∧
        ∀ responsible, (s.removeVersions uaId lastLiveArrId).findNextChunk desc responsible address =
          s.findNextChunk desc responsible address := by
  obtain ⟨s', -, -, -, hhdr, hlen⟩ := h.removeVersions_marked uaId lastLiveArrId
  have hn : (beforeRecovery (s.removeVersions uaId lastLiveArrId).hd).hdr.nChunks = s.hdr.nChunks := by
    show (s.removeVersions uaId lastLiveArrId).hd.hdr.nChunks = _
    rw [hhdr]
  have hspec := @initChunkMap_spec cat cfg stores live (beforeRecovery (s.removeVersions uaId lastLiveArrId).hd)
    (h.wellFormed_removeVersions hwf) hst rfl rfl (by rw [hn]; exact hlen)
  rw [hn] at hspec
  obtain ⟨s₁, hrec, hsafe, hbad⟩ := hspec
  refine ⟨fun s₂ stores₂ heq => ?_, fun hothers => ?_, ?_⟩
  · by_cases hts : TombstonesSafe cat (s.removeVersions uaId lastLiveArrId).hd live s.hdr.nChunks
    · obtain ⟨stores', heq'⟩ := hsafe hts
      rw [heq] at heq'
      cases heq'
      exact h.rebuilt hlast hcat hold hrec
    · rw [hbad hts] at heq
      cases heq
  · obtain ⟨stores', heq⟩ := hsafe fun i hi hdoa ht => by
      obtain ⟨-, hsi⟩ := h.liveSlot_removeVersions hdoa.1
      have hsi' : (beforeRecovery (s.removeVersions uaId lastLiveArrId).hd).hd.slot i = s.hd.slot i := hsi
      rw [hsi'] at ht ⊢
      refine (hothers i hi hdoa ht).resolve_left fun hg => ?_
      exact hdoa.not_kept (h.kept_removeVersions hlast hold (by omega) (Nat.lt_succ_self i) hdoa.1 hg)
    exact ⟨s₁, stores', heq⟩
  · rintro desc address rfl hdesc
    exact ⟨fun r => findChunk_removeVersions hlast hdesc r address,
      fun r => findNextChunk_removeVersions hlast hdesc r address⟩

def sampleStorage : CachedStorage where
  hdr := tombstoneFirst.hdr
  freeHeaders := ∅
  chunkMap := OrdMap.empty.assign 7 ((OrdMap.empty.assign ⟨0, [0], 11⟩ (.tombstone (slotPos 0))).assign
    ⟨0, [0], 12⟩ (.normal (sampleChunk (slotPos 1)).hdr))
  hd := tombstoneFirst
  calls := []

lemma inUse_tombstoneFirst (h : InUse tombstoneFirst i) : i = 0 ∨ i = 1 :=
  @liveSlot_twoSlotFile sampleCatalog i _ _ ⟨h.1, h.2, rfl⟩

lemma mirrors_sampleStorage : Mirrors sampleStorage where
  map := by
    intro g addr e
    constructor
    · intro h
      rw [CachedStorage.inner, sampleStorage, find?_assign] at h
      split_ifs at h with hg
      · rw [getD_some, find?_assign, find?_assign, find?_empty] at h
        split_ifs at h with h1 h2
        · cases h
          exact ⟨1, by decide, ⟨by decide, by decide⟩, hg.symm, h1.symm, rfl⟩
        · cases h
          exact ⟨0, by decide, ⟨by decide, by decide⟩, hg.symm, h2.symm, rfl⟩
      · simp at h
    · rintro ⟨i, -, hu, rfl, rfl, rfl⟩
      rcases inUse_tombstoneFirst hu with rfl | rfl <;> decide
  dims := by
    intro i hi
    rcases inUse_tombstoneFirst hi with rfl | rfl <;> decide
  hdr := rfl
  len := by decide

theorem sampleStorage_agrees : ∃ s₂ stores₂, initChunkMap sampleCatalog ⟨false, false⟩ (fun _ => fullStore)
        (beforeRecovery (sampleStorage.removeVersions 7 13).hd) = some (.ok (s₂, stores₂)) ∧
      s₂.inner 7 = (sampleStorage.removeVersions 7 13).inner 7 := by
  have hst : StoresOk sampleCatalog (sampleStorage.removeVersions 7 13).hd (fun _ => fullStore)
      fun _ => {⟨0, 512⟩} := by
    refine ⟨fun _ => inv_fullStore, fun i hi ht => ?_⟩
    obtain ⟨hi', hsi⟩ := mirrors_sampleStorage.liveSlot_removeVersions hi
    rw [hsi] at ht ⊢
    rcases liveSlot_twoSlotFile hi' with rfl | rfl
    · exact absurd ht (by decide)
    · decide
  obtain ⟨hmap, hback, -⟩ := @removeVersions_agrees 13 7 _ sampleCatalog ⟨false, false⟩ _ _ mirrors_sampleStorage
    wellFormed_tombstoneFirst (by decide) rfl rfl hst
  obtain ⟨s₂, stores₂, heq⟩ := hback fun i _ hdoa _ => by
    obtain ⟨hi', -⟩ := mirrors_sampleStorage.liveSlot_removeVersions hdoa.1
    rcases liveSlot_twoSlotFile hi' with rfl | rfl <;> exact Or.inl rfl
  exact ⟨s₂, stores₂, heq, hmap s₂ stores₂ heq⟩

/-- **Versions can be removed step by step**: a removal makes an earlier one of fewer versions void. -/
theorem removeVersions_removeVersions {first : ArrayID} (hfirst : first ≠ 0) (hle : first ≤ lastLiveArrId) :
    ((s.removeVersions uaId first).removeVersions uaId lastLiveArrId).inner uaId =
      (s.removeVersions uaId lastLiveArrId).inner uaId := by
  have hlast := ((Nat.pos_of_ne_zero hfirst).trans_le hle).ne'
  have hmem : ∀ {s : CachedStorage} {last : ArrayID}, last ≠ 0 → ∀ e,
      e ∈ ((s.removeVersions uaId last).inner uaId).entries ↔ Needed last (s.inner uaId).entries e :=
    fun h _ => (mem_removeVersions h).trans (and_iff_right_of_imp Retained.mem)
  refine ext_find fun k => Option.ext fun v => ?_
  rw [find?_eq_some_iff, find?_eq_some_iff, hmem hlast, hmem hlast, Needed]
  simp only [hmem hfirst]
  exact Retained.of_retained_iff (finite_toSet _) fun _ => hle

theorem sampleStorage_stepwise : ((sampleStorage.removeVersions 7 11).removeVersions 7 13).inner 7 =
    (sampleStorage.removeVersions 7 13).inner 7 := removeVersions_removeVersions (by decide) (by decide)

end SciDB.Smgr
