import SciDB.Util.DataStore

/-!
# The data file is tiled

The blocks handed out and the blocks on the free lists tile the file (`SciDB.Lib.Tiles`). The sizes are
machine words, so this needs requests that the arithmetic can carry (`Fits`).
-/

namespace SciDB.Util

open SciDB.Lib DataStore Finset

variable {fl : DataStoreFreelists} {b : Block} {m : DataStores} {ftruncate : ℕ → Bool} {ds : DataStore}
  {L live : Finset Block} {requestedSize A request : ℕ}

lemma mem_freeBlocks : b ∈ freeBlocks fl ↔ ∃ offs, fl.find? b.size = some offs ∧ b.off ∈ offs := by
  simp only [freeBlocks, mem_biUnion, List.mem_toFinset, mem_image]
  constructor
  · rintro ⟨⟨k, offs⟩, he, o, ho, rfl⟩
    exact ⟨offs, OrdMap.find?_eq_some_iff.mpr he, ho⟩
  · rintro ⟨offs, hf, ho⟩
    exact ⟨(b.size, offs), OrdMap.find?_eq_some_iff.mp hf, b.off, ho, rfl⟩

/-- No bucket is empty. -/
def NoEmptyBucket (fl : DataStoreFreelists) : Prop := ∀ k offs, fl.find? k = some offs → offs.Nonempty

lemma freeBlocks_addBlock (fl : DataStoreFreelists) (bucket off : ℕ) :
    freeBlocks (addBlock fl bucket off) = insert ⟨off, bucket⟩ (freeBlocks fl) := by
  ext ⟨o, s⟩
  simp only [mem_freeBlocks, mem_insert, Block.mk.injEq, addBlock, OrdMap.find?_assign]
  by_cases hs : s = bucket
  · subst hs
    cases hf : fl.find? s <;> simp
  · simp [hs]

lemma NoEmptyBucket.addBlock (h : NoEmptyBucket fl) (bucket off : ℕ) : NoEmptyBucket (addBlock fl bucket off) := by
  intro k offs hk
  rw [Util.addBlock, OrdMap.find?_assign] at hk
  split_ifs at hk with hkb
  · cases hk
    exact insert_nonempty _ _
  · exact h k offs hk

lemma freeBlocks_removeBlock {bucket : ℕ} {offs : Finset ℕ} (h : fl.find? bucket = some offs) (off : ℕ) :
    freeBlocks (removeBlock fl bucket offs off) = (freeBlocks fl).erase ⟨off, bucket⟩ := by
  ext ⟨o, s⟩
  simp only [mem_freeBlocks, mem_erase, ne_eq, Block.mk.injEq, removeBlock]
  by_cases hs : s = bucket
  · subst hs
    split_ifs with he
    · have : ∀ x ∈ offs, x = off := fun x hx => by
        by_contra hne
        have hmem := mem_erase.mpr ⟨hne, hx⟩
        rw [he] at hmem
        cases hmem
      simp only [OrdMap.find?_erase, if_true, h]
      constructor
      · rintro ⟨_, hn, -⟩
        cases hn
      · rintro ⟨hne, _, hx, ho⟩
        cases hx
        exact absurd ⟨this o ho, trivial⟩ hne
    · simp [h]
  · split_ifs <;> simp [hs, OrdMap.find?_erase, OrdMap.find?_assign]

lemma NoEmptyBucket.removeBlock (h : NoEmptyBucket fl) (bucket : ℕ) (offs : Finset ℕ) (off : ℕ) :
    NoEmptyBucket (removeBlock fl bucket offs off) := by
  intro k offs' hk
  unfold Util.removeBlock at hk
  split_ifs at hk with he
  · rw [OrdMap.find?_erase] at hk
    split_ifs at hk with hkb
    exact h k offs' hk
  · rw [OrdMap.find?_assign] at hk
    split_ifs at hk with hkb
    · cases hk
      exact nonempty_iff_ne_empty.mpr he
    · exact h k offs' hk

lemma isParentBlockFree_iff {off size : ℕ} :
    isParentBlockFree fl off size = true ↔ ∃ c ∈ freeBlocks fl, size < c.size ∧ c.off = off - off % c.size := by
  simp only [isParentBlockFree, List.any_eq_true, OrdMap.mem_above, decide_eq_true_eq]
  constructor
  · rintro ⟨⟨k, offs⟩, ⟨he, hlt⟩, ho⟩
    exact ⟨⟨off - off % k, k⟩, mem_freeBlocks.mpr ⟨offs, OrdMap.find?_eq_some_iff.mpr he, ho⟩, hlt, rfl⟩
  · rintro ⟨⟨o, k⟩, hc, hlt, ho⟩
    obtain ⟨offs, hf, hmem⟩ := mem_freeBlocks.mp hc
    simp only at hf hmem hlt ho
    exact ⟨(k, offs), ⟨OrdMap.find?_eq_some_iff.mp hf, hlt⟩, ho ▸ hmem⟩

lemma le_lastKey (hb : b ∈ freeBlocks fl) : b.size ≤ fl.lastKey?.getD 0 := by
  obtain ⟨offs, hf, -⟩ := mem_freeBlocks.mp hb
  have he := OrdMap.find?_eq_some_iff.mp hf
  cases hl : fl.lastKey? with
  | none =>
    rw [OrdMap.lastKey?_eq_none_iff] at hl
    rw [hl] at he
    cases he
  | some k => exact (OrdMap.lastKey?_eq_some_iff.mp hl).2 _ he

lemma exists_block_of_pos (hne : NoEmptyBucket fl) (h : 0 < fl.lastKey?.getD 0) :
    ∃ b ∈ freeBlocks fl, b.size = fl.lastKey?.getD 0 := by
  cases hl : fl.lastKey? with
  | none => rw [hl] at h; cases h
  | some k =>
    obtain ⟨⟨offs, he⟩, -⟩ := OrdMap.lastKey?_eq_some_iff.mp hl
    have hf := OrdMap.find?_eq_some_iff.mpr he
    obtain ⟨o, ho⟩ := hne k offs hf
    exact ⟨⟨o, k⟩, mem_freeBlocks.mpr ⟨offs, hf, ho⟩, rfl⟩

lemma roundUpPowerOf2_eq {n : ℕ} (h1 : 1 ≤ n) (h2 : n ≤ 2 ^ 63) : roundUpPowerOf2 n = 2 ^ Nat.clog 2 n := by
  have hr : wsub n 1 = n - 1 := wsub_of_le h1 (by omega)
  have hs := (((((Smeared.refl (n - 1)).double).double).double).double).double.double
  have heq := hs.eq_two_pow_sub_one (by norm_num; omega)
  rw [Nat.sub_add_cancel h1] at heq
  have hle : 2 ^ Nat.clog 2 n ≤ 2 ^ 63 := Nat.pow_le_pow_right (by norm_num) ((Nat.clog_le_iff_le_pow (by norm_num)).mpr h2)
  have hpos : 0 < 2 ^ Nat.clog 2 n := by positivity
  simp only [roundUpPowerOf2, hr]
  norm_num only at heq ⊢
  rw [heq, Nat.sub_add_cancel hpos, wrap_of_lt (by omega)]

/-- The least power of two that holds a request with its header and is not below the minimum. -/
def neededSize (m : DataStores) (requestedSize : ℕ) : ℕ :=
  2 ^ Nat.clog 2 (max (requestedSize + sizeofDiskChunkHeader) m.minAllocSize)

lemma le_neededSize (m : DataStores) (requestedSize : ℕ) : requestedSize + sizeofDiskChunkHeader ≤ neededSize m requestedSize :=
  (le_max_left _ _).trans (Nat.le_pow_clog (by norm_num) _)

lemma requiredSize_eq (h : neededSize m requestedSize ≤ 2 ^ 63) :
    requiredSize m requestedSize = neededSize m requestedSize := by
  have hle := (Nat.le_pow_clog (by norm_num : 1 < 2) (max (requestedSize + sizeofDiskChunkHeader) m.minAllocSize)).trans h
  have hpos := m.pos
  have hword : requestedSize + sizeofDiskChunkHeader < 2 ^ 64 := by
    omega
  have hmax : (if requestedSize + sizeofDiskChunkHeader < m.minAllocSize then m.minAllocSize
      else requestedSize + sizeofDiskChunkHeader) = max (requestedSize + sizeofDiskChunkHeader) m.minAllocSize := by
    split_ifs <;> omega
  rw [requiredSize, wrap_of_lt hword]
  simp only [hmax]
  exact roundUpPowerOf2_eq (by omega) hle

lemma double_le_of_lt {k l : ℕ} (h : 2 ^ k < 2 ^ l) : 2 ^ k * 2 ≤ 2 ^ l := by
  have hkl := (Nat.pow_lt_pow_iff_right (by norm_num : 1 < 2)).mp h
  rw [← pow_succ]
  exact Nat.pow_le_pow_right (by norm_num) hkl

lemma lower_half {o s : ℕ} (h : (⟨o, s * 2⟩ : Block).Dyadic) (hs : ∃ k, s = 2 ^ k) :
    (⟨o, s⟩ : Block).Dyadic ∧ (⟨o, s⟩ : Block).parent = ⟨o, s * 2⟩ ∧ (⟨o, s⟩ : Block).buddy = ⟨o + s, s⟩ := by
  have hmod : o % (s * 2) = 0 := Nat.mod_eq_zero_of_dvd h.2
  have hbuddy : (⟨o, s⟩ : Block).buddy = ⟨o + s, s⟩ := by simp [Block.buddy, hmod]
  refine ⟨⟨hs, (Nat.dvd_mul_right s 2).trans h.2⟩, ?_, hbuddy⟩
  simp [Block.parent, hbuddy]

/-- **Searching takes a block of the size asked for**, if some free block is large enough. -/
lemma searchFreelist_spec (hA : A ≤ 2 ^ 62) (fuel : ℕ) :
    ∀ (fl : DataStoreFreelists) (request : ℕ), NoEmptyBucket fl → Tiles L (freeBlocks fl) A →
      (∃ k, request = 2 ^ k) → (∃ b ∈ freeBlocks fl, request ≤ b.size) → A < request * 2 ^ fuel →
      ∃ ret fl', searchFreelist fuel fl request = some (ret, fl') ∧ NoEmptyBucket fl' ∧
        Tiles (insert ⟨ret, request⟩ L) (freeBlocks fl') A ∧ ⟨ret, request⟩ ∉ L := by
  induction fuel with
  | zero =>
    rintro fl request - ht - ⟨b, hb, hle⟩ hfuel
    have := ht.end_le (.inr hb)
    omega
  | succ fuel ih =>
    rintro fl request hne ht ⟨k, rfl⟩ ⟨b, hb, hle⟩ hfuel
    cases hf : fl.find? (2 ^ k) with
    | some offs =>
      have hoffs := hne _ _ hf
      have hmem : (⟨offs.min' hoffs, 2 ^ k⟩ : Block) ∈ freeBlocks fl := mem_freeBlocks.mpr ⟨offs, hf, offs.min'_mem hoffs⟩
      refine ⟨offs.min' hoffs, removeBlock fl (2 ^ k) offs (offs.min' hoffs), ?_, hne.removeBlock _ _ _, ?_, ht.notMem_used hmem⟩
      · rw [searchFreelist, hf]
        simp only [dif_pos hoffs]
      · rw [freeBlocks_removeBlock hf]
        exact ht.take hmem
    | none =>
      obtain ⟨l, hl⟩ := (ht.dyadicF b hb).1
      have hlt : 2 ^ k < b.size := by
        refine lt_of_le_of_ne hle fun heq => ?_
        obtain ⟨offs, hoffs, -⟩ := mem_freeBlocks.mp hb
        rw [← heq, hf] at hoffs
        cases hoffs
      have hdbl : 2 ^ k * 2 ≤ b.size := by rw [hl] at hlt ⊢; exact double_le_of_lt hlt
      have hend := ht.end_le (.inr hb)
      have hwrap : wrap (2 ^ k * 2) = 2 ^ k * 2 := wrap_of_lt (by omega)
      obtain ⟨ret, fl', hs, hne', ht', hnL⟩ := ih fl (2 ^ k * 2) hne ht ⟨k + 1, (pow_succ 2 k).symm⟩ ⟨b, hb, hdbl⟩
        (by rw [pow_succ] at hfuel; linarith)
      have hd : (⟨ret, 2 ^ k * 2⟩ : Block).Dyadic := ht'.dyadicL _ (mem_insert_self _ _)
      obtain ⟨hlow, hpar, hbud⟩ := lower_half hd ⟨k, rfl⟩
      have hret := ht'.end_le (.inl (mem_insert_self _ _))
      simp only at hret
      rw [← hpar] at ht' hnL
      refine ⟨ret, addBlock fl' (2 ^ k) (ret + 2 ^ k), ?_, hne'.addBlock _ _, ?_, ht'.notMem_of_parent hlow⟩
      · rw [searchFreelist, hf]
        simp only [hwrap, hs]
        rw [wrap_of_lt (by omega)]
      · rw [freeBlocks_addBlock, ← hbud]
        exact ht'.split hnL hlow

/-- **The invariant of the allocator**, with `live` the blocks handed out and not yet freed. -/
structure Inv (ds : DataStore) (live : Finset Block) : Prop where
  noEmpty : NoEmptyBucket ds.freelists
  tiles : Tiles live (freeBlocks ds.freelists) ds.allocatedSize
  pow : ∃ k ≤ 62, ds.allocatedSize = 2 ^ k
  largest : ds.largestFreeChunk = ds.freelists.lastKey?.getD 0

lemma Inv.allocated_le (h : Inv ds live) : ds.allocatedSize ≤ 2 ^ 62 := by
  obtain ⟨k, hk, heq⟩ := h.pow
  rw [heq]
  exact Nat.pow_le_pow_right (by norm_num) hk

lemma Inv.allocated_pos (h : Inv ds live) : 0 < ds.allocatedSize := by
  obtain ⟨k, -, hk⟩ := h.pow
  rw [hk]
  exact Nat.two_pow_pos k

lemma Inv.largest_le (h : Inv ds live) : ds.largestFreeChunk ≤ ds.allocatedSize := by
  rcases Nat.eq_zero_or_pos ds.largestFreeChunk with h0 | h0
  · omega
  · rw [h.largest] at h0 ⊢
    obtain ⟨b, hb, hs⟩ := exists_block_of_pos h.noEmpty h0
    have := h.tiles.end_le (.inr hb)
    omega

variable (m)

/-- One free block. -/
def fresh : DataStore := initializeFreelist m 0 OrdMap.empty

lemma fresh_eq : fresh m = ⟨addBlock OrdMap.empty (2 ^ Nat.clog 2 m.minAllocSize) 0, 2 ^ Nat.clog 2 m.minAllocSize,
      2 ^ Nat.clog 2 m.minAllocSize, false⟩ := by
  have h0 : roundUpPowerOf2 0 = 0 := by decide
  have hpos := m.pos
  have hlt := m.lt
  rw [fresh, initializeFreelist]
  simp only [h0, if_pos hpos]
  rw [roundUpPowerOf2_eq hpos (by omega)]
  rfl

lemma inv_fresh : Inv (fresh m) ∅ := by
  rw [fresh_eq]
  have hfree : freeBlocks (addBlock OrdMap.empty (2 ^ Nat.clog 2 m.minAllocSize) 0) =
      {⟨0, 2 ^ Nat.clog 2 m.minAllocSize⟩} := by rw [freeBlocks_addBlock]; rfl
  refine ⟨?_, ⟨?_, ?_, ?_⟩, ⟨Nat.clog 2 m.minAllocSize, ?_, rfl⟩, rfl⟩
  · exact NoEmptyBucket.addBlock (fun k offs h => by simp at h) _ _
  · simp
  · rw [hfree]
    intro b hb
    rw [mem_singleton.mp hb]
    exact ⟨⟨_, rfl⟩, dvd_zero _⟩
  · intro x
    rw [hfree, ← insert_empty_eq, cov_insert (notMem_empty _)]
    simp [Block.mem_iff]
  · have hlt := m.lt
    exact (Nat.clog_le_iff_le_pow (by norm_num)).mpr (by omega)

lemma doubled_allocatedSize (h : ds.allocatedSize ≤ 2 ^ 61) :
    ds.doubled.allocatedSize = ds.allocatedSize * 2 := wrap_of_lt (by omega)

lemma Inv.doubled (h : Inv ds live) (hA : ds.allocatedSize ≤ 2 ^ 61) : Inv ds.doubled live := by
  obtain ⟨k, -, hk⟩ := h.pow
  have hk61 : k ≤ 61 := by
    rw [hk] at hA
    exact (Nat.pow_le_pow_iff_right (by norm_num)).mp hA
  have hne : NoEmptyBucket ds.doubled.freelists := h.noEmpty.addBlock _ _
  have hfree : freeBlocks ds.doubled.freelists =
      insert ⟨ds.allocatedSize, ds.allocatedSize⟩ (freeBlocks ds.freelists) := freeBlocks_addBlock _ _ _
  refine ⟨hne, ?_, ⟨k + 1, by omega, ?_⟩, ?_⟩
  · rw [doubled_allocatedSize hA, hfree]
    exact h.tiles.grow ⟨k, hk⟩
  · rw [doubled_allocatedSize hA, hk, pow_succ]
  · -- the new block is the largest: nothing below it is longer than the file was
    have hle : ds.allocatedSize ≤ ds.doubled.freelists.lastKey?.getD 0 :=
      @le_lastKey _ ⟨ds.allocatedSize, ds.allocatedSize⟩ (by rw [hfree]; exact mem_insert_self _ _)
    refine le_antisymm hle ?_
    have hpos : 0 < ds.allocatedSize := by rw [hk]; positivity
    obtain ⟨b, hb, hs⟩ := exists_block_of_pos hne (hpos.trans_le hle)
    rw [← hs]
    rw [hfree] at hb
    rcases mem_insert.mp hb with rfl | hb
    · exact le_rfl
    · exact (Nat.le_add_left _ _).trans (h.tiles.end_le (.inr hb))

/-- **Growing makes room**, unless the file could not be extended. -/
lemma makeMoreSpace_spec (hpow : ∃ k, request = 2 ^ k) (hreq : request ≤ 2 ^ 61) (n : ℕ) :
    ∀ ds : DataStore, Inv ds live → (ds.largestFreeChunk < request → ds.allocatedSize ≤ 2 ^ 61) →
      request ≤ ds.allocatedSize * 2 ^ n → ∃ r ds', makeMoreSpace ftruncate request (n + 2) ds = some (r, ds') ∧ Inv ds' live ∧
        (r = .ok () ∧ request ≤ ds'.largestFreeChunk ∨ r = .error .ftruncateFailed) := by
  induction n with
  | zero =>
    intro ds h hA hle
    rw [makeMoreSpace]
    by_cases hlt : request > ds.largestFreeChunk
    · have hstop : ¬ request > ds.doubled.largestFreeChunk := by
        rw [pow_zero, mul_one] at hle
        exact not_lt.mpr hle
      rw [if_pos hlt, makeMoreSpace, if_neg hstop]
      split_ifs
      · exact ⟨_, _, rfl, h.doubled (hA hlt), .inl ⟨rfl, not_lt.mp hstop⟩⟩
      · exact ⟨_, _, rfl, h.doubled (hA hlt), .inr rfl⟩
    · rw [if_neg hlt]
      exact ⟨_, _, rfl, h, .inl ⟨rfl, not_lt.mp hlt⟩⟩
  | succ n ih =>
    intro ds h hA hle
    rw [makeMoreSpace]
    by_cases hlt : request > ds.largestFreeChunk
    · rw [if_pos hlt]
      split_ifs
      · refine ih _ (h.doubled (hA hlt)) (fun hlt' => ?_) ?_
        · -- still too small: the request is at least twice the old size
          obtain ⟨k, rfl⟩ := hpow
          obtain ⟨l, -, hl⟩ := h.pow
          replace hlt' : ds.allocatedSize < 2 ^ k := hlt'
          rw [doubled_allocatedSize (hA hlt), hl]
          rw [hl] at hlt'
          exact (double_le_of_lt hlt').trans hreq
        · rw [doubled_allocatedSize (hA hlt)]
          rw [pow_succ] at hle
          linarith
      · exact ⟨_, _, rfl, h.doubled (hA hlt), .inr rfl⟩
    · rw [if_neg hlt]
      exact ⟨_, _, rfl, h, .inl ⟨rfl, not_lt.mp hlt⟩⟩

/-- A free block is large enough, or neither the request nor the file it makes grow leaves what an `off_t` can measure. -/
def Fits (ds : DataStore) (requestedSize : ℕ) : Prop :=
  neededSize m requestedSize ≤ ds.largestFreeChunk ∨ neededSize m requestedSize ≤ 2 ^ 61 ∧ ds.allocatedSize ≤ 2 ^ 61

variable {m}

lemma Inv.invalidateFreelistFile (h : Inv ds live) :
    Inv ds.invalidateFreelistFile live := ⟨h.noEmpty, h.tiles, h.pow, h.largest⟩

lemma Inv.replace {live' : Finset Block} (h : Inv ds live) (hne : NoEmptyBucket fl)
    (ht : Tiles live' (freeBlocks fl) ds.allocatedSize) :
    Inv (calcLargestFreeChunk { ds with freelists := fl }) live' := ⟨hne, ht, h.pow, rfl⟩

lemma Inv.takeFromFreelist (h : Inv ds live) (hpow : ∃ k, request = 2 ^ k) (hle : request ≤ ds.largestFreeChunk) :
    ∃ off ds', DataStore.takeFromFreelist request ds = some (.ok (off, request), ds') ∧
      Inv ds' (insert ⟨off, request⟩ live) ∧ ⟨off, request⟩ ∉ live := by
  have hpos : 0 < request := by
    obtain ⟨k, rfl⟩ := hpow
    exact Nat.two_pow_pos k
  have h62 := h.allocated_le
  have hlast : request ≤ ds.freelists.lastKey?.getD 0 := h.largest ▸ hle
  obtain ⟨b, hb, hs⟩ := exists_block_of_pos h.noEmpty (hpos.trans_le hlast)
  obtain ⟨off, fl, hf, hne, ht, hnL⟩ := searchFreelist_spec h62 (maxDoublings + 1) ds.freelists _ h.noEmpty
    h.tiles hpow ⟨b, hb, hs ▸ hlast⟩ (by unfold maxDoublings; omega)
  refine ⟨off, _, ?_, h.replace hne ht, hnL⟩
  rw [DataStore.takeFromFreelist, hf, Option.map_some]

/-- **Allocating comes back**, with a new block that is large enough. -/
lemma allocateSpace_spec (h : Inv ds live) (hfit : Fits m ds requestedSize) :
    (∃ ds', allocateSpace m ftruncate ds requestedSize = some (.error .ftruncateFailed, ds') ∧ Inv ds' live) ∨
      ∃ off ds', allocateSpace m ftruncate ds requestedSize = some (.ok (off, neededSize m requestedSize), ds') ∧
        Inv ds' (insert ⟨off, neededSize m requestedSize⟩ live) ∧ ⟨off, neededSize m requestedSize⟩ ∉ live := by
  have hreq : requiredSize m requestedSize = neededSize m requestedSize :=
    requiredSize_eq (by have := h.largest_le; have := h.allocated_le; rcases hfit with hfit | hfit <;> omega)
  have hpow : ∃ k, neededSize m requestedSize = 2 ^ k := ⟨_, rfl⟩
  have hinv := h.invalidateFreelistFile
  rw [allocateSpace, hreq]
  by_cases hgrow : neededSize m requestedSize > ds.invalidateFreelistFile.largestFreeChunk
  · have hfit' := hfit.resolve_left (not_le.mpr hgrow)
    have hbound : neededSize m requestedSize ≤ ds.invalidateFreelistFile.allocatedSize * 2 ^ maxDoublings :=
      calc neededSize m requestedSize ≤ 1 * 2 ^ maxDoublings := by unfold maxDoublings; omega
        _ ≤ _ := Nat.mul_le_mul_right _ hinv.allocated_pos
    obtain ⟨r, ds1, hm, h1, hr⟩ := @makeMoreSpace_spec ftruncate live _ hpow hfit'.1 maxDoublings _ hinv (fun _ => hfit'.2) hbound
    rw [if_pos hgrow, hm]
    rcases hr with ⟨rfl, hle⟩ | rfl
    · exact .inr (h1.takeFromFreelist hpow hle)
    · exact .inl ⟨ds1, rfl, h1⟩
  · rw [if_neg hgrow]
    exact .inr (hinv.takeFromFreelist hpow (not_lt.mp hgrow))

lemma mem_freeBlocks_getD : b ∈ freeBlocks fl ↔ b.off ∈ (fl.find? b.size).getD ∅ := by
  rw [mem_freeBlocks]
  cases fl.find? b.size <;> simp

lemma addToFreelist_succ (hd : b.Dyadic) (hend : b.off + b.size ≤ 2 ^ 62) (fuel : ℕ) :
    addToFreelist (fuel + 1) fl b.size b.off = if isParentBlockFree fl b.off b.size then some fl
      else if b.buddy ∈ freeBlocks fl then
        addToFreelist fuel (removeBlock fl b.size ((fl.find? b.size).getD ∅) b.buddy.off) b.parent.size b.parent.off
      else some (addBlock fl b.size b.off) := by
  have hpos := hd.pos
  have hpar : wrap (b.size * 2) = b.size * 2 := wrap_of_lt (by omega)
  have hbud : (if b.off % (b.size * 2) = 0 then wrap (b.off + b.size) else wsub b.off b.size) = b.buddy.off := by
    rcases hd.half with ⟨h1, h2, -⟩ | ⟨h1, h2, -⟩
    · rw [if_pos h1, wrap_of_lt (by omega), h2]
    · rw [if_neg (by omega), wsub_of_le (by omega) (by omega)]
      omega
  have hmerged : (if b.off < b.buddy.off then b.off else b.buddy.off) = b.parent.off := by
    show _ = min b.off b.buddy.off
    split_ifs <;> omega
  have hsize : b.buddy.size = b.size := rfl
  rw [addToFreelist]
  simp only [hpar, hbud, hmerged, mem_freeBlocks_getD, hsize, Nat.mul_eq_zero, hpos.ne', OfNat.ofNat_ne_zero, or_self, if_false]
  rfl

lemma not_isParentBlockFree (ht : Tiles L (freeBlocks fl) A) (hb : b ∈ L) : isParentBlockFree fl b.off b.size = false := by
  rw [Bool.eq_false_iff, ne_eq, isParentBlockFree_iff]
  rintro ⟨c, hc, -, hoff⟩
  exact ht.separate hb hc (ht.dyadicL b hb).off_mem (Block.mem_of_off_eq (ht.dyadicF c hc).pos hoff)

lemma not_isParentBlockFree_of_free (ht : Tiles L (freeBlocks fl) A) (hb : b ∈ freeBlocks fl) :
    isParentBlockFree fl b.off b.size = false := by
  rw [Bool.eq_false_iff, ne_eq, isParentBlockFree_iff]
  rintro ⟨c, hc, hlt, hoff⟩
  have heq := ht.eqF hb hc (ht.dyadicF b hb).off_mem (Block.mem_of_off_eq (ht.dyadicF c hc).pos hoff)
  rw [heq] at hlt
  exact lt_irrefl _ hlt

lemma freeBlocks_removeBuddy (h : b.buddy ∈ freeBlocks fl) :
    freeBlocks (removeBlock fl b.size ((fl.find? b.size).getD ∅) b.buddy.off) = (freeBlocks fl).erase b.buddy := by
  obtain ⟨offs, hf, -⟩ := mem_freeBlocks.mp h
  replace hf : fl.find? b.size = some offs := hf
  rw [hf, Option.getD_some, freeBlocks_removeBlock hf]
  rfl

lemma addToFreelist_spec (hA : A ≤ 2 ^ 62) (fuel : ℕ) :
    ∀ (fl : DataStoreFreelists) (b : Block), NoEmptyBucket fl → Tiles (insert b L) (freeBlocks fl) A → b ∉ L →
      A < b.size * 2 ^ fuel →
      ∃ fl', addToFreelist fuel fl b.size b.off = some fl' ∧ NoEmptyBucket fl' ∧ Tiles L (freeBlocks fl') A := by
  induction fuel with
  | zero =>
    intro fl b _ ht _ hfuel
    have := ht.end_le (.inl (mem_insert_self b L))
    omega
  | succ fuel ih =>
    intro fl b hne ht hb hfuel
    have hmem := mem_insert_self b L
    have hd := ht.dyadicL b hmem
    rw [addToFreelist_succ hd ((ht.end_le (.inl hmem)).trans hA), not_isParentBlockFree ht hmem]
    simp only [Bool.false_eq_true, if_false]
    split_ifs with hbud
    · obtain ⟨ht', hp⟩ := ht.merge hb hbud
      rw [← freeBlocks_removeBuddy hbud] at ht'
      refine ih _ b.parent (hne.removeBlock _ _ _) ht' hp ?_
      show A < b.size * 2 * 2 ^ fuel
      rw [pow_succ] at hfuel
      linarith
    · refine ⟨_, rfl, hne.addBlock _ _, ?_⟩
      rw [freeBlocks_addBlock]
      exact ht.give hb

lemma freeChunk_spec (h : Inv ds live) (hb : b ∈ live) :
    ∃ ds', freeChunk ds b.off b.size = some ds' ∧ Inv ds' (live.erase b) := by
  have h62 := h.allocated_le
  have hpos := (h.tiles.dyadicL b hb).pos
  have ht : Tiles (insert b (live.erase b)) (freeBlocks ds.freelists) ds.allocatedSize := by
    rw [insert_erase hb]
    exact h.tiles
  obtain ⟨fl, hf, hne, ht'⟩ := addToFreelist_spec h62 (maxDoublings + 1) ds.freelists b h.noEmpty ht
    (notMem_erase b live) (by unfold maxDoublings; omega)
  refine ⟨_, ?_, h.invalidateFreelistFile.replace hne ht'⟩
  rw [freeChunk]
  show (addToFreelist (maxDoublings + 1) ds.freelists b.size b.off).map _ = _
  rw [hf, Option.map_some]

lemma isParentBlockFree_zero (h : Inv ds live) : isParentBlockFree ds.freelists 0 0 = true ↔ ∀ b ∈ live, b.off ≠ 0 := by
  rw [isParentBlockFree_iff]
  constructor
  · rintro ⟨c, hc, hpos, hoff⟩ b hb hb0
    rw [Nat.zero_mod, Nat.sub_zero] at hoff
    have hbpos := (h.tiles.dyadicL b hb).pos
    have hb' : 0 ∈ b := ⟨by omega, by omega⟩
    exact h.tiles.separate hb hc hb' ⟨by omega, by omega⟩
  · intro hlive
    obtain ⟨b, hb, hmem⟩ := h.tiles.exists_mem h.allocated_pos
    have hb0 : b.off = 0 := Nat.le_zero.mp hmem.1
    rcases hb with hb | hb
    · exact absurd hb0 (hlive b hb)
    · exact ⟨b, hb, (h.tiles.dyadicF b hb).pos, by rw [Nat.zero_mod, Nat.sub_zero, hb0]⟩

lemma freeChunk_zero (h : Inv ds live) (hlive : ∀ b ∈ live, b.off ≠ 0) : ∃ ds', freeChunk ds 0 0 = some ds' ∧ Inv ds' live := by
  refine ⟨_, ?_, h.invalidateFreelistFile.replace h.noEmpty h.tiles⟩
  rw [freeChunk]
  show (addToFreelist (maxDoublings + 1) ds.freelists 0 0).map _ = _
  rw [addToFreelist, if_pos ((isParentBlockFree_zero h).mpr hlive), Option.map_some]

lemma freeChunk_zero_dies (h : Inv ds live) (hb : b ∈ live) (hb0 : b.off = 0) : freeChunk ds 0 0 = none := by
  have hpar : ¬ isParentBlockFree ds.freelists 0 0 = true := fun hp => (isParentBlockFree_zero h).mp hp b hb hb0
  have hwrap : wrap (0 * 2) = 0 := rfl
  rw [freeChunk]
  show (addToFreelist (maxDoublings + 1) ds.freelists 0 0).map _ = _
  rw [addToFreelist, if_neg hpar, hwrap, if_pos rfl, Option.map_none]

end SciDB.Util
