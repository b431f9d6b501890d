import SciDB.Lib.Runs
import SciDB.Util.DataStoreTiling

/-!
# Runs of the allocator

A run allocates and frees, only blocks that it holds. A request whose size with the header wraps around gets a block that is
too small. `makeMoreSpace` leaves free buddies unmerged.
-/

namespace SciDB.Util

open SciDB.Lib DataStore Option Finset

/-- A store with the blocks that were handed out and not yet freed. -/
structure Run where
  ds : DataStore
  live : Finset Block

/-- A call of the allocator. -/
inductive Op where
  | allocate (requestedSize : ℕ) (ftruncate : ℕ → Bool)
  | free (b : Block)

namespace Op

/-- A call and its block. -/
def exec (m : DataStores) : Op → Run → Option (Option Block × Run)
  | allocate requestedSize ftruncate, s =>
    (allocateSpace m ftruncate s.ds requestedSize).map fun
      | (.error _, ds) => (none, ⟨ds, s.live⟩)
      | (.ok (off, size), ds) => (some ⟨off, size⟩, ⟨ds, insert ⟨off, size⟩ s.live⟩)
  | free b, s => (freeChunk s.ds b.off b.size).map fun ds => (none, ⟨ds, s.live.erase b⟩)

/-- A caller frees only a block that it holds, and a request is one the arithmetic can carry. -/
def Proper (m : DataStores) (s : Run) : Op → Prop
  | allocate requestedSize _ => Fits m s.ds requestedSize
  | free b => b ∈ s.live

end Op

/-- Reached by proper calls. -/
abbrev Reachable (m : DataStores) : Run → Prop :=
  Reaches (fun s op => (Op.exec m op s).map Prod.snd) (fun s op => Op.Proper m s op) ⟨fresh m, ∅⟩

lemma Op.exec_spec {m : DataStores} {s : Run} {op : Op} (h : Inv s.ds s.live) (hop : op.Proper m s) :
    ∃ r s', op.exec m s = some (r, s') ∧ Inv s'.ds s'.live ∧
      ∀ requestedSize ftruncate b, op = allocate requestedSize ftruncate → r = some b →
        requestedSize + sizeofDiskChunkHeader ≤ b.size ∧ b ∉ s.live := by
  cases op with
  | allocate requestedSize ftruncate =>
    rcases @allocateSpace_spec m ftruncate _ _ _ h hop with ⟨ds', he, hinv⟩ | ⟨off, ds', he, hinv, hnew⟩
    · refine ⟨none, ⟨ds', s.live⟩, ?_, hinv, ?_⟩
      · rw [exec, he, map_some]
      · rintro _ _ b - hb
        cases hb
    · refine ⟨some ⟨off, neededSize m requestedSize⟩, ⟨ds', _⟩, ?_, hinv, ?_⟩
      · rw [exec, he, map_some]
      · rintro _ _ b ⟨⟩ ⟨⟩
        exact ⟨le_neededSize m requestedSize, hnew⟩
  | free b =>
    obtain ⟨ds', he, hinv⟩ := freeChunk_spec h hop
    refine ⟨none, ⟨ds', s.live.erase b⟩, ?_, hinv, ?_⟩
    · rw [exec, he, map_some]
    · rintro _ _ _ ⟨⟩

lemma Reachable.inv {m : DataStores} {s : Run} (h : Reachable m s) : Inv s.ds s.live := by
  refine Reaches.invariant (I := fun s => Inv s.ds s.live) h (inv_fresh m) fun s s' op ih hop hs => ?_
  obtain ⟨r, s'', he, hinv, -⟩ := Op.exec_spec ih hop
  rw [he, map_some] at hs
  cases hs
  exact hinv

/-- All blocks of a store. -/
def Run.blocks (s : Run) : Finset Block := s.live ∪ freeBlocks s.ds.freelists

/-- A sound allocator. -/
structure WellTiled (s : Run) : Prop where
  separate : Disjoint s.live (freeBlocks s.ds.freelists)
  disjoint : ∀ b ∈ s.blocks, ∀ c ∈ s.blocks, b ≠ c → ∀ x, x ∈ b → x ∉ c
  dyadic : ∀ b ∈ s.blocks, b.Dyadic
  covers : ∀ x, (∃ b ∈ s.blocks, x ∈ b) ↔ x < s.ds.allocatedSize
  largest_empty : (∀ k, s.ds.freelists.find? k = none) → s.ds.largestFreeChunk = 0
  largest : (∃ k, (s.ds.freelists.find? k).isSome) → IsGreatest {k | (s.ds.freelists.find? k).isSome} s.ds.largestFreeChunk

lemma mem_blocks {s : Run} {b : Block} : b ∈ s.blocks ↔ b ∈ s.live ∨ b ∈ freeBlocks s.ds.freelists :=
  mem_union

lemma Inv.isGreatest {ds : DataStore} {live : Finset Block} (h : Inv ds live) (hk : ∃ k, (ds.freelists.find? k).isSome) :
    IsGreatest {k | (ds.freelists.find? k).isSome} ds.largestFreeChunk := by
  have hup : ∀ k, (ds.freelists.find? k).isSome → k ≤ ds.largestFreeChunk := by
    intro k hk
    obtain ⟨offs, hf⟩ := isSome_iff_exists.mp hk
    obtain ⟨o, ho⟩ := h.noEmpty k offs hf
    rw [h.largest]
    exact @le_lastKey _ ⟨o, k⟩ (mem_freeBlocks.mpr ⟨offs, hf, ho⟩)
  refine ⟨?_, hup⟩
  obtain ⟨k, hk⟩ := hk
  obtain ⟨offs, hf⟩ := isSome_iff_exists.mp hk
  cases hl : ds.freelists.lastKey? with
  | none =>
    have he := OrdMap.find?_eq_some_iff.mp hf
    rw [OrdMap.lastKey?_eq_none_iff.mp hl] at he
    cases he
  | some l =>
    obtain ⟨⟨offs', he⟩, -⟩ := OrdMap.lastKey?_eq_some_iff.mp hl
    rw [Set.mem_ofPred_eq, h.largest, hl, getD_some, OrdMap.find?_eq_some_iff.mpr he]
    rfl

lemma Inv.wellTiled {s : Run} (h : Inv s.ds s.live) : WellTiled s where
  separate := disjoint_left.mpr fun _ hb => h.tiles.notMem_free hb
  disjoint := by
    intro b hb c hc hne x hxb hxc
    rcases mem_blocks.mp hb with hb | hb <;> rcases mem_blocks.mp hc with hc | hc
    · exact hne (h.tiles.eqL hb hc hxb hxc)
    · exact h.tiles.separate hb hc hxb hxc
    · exact h.tiles.separate hc hb hxc hxb
    · exact hne (h.tiles.eqF hb hc hxb hxc)
  dyadic := fun b hb => (mem_blocks.mp hb).elim (h.tiles.dyadicL b) (h.tiles.dyadicF b)
  covers := by
    intro x
    constructor
    · rintro ⟨b, hb, hx⟩
      have := h.tiles.end_le (mem_blocks.mp hb)
      have := hx.2
      omega
    · intro hx
      obtain ⟨b, hb, hxb⟩ := h.tiles.exists_mem hx
      exact ⟨b, mem_blocks.mpr hb, hxb⟩
  largest_empty := by
    intro hnone
    by_contra hne
    rw [h.largest] at hne
    obtain ⟨b, hb, -⟩ := exists_block_of_pos h.noEmpty (pos_of_ne_zero hne)
    obtain ⟨offs, hf, -⟩ := mem_freeBlocks.mp hb
    rw [hnone] at hf
    cases hf
  largest := h.isGreatest

/-- **The allocator is sound along every run of proper calls**: the blocks tile the file. -/
theorem reachable_wellTiled {m : DataStores} {s : Run} (h : Reachable m s) :
    WellTiled s ∧ ∀ op : Op, op.Proper m s → ∃ r s', op.exec m s = some (r, s') ∧ WellTiled s' ∧
      ∀ requestedSize ftruncate b, op = .allocate requestedSize ftruncate → r = some b →
        requestedSize + sizeofDiskChunkHeader ≤ b.size ∧ b ∉ s.live := by
  refine ⟨h.inv.wellTiled, fun op hop => ?_⟩
  obtain ⟨r, s', he, hinv, hr⟩ := Op.exec_spec h.inv hop
  exact ⟨r, s', he, hinv.wellTiled, hr⟩

lemma fits_fresh : Fits DataStores.default (fresh DataStores.default) 1000 := by
  refine .inr ⟨?_, ?_⟩
  · exact Nat.pow_le_pow_right (by norm_num) ((Nat.clog_le_iff_le_pow (by norm_num)).mpr (by decide))
  · decide

theorem fresh_wellTiled : WellTiled ⟨fresh DataStores.default, ∅⟩ ∧
    ∃ r s', (Op.allocate 1000 fun _ => true).exec DataStores.default ⟨fresh DataStores.default, ∅⟩ = some (r, s') ∧
      WellTiled s' := by
  obtain ⟨h, hop⟩ := @reachable_wellTiled DataStores.default _ .start
  obtain ⟨r, s', he, h', -⟩ := hop (.allocate 1000 fun _ => true) fits_fresh
  exact ⟨h, r, s', he, h'⟩

/-- `2^64 - 16` bytes: the size wraps around to `0`, and the minimum block is handed out. -/
theorem allocate_wraps : ∃ s', (Op.allocate (2 ^ 64 - 16) fun _ => true).exec DataStores.default ⟨fresh DataStores.default, ∅⟩ =
        some (some ⟨0, 512⟩, s') ∧ ¬ 2 ^ 64 - 16 + sizeofDiskChunkHeader ≤ (⟨0, 512⟩ : Block).size := by
  refine ⟨⟨⟨OrdMap.empty, 0, 512, true⟩, {⟨0, 512⟩}⟩, ?_, by decide⟩
  rw [Op.exec, show allocateSpace DataStores.default (fun _ => true) (fresh DataStores.default) (2 ^ 64 - 16) =
    some (.ok (0, 512), ⟨OrdMap.empty, 0, 512, true⟩) by decide +kernel]
  rfl

/-- The call comes back, the free bytes are the same, and no two free blocks overlap. -/
def Harmless (ds : DataStore) (b : Block) : Prop :=
  ∃ ds', freeChunk ds b.off b.size = some ds' ∧
    (∀ x, (∃ f ∈ freeBlocks ds'.freelists, x ∈ f) ↔ ∃ f ∈ freeBlocks ds.freelists, x ∈ f) ∧
    (∀ f ∈ freeBlocks ds'.freelists, ∀ g ∈ freeBlocks ds'.freelists, f ≠ g → ∀ x, x ∈ f → x ∉ g) ∧
    verifyFreelist ds' = .ok ()

lemma verifyFreelist_ok {ds : DataStore} {L : Finset Block} {A : ℕ} (ht : Tiles L (freeBlocks ds.freelists) A) :
    verifyFreelist ds = .ok () := by
  refine if_pos fun e he off hoff => ?_
  have hmem : (⟨off, e.1⟩ : Block) ∈ freeBlocks ds.freelists := mem_freeBlocks.mpr ⟨e.2, OrdMap.find?_eq_some_iff.mpr he, hoff⟩
  exact not_isParentBlockFree_of_free ht hmem

lemma Inv.harmless {ds : DataStore} {live : Finset Block} (h : Inv ds live) {b : Block} {fl : DataStoreFreelists}
    (hfl : freeBlocks fl = freeBlocks ds.freelists)
    (he : addToFreelist (maxDoublings + 1) ds.freelists b.size b.off = some fl) : Harmless ds b := by
  refine ⟨calcLargestFreeChunk { ds.invalidateFreelistFile with freelists := fl }, ?_, ?_, ?_, ?_⟩
  · rw [freeChunk]
    show (addToFreelist (maxDoublings + 1) ds.freelists b.size b.off).map _ = _
    rw [he, map_some]
  · intro x
    show (∃ f ∈ freeBlocks fl, x ∈ f) ↔ _
    rw [hfl]
  · show ∀ f ∈ freeBlocks fl, ∀ g ∈ freeBlocks fl, f ≠ g → ∀ x, x ∈ f → x ∉ g
    rw [hfl]
    exact fun f hf g hg hne x hxf hxg => hne (h.tiles.eqF hf hg hxf hxg)
  · exact @verifyFreelist_ok _ live ds.allocatedSize (by show Tiles live (freeBlocks fl) _; rw [hfl]; exact h.tiles)

lemma addToFreelist_within (fuel : ℕ) : ∀ (fl fl' : DataStoreFreelists) (b : Block), b.Dyadic →
    b.off + b.size ≤ 2 ^ 62 → (∀ c ∈ freeBlocks fl, c.Dyadic ∧ c.off + c.size ≤ 2 ^ 62) →
    addToFreelist fuel fl b.size b.off = some fl' →
    (∀ c ∈ freeBlocks fl, c.size < b.size → c ∈ freeBlocks fl') ∧ ∃ c ∈ freeBlocks fl', b.Within c := by
  induction fuel with
  | zero =>
    intro fl fl' b _ _ _ he
    cases he
  | succ fuel ih =>
    intro fl fl' b hd hend hF he
    rw [addToFreelist_succ hd hend] at he
    split_ifs at he with hpar hbud
    · cases he
      obtain ⟨c, hc, hlt, hoff⟩ := isParentBlockFree_iff.mp hpar
      have hin := Block.mem_of_off_eq (hF c hc).1.pos hoff
      exact ⟨fun c hc _ => hc, c, hc, hd.nested (hF c hc).1 hlt.le hd.off_mem hin⟩
    · have hfl := freeBlocks_removeBuddy hbud
      have hbend := (hF _ hbud).2
      obtain ⟨hsmall, c, hc, hin⟩ := ih _ fl' b.parent hd.parent (hd.parent_end hend hbend)
        (fun c hc => hF c (mem_of_mem_erase (hfl ▸ hc))) he
      have hlt : b.size < b.parent.size := by
        have := hd.pos
        show b.size < b.size * 2
        omega
      refine ⟨fun c hc hs => hsmall c ?_ (hs.trans hlt), c, hc, hd.within_parent.trans hin⟩
      rw [hfl]
      exact mem_erase.mpr ⟨fun heq => by rw [heq] at hs; exact lt_irrefl _ hs, hc⟩
    · cases he
      rw [freeBlocks_addBlock]
      exact ⟨fun c hc _ => mem_insert_of_mem hc, b, mem_insert_self _ _, le_rfl, le_rfl⟩

/-- **Freeing free space is harmless** unless the block and its buddy are both on the free list. -/
theorem freeChunk_again_iff {m : DataStores} {s : Run} (h : Reachable m s) {b c : Block} (hb : b.Dyadic)
    (hc : c ∈ freeBlocks s.ds.freelists) (hbc : b.Within c) :
    Harmless s.ds b ↔ ¬ (b ∈ freeBlocks s.ds.freelists ∧ b.buddy ∈ freeBlocks s.ds.freelists) := by
  have hinv := h.inv
  have ht := hinv.tiles
  have h62 := hinv.allocated_le
  have hF : ∀ f ∈ freeBlocks s.ds.freelists, f.Dyadic ∧ f.off + f.size ≤ 2 ^ 62 := fun f hf =>
    ⟨ht.dyadicF f hf, (ht.end_le (Or.inr hf)).trans h62⟩
  have hend : b.off + b.size ≤ 2 ^ 62 := hbc.2.trans (hF c hc).2
  have hbin : b.off ∈ c := hbc.mem hb.off_mem
  constructor
  · rintro ⟨ds', he, -, hdis, -⟩ ⟨hbF, hbud⟩
    obtain ⟨fl, hadd, rfl⟩ := map_eq_some_iff.mp he
    have hpar := Bool.eq_false_iff.mp (not_isParentBlockFree_of_free ht hbF)
    replace hadd : addToFreelist (maxDoublings + 1) s.ds.freelists b.size b.off = some fl := hadd
    rw [addToFreelist_succ hb hend, if_neg hpar, if_pos hbud] at hadd
    have hfl := freeBlocks_removeBuddy hbud
    obtain ⟨hsmall, f, hf, hin⟩ := addToFreelist_within _ _ fl b.parent hb.parent
      (hb.parent_end hend (hF _ hbud).2) (fun f hf => hF f (mem_of_mem_erase (hfl ▸ hf))) hadd
    have hpos := hb.pos
    have hsize : b.parent.size = b.size * 2 := rfl
    have hbfl : b ∈ freeBlocks fl := by
      refine hsmall b ?_ (by omega)
      rw [hfl]
      exact mem_erase.mpr ⟨hb.buddy_ne.symm, hbF⟩
    have hne : b ≠ f := by
      rintro rfl
      have := hin.2
      have := hin.1
      omega
    exact hdis b hbfl f hf hne b.off hb.off_mem (hin.mem (hb.within_parent.mem hb.off_mem))
  · intro hnot
    by_cases hbF : b ∈ freeBlocks s.ds.freelists
    · have hbud : b.buddy ∉ freeBlocks s.ds.freelists := fun hbud => hnot ⟨hbF, hbud⟩
      have hpar := Bool.eq_false_iff.mp (not_isParentBlockFree_of_free ht hbF)
      refine @Inv.harmless _ s.live hinv b (addBlock s.ds.freelists b.size b.off) ?_ ?_
      · rw [freeBlocks_addBlock]
        exact insert_eq_self.mpr hbF
      · rw [addToFreelist_succ hb hend, if_neg hpar, if_neg hbud]
    · have hpar : isParentBlockFree s.ds.freelists b.off b.size = true := by
        refine isParentBlockFree_iff.mpr ⟨c, hc, ?_, (hF c hc).1.off_eq hbin⟩
        by_contra hle
        refine hbF ?_
        rw [hbc.eq (not_lt.mp hle)]
        exact hc
      refine hinv.harmless rfl ?_
      rw [addToFreelist_succ hb hend, if_pos hpar]

/-- The file has grown twice, and its first two blocks of 512 bytes are both free, unmerged. -/
def grownRun : Run :=
  ⟨⟨addBlock (addBlock OrdMap.empty 512 0) 512 512, 512, 2048, true⟩, {⟨1024, 1024⟩}⟩

lemma reachable_grownRun : Reachable DataStores.default grownRun := by
  refine Reaches.step (a := .allocate 1000 fun _ => true) .start fits_fresh ?_
  simp only [Op.exec]
  rw [show allocateSpace DataStores.default (fun _ => true) (fresh DataStores.default) 1000 =
    some (.ok (1024, 1024), grownRun.ds) by decide +kernel]
  rfl

theorem grownRun_free_half : Harmless grownRun.ds ⟨0, 256⟩ :=
  (freeChunk_again_iff reachable_grownRun ⟨⟨8, rfl⟩, dvd_zero _⟩
    (show (⟨0, 512⟩ : Block) ∈ freeBlocks grownRun.ds.freelists by decide) ⟨by decide, by decide⟩).mpr (by decide)

/-- Freeing the first block again merges it with its buddy, but leaves it on the list. -/
theorem grownRun_free_again : Reachable DataStores.default grownRun ∧ (⟨0, 512⟩ : Block) ∈ freeBlocks grownRun.ds.freelists ∧
      ¬ Harmless grownRun.ds ⟨0, 512⟩ := by
  refine ⟨reachable_grownRun, by decide, ?_⟩
  rintro ⟨ds', he, -, -, hok⟩
  have hbad : (freeChunk grownRun.ds 0 512).map verifyFreelist = some (.error .corruptFreelist) := by decide +kernel
  rw [he, map_some, hok] at hbad
  cases hbad

end SciDB.Util
