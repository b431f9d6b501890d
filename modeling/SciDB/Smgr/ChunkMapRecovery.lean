import SciDB.Smgr.ChunkMapScan
import SciDB.Util.DataStoreTiling

/-!
# Recovery of the chunk map

A tombstone is dead on arrival when it stands behind a newer descriptor of its place that is not newer than the oldest
version. Then the loop calls `freeChunk(0, 0)`, which divides by zero unless a free block starts at `0`.
-/

namespace SciDB.Smgr

open SciDB.Lib SciDB.Util List Function Finset

/-- The descriptors are unique; each chunk has a block of its own, tombstones none. -/
structure WellFormed (cat : Catalog) (hd : HeaderFile) : Prop where
  unique : UniqueSlots cat hd
  own : ∀ i j, LiveSlot cat hd i → LiveSlot cat hd j → (hd.slot i).hdr.isTombstone = false →
    (hd.slot j).hdr.isTombstone = false → (hd.slot i).hdr.freeCall = (hd.slot j).hdr.freeCall → i = j
  size : ∀ i, LiveSlot cat hd i → (hd.slot i).hdr.isTombstone = false → ∃ k, (hd.slot i).hdr.allocatedSize = 2 ^ k
  tombstone : ∀ i, LiveSlot cat hd i → (hd.slot i).hdr.isTombstone = true →
    (hd.slot i).hdr.pos.offs = 0 ∧ (hd.slot i).hdr.allocatedSize = 0

/-- A newer descriptor of its place, not newer than the oldest version, stands before it. -/
def DeadOnArrival (cat : Catalog) (hd : HeaderFile) (k : ℕ) : Prop :=
  LiveSlot cat hd k ∧ ∃ j < k, LiveSlot cat hd j ∧ (hd.slot j).place = (hd.slot k).place ∧
    (hd.slot k).hdr.arrId < (hd.slot j).hdr.arrId ∧
    (hd.slot j).hdr.arrId ≤ cat.oldestVersion (hd.slot k).hdr.pos.dsGuid

/-- The chunk was dropped. -/
def Gone (cat : Catalog) (hd : HeaderFile) (k i : ℕ) : Prop :=
  i < k ∧ LiveSlot cat hd i ∧ (hd.slot i).hdr.isTombstone = false ∧ ¬ Kept cat hd k i

variable {cat : Catalog} {cfg : ChunkmapConfig} {hd : HeaderFile} {k i j : ℕ} {calls new : List FreeCall}

lemma DeadOnArrival.not_kept (h : DeadOnArrival cat hd k) : ¬ Kept cat hd (k + 1) k := by
  obtain ⟨hk, j, hj, hlive, hp, hlt, ho⟩ := h
  intro hkept
  exact absurd (hkept.max (hlt.le.trans ho) ⟨by omega, hlive⟩ hp ho) (not_le.mpr hlt)

lemma Effect.cases (h : Effect cat hd k new) : (new = [] ∧ (∀ i, Gone cat hd (k + 1) i ↔ Gone cat hd k i) ∧
        ¬ (DeadOnArrival cat hd k ∧ (hd.slot k).hdr.isTombstone = true)) ∨
      (∃ j, LiveSlot cat hd j ∧ (hd.slot j).hdr.isTombstone = false ∧ ¬ Gone cat hd k j ∧
        new = [(hd.slot j).hdr.freeCall] ∧ (∀ i, Gone cat hd (k + 1) i ↔ Gone cat hd k i ∨ i = j) ∧
        ¬ (DeadOnArrival cat hd k ∧ (hd.slot k).hdr.isTombstone = true)) ∨
      (new = [(hd.slot k).hdr.freeCall] ∧ (∀ i, Gone cat hd (k + 1) i ↔ Gone cat hd k i) ∧
        DeadOnArrival cat hd k ∧ (hd.slot k).hdr.isTombstone = true) := by
  cases h with
  | skip hdead hK =>
    refine .inl ⟨rfl, fun i => ?_, fun hd => hdead hd.1.1⟩
    simp only [Gone, hK, Nat.lt_succ_iff_lt_or_eq]
    constructor
    · rintro ⟨hi | rfl, hl, hrest⟩
      · exact ⟨hi, hl, hrest⟩
      · exact absurd hl hdead
    · rintro ⟨hi, hrest⟩
      exact ⟨.inl hi, hrest⟩
  | keep hk hK =>
    refine .inl ⟨rfl, fun i => ?_, fun hd => hd.1.not_kept ((hK k).mpr (.inl rfl))⟩
    simp only [Gone, hK, Nat.lt_succ_iff_lt_or_eq, not_or]
    constructor
    · rintro ⟨hi, hl, ht, hne, hn⟩
      exact ⟨hi.resolve_right hne, hl, ht, hn⟩
    · rintro ⟨hi, hl, ht, hn⟩
      exact ⟨.inl hi, hl, ht, hi.ne, hn⟩
  | kill j hk hj hK =>
    have hnot : ¬ (DeadOnArrival cat hd k ∧ (hd.slot k).hdr.isTombstone = true) := fun hd =>
      hd.1.not_kept ((hK k).mpr (.inl rfl))
    have hgone : ∀ i, Gone cat hd (k + 1) i ↔ Gone cat hd k i ∨ i = j ∧ (hd.slot j).hdr.isTombstone = false := by
      intro i
      simp only [Gone, hK, Nat.lt_succ_iff_lt_or_eq, not_or, not_and, ne_eq, not_not]
      constructor
      · rintro ⟨hi, hl, ht, hne, himp⟩
        by_cases hkept : Kept cat hd k i
        · have hij := himp hkept
          exact .inr ⟨hij, hij ▸ ht⟩
        · exact .inl ⟨hi.resolve_right hne, hl, ht, hkept⟩
      · rintro (⟨hi, hl, ht, hn⟩ | ⟨rfl, ht⟩)
        · exact ⟨.inl hi, hl, ht, hi.ne, fun hkept => absurd hkept hn⟩
        · exact ⟨.inl hj.lt, hj.live, ht, hj.lt.ne, fun _ => rfl⟩
    cases ht : (hd.slot j).hdr.isTombstone with
    | true =>
      refine .inl ⟨by simp, fun i => ?_, hnot⟩
      rw [hgone, ht]
      simp
    | false =>
      refine .inr (.inl ⟨j, hj.live, ht, fun hg => hg.2.2.2 hj, by simp, fun i => ?_, hnot⟩)
      rw [hgone, ht]
      simp
  | dead j hk hj hp hlt ho hK =>
    have hdoa : DeadOnArrival cat hd k := ⟨hk, j, hj.lt, hj.live, hp, hlt, ho⟩
    have hgone : ∀ i, Gone cat hd (k + 1) i ↔ Gone cat hd k i ∨ i = k ∧ (hd.slot k).hdr.isTombstone = false := by
      intro i
      simp only [Gone, hK, Nat.lt_succ_iff_lt_or_eq]
      constructor
      · rintro ⟨hi | rfl, hl, ht, hn⟩
        · exact .inl ⟨hi, hl, ht, hn⟩
        · exact .inr ⟨rfl, ht⟩
      · rintro (⟨hi, hl, ht, hn⟩ | ⟨rfl, ht⟩)
        · exact ⟨.inl hi, hl, ht, hn⟩
        · exact ⟨.inr rfl, hk, ht, fun hkept => lt_irrefl _ hkept.lt⟩
    cases ht : (hd.slot k).hdr.isTombstone with
    | true =>
      refine .inr (.inr ⟨rfl, fun i => ?_, hdoa, rfl⟩)
      rw [hgone, ht]
      simp
    | false =>
      refine .inr (.inl ⟨k, hk, ht, fun hg => lt_irrefl _ hg.1, rfl, fun i => ?_, fun hd => by simp at hd⟩)
      rw [hgone, ht]
      simp

lemma gone_zero (i : ℕ) : ¬ Gone cat hd 0 i := fun h => Nat.not_lt_zero i h.1

lemma WellFormed.freeCall_ne (hwf : WellFormed cat hd) (hi : LiveSlot cat hd i)
    (hit : (hd.slot i).hdr.isTombstone = false) (hj : LiveSlot cat hd j) (hjt : (hd.slot j).hdr.isTombstone = true) :
    (hd.slot j).hdr.freeCall ≠ (hd.slot i).hdr.freeCall := by
  intro heq
  obtain ⟨e, he⟩ := hwf.size i hi hit
  have hsize : (hd.slot j).hdr.allocatedSize = (hd.slot i).hdr.allocatedSize := congrArg FreeCall.allocated heq
  rw [(hwf.tombstone j hj hjt).2, he] at hsize
  exact absurd hsize.symm (Nat.two_pow_pos e).ne'

open Classical in
lemma Trace.count (hwf : WellFormed cat hd) (h : Trace cat hd k calls) (hi : LiveSlot cat hd i)
    (hit : (hd.slot i).hdr.isTombstone = false) : calls.count (hd.slot i).hdr.freeCall = if Gone cat hd k i then 1 else 0 := by
  induction h with
  | zero => simp [gone_zero]
  | succ _ heff ih =>
    rcases heff.cases with ⟨rfl, hgone, -⟩ | ⟨j, hj, hjt, hjg, rfl, hgone, -⟩ | ⟨rfl, hgone, hdoa, ht⟩
    · rw [append_nil, ih]
      simp only [hgone]
    · rw [count_append, ih, count_singleton]
      simp only [hgone]
      by_cases hij : i = j
      · subst hij
        simp [hjg]
      · have hne : (hd.slot j).hdr.freeCall ≠ (hd.slot i).hdr.freeCall := fun heq =>
          hij (hwf.own j i hj hi hjt hit heq).symm
        simp [hij, hne]
    · rw [count_append, ih, count_singleton]
      have hne := hwf.freeCall_ne hi hit hdoa.1 ht
      simp [hgone, hne]

lemma runCalls_append (stores : ArrayUAID → DataStore) (cs ds : List FreeCall) :
    runCalls stores (cs ++ ds) = (runCalls stores cs).bind fun stores' => runCalls stores' ds := by
  induction cs generalizing stores with
  | nil => rfl
  | cons c cs ih =>
    rw [cons_append, runCalls, runCalls]
    cases (stores c.dsGuid).freeChunk c.off c.allocated with
    | none => rfl
    | some d => exact ih _

lemma runCalls_singleton (stores : ArrayUAID → DataStore) (c : FreeCall) : runCalls stores [c] =
      ((stores c.dsGuid).freeChunk c.off c.allocated).map fun ds => update stores c.dsGuid ds := by
  rw [runCalls]
  cases (stores c.dsGuid).freeChunk c.off c.allocated <;> rfl

/-- The block of a chunk. -/
def ChunkHeader.block (hdr : ChunkHeader) : Block := ⟨hdr.pos.offs, hdr.allocatedSize⟩

/-- The stores hold the blocks. -/
structure StoresOk (cat : Catalog) (hd : HeaderFile) (stores : ArrayUAID → DataStore)
    (live : ArrayUAID → Finset Block) : Prop where
  inv : ∀ g, Inv (stores g) (live g)
  mem : ∀ i, LiveSlot cat hd i → (hd.slot i).hdr.isTombstone = false →
    (hd.slot i).hdr.block ∈ live (hd.slot i).hdr.pos.dsGuid

/-- After the first `k` descriptors no block in use starts at offset `0` of the data store. -/
def ZeroFree (cat : Catalog) (hd : HeaderFile) (live : ArrayUAID → Finset Block) (k : ℕ) (g : ArrayUAID) : Prop :=
  ∀ b ∈ live g, b.off = 0 → ∃ i, Gone cat hd k i ∧ (hd.slot i).hdr.pos.dsGuid = g ∧ (hd.slot i).hdr.block = b

/-- The data stores after the first `k` descriptors: the blocks of the chunks dropped are
free. -/
def StoresAt (cat : Catalog) (hd : HeaderFile) (live : ArrayUAID → Finset Block) (k : ℕ)
    (stores : ArrayUAID → DataStore) : Prop :=
  ∃ held : ArrayUAID → Finset Block, (∀ g, Inv (stores g) (held g)) ∧ ∀ g b, b ∈ held g ↔
    b ∈ live g ∧ ¬ ∃ i, Gone cat hd k i ∧ (hd.slot i).hdr.pos.dsGuid = g ∧ (hd.slot i).hdr.block = b

variable {stores : ArrayUAID → DataStore} {live : ArrayUAID → Finset Block}

lemma StoresOk.at_zero (h : StoresOk cat hd stores live) : StoresAt cat hd live 0 stores :=
  ⟨live, h.inv, fun g b => by simp [gone_zero]⟩

lemma freeCall_eq_iff {a b : ChunkHeader} : a.freeCall = b.freeCall ↔ a.pos.dsGuid = b.pos.dsGuid ∧ a.block = b.block := by
  simp only [ChunkHeader.freeCall, FreeCall.mk.injEq, ChunkHeader.block, Block.mk.injEq]

section

variable (h : StoresAt cat hd live k stores)

include h

lemma StoresAt.free (hwf : WellFormed cat hd) (hj : LiveSlot cat hd j) (hjt : (hd.slot j).hdr.isTombstone = false)
    (hjlive : (hd.slot j).hdr.block ∈ live (hd.slot j).hdr.pos.dsGuid) (hjg : ¬ Gone cat hd k j)
    (hgone : ∀ i, Gone cat hd (k + 1) i ↔ Gone cat hd k i ∨ i = j) :
    ∃ stores', runCalls stores [(hd.slot j).hdr.freeCall] = some stores' ∧ StoresAt cat hd live (k + 1) stores' := by
  obtain ⟨held, hinv, hheld⟩ := h
  have hmem : (hd.slot j).hdr.block ∈ held (hd.slot j).hdr.pos.dsGuid := by
    refine (hheld _ _).mpr ⟨hjlive, ?_⟩
    rintro ⟨i, hi, hg, hb⟩
    exact hjg (hwf.own i j hi.2.1 hj hi.2.2.1 hjt (freeCall_eq_iff.mpr ⟨hg, hb⟩) ▸ hi)
  obtain ⟨ds, hds, hinv'⟩ := freeChunk_spec (hinv _) hmem
  refine ⟨_, by rw [runCalls_singleton]; exact congrArg (Option.map _) hds,
    update held (hd.slot j).hdr.pos.dsGuid ((held (hd.slot j).hdr.pos.dsGuid).erase (hd.slot j).hdr.block),
    fun g => ?_, fun g b => ?_⟩
  · show Inv (update stores (hd.slot j).hdr.pos.dsGuid ds g) _
    by_cases hg : g = (hd.slot j).hdr.pos.dsGuid
    · subst hg
      rwa [update_self, update_self]
    · rw [update_of_ne hg, update_of_ne hg]
      exact hinv g
  · simp only [hgone, or_and_right, exists_or, exists_eq_left, not_or]
    by_cases hg : g = (hd.slot j).hdr.pos.dsGuid
    · subst hg
      rw [update_self, mem_erase, hheld]
      simp only [true_and]
      exact ⟨fun ⟨hne, hb, hn⟩ => ⟨hb, hn, Ne.symm hne⟩, fun ⟨hb, hn, hne⟩ => ⟨Ne.symm hne, hb, hn⟩⟩
    · rw [update_of_ne hg, hheld]
      simp [Ne.symm hg]

lemma StoresAt.of_gone (hgone : ∀ i, Gone cat hd (k + 1) i ↔ Gone cat hd k i) : StoresAt cat hd live (k + 1) stores := by
  obtain ⟨held, hinv, hheld⟩ := h
  refine ⟨held, hinv, fun g b => ?_⟩
  simp only [hgone]
  exact hheld g b

lemma StoresAt.free_tombstone (g : ArrayUAID) (hgone : ∀ i, Gone cat hd (k + 1) i ↔ Gone cat hd k i) :
    (ZeroFree cat hd live k g → ∃ stores', runCalls stores [⟨g, 0, 0⟩] = some stores' ∧ StoresAt cat hd live (k + 1) stores') ∧
      (¬ ZeroFree cat hd live k g → runCalls stores [⟨g, 0, 0⟩] = none) := by
  obtain ⟨held, hinv, hheld⟩ := h
  rw [runCalls_singleton]
  constructor
  · intro hzero
    obtain ⟨ds, hds, hinv'⟩ := freeChunk_zero (hinv g) fun b hb hb0 => by
      obtain ⟨hbl, hn⟩ := (hheld g b).mp hb
      exact hn (hzero b hbl hb0)
    refine ⟨_, congrArg (Option.map _) hds, StoresAt.of_gone ⟨held, fun g' => ?_, hheld⟩ hgone⟩
    by_cases hg : g' = g
    · subst hg
      show Inv (update stores g' ds g') _
      rwa [update_self]
    · show Inv (update stores g ds g') _
      rw [update_of_ne hg]
      exact hinv g'
  · intro hzero
    unfold ZeroFree at hzero
    push Not at hzero
    obtain ⟨b, hb, hb0, hn⟩ := hzero
    have hheldb : b ∈ held g := (hheld g b).mpr ⟨hb, fun ⟨i, hi, hg, hbi⟩ => hn i hi hg hbi⟩
    exact congrArg (Option.map _) (freeChunk_zero_dies (hinv g) hheldb hb0)

end

/-- No tombstone is dead on arrival while the data at offset `0` of its data store is in use. -/
def TombstonesSafe (cat : Catalog) (hd : HeaderFile) (live : ArrayUAID → Finset Block) (k : ℕ) : Prop :=
  ∀ i < k, DeadOnArrival cat hd i → (hd.slot i).hdr.isTombstone = true → ZeroFree cat hd live i (hd.slot i).hdr.pos.dsGuid

lemma WellFormed.freeCall_tombstone (hwf : WellFormed cat hd) (hi : LiveSlot cat hd i)
    (ht : (hd.slot i).hdr.isTombstone = true) : (hd.slot i).hdr.freeCall = ⟨(hd.slot i).hdr.pos.dsGuid, 0, 0⟩ := by
  rw [ChunkHeader.freeCall, (hwf.tombstone i hi ht).1, (hwf.tombstone i hi ht).2]

/-- **Executing the calls**: the process survives exactly when the tombstones are safe. -/
lemma Trace.runCalls (hwf : WellFormed cat hd) (hst : StoresOk cat hd stores live) (h : Trace cat hd k calls) :
    (TombstonesSafe cat hd live k → ∃ stores', Smgr.runCalls stores calls = some stores' ∧ StoresAt cat hd live k stores') ∧
      (¬ TombstonesSafe cat hd live k → Smgr.runCalls stores calls = none) := by
  induction h with
  | zero => exact ⟨fun _ => ⟨stores, rfl, hst.at_zero⟩, fun hn => absurd (fun i hi => absurd hi (Nat.not_lt_zero i)) hn⟩
  | @succ k calls new _ heff ih =>
    have hsafe : TombstonesSafe cat hd live (k + 1) ↔ TombstonesSafe cat hd live k ∧
        (DeadOnArrival cat hd k → (hd.slot k).hdr.isTombstone = true →
          ZeroFree cat hd live k (hd.slot k).hdr.pos.dsGuid) := Nat.forall_lt_succ_right
    rw [runCalls_append]
    by_cases hk : TombstonesSafe cat hd live k
    · obtain ⟨stores1, hrun, hat⟩ := ih.1 hk
      rw [hrun, Option.bind_some, hsafe]
      rcases heff.cases with ⟨rfl, hgone, hnot⟩ | ⟨j, hj, hjt, hjg, rfl, hgone, hnot⟩ | ⟨rfl, hgone, hdoa, ht⟩
      · exact ⟨fun _ => ⟨stores1, rfl, hat.of_gone hgone⟩, fun hn => absurd ⟨hk, fun hd ht => absurd ⟨hd, ht⟩ hnot⟩ hn⟩
      · exact ⟨fun _ => hat.free hwf hj hjt (hst.mem j hj hjt) hjg hgone,
          fun hn => absurd ⟨hk, fun hd ht => absurd ⟨hd, ht⟩ hnot⟩ hn⟩
      · rw [hwf.freeCall_tombstone hdoa.1 ht]
        have hfree := hat.free_tombstone (hd.slot k).hdr.pos.dsGuid hgone
        exact ⟨fun hs => hfree.1 (hs.2 hdoa ht), fun hn => hfree.2 fun hz => hn ⟨hk, fun _ _ => hz⟩⟩
    · rw [ih.2 hk]
      exact ⟨fun hs => absurd (hsafe.mp hs).1 hk, fun _ => rfl⟩

lemma findOverlaps_eq_empty : ∀ (curr : ChunkExtent) (exts : List ChunkExtent),
    (curr :: exts).Pairwise (fun a b => ¬ a.overlaps b = true) → findOverlaps curr exts = ∅
  | _, [], _ => rfl
  | curr, ext :: exts, h => by
    rw [findOverlaps, if_neg ((pairwise_cons.mp h).1 ext mem_cons_self)]
    exact findOverlaps_eq_empty ext exts (pairwise_cons.mp h).2

lemma StoresOk.not_overlaps (hst : StoresOk cat hd stores live) (hwf : WellFormed cat hd) (hi : LiveSlot cat hd i)
    (hit : (hd.slot i).hdr.isTombstone = false) (hj : LiveSlot cat hd j) (hjt : (hd.slot j).hdr.isTombstone = false)
    (hlt : (hd.slot i).hdr.extent < (hd.slot j).hdr.extent) :
    ¬ ChunkExtent.overlaps (hd.slot i).hdr.extent (hd.slot j).hdr.extent = true := by
  intro hover
  obtain ⟨hg, hoff⟩ : (hd.slot i).hdr.pos.dsGuid = (hd.slot j).hdr.pos.dsGuid ∧
      (hd.slot j).hdr.pos.offs < (hd.slot i).hdr.pos.offs + (hd.slot i).hdr.allocatedSize :=
    of_decide_eq_true hover
  have hle : (hd.slot i).hdr.pos.offs ≤ (hd.slot j).hdr.pos.offs := by
    simp only [ChunkHeader.extent, Prod.Lex.toLex_lt_toLex, hg, lt_irrefl, true_and, false_or] at hlt
    rcases hlt with hlt | ⟨heq, -⟩
    · exact hlt.le
    · exact heq.le
  have htiles := (hst.inv (hd.slot j).hdr.pos.dsGuid).tiles
  have hmi : (hd.slot i).hdr.block ∈ live (hd.slot j).hdr.pos.dsGuid := hg ▸ hst.mem i hi hit
  have hmj := hst.mem j hj hjt
  have hblock := htiles.eqL hmi hmj ⟨hle, hoff⟩ (htiles.dyadicL _ hmj).off_mem
  rw [hwf.own i j hi hj hit hjt (freeCall_eq_iff.mpr ⟨hg, hblock⟩)] at hlt
  exact lt_irrefl _ hlt

variable {s₀ : CachedStorage} {st : ScanState} {n : ℕ}

lemma ScanInv.checkExtents (h : ScanInv cat cfg s₀ (Kept cat s₀.hd n) n st) (hwf : WellFormed cat s₀.hd)
    (hst : StoresOk cat s₀.hd stores live) (s : CachedStorage) : checkExtentsForOverlaps cfg st.extents s = .ok s := by
  unfold checkExtentsForOverlaps
  cases hskip : cfg.skipChunkmapIntegrityCheck with
  | true => rfl
  | false =>
    have hpair : (st.extents.entries.map Prod.fst).Pairwise (fun a b => ¬ a.overlaps b = true) := by
      rw [pairwise_map]
      refine st.extents.sorted.imp_of_mem fun {a b} ha hb hlt => ?_
      obtain ⟨i, hi, hit, hai⟩ := (h.extents hskip a.1).mp ⟨a.2, ha⟩
      obtain ⟨j, hj, hjt, hbj⟩ := (h.extents hskip b.1).mp ⟨b.2, hb⟩
      rw [← hai, ← hbj] at hlt ⊢
      exact hst.not_overlaps hwf hi.live hit hj.live hjt hlt
    cases hlist : st.extents.entries.map Prod.fst with
    | nil => rfl
    | cons ext exts =>
      rw [hlist] at hpair
      simp [findOverlaps_eq_empty ext exts hpair]

/-- **What recovery should end with**, from the storage manager `s₀` and its first `n`
descriptors. -/
structure Recovered (cat : Catalog) (s₀ : CachedStorage) (n : ℕ) (s : CachedStorage) : Prop where
  /-- All descriptors newer than the oldest version, and the newest one that is not newer. -/
  map : ∀ g addr e, (s.inner g).find? addr = some e ↔ ∃ i, Kept cat s₀.hd n i ∧
    (s₀.hd.slot i).hdr.pos.dsGuid = g ∧ (s₀.hd.slot i).getAddress = addr ∧ (s₀.hd.slot i).entry = e
  dropped : ∀ i < n, LiveSlot cat s₀.hd i → ¬ Kept cat s₀.hd n i → s.hd.slot i = (s₀.hd.slot i).freed
  kept : ∀ i, Kept cat s₀.hd n i → s.hd.slot i = s₀.hd.slot i
  free : ∀ p, p ∈ s.freeHeaders ↔ p ∈ s₀.freeHeaders ∨ ∃ i < n, ¬ Kept cat s₀.hd n i ∧ p = slotPos i
  freed : ∀ i < n, LiveSlot cat s₀.hd i → (s₀.hd.slot i).hdr.isTombstone = false → ¬ Kept cat s₀.hd n i →
    s.calls.count (s₀.hd.slot i).hdr.freeCall = 1
  unfreed : ∀ i, Kept cat s₀.hd n i → (s₀.hd.slot i).hdr.isTombstone = false → s.calls.count (s₀.hd.slot i).hdr.freeCall = 0

lemma ScanInv.recovered (h : ScanInv cat cfg s₀ (Kept cat s₀.hd n) n st) (hwf : WellFormed cat s₀.hd)
    (htrace : Trace cat s₀.hd n st.store.calls) (hdr : StorageHeader) : Recovered cat s₀ n { st.store with hdr := hdr } where
  map := h.map
  dropped := fun i hi hl hn => h.wiped i hi hl.1 hl.2.1 hn
  kept := fun i hi => h.intact i (.inr hi)
  free := h.free
  freed := fun i hi hl ht hn => by
    rw [htrace.count hwf hl ht, if_pos ⟨hi, hl, ht, hn⟩]
  unfreed := fun i hi ht => by
    rw [htrace.count hwf hi.live ht, if_neg fun hg => hg.2.2.2 hi]

lemma initChunkMap_spec (hwf : WellFormed cat s₀.hd) (hst : StoresOk cat s₀.hd stores live)
    (hempty : s₀.chunkMap = OrdMap.empty) (hcalls : s₀.calls = []) (hlen : slotPos s₀.hdr.nChunks ≤ s₀.hd.len) :
    ∃ s, Recovered cat s₀ s₀.hdr.nChunks s ∧
      (TombstonesSafe cat s₀.hd live s₀.hdr.nChunks → ∃ stores', initChunkMap cat cfg stores s₀ = some (.ok (s, stores'))) ∧
      (¬ TombstonesSafe cat s₀.hd live s₀.hdr.nChunks → initChunkMap cat cfg stores s₀ = none) := by
  obtain ⟨st, calls, hscan, hinv, hst_calls, htrace⟩ := @scan_spec cat cfg s₀ hwf.unique hempty _ hlen
  rw [hcalls, nil_append] at hst_calls
  rw [← hst_calls] at htrace
  have hrun := htrace.runCalls hwf hst
  refine ⟨_, hinv.recovered hwf htrace { st.store.hdr with currPos := slotPos s₀.hdr.nChunks }, fun hsafe => ?_, fun hn => ?_⟩
  · obtain ⟨stores', hsome, -⟩ := hrun.1 hsafe
    rw [initChunkMap, hscan]
    simp only [hsome, hinv.checkExtents hwf hst]
    exact ⟨_, rfl⟩
  · rw [initChunkMap, hscan]
    simp only [hrun.2 hn]

/-- **Recovery, in any order of the descriptors**, is right exactly when the tombstones are safe. -/
theorem initChunkMap_iff (hwf : WellFormed cat s₀.hd) (hst : StoresOk cat s₀.hd stores live)
    (hempty : s₀.chunkMap = OrdMap.empty) (hcalls : s₀.calls = []) (hlen : slotPos s₀.hdr.nChunks ≤ s₀.hd.len) :
    (∃ s stores', initChunkMap cat cfg stores s₀ = some (.ok (s, stores')) ∧ Recovered cat s₀ s₀.hdr.nChunks s) ↔
      TombstonesSafe cat s₀.hd live s₀.hdr.nChunks := by
  obtain ⟨s, hs, hsafe, hbad⟩ := @initChunkMap_spec cat cfg stores live s₀ hwf hst hempty hcalls hlen
  constructor
  · rintro ⟨s', stores', heq, -⟩
    by_contra hn
    rw [hbad hn] at heq
    cases heq
  · intro h
    obtain ⟨stores', heq⟩ := hsafe h
    exact ⟨s, stores', heq, hs⟩

def twoSlotFile (a b : ChunkDescriptor) : HeaderFile :=
  ⟨slotPos 2, ⟨slotPos 2, 2⟩, fun pos => if pos = slotPos 0 then a else if pos = slotPos 1 then b else ⟨.zero, []⟩⟩

def sampleChunk (hdrPos : ℕ) : ChunkDescriptor := ⟨⟨⟨7, hdrPos, 0⟩, 12, 0, false, 1, 512, 0⟩, [0]⟩

def sampleTombstone (hdrPos : ℕ) : ChunkDescriptor := ⟨⟨⟨7, hdrPos, 0⟩, 11, 0, true, 1, 0, 0⟩, [0]⟩

/-- The newer one comes first. -/
def chunkFirst : HeaderFile := twoSlotFile (sampleChunk (slotPos 0)) (sampleTombstone (slotPos 1))

/-- The older one comes first. -/
def tombstoneFirst : HeaderFile := twoSlotFile (sampleTombstone (slotPos 0)) (sampleChunk (slotPos 1))

def sampleCatalog : Catalog := ⟨fun _ => true, fun _ => 13⟩

/-- 512 bytes, all in use. -/
def fullStore : DataStore := ⟨OrdMap.empty, 0, 512, false⟩

/-- Before recovery. -/
def beforeRecovery (hd : HeaderFile) : CachedStorage := ⟨hd.hdr, ∅, OrdMap.empty, hd, []⟩

lemma inv_fullStore : Inv fullStore {⟨0, 512⟩} := by
  refine ⟨fun k offs h => by simp [fullStore] at h, ⟨?_, ?_, fun x => ?_⟩, ⟨9, by norm_num, rfl⟩, rfl⟩
  · intro b hb
    rw [Finset.mem_singleton.mp hb]
    exact ⟨⟨9, rfl⟩, dvd_zero _⟩
  · intro b hb
    exact absurd hb (notMem_empty b)
  · rw [show freeBlocks fullStore.freelists = ∅ from rfl, cov_empty, ← insert_empty_eq, cov_insert (notMem_empty _)]
    by_cases hx : x < 512 <;> simp [Block.mem_iff, fullStore, hx]

lemma liveSlot_twoSlotFile {a b : ChunkDescriptor} (h : LiveSlot cat (twoSlotFile a b) i) : i = 0 ∨ i = 1 := by
  by_contra hi
  push Not at hi
  have h0 : slotPos i ≠ slotPos 0 := fun heq => hi.1 (slotPos_injective heq)
  have h1 : slotPos i ≠ slotPos 1 := fun heq => hi.2 (slotPos_injective heq)
  have harr := h.2.1
  simp only [HeaderFile.slot, twoSlotFile, if_neg h0, if_neg h1] at harr
  exact harr rfl

lemma wellFormed_of_slots {hd : HeaderFile} {c d p q : ℕ} (hlive : ∀ i, LiveSlot sampleCatalog hd i → i = c ∨ i = d)
    (hc : hd.slot c = sampleChunk p) (hd' : hd.slot d = sampleTombstone q) : WellFormed sampleCatalog hd := by
  refine ⟨fun i j hi hj _ harr => ?_, fun i j hi hj hit hjt _ => ?_, fun i hi ht => ?_, fun i hi ht => ?_⟩
  · rcases hlive i hi with rfl | rfl <;> rcases hlive j hj with rfl | rfl <;> simp_all [sampleChunk, sampleTombstone]
  · rcases hlive i hi with rfl | rfl <;> rcases hlive j hj with rfl | rfl <;> simp_all [sampleTombstone]
  · rcases hlive i hi with rfl | rfl
    · exact ⟨9, by rw [hc]; rfl⟩
    · simp_all [sampleTombstone]
  · rcases hlive i hi with rfl | rfl <;> simp_all [sampleChunk, sampleTombstone]

lemma wellFormed_chunkFirst : WellFormed sampleCatalog chunkFirst :=
  wellFormed_of_slots (fun _ => liveSlot_twoSlotFile) rfl rfl

lemma wellFormed_tombstoneFirst : WellFormed sampleCatalog tombstoneFirst :=
  wellFormed_of_slots (fun _ hi => (liveSlot_twoSlotFile hi).symm) rfl rfl

theorem tombstoneFirst_recovers :
    ∃ s stores, initChunkMap sampleCatalog ⟨false, false⟩ (fun _ => fullStore) (beforeRecovery tombstoneFirst) =
      some (.ok (s, stores)) ∧ Recovered sampleCatalog (beforeRecovery tombstoneFirst) 2 s := by
  have hst : StoresOk sampleCatalog tombstoneFirst (fun _ => fullStore) fun _ => {⟨0, 512⟩} := by
    refine ⟨fun _ => inv_fullStore, fun i hi ht => ?_⟩
    rcases liveSlot_twoSlotFile hi with rfl | rfl
    · exact absurd ht (by decide)
    · decide
  refine (@initChunkMap_iff _ _ _ _ (beforeRecovery tombstoneFirst) wellFormed_tombstoneFirst hst rfl rfl (by decide)).mpr ?_
  rintro i - ⟨hi, j, hj, -, -, hlt, -⟩ ht
  rcases liveSlot_twoSlotFile hi with rfl | rfl
  · exact absurd hj (Nat.not_lt_zero j)
  · exact absurd ht (by decide)

/-- In the other order the tombstone is dead on arrival, and recovery divides by zero. -/
theorem chunkFirst_dies :
    WellFormed sampleCatalog chunkFirst ∧ StoresOk sampleCatalog chunkFirst (fun _ => fullStore) (fun _ => {⟨0, 512⟩}) ∧
      initChunkMap sampleCatalog ⟨false, false⟩ (fun _ => fullStore) (beforeRecovery chunkFirst) = none := by
  refine ⟨wellFormed_chunkFirst, ⟨fun _ => inv_fullStore, fun i hi ht => ?_⟩, ?_⟩
  · rcases liveSlot_twoSlotFile hi with rfl | rfl
    · decide
    · exact absurd ht (by decide)
  · rw [← Option.isNone_iff_eq_none]
    decide +kernel

end SciDB.Smgr
