import SciDB.Array.SharedMemCache

/-!
# What the chunks of the cache hold

The bytes of a chunk are in its buffer or in its block of the data store (`Faithful`), and no two chunks share a block
(`Kept`), as long as no call throws. If `swapOut` has freed the block of a chunk and then cannot get a larger one, the chunk keeps
the offset of the freed block, which another chunk may get (`thrownRun_bytes`). Throws of `readData` and `writeData` are left out.
-/

namespace SciDB.Array

open SciDB.Lib SciDB.Util List Function Option Finset

variable {α β : Type} {r : Except CacheError α} {y : β}

lemma ok_of_bind {f : α → Except CacheError β} (h : r.bind f = .ok y) : ∃ x, r = .ok x ∧ f x = .ok y := by
  cases r with
  | ok x => exact ⟨x, rfl, h⟩
  | error e => cases h

lemma ok_of_map {f : α → β} (h : r.map f = .ok y) : ∃ x, r = .ok x ∧ f x = y := by
  cases r with
  | ok x => exact ⟨x, rfl, Except.ok.inj h⟩
  | error e => cases h

namespace LruMemChunk

/-- The block of a chunk. -/
def block (c : LruMemChunk) : Option Block := c.dsOffset.map fun off => ⟨off, c.dsAlloc⟩

/-- The bytes of a chunk are `held`: in memory, where they may have changed, or in its block. -/
def Faithful (f : FileBytes) (c : LruMemChunk) : Option (List UInt8) → Prop
  | none => c.data = none ∧ c.size = 0
  | some bs =>
    (c.size = bs.length ∧ 0 < bs.length ∧ bs.length ≤ maxBuffer) ∧ (c.data = none ∨ c.data = some bs) ∧
      (c.data = some bs ∧ c.dirty ∨ ∃ b, c.block = some b ∧ Holds f b bs)

variable {m : DataStores} {ftruncate : ℕ → Bool} {f f' : FileBytes} {c c' : LruMemChunk} {held : Option (List UInt8)}
  {bs : List UInt8} {b : Block} {ds ds' : DataStore} {L : Finset Block}

section

variable (h : c.Faithful f held)

include h

lemma Faithful.congr (hdata : c'.data = c.data) (hdirty : c'.dirty = c.dirty)
    (hsize : c'.size = c.size) (hblock : c'.block = c.block) : c'.Faithful f held := by
  cases held with
  | none => simpa only [Faithful, hdata, hsize] using h
  | some bs => simpa only [Faithful, hdata, hsize, hdirty, hblock] using h

lemma Faithful.eq_of_data (hdata : c.data = some bs) : held = some bs := by
  cases held with
  | none => simp [Faithful, hdata] at h
  | some bs' =>
    obtain ⟨-, hnone | hsome, -⟩ := h
    · simp [hdata] at hnone
    · exact hsome.symm.trans hdata

lemma Faithful.size_le : c.size ≤ maxBuffer := by
  cases held with
  | none => rw [h.2]; exact Nat.zero_le _
  | some bs => rw [h.1.1]; exact h.1.2.2

lemma Faithful.file (hf : ∀ b bs, c.block = some b → Holds f b bs → Holds f' b bs) : c.Faithful f' held := by
  cases held with
  | none => exact h
  | some bs =>
    refine ⟨h.1, h.2.1, h.2.2.imp_right ?_⟩
    rintro ⟨b, hb, hholds⟩
    exact ⟨b, hb, hf b bs hb hholds⟩

end

lemma ok_of_blockOf {r : Option (Except DataStoreError (ℕ × ℕ) × DataStore)} (h : blockOf r = .ok (b, ds')) :
    r = some (.ok (b.off, b.size), ds') := by
  unfold blockOf at h
  split at h
  · cases h
    rfl
  · cases h

lemma allocated_spec (hlimit : OffTLimit ftruncate) (hinv : Inv ds L) {size : ℕ} (hsize : size ≤ maxBuffer)
    (hok : blockOf (ds.allocateSpace m ftruncate size) = .ok (b, ds')) :
    Inv ds' (insert b L) ∧ b ∉ L ∧ size + sizeofDiskChunkHeader ≤ b.size := by
  have hok := ok_of_blockOf hok
  obtain ⟨ds'', herr, -⟩ | ⟨off, ds'', halloc, hinv', hnew⟩ := @allocateSpace_spec m ftruncate _ _ _ hinv
    (fits_of_ok hlimit hinv hsize hok)
  · simp [hok] at herr
  · rw [hok] at halloc
    obtain ⟨hoff, hsz⟩ : b.off = off ∧ b.size = neededSize m size := by simpa using (Prod.ext_iff.mp (some.inj halloc)).1
    have hds : ds' = ds'' := (Prod.ext_iff.mp (some.inj halloc)).2
    have hb : b = ⟨off, neededSize m size⟩ := by rw [← hoff, ← hsz]
    rw [hb, hds]
    exact ⟨hinv', hnew, le_neededSize m size⟩

/-- **The block that a chunk is written to** is large enough, and is no other chunk's. -/
lemma slot_spec (hlimit : OffTLimit ftruncate) (hinv : Inv ds L)
    (hold : ∀ b0, c.block = some b0 → b0 ∈ L ∧ sizeofDiskChunkHeader ≤ b0.size) (hsize : c.size ≤ maxBuffer)
    (hok : c.slot m ftruncate ds = .ok (b, ds')) :
    ∃ L', Inv ds' L' ∧ b ∈ L' ∧ c.size + sizeofDiskChunkHeader ≤ b.size ∧ ∀ x ∈ L, c.block ≠ some x → x ∈ L' ∧ x ≠ b := by
  rw [slot] at hok
  cases hoff : c.dsOffset with
  | none =>
    simp only [hoff] at hok
    obtain ⟨hinv', hnew, hle⟩ := allocated_spec hlimit hinv hsize hok
    refine ⟨insert b L, hinv', mem_insert_self b L, hle, fun x hx _ => ⟨mem_insert_of_mem hx, ?_⟩⟩
    rintro rfl
    exact hnew hx
  | some off =>
    have hblock : c.block = some ⟨off, c.dsAlloc⟩ := by simp [block, hoff]
    obtain ⟨hmem, hheader⟩ := hold _ hblock
    simp only [hoff] at hok
    split_ifs at hok with hsmall
    · obtain ⟨ds1, hfree, hok⟩ := ok_of_bind hok
      obtain ⟨ds2, hfree', hinv1⟩ := freeChunk_spec hinv hmem
      rw [hfree'] at hfree
      cases hfree
      obtain ⟨hinv', hnew, hle⟩ := allocated_spec hlimit hinv1 hsize hok
      refine ⟨_, hinv', mem_insert_self b _, hle, fun x hx hne => ?_⟩
      have hx' : x ∈ L.erase ⟨off, c.dsAlloc⟩ := by
        refine mem_erase.mpr ⟨?_, hx⟩
        rintro rfl
        exact hne hblock
      refine ⟨mem_insert_of_mem hx', ?_⟩
      rintro rfl
      exact hnew hx'
    · cases hok
      refine ⟨L, hinv, hmem, ?_, fun x hx hne => ⟨hx, ?_⟩⟩
      · have hend : off + c.dsAlloc ≤ ds.allocatedSize := hinv.tiles.end_le (.inl hmem)
        have h62 := hinv.allocated_le
        have hheader : sizeofDiskChunkHeader ≤ c.dsAlloc := hheader
        rw [wsub_of_le hheader (by omega)] at hsmall
        show c.size + sizeofDiskChunkHeader ≤ c.dsAlloc
        omega
      · rintro rfl
        exact hne hblock

end LruMemChunk

namespace SharedMemCache

open LruMemChunk

variable {K A : Type} [DecidableEq K] [DecidableEq A] {m : DataStores} {arrayOf : K → A} {ftruncate : ℕ → Bool}
  {s s' : SharedMemCache K A} {held : K → Option (List UInt8)} {blocks : A → Finset Block} {lru : List K} {k : K}

/-- The chunks have the bytes `held`, and `blocks` are those of the data stores that are in use. -/
structure Kept (m : DataStores) (arrayOf : K → A) (held : K → Option (List UInt8)) (blocks : A → Finset Block)
    (s : SharedMemCache K A) : Prop where
  nodup : s.live.Nodup
  inv : ∀ a, Inv (s.storeOf m a).ds (blocks a)
  mem : ∀ k ∈ s.live, ∀ b, (s.chunk k).block = some b → b ∈ blocks (arrayOf k) ∧ sizeofDiskChunkHeader ≤ b.size
  inj : ∀ j ∈ s.live, ∀ k ∈ s.live, arrayOf j = arrayOf k → ∀ b, (s.chunk j).block = some b →
    (s.chunk k).block = some b → j = k
  faithful : ∀ k ∈ s.live, (s.chunk k).Faithful (s.storeOf m (arrayOf k)).file (held k)

variable {c : LruMemChunk} {v : Option (List UInt8)} {bs : List UInt8}

section

variable (h : s.Kept m arrayOf held blocks) (hlive : s'.live = s.live) (hstore : s'.store = s.store)
  (hchunk : s'.chunk = Function.update s.chunk k c)

include h hlive hstore hchunk

omit [DecidableEq A] in
lemma Kept.set (hblock : c.block = (s.chunk k).block)
    (hc : k ∈ s.live → c.Faithful (s.storeOf m (arrayOf k)).file v) : s'.Kept m arrayOf (Function.update held k v) blocks := by
  have hstoreOf : ∀ a, s'.storeOf m a = s.storeOf m a := fun a => by rw [storeOf, storeOf, hstore]
  have hblocks : ∀ j, (s'.chunk j).block = (s.chunk j).block := by
    intro j
    rw [hchunk]
    by_cases hj : j = k
    · rw [hj, update_self, hblock]
    · rw [update_of_ne hj]
  refine ⟨hlive ▸ h.nodup, fun a => hstoreOf a ▸ h.inv a, fun j hj => ?_, fun i hi j hj => ?_, fun j hj => ?_⟩
  · rw [hblocks]
    exact h.mem j (hlive ▸ hj)
  · rw [hblocks, hblocks]
    exact h.inj i (hlive ▸ hi) j (hlive ▸ hj)
  · rw [hstoreOf, hchunk]
    rw [hlive] at hj
    by_cases hjk : j = k
    · subst hjk
      simpa using hc hj
    · simpa [hjk] using h.faithful j hj

omit [DecidableEq A] in
lemma Kept.set_same (hblock : c.block = (s.chunk k).block)
    (hc : k ∈ s.live → c.Faithful (s.storeOf m (arrayOf k)).file (held k)) : s'.Kept m arrayOf held blocks := by
  have hset := h.set hlive hstore hchunk hblock hc
  rwa [update_eq_self] at hset

omit [DecidableEq A] in
lemma Kept.touch (hdata : c.data = (s.chunk k).data)
    (hdirty : c.dirty = (s.chunk k).dirty) (hsize : c.size = (s.chunk k).size) (hblock : c.block = (s.chunk k).block) :
    s'.Kept m arrayOf held blocks :=
  h.set_same hlive hstore hchunk hblock fun hk => (h.faithful k hk).congr hdata hdirty hsize hblock

end

lemma Kept.writeOut (h : s.Kept m arrayOf held blocks) (hlimit : OffTLimit ftruncate) (hk : k ∈ s.live)
    (hdata : (s.chunk k).data = some bs) (hok : s.writeOut m arrayOf ftruncate k = .ok s') :
    ∃ blocks', (s'.setChunk k { s'.chunk k with data := none }).Kept m arrayOf held blocks' := by
  obtain ⟨⟨b, ds'⟩, hslot, rfl⟩ := ok_of_map hok
  have hfaithful := h.faithful k hk
  have hheld := hfaithful.eq_of_data hdata
  obtain ⟨L', hinv', hmem', hle, hother⟩ := slot_spec hlimit (h.inv (arrayOf k)) (h.mem k hk) hfaithful.size_le hslot
  have hlen : (s.chunk k).size = bs.length ∧ 0 < bs.length ∧ bs.length ≤ maxBuffer := by
    rw [hheld] at hfaithful
    exact hfaithful.1
  rw [hlen.1] at hle
  -- the block of another chunk of the array is known, and another one
  have hblock : ∀ j ∈ s.live, j ≠ k → arrayOf j = arrayOf k → ∀ x, (s.chunk j).block = some x → x ∈ L' ∧ x ≠ b := by
    intro j hj hjk harr x hx
    refine hother x (harr ▸ (h.mem j hj x hx).1) fun hx' => ?_
    exact hjk (h.inj j hj k hk harr x hx hx')
  generalize hs1 : ({ s with
      chunk := Function.update s.chunk k { s.chunk k with dsOffset := some b.off, dsAlloc := b.size, dirty := true }
      store := Function.update s.store (arrayOf k) (some ⟨ds', writeData (s.storeOf m (arrayOf k)).file b.off
        ((s.chunk k).data.getD []) b.size⟩) } : SharedMemCache K A).setChunk k _ = s1
  have hlive : s1.live = s.live := by rw [← hs1]; rfl
  have hself : (s1.chunk k).block = some b := by simp [← hs1, setChunk, block]
  have hsame : ∀ j, j ≠ k → s1.chunk j = s.chunk j := fun j hj => by simp [← hs1, setChunk, hj]
  have hstore : s1.storeOf m (arrayOf k) = ⟨ds', writeData (s.storeOf m (arrayOf k)).file b.off bs b.size⟩ := by
    simp [← hs1, setChunk, storeOf, hdata]
  have hstores : ∀ a, a ≠ arrayOf k → s1.storeOf m a = s.storeOf m a := fun a ha => by
    simp [← hs1, setChunk, storeOf, ha]
  refine ⟨Function.update blocks (arrayOf k) L', hlive ▸ h.nodup, fun a => ?_, fun j hj x hx => ?_,
    fun i hi j hj harr x hix hjx => ?_, fun j hj => ?_⟩
  · by_cases ha : a = arrayOf k
    · subst ha
      simpa [hstore] using hinv'
    · simpa [hstores a ha, ha] using h.inv a
  · rw [hlive] at hj
    by_cases hjk : j = k
    · subst hjk
      obtain rfl : x = b := some.inj (hx.symm.trans hself)
      simp only [update_self]
      exact ⟨hmem', by omega⟩
    · rw [hsame j hjk] at hx
      by_cases harr : arrayOf j = arrayOf k
      · rw [harr, update_self]
        exact ⟨(hblock j hj hjk harr x hx).1, (h.mem j hj x hx).2⟩
      · rw [update_of_ne harr]
        exact h.mem j hj x hx
  · rw [hlive] at hi hj
    by_cases hik : i = k <;> by_cases hjk : j = k
    · rw [hik, hjk]
    · rw [hik] at hix harr
      rw [hsame j hjk] at hjx
      exact absurd (some.inj (hix.symm.trans hself)) (hblock j hj hjk harr.symm x hjx).2
    · rw [hjk] at hjx harr
      rw [hsame i hik] at hix
      exact absurd (some.inj (hjx.symm.trans hself)) (hblock i hi hik harr x hix).2
    · rw [hsame i hik] at hix
      rw [hsame j hjk] at hjx
      exact h.inj i hi j hj harr x hix hjx
  · rw [hlive] at hj
    by_cases hjk : j = k
    · subst hjk
      rw [hstore, hheld]
      refine ⟨by simpa [← hs1, setChunk] using hlen, .inl (by simp [← hs1, setChunk]), .inr ⟨b, hself, ?_⟩⟩
      exact holds_writeData hle _
    · rw [hsame j hjk]
      by_cases harr : arrayOf j = arrayOf k
      · rw [harr, hstore]
        refine (harr ▸ h.faithful j hj).file fun x xs hx hholds => ?_
        obtain ⟨hxmem, hxne⟩ := hblock j hj hjk harr x hx
        exact hholds.writeData_other (hinv'.disjoint_live hxmem hmem' hxne) hle _
      · rw [hstores _ harr]
        exact h.faithful j hj

omit [DecidableEq K] [DecidableEq A] in
lemma Kept.congr (h : s.Kept m arrayOf held blocks) (hlive : s'.live = s.live) (hchunk : s'.chunk = s.chunk)
    (hstore : s'.store = s.store) : s'.Kept m arrayOf held blocks := by
  have hstoreOf : ∀ a, s'.storeOf m a = s.storeOf m a := fun a => by rw [storeOf, storeOf, hstore]
  refine ⟨hlive ▸ h.nodup, fun a => hstoreOf a ▸ h.inv a, ?_, ?_, fun k hk => ?_⟩
  · rw [hlive, hchunk]
    exact h.mem
  · rw [hlive, hchunk]
    exact h.inj
  · rw [hstoreOf, hchunk]
    exact h.faithful k (hlive ▸ hk)

section

variable (h : s.Kept m arrayOf held blocks) (hlimit : OffTLimit ftruncate)

include h hlimit

lemma Kept.evict (hk : k ∈ s.live) (hdata : (s.chunk k).data = some bs) (hok : s.evict m arrayOf ftruncate k = .ok s') :
    ∃ blocks', s'.Kept m arrayOf held blocks' := by
  obtain ⟨used, -, hok⟩ := ok_of_bind hok
  obtain ⟨s1, hwrite, rfl⟩ := ok_of_map hok
  split_ifs at hwrite with hdirty
  · obtain ⟨blocks', h'⟩ := h.writeOut hlimit hk hdata hwrite
    exact ⟨blocks', h'.congr rfl rfl rfl⟩
  · cases hwrite
    refine ⟨blocks, h.set_same (k := k) rfl rfl rfl rfl fun _ => ?_⟩
    have hfaithful := h.faithful k hk
    have hheld := hfaithful.eq_of_data hdata
    rw [hheld] at hfaithful ⊢
    refine ⟨hfaithful.1, .inl rfl, .inr (hfaithful.2.2.resolve_left fun hd => hdirty hd.2)⟩

lemma Kept.swapOutLoop (hacc : s.Accounted lru)
    (hok : swapOutLoop m arrayOf ftruncate lru s = .ok s') : ∃ blocks', s'.Kept m arrayOf held blocks' := by
  induction lru generalizing s blocks with
  | nil =>
    cases hok
    exact ⟨blocks, h.congr rfl rfl rfl⟩
  | cons k lru ih =>
    rw [SharedMemCache.swapOutLoop] at hok
    split_ifs at hok with hover
    · obtain ⟨s1, hevict, hok⟩ := ok_of_bind hok
      obtain ⟨hk, hdata, -⟩ := (hacc.mem_lru k).mp mem_cons_self
      obtain ⟨bs, hbs⟩ := isSome_iff_exists.mp hdata
      obtain ⟨blocks1, h1⟩ := h.evict hlimit hk hbs hevict
      exact ih h1 (hacc.evict.of_ok hevict).1 hok
    · cases hok
      exact ⟨blocks, h.congr rfl rfl rfl⟩

lemma Kept.swapOutIfOver (hacc : s.Accounted s.theLru) (hok : swapOutIfOver m arrayOf ftruncate s = .ok s') :
    ∃ blocks', s'.Kept m arrayOf held blocks' := by
  rw [SharedMemCache.swapOutIfOver] at hok
  split_ifs at hok
  · exact h.swapOutLoop hlimit hacc hok
  · cases hok
    exact ⟨blocks, h⟩

end

omit [DecidableEq A] in
lemma Kept.load (h : s.Kept m arrayOf held blocks) (hk : k ∈ s.live) (hdata : (s.chunk k).data = none)
    (hok : s.loadIfAny arrayOf k = .ok s') :
    s'.Kept m arrayOf held blocks ∧ (s'.chunk k).data = held k ∧ s'.live = s.live ∧ ∀ j, j ≠ k → s'.chunk j = s.chunk j := by
  have hfaithful := h.faithful k hk
  rw [loadIfAny] at hok
  split_ifs at hok with hsize
  · cases hok
    refine ⟨h, ?_, rfl, fun _ _ => rfl⟩
    cases hheld : held k with
    | none => exact hdata
    | some bs =>
      rw [hheld] at hfaithful
      exact absurd (hfaithful.1.1.symm.trans hsize) hfaithful.1.2.1.ne'
  · cases hheld : held k with
    | none =>
      rw [hheld] at hfaithful
      exact absurd hfaithful.2 hsize
    | some bs =>
      rw [hheld] at hfaithful
      obtain ⟨hlen, -, ⟨hsome, -⟩ | ⟨b, hblock, hholds⟩⟩ := hfaithful
      · simp [hdata] at hsome
      rw [SharedMemCache.load] at hok
      split_ifs at hok with hmax
      split at hok
      · rename_i st off hstore hoff
        obtain rfl : b = ⟨off, (s.chunk k).dsAlloc⟩ := by simpa [block, hoff] using hblock.symm
        rw [storeOf, hstore] at hholds
        have hread : readData st.file off (s.chunk k).size = some bs := by
          rw [hlen.1]
          exact hholds.read
        rw [hread] at hok
        cases hok
        refine ⟨h.set_same (k := k) rfl rfl rfl rfl fun _ => ?_, by simp [setChunk], rfl, fun j hj => by simp [setChunk, hj]⟩
        rw [hheld, storeOf, hstore]
        exact ⟨hlen, .inr rfl, .inr ⟨_, hblock, hholds⟩⟩
      · cases hok

/-- Pinned chunks are in memory. -/
def AtHand (held : K → Option (List UInt8)) (s : SharedMemCache K A) : Prop :=
  ∀ k ∈ s.live, 0 < (s.chunk k).accessCount → (s.chunk k).data = held k

/-- Everything is there. -/
def Safe (m : DataStores) (arrayOf : K → A) (held : K → Option (List UInt8)) (s : SharedMemCache K A) : Prop :=
  s.Sound ∧ s.AtHand held ∧ ∃ blocks, s.Kept m arrayOf held blocks

lemma AtHand.swapOut {P : K → Prop} (h : ∀ j ∈ s.live, P j → 0 < (s.chunk j).accessCount → (s.chunk j).data = held j)
    (hacc : s.Accounted s.theLru) (hok : swapOutIfOver m arrayOf ftruncate s = .ok s') :
    ∀ j ∈ s'.live, P j → 0 < (s'.chunk j).accessCount → (s'.chunk j).data = held j := by
  obtain ⟨-, hlive, hother, hcount⟩ := hacc.swapOutIfOver.of_ok hok
  intro j hj hP hpos
  have hj' : j ∉ s.theLru := hacc.notMem (.inr (by rw [← hcount]; omega))
  rw [hother j hj'] at hpos ⊢
  exact h j (hlive ▸ hj) hP hpos

section

variable (h : s.AtHand held) (hlive : s'.live = s.live) (hchunk : s'.chunk = Function.update s.chunk k c)

include h hlive hchunk

omit [DecidableEq A] in
lemma AtHand.update
    (hc : 0 < c.accessCount → c.data = v) : s'.AtHand (Function.update held k v) := by
  intro j hj
  rw [hchunk]
  by_cases hjk : j = k
  · subst hjk
    simpa using hc
  · simpa [hjk] using h j (hlive ▸ hj)

omit [DecidableEq A] in
lemma AtHand.touch
    (hc : 0 < c.accessCount → c.data = held k) : s'.AtHand held := by
  have hset := h.update hlive hchunk hc
  rwa [update_eq_self] at hset

end

section

variable (h : s.Safe m arrayOf held) (hlimit : OffTLimit ftruncate) (hk : k ∈ s.live)

include h hlimit hk

lemma Safe.pin_swapped (hdata : (s.chunk k).data = none) {s2 : SharedMemCache K A}
    (hswap : swapOutIfOver m arrayOf ftruncate (s.firstPin k) = .ok s2) (hload : s2.loadIfAny arrayOf k = .ok s') :
    s'.AtHand held ∧ ∃ blocks, s'.Kept m arrayOf held blocks := by
  obtain ⟨hsound, hhand, blocks, hkept⟩ := h
  have hacc := hsound.firstPin hk hdata
  have hkept1 : (s.firstPin k).Kept m arrayOf held blocks := hkept.touch rfl rfl rfl rfl rfl rfl rfl
  obtain ⟨blocks2, hkept2⟩ := hkept1.swapOutIfOver hlimit hacc hswap
  obtain ⟨-, hlive2, hother2, -⟩ := hacc.swapOutIfOver.of_ok hswap
  have hdata2 : (s2.chunk k).data = none := by
    rw [hother2 k (hacc.notMem (.inl (by simp [firstPin, setChunk, hdata])))]
    simp [firstPin, setChunk, hdata]
  have hhand2 := AtHand.swapOut (P := (· ≠ k)) (fun j hj hjk => show _ → _ = held j by
    simpa [firstPin, setChunk, hjk] using hhand j hj) hacc hswap
  obtain ⟨hkept3, hdata3, hlive3, hother3⟩ := hkept2.load (hlive2 ▸ hk) hdata2 hload
  refine ⟨fun j hj hpos => ?_, blocks2, hkept3⟩
  by_cases hjk : j = k
  · rw [hjk, hdata3]
  · rw [hother3 j hjk] at hpos ⊢
    exact hhand2 j (hlive3 ▸ hj) hjk hpos

lemma Safe.pinChunk
    (hok : s.pinChunk m arrayOf ftruncate k = .ok s') : s'.AtHand held ∧ ∃ blocks, s'.Kept m arrayOf held blocks := by
  obtain ⟨hsound, hhand, blocks, hkept⟩ := id h
  rw [SharedMemCache.pinChunk] at hok
  split_ifs at hok with hcount hdata
  · obtain ⟨s2, hswap, hload⟩ := ok_of_bind hok
    exact h.pin_swapped hlimit hk hdata hswap hload
  · cases hok
    refine ⟨hhand.touch (k := k) rfl rfl fun _ => ?_, blocks, hkept.touch (k := k) rfl rfl rfl rfl rfl rfl rfl⟩
    obtain ⟨bs, hbs⟩ := ne_none_iff_exists'.mp hdata
    exact hbs.trans ((hkept.faithful k hk).eq_of_data hbs).symm
  · cases hok
    refine ⟨hhand.touch (k := k) rfl rfl fun _ => ?_, blocks, hkept.touch (k := k) rfl rfl rfl rfl rfl rfl rfl⟩
    exact hhand k hk (pos_of_ne_zero hcount)

lemma Safe.unpinChunk (hpos : 0 < (s.chunk k).accessCount) (hok : s.unpinChunk m arrayOf ftruncate k = .ok s') :
    s'.AtHand held ∧ ∃ blocks, s'.Kept m arrayOf held blocks := by
  obtain ⟨hsound, hhand, blocks, hkept⟩ := h
  rw [SharedMemCache.unpinChunk] at hok
  by_cases hlast : (s.chunk k).accessCount = 1
  · rw [if_pos hlast] at hok
    obtain ⟨used, hsub, hok⟩ := ok_of_bind hok
    split_ifs at hok with hdata
    · cases hok
      exact ⟨hhand.touch (k := k) rfl rfl (fun h => by cases h), blocks, hkept.touch (k := k) rfl rfl rfl rfl rfl rfl rfl⟩
    · have hused := (fine_sub (hsound.accounted_eq hk hpos ▸ hsound.1.accounted_le hk)).of_ok hsub
      have hacc := (hsound.lastUnpin hk hpos hdata hused).1
      have hkept1 : (s.lastUnpin k used).Kept m arrayOf held blocks :=
        hkept.touch (k := k) rfl rfl rfl rfl rfl rfl rfl
      have hhand1 : (s.lastUnpin k used).AtHand held := hhand.touch (k := k) rfl rfl fun h => by cases h
      refine ⟨fun j hj => ?_, hkept1.swapOutIfOver hlimit hacc hok⟩
      exact AtHand.swapOut (P := fun _ => True) (fun i hi _ => hhand1 i hi) hacc hok j hj trivial
  · rw [if_neg hlast] at hok
    cases hok
    refine ⟨hhand.touch (k := k) rfl rfl fun _ => hhand k hk hpos, blocks, ?_⟩
    exact hkept.touch (k := k) rfl rfl rfl rfl rfl rfl rfl

end

omit [DecidableEq A] in
lemma Kept.write (h : s.Kept m arrayOf held blocks) (hbs : 0 < bs.length) (hok : s.write k bs = .ok s') :
    s'.Kept m arrayOf (Function.update held k (some bs)) blocks ∧
      (s.AtHand held → s'.AtHand (Function.update held k (some bs))) := by
  obtain ⟨s1, hresize, rfl⟩ := ok_of_map hok
  rw [reallocate] at hresize
  split_ifs at hresize with hmax
  cases hresize
  refine ⟨?_, fun hhand => hhand.update (c := ⟨some bs, true, bs.length, (s.chunk k).dsOffset, (s.chunk k).dsAlloc,
    (s.chunk k).accessCount, (s.chunk k).sizeAtLastUnPin⟩) rfl (by simp [setChunk]) fun _ => rfl⟩
  refine h.set (c := ⟨some bs, true, bs.length, (s.chunk k).dsOffset, (s.chunk k).dsAlloc, (s.chunk k).accessCount,
    (s.chunk k).sizeAtLastUnPin⟩) rfl rfl (by simp [setChunk]) rfl fun _ => ?_
  exact ⟨⟨rfl, hbs, hmax⟩, .inr rfl, .inl ⟨rfl, rfl⟩⟩

omit [DecidableEq A] in
lemma Kept.newChunk (h : s.Kept m arrayOf held blocks) (hk : k ∉ s.live) :
    ({ s.setChunk k .init with live := k :: s.live } : SharedMemCache K A).Kept m arrayOf
      (Function.update held k none) blocks := by
  refine ⟨nodup_cons.mpr ⟨hk, h.nodup⟩, h.inv, fun j hj b hb => ?_, fun i hi j hj harr b hib hjb => ?_, fun j hj => ?_⟩
  · by_cases hjk : j = k
    · simp [setChunk, hjk, block, LruMemChunk.init] at hb
    · simp only [setChunk, update_of_ne hjk] at hb
      exact h.mem j ((mem_cons.mp hj).resolve_left hjk) b hb
  · by_cases hik : i = k
    · simp [setChunk, hik, block, LruMemChunk.init] at hib
    by_cases hjk : j = k
    · simp [setChunk, hjk, block, LruMemChunk.init] at hjb
    simp only [setChunk, update_of_ne hik] at hib
    simp only [setChunk, update_of_ne hjk] at hjb
    exact h.inj i ((mem_cons.mp hi).resolve_left hik) j ((mem_cons.mp hj).resolve_left hjk) harr b hib hjb
  · by_cases hjk : j = k
    · simp [setChunk, hjk, LruMemChunk.init, Faithful]
    · simpa [setChunk, storeOf, hjk] using h.faithful j ((mem_cons.mp hj).resolve_left hjk)

omit [DecidableEq A] in
lemma cleanupLoop_ok {ks : List K} (hnodup : s.live.Nodup) (hok : cleanupLoop ks s = .ok s') :
    s'.chunk = s.chunk ∧ s'.store = s.store ∧ s'.live.Nodup ∧ ∀ j ∈ s'.live, j ∈ s.live ∧ j ∉ ks := by
  induction ks generalizing s with
  | nil =>
    cases hok
    exact ⟨rfl, rfl, hnodup, fun j hj => ⟨hj, not_mem_nil⟩⟩
  | cons k ks ih =>
    obtain ⟨used, -, hok⟩ := ok_of_bind hok
    obtain ⟨hchunk, hstore, hnodup', hlive⟩ := ih (hnodup.erase k) hok
    refine ⟨hchunk, hstore, hnodup', fun j hj => ?_⟩
    obtain ⟨hj', hks⟩ := hlive j hj
    obtain ⟨hne, hmem⟩ := hnodup.mem_erase_iff.mp hj'
    exact ⟨hmem, by simp [hne, hks]⟩

lemma Safe.cleanupArray {a : A} (h : s.Safe m arrayOf held) (hok : s.cleanupArray arrayOf a = .ok s') :
    s'.AtHand held ∧ ∃ blocks, s'.Kept m arrayOf held blocks := by
  obtain ⟨-, hhand, blocks, hkept⟩ := h
  obtain ⟨s1, hloop, rfl⟩ := ok_of_map hok
  obtain ⟨hchunk, hstore, hnodup, hlive⟩ := cleanupLoop_ok hkept.nodup hloop
  have hother : ∀ j ∈ s1.live, j ∈ s.live ∧ arrayOf j ≠ a := by
    intro j hj
    obtain ⟨hmem, hnot⟩ := hlive j hj
    refine ⟨hmem, fun harr => hnot (mem_filter.mpr ⟨hmem, by simpa using harr⟩)⟩
  refine ⟨fun j hj => ?_, Function.update blocks a ∅, hnodup, fun a' => ?_, fun j hj => ?_, fun i hi j hj => ?_, fun j hj => ?_⟩
  · simpa only [hchunk] using hhand j (hother j hj).1
  · by_cases ha : a' = a
    · subst ha
      simpa [storeOf] using inv_fresh m
    · simpa [storeOf, ha, hstore] using hkept.inv a'
  · simpa [hchunk, (hother j hj).2] using hkept.mem j (hother j hj).1
  · simpa only [hchunk] using hkept.inj i (hother i hi).1 j (hother j hj).1
  · simpa [storeOf, (hother j hj).2, hstore, hchunk] using hkept.faithful j (hother j hj).1

end SharedMemCache

/-- Operations on chunks. -/
def CacheAction.Plain {K A : Type} : CacheAction K A → Prop
  | .newChunk _ | .write _ _ | .cleanup _ => True
  | .pin _ ftruncate | .unpin _ ftruncate | .swapOut ftruncate => OffTLimit ftruncate
  | .resize _ _ | .delete _ | .pinNoMemory _ _ => False

/-- The cache, and the bytes that every chunk had when it was last unpinned or written. -/
structure Watched (K A : Type) where
  cache : SharedMemCache K A
  held : K → Option (List UInt8)

namespace Watched

open LruMemChunk SharedMemCache

variable {K A : Type} [DecidableEq K] [DecidableEq A] {m : DataStores} {arrayOf : K → A} {w w' : Watched K A}
  {a : CacheAction K A}

/-- Looks at a chunk. -/
def look (w : Watched K A) : CacheAction K A → K → Option (List UInt8)
  | .newChunk k => Function.update w.held k none
  | .write k bs => Function.update w.held k (some bs)
  | .unpin k _ => Function.update w.held k (w.cache.chunk k).data
  | _ => w.held

/-- A call. -/
def step (m : DataStores) (arrayOf : K → A) (w : Watched K A) (a : CacheAction K A) : Option (Watched K A) :=
  (w.cache.stepOrThrow m arrayOf a).map fun s => ⟨s, w.look a⟩

lemma safe_step (h : w.cache.Safe m arrayOf w.held) (hplain : a.Plain) (hret : w.cache.Returns m arrayOf a)
    (hstep : w.step m arrayOf a = some w') : w'.cache.Safe m arrayOf w'.held := by
  obtain ⟨s', hs', rfl⟩ := map_eq_some_iff.mp hstep
  obtain ⟨hallowed, hcall⟩ := call_of_stepOrThrow hs' hret
  have hkeeps : w.cache.Keeps a := by
    cases a <;> trivial
  refine ⟨(h.1.call hallowed hkeeps).of_ok hcall, ?_⟩
  obtain ⟨hsound, hhand, blocks, hkept⟩ := id h
  cases a with
  | newChunk k =>
    cases hcall
    refine ⟨fun j hj => ?_, blocks, hkept.newChunk hallowed⟩
    by_cases hjk : j = k
    · simp [setChunk, hjk, LruMemChunk.init]
    · simpa [setChunk, look, hjk] using hhand j ((mem_cons.mp hj).resolve_left hjk)
  | pin k ftruncate => exact h.pinChunk hplain hallowed hcall
  | pinNoMemory k ftruncate => exact hplain.elim
  | unpin k ftruncate =>
    have hlook : w.look (.unpin k ftruncate) = w.held := by
      rw [look, hhand k hallowed.1 hallowed.2, update_eq_self]
    simpa only [hlook] using h.unpinChunk hplain hallowed.1 hallowed.2 hcall
  | swapOut ftruncate =>
    have hok : w.cache.swapOutIfOver m arrayOf ftruncate = .ok s' := (swapOut_eq w.cache).symm.trans hcall
    refine ⟨fun j hj => ?_, hkept.swapOutIfOver hplain hsound.1 hok⟩
    exact AtHand.swapOut (P := fun _ => True) (fun i hi _ => hhand i hi) hsound.1 hok j hj trivial
  | resize k bs => exact hplain.elim
  | write k bs =>
    obtain ⟨hkept', hhand'⟩ := hkept.write hallowed.2.2 hcall
    exact ⟨hhand' hhand, blocks, hkept'⟩
  | delete k => exact hplain.elim
  | cleanup a => exact h.cleanupArray hcall

omit [DecidableEq K] [DecidableEq A] in
lemma safe_start (threshold : ℕ) : (start threshold : SharedMemCache K A).Safe m arrayOf fun _ => none := by
  refine ⟨sound_start threshold, by simp [AtHand, start], fun _ => ∅, nodup_nil, fun a => ?_, ?_, ?_, ?_⟩
  · simpa [storeOf, start] using inv_fresh m
  all_goals simp [start]

/-- **A pinned chunk has the bytes it had when it was last unpinned or written**, if no call has thrown; if not dirty, its block
has them. -/
theorem pinned_bytes {threshold : ℕ} (h : Reaches (step m arrayOf) (fun w a => a.Plain ∧ w.cache.Returns m arrayOf a)
    ⟨start threshold, fun _ => none⟩ w) {k : K} (hk : k ∈ w.cache.live) :
    (0 < (w.cache.chunk k).accessCount → (w.cache.chunk k).data = w.held k) ∧
      ∀ bs, w.held k = some bs → (w.cache.chunk k).data = none ∨ (w.cache.chunk k).dirty = false →
        ∃ st off, w.cache.store (arrayOf k) = some st ∧ (w.cache.chunk k).dsOffset = some off ∧
          readData st.file off bs.length = some bs := by
  have hsafe : w.cache.Safe m arrayOf w.held :=
    h.invariant (safe_start threshold) fun _ _ _ hw hok hstep => safe_step hw hok.1 hok.2 hstep
  obtain ⟨-, hhand, blocks, hkept⟩ := hsafe
  refine ⟨hhand k hk, fun bs hbs hclean => ?_⟩
  have hfaithful := hkept.faithful k hk
  rw [hbs] at hfaithful
  obtain ⟨-, -, ⟨hdata, hdirty⟩ | ⟨b, hblock, hholds⟩⟩ := hfaithful
  · rcases hclean with hclean | hclean
    · simp [hclean] at hdata
    · simp [hclean] at hdirty
  · obtain ⟨off, hoff, rfl⟩ := map_eq_some_iff.mp hblock
    have hread := hholds.read
    cases hstore : w.cache.store (arrayOf k) with
    | some st =>
      simp only [storeOf, hstore, getD_some] at hread
      exact ⟨st, off, rfl, hoff, hread⟩
    | none =>
      simp [storeOf, hstore, readData_zero] at hread

/-- A chunk is written, comes back from its block, and is written again with more bytes. -/
def rewrittenRun : List (CacheAction ℕ Unit) :=
  [.newChunk 0, .pin 0 anyFile, .write 0 [7], .unpin 0 anyFile, .pin 0 anyFile, .write 0 [8, 9], .unpin 0 anyFile,
    .pin 0 anyFile]

/-- A step whose call returns. -/
def stepReturned (m : DataStores) (arrayOf : K → A) (w : Watched K A) (a : CacheAction K A) : Option (Watched K A) :=
  (w.cache.step m arrayOf a).map fun s => ⟨s, w.look a⟩

lemma reaches_of_returned {w0 : Watched K A} {as : List (CacheAction K A)}
    (h : Reaches (step m arrayOf) (fun w a => a.Plain ∧ w.cache.Returns m arrayOf a) w0 w) (has : ∀ a ∈ as, a.Plain)
    (hrun : runActions (stepReturned m arrayOf) w as = some w') :
    Reaches (step m arrayOf) (fun w a => a.Plain ∧ w.cache.Returns m arrayOf a) w0 w' := by
  induction as generalizing w with
  | nil =>
    cases hrun
    exact h
  | cons a as ih =>
    obtain ⟨w1, hw1, hrun⟩ := bind_eq_some_iff.mp hrun
    obtain ⟨s1, hs1, rfl⟩ := map_eq_some_iff.mp hw1
    obtain ⟨hallowed, hcall⟩ := call_of_step hs1
    have hstep : w.step m arrayOf a = some ⟨s1, w.look a⟩ := by
      rw [step, stepOrThrow, if_pos hallowed, hcall]
      rfl
    exact ih (h.step ⟨has a List.mem_cons_self, s1, hcall⟩ hstep) (fun b hb => has b (List.mem_cons_of_mem a hb)) hrun

theorem rewrittenRun_bytes : ∃ w : Watched ℕ Unit,
      Reaches (step .default fun _ => ()) (fun w a => a.Plain ∧ w.cache.Returns .default (fun _ => ()) a)
        ⟨start 0, fun _ => none⟩ w ∧ w.held 0 = some [8, 9] ∧ (w.cache.chunk 0).dirty = false ∧ (w.cache.chunk 0).data = w.held 0 ∧
      ∃ st off, w.cache.store () = some st ∧ (w.cache.chunk 0).dsOffset = some off ∧ readData st.file off 2 = some [8, 9] := by
  obtain ⟨w, hrun, hlive, hheld, hdirty, hcount⟩ :
      ∃ w, runActions (stepReturned .default fun _ => ()) ⟨start 0, fun _ => none⟩ rewrittenRun = some w ∧ w.cache.live = [0] ∧
        w.held 0 = some [8, 9] ∧ (w.cache.chunk 0).dirty = false ∧ (w.cache.chunk 0).accessCount = 1 :=
    ⟨_, rfl, rfl, rfl, rfl, rfl⟩
  have hreach := reaches_of_returned .start (fun a ha => ?_) hrun
  · have hbytes := pinned_bytes hreach (k := 0) (by simp [hlive])
    exact ⟨w, hreach, hheld, hdirty, hbytes.1 (by simp [hcount]), hbytes.2 [8, 9] hheld (.inr hdirty)⟩
  · simp only [rewrittenRun, List.mem_cons, List.not_mem_nil, or_false] at ha
    rcases ha with rfl | rfl | rfl | rfl | rfl | rfl | rfl | rfl <;> first | trivial | exact offTLimit_anyFile

/-- Chunk 2, of another array, stays pinned. Chunk 0 has a block of 32 bytes and is written with 17; its file cannot grow, and
`unpin` throws. Then chunk 1 gets the block, and chunk 0 is written with one byte. -/
def thrownRun : List (CacheAction ℕ Bool) :=
  [.newChunk 2, .pin 2 anyFile, .write 2 (List.replicate 17 5), .unpin 2 anyFile, .pin 2 anyFile,
    .newChunk 0, .pin 0 anyFile, .write 0 [7], .unpin 0 anyFile,
    .pin 0 anyFile, .write 0 (List.replicate 17 6), .unpin 0 fun _ => false,
    .newChunk 1, .pin 1 anyFile, .write 1 [8], .unpin 1 anyFile,
    .pin 0 anyFile, .write 0 [9], .unpin 0 anyFile, .pin 1 anyFile]

/-- **After a throw two chunks share a block**: chunk 1 is pinned, and has the byte of chunk 0. -/
theorem thrownRun_bytes : ∃ w, runActions (step ⟨1, by decide, by decide⟩ fun k => decide (k = 2)) ⟨start 0, fun _ => none⟩
      thrownRun = some w ∧ 1 ∈ w.cache.live ∧ (w.cache.chunk 1).accessCount = 1 ∧ w.held 1 = some [8] ∧ (w.cache.chunk 1).data = some [9] :=
  ⟨_, rfl, by decide, rfl, rfl, rfl⟩

end Watched

end SciDB.Array
