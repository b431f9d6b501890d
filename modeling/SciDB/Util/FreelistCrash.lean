import SciDB.Lib.Runs
import SciDB.Util.DataFile
import SciDB.Util.FreelistFile

/-!
# Crashes of a data store

Before the free lists change, their file is made to say that there are none; a flush writes them anew. A call is a list of
events on the disk, and a crash may come between any two. Writes reach the disk in order, all of them at an `fsync`; the size
of the data file is always there. Any write may fail.
-/

namespace SciDB.Util

open SciDB.Lib DataStore List Option Prod

/-- A write to the file. -/
inductive FileWrite where
  | truncate
  | byte (b : UInt8)

/-- The file after a write. -/
def FileWrite.apply (f : List UInt8) : FileWrite → List UInt8
  | .truncate => []
  | .byte b => f ++ [b]

/-- What happens in a call. -/
inductive DiskEvent where
  | write (w : FileWrite)
  | fsync
  | ftruncate (size : ℕ)
  | flushing (fl : DataStoreFreelists)
  | memory (ds : DataStore) (live : Finset Block)
  | clean

/-- A data store and its files. -/
structure StoredStore where
  ds : DataStore
  live : Finset Block
  stSize : ℕ
  /-- The file of the free lists, as it is on the disk at least. -/
  durable : List UInt8
  pending : List FileWrite
  /-- The free lists of the last flush, if they have not changed since. -/
  flushed : Option DataStoreFreelists

namespace StoredStore

/-- An event happens. -/
def exec (s : StoredStore) : DiskEvent → StoredStore
  | .write w => { s with pending := s.pending ++ [w] }
  | .fsync => { s with durable := s.pending.foldl FileWrite.apply s.durable, pending := [] }
  | .ftruncate size => { s with stSize := size }
  | .flushing fl => { s with flushed := some fl }
  | .memory ds live => { s with ds := ds, live := live, flushed := none }
  | .clean => { s with ds := { s.ds with fldirty := false } }

/-- The file of the free lists after a crash, when `k` more writes have reached the disk. -/
def image (s : StoredStore) (k : ℕ) : List UInt8 := (s.pending.take k).foldl FileWrite.apply s.durable

/-- The store after a crash. -/
def reopen (m : DataStores) (crc32 : List UInt8 → UInt32) (s : StoredStore) (k : ℕ) : Option DataStore :=
  (readFreelistFromFile crc32 (s.image k)).map (initializeFreelist m s.stSize)

end StoredStore

/-- How the file grows. -/
def grownSizes (ftruncate : ℕ → Bool) (request : ℕ) : ℕ → DataStore → List ℕ
  | 0, _ => []
  | fuel + 1, ds =>
    if request > ds.largestFreeChunk then
      if ftruncate ds.doubled.allocatedSize then
        ds.doubled.allocatedSize :: grownSizes ftruncate request fuel ds.doubled
      else []
    else []

/-- `stop` is how many writes a call makes before one fails, if one does. -/
inductive StoreCall where
  | allocate (requestedSize : ℕ) (ftruncate : ℕ → Bool) (stop : Option ℕ)
  | free (b : Block) (stop : Option ℕ)
  | flush (stop : Option ℕ)

/-- The writes that invalidate. -/
def invalidateWrites : List FileWrite := .truncate :: (encodeLE 8 0).map .byte

/-- Invalidates, and goes on. -/
def invalidateThen (ds : DataStore) (stop : Option ℕ) (rest : List DiskEvent) : List DiskEvent :=
  if ds.fldirty then rest
  else
    match stop with
    | none => invalidateWrites.map .write ++ .fsync :: rest
    | some n => (invalidateWrites.dropLast.take n).map .write

/-- The blocks given out. -/
def givenOut (live : Finset Block) : Except DataStoreError (ℕ × ℕ) → Finset Block
  | .ok (off, size) => insert ⟨off, size⟩ live
  | .error _ => live

def persistWrites (crc32 : List UInt8 → UInt32) (fl : DataStoreFreelists) : List FileWrite :=
  .truncate :: (freelistBytes crc32 fl).map .byte

/-- `persistFreelists`. It throws if a write fails or a bucket does not fit into memory. -/
def persistEvents (crc32 : List UInt8 → UInt32) (fl : DataStoreFreelists) (stop : Option ℕ) : List DiskEvent :=
  if fl.entries.all fitsInMemory then
    match stop with
    | none =>
      (persistWrites crc32 fl).dropLast.map .write ++ .flushing fl ::
        ((persistWrites crc32 fl).drop ((persistWrites crc32 fl).length - 1)).map .write ++ [.fsync, .clean]
    | some n => ((persistWrites crc32 fl).dropLast.take n).map .write
  else
    match stop with
    | none => (persistWrites crc32 fl).map .write
    | some n => ((persistWrites crc32 fl).take n).map .write

/-- What happens in a call. -/
def StoreCall.events (m : DataStores) (crc32 : List UInt8 → UInt32) (s : StoredStore) : StoreCall → Option (List DiskEvent)
  | .allocate requestedSize ftruncate stop =>
    (allocateSpace m ftruncate s.ds requestedSize).map fun r =>
      invalidateThen s.ds stop
        ((grownSizes ftruncate (requiredSize m requestedSize) (maxDoublings + 2) s.ds).map .ftruncate ++
          [.memory r.2 (givenOut s.live r.1)])
  | .free b stop =>
    (freeChunk s.ds b.off b.size).map fun ds => invalidateThen s.ds stop [.memory ds (s.live.erase b)]
  | .flush stop => some (if s.ds.fldirty then persistEvents crc32 s.ds.freelists stop else [])

/-- A store in a call. -/
structure RunningStore where
  store : StoredStore
  todo : List DiskEvent

/-- What a run does. -/
inductive StoreAction where
  | call (c : StoreCall)
  | next

namespace RunningStore

/-- A new store. -/
def start (m : DataStores) : RunningStore := ⟨⟨fresh m, ∅, (fresh m).allocatedSize, [], [], none⟩, []⟩

/-- A step of a run. -/
def step (m : DataStores) (crc32 : List UInt8 → UInt32) (w : RunningStore) : StoreAction → Option RunningStore
  | .call c => if w.todo.isEmpty then (c.events m crc32 w.store).map fun es => ⟨w.store, es⟩ else none
  | .next =>
    match w.todo with
    | [] => none
    | e :: es => some ⟨w.store.exec e, es⟩

end RunningStore

namespace StoredStore

variable {m : DataStores} {crc32 : List UInt8 → UInt32} {s : StoredStore} {p : List FileWrite} {done bs : List UInt8}
  {fl : DataStoreFreelists} {rest : List DiskEvent}

/-- No lists after a crash. -/
def NoLists (crc32 : List UInt8 → UInt32) (s : StoredStore) : Prop :=
  ∀ k fl, readFreelistFromFile crc32 (s.image k) = some fl → fl = OrdMap.empty

/-- What holds at any moment. -/
structure Ok (m : DataStores) (crc32 : List UInt8 → UInt32) (s : StoredStore) : Prop where
  inv : Inv s.ds s.live
  large : m.minAllocSize ≤ s.ds.allocatedSize
  pow : ∃ k ≤ 62, s.stSize = 2 ^ k
  size : m.minAllocSize ≤ s.stSize
  memory : ∀ fl, s.flushed = some fl → s.ds.freelists = fl
  disk : ∀ k fl, readFreelistFromFile crc32 (s.image k) = some fl → fl = OrdMap.empty ∨ s.flushed = some fl

/-- What holds between calls. -/
def Idle (crc32 : List UInt8 → UInt32) (s : StoredStore) : Prop := s.ds.fldirty = true → s.NoLists crc32

/-- What holds at every moment of the rest of a call, and after it. -/
def SafeAll (m : DataStores) (crc32 : List UInt8 → UInt32) : List DiskEvent → StoredStore → Prop
  | [], s => s.Ok m crc32 ∧ s.Idle crc32
  | e :: es, s => s.Ok m crc32 ∧ SafeAll m crc32 es (s.exec e)

lemma foldl_bytes (f bs : List UInt8) : (bs.map FileWrite.byte).foldl FileWrite.apply f = f ++ bs := by
  induction bs generalizing f with
  | nil => simp
  | cons b bs ih => simp [FileWrite.apply, ih]

lemma image_cases (hp : s.pending = p ++ .truncate :: done.map .byte) (k : ℕ) :
    (∃ i, s.image k = (p.take i).foldl FileWrite.apply s.durable) ∨ ∃ j, s.image k = done.take j := by
  rw [image, hp]
  by_cases hk : k ≤ p.length
  · exact .inl ⟨k, by rw [take_append_of_le_length hk]⟩
  · right
    obtain ⟨j, hj⟩ : ∃ j, k - p.length = j + 1 := ⟨k - p.length - 1, by omega⟩
    refine ⟨j, ?_⟩
    rw [take_append, take_of_length_le (by omega), hj, take_succ_cons, foldl_append, foldl_cons, ← map_take, foldl_bytes]
    rfl

lemma read_image {Q : DataStoreFreelists → Prop} (hp : s.pending = p ++ .truncate :: done.map .byte)
    (hold : ∀ i fl, readFreelistFromFile crc32 ((p.take i).foldl FileWrite.apply s.durable) = some fl → Q fl)
    (hnew : ∀ j fl, readFreelistFromFile crc32 (done.take j) = some fl → Q fl) (k : ℕ) (fl : DataStoreFreelists)
    (hread : readFreelistFromFile crc32 (s.image k) = some fl) : Q fl := by
  rcases image_cases hp k with ⟨i, hi⟩ | ⟨j, hj⟩
  · rw [hi] at hread
    exact hold i fl hread
  · rw [hj] at hread
    exact hnew j fl hread

lemma SafeAll.bytes (hok : s.Ok m crc32) (hp : s.pending = p ++ .truncate :: done.map .byte)
    (hold : ∀ i fl, readFreelistFromFile crc32 ((p.take i).foldl FileWrite.apply s.durable) = some fl →
      fl = OrdMap.empty ∨ s.flushed = some fl)
    (hnew : ∀ j fl, readFreelistFromFile crc32 ((done ++ bs).take j) = some fl → fl = OrdMap.empty ∨ s.flushed = some fl)
    (hrest : ({ s with pending := p ++ .truncate :: (done ++ bs).map .byte } : StoredStore).Ok m crc32 →
      SafeAll m crc32 rest { s with pending := p ++ .truncate :: (done ++ bs).map .byte }) :
    SafeAll m crc32 (bs.map (fun b => .write (.byte b)) ++ rest) s := by
  induction bs generalizing done s with
  | nil =>
    have hs : ({ s with pending := p ++ .truncate :: (done ++ []).map .byte } : StoredStore) = s := by
      rw [append_nil, ← hp]
    rw [hs] at hrest
    exact hrest hok
  | cons b bs ih =>
    refine ⟨hok, ?_⟩
    have hp' : (s.exec (.write (.byte b))).pending = p ++ .truncate :: (done ++ [b]).map .byte := by
      simp [exec, hp]
    have hnew' : ∀ j fl, readFreelistFromFile crc32 ((done ++ [b] ++ bs).take j) = some fl →
        fl = OrdMap.empty ∨ s.flushed = some fl := by simpa using hnew
    refine ih ⟨hok.inv, hok.large, hok.pow, hok.size, hok.memory, read_image hp' hold fun j fl hread => ?_⟩ hp' hold hnew' ?_
    · refine hnew' (min j (done ++ [b]).length) fl ?_
      rwa [take_append_of_le_length (min_le_right _ _), ← take_take, take_length]
    · simpa [exec] using hrest

open SafeAll

lemma SafeAll.truncate (hok : s.Ok m crc32)
    (hnew : ∀ j fl, readFreelistFromFile crc32 (bs.take j) = some fl → fl = OrdMap.empty ∨ s.flushed = some fl)
    (hrest : ({ s with pending := s.pending ++ .truncate :: bs.map .byte } : StoredStore).Ok m crc32 →
      SafeAll m crc32 rest { s with pending := s.pending ++ .truncate :: bs.map .byte }) :
    SafeAll m crc32 (.write .truncate :: (bs.map (fun b => .write (.byte b)) ++ rest)) s := by
  have hp : (s.exec (.write .truncate)).pending = s.pending ++ .truncate :: ([] : List UInt8).map .byte := rfl
  have hok' : (s.exec (.write .truncate)).Ok m crc32 := by
    refine ⟨hok.inv, hok.large, hok.pow, hok.size, hok.memory, read_image hp hok.disk fun j fl hread => ?_⟩
    rw [take_nil] at hread
    exact .inl (some.inj hread).symm
  exact ⟨hok, bytes hok' hp (fun i fl => hok.disk i fl) hnew hrest⟩

lemma writable_empty : Writable OrdMap.empty := by
  refine ⟨fun k offs h => ?_, by simp, by simp, by simp⟩
  simp at h

lemma read_none {j : ℕ} (h : readFreelistFromFile crc32 ((encodeLE 8 0).take j) = some fl) : fl = OrdMap.empty := by
  have hbytes : freelistBytes crc32 OrdMap.empty = encodeLE 8 0 := by simp [freelistBytes]
  rw [← hbytes] at h
  by_cases hj : j < (freelistBytes crc32 OrdMap.empty).length
  · exact readFreelistFromFile_take writable_empty (.inr hj) h
  · rw [take_of_length_le (not_lt.mp hj), readFreelistFromFile_bytes writable_empty (by simp)] at h
    exact (some.inj h).symm

/-- **`invalidateFreelistFile`**: when it is done, no free lists are on the disk. -/
lemma SafeAll.invalidate (hok : s.Ok m crc32)
    (hrest : ({ s with durable := encodeLE 8 0, pending := [] } : StoredStore).Ok m crc32 →
      ({ s with durable := encodeLE 8 0, pending := [] } : StoredStore).NoLists crc32 →
      SafeAll m crc32 rest { s with durable := encodeLE 8 0, pending := [] }) :
    SafeAll m crc32 (invalidateWrites.map .write ++ .fsync :: rest) s := by
  have hevents : invalidateWrites.map DiskEvent.write ++ .fsync :: rest =
      .write .truncate :: ((encodeLE 8 0).map (fun b => .write (.byte b)) ++ .fsync :: rest) := rfl
  rw [hevents]
  refine truncate hok (fun j fl h => .inl (read_none h)) fun hok' => ⟨hok', ?_⟩
  have hs : ({ s with pending := s.pending ++ .truncate :: (encodeLE 8 0).map .byte } : StoredStore).exec .fsync =
      { s with durable := encodeLE 8 0, pending := [] } := by
    simp only [exec, foldl_append, foldl_cons, foldl_bytes, FileWrite.apply, nil_append]
  have hnone : ({ s with durable := encodeLE 8 0, pending := [] } : StoredStore).NoLists crc32 := by
    intro k fl h
    have himage : ({ s with durable := encodeLE 8 0, pending := [] } : StoredStore).image k = (encodeLE 8 0).take 8 := by
      simp [image]
    rw [himage] at h
    exact read_none h
  rw [hs]
  exact hrest ⟨hok.inv, hok.large, hok.pow, hok.size, hok.memory, fun k fl h => .inl (hnone k fl h)⟩ hnone

lemma SafeAll.stopped {n : ℕ} (hok : s.Ok m crc32) (hidle : s.Idle crc32)
    (hnew : ∀ j fl, readFreelistFromFile crc32 (bs.take j) = some fl → fl = OrdMap.empty) :
    SafeAll m crc32 (((.truncate :: bs.map .byte).take n).map .write) s := by
  cases n with
  | zero => exact ⟨hok, hidle⟩
  | succ n =>
    have hevents : ((FileWrite.truncate :: bs.map .byte).take (n + 1)).map DiskEvent.write =
        .write .truncate :: ((bs.take n).map (fun b => .write (.byte b)) ++ []) := by
      simp [map_take]
      rfl
    have hnew' : ∀ j fl, readFreelistFromFile crc32 ((bs.take n).take j) = some fl → fl = OrdMap.empty := by
      intro j fl h
      rw [take_take] at h
      exact hnew _ fl h
    rw [hevents]
    refine truncate hok (fun j fl h => .inl (hnew' j fl h)) fun hok' => ⟨hok', fun hdirty => ?_⟩
    exact read_image rfl (hidle hdirty) hnew'

variable {ds ds' : DataStore} {live : Finset Block} {stop : Option ℕ} {ftruncate : ℕ → Bool} {request : ℕ}
  {r : Except DataStoreError (ℕ × ℕ)} {es : List DiskEvent}

lemma writable (h : Inv ds live) : Writable ds.freelists := by
  have h62 := h.allocated_le
  have hblock : ∀ e ∈ ds.freelists.entries, ∀ off ∈ e.2, (⟨off, e.1⟩ : Block) ∈ freeBlocks ds.freelists :=
    fun e he off hoff => mem_freeBlocks.mpr ⟨e.2, OrdMap.find?_eq_some_iff.mpr he, hoff⟩
  have hend : ∀ e ∈ ds.freelists.entries, ∀ off ∈ e.2, off + e.1 ≤ 2 ^ 62 := fun e he off hoff =>
    (h.tiles.end_le (.inr (hblock e he off hoff))).trans h62
  have hsome : ∀ e ∈ ds.freelists.entries, ∃ off, off ∈ e.2 := fun e he =>
    h.noEmpty e.1 e.2 (OrdMap.find?_eq_some_iff.mpr he)
  refine ⟨h.noEmpty, ?_, fun e he => ?_, fun e he off hoff => ?_⟩
  · -- the keys are powers of two that increase
    have hkeys : ds.freelists.entries.map fst ⊆ (range 63).map (2 ^ ·) := by
      intro key hkey
      obtain ⟨e, he, rfl⟩ := mem_map.mp hkey
      obtain ⟨off, hoff⟩ := hsome e he
      obtain ⟨k, hk⟩ := (h.tiles.dyadicF _ (hblock e he off hoff)).1
      have hle := hend e he off hoff
      have hpow : 2 ^ k ≤ 2 ^ 62 := by
        simp only at hk
        omega
      have hk62 : k ≤ 62 := (Nat.pow_le_pow_iff_right (by norm_num)).mp hpow
      exact mem_map.mpr ⟨k, mem_range.mpr (by omega), hk.symm⟩
    have hnodup : (ds.freelists.entries.map fst).Nodup := pairwise_map.mpr (ds.freelists.sorted.imp ne_of_lt)
    have hlen := (hnodup.subperm hkeys).length_le
    simp only [length_map, length_range] at hlen
    omega
  · obtain ⟨off, hoff⟩ := hsome e he
    have := hend e he off hoff
    omega
  · have := hend e he off hoff
    omega

lemma SafeAll.persist (hok : s.Ok m crc32) (hnone : s.NoLists crc32) :
    SafeAll m crc32 (persistEvents crc32 s.ds.freelists stop) s := by
  have hw := writable hok.inv
  generalize hbs : freelistBytes crc32 s.ds.freelists = bs
  have hne : bs ≠ [] := by
    intro hnil
    have := congrArg length (hbs.trans hnil)
    simp [freelistBytes] at this
  have hlen : bs.length = bs.dropLast.length + 1 := by
    have := length_pos_iff.mpr hne
    simp only [length_dropLast]
    omega
  have hwrites : persistWrites crc32 s.ds.freelists = .truncate :: bs.map .byte := by rw [persistWrites, hbs]
  have hinit : (persistWrites crc32 s.ds.freelists).dropLast = .truncate :: bs.dropLast.map .byte := by
    rw [hwrites, dropLast_cons_of_ne_nil (by simpa using hne), map_dropLast]
  -- of all bytes but the last one nothing is read
  have hcut : ∀ j fl, readFreelistFromFile crc32 (bs.dropLast.take j) = some fl → fl = OrdMap.empty := by
    intro j fl h
    rw [dropLast_eq_take, take_take, ← hbs] at h
    exact readFreelistFromFile_take hw (.inr (by rw [hbs]; omega)) h
  unfold persistEvents
  split_ifs with hall
  · cases stop with
    | some n =>
      simp only [hinit]
      exact stopped hok (fun _ => hnone) hcut
    | none =>
      have hlast : (persistWrites crc32 s.ds.freelists).drop ((persistWrites crc32 s.ds.freelists).length - 1) =
          [bs.getLast hne].map FileWrite.byte := by
        rw [hwrites, length_cons, Nat.add_sub_cancel, length_map, hlen, drop_succ_cons, ← map_drop,
          length_dropLast, drop_length_sub_one hne]
      have hfull : ∀ j fl, readFreelistFromFile crc32 (bs.take j) = some fl →
          fl = OrdMap.empty ∨ some s.ds.freelists = some fl := by
        intro j fl h
        by_cases hj : j < bs.length
        · rw [← hbs] at hj h
          exact .inl (readFreelistFromFile_take hw (.inr hj) h)
        · rw [take_of_length_le (not_lt.mp hj), ← hbs, readFreelistFromFile_bytes hw hall] at h
          exact .inr h
      have hevents : (persistWrites crc32 s.ds.freelists).dropLast.map DiskEvent.write ++ .flushing s.ds.freelists ::
          ((persistWrites crc32 s.ds.freelists).drop ((persistWrites crc32 s.ds.freelists).length - 1)).map .write ++
            [.fsync, .clean] =
          .write .truncate :: (bs.dropLast.map (fun b => .write (.byte b)) ++
            [.flushing s.ds.freelists, .write (.byte (bs.getLast hne)), .fsync, .clean]) := by
        rw [hinit, hlast]
        simp
        rfl
      rw [hevents]
      refine truncate hok (fun j fl h => .inl (hcut j fl h)) fun hok1 => ⟨hok1, ?_, ?_⟩
      · refine ⟨hok.inv, hok.large, hok.pow, hok.size, fun fl h => some.inj h, fun k fl h => .inl ?_⟩
        exact read_image (s := { s with pending := _ }) rfl hnone hcut k fl h
      generalize hs2 : exec _ (.write (.byte (bs.getLast hne))) = s2
      have heq2 : s2 = { s with pending := s.pending ++ .truncate :: bs.map .byte, flushed := some s.ds.freelists } := by
        rw [← hs2]
        simp only [exec]
        rw [append_assoc, cons_append, ← map_singleton (f := FileWrite.byte), ← map_append, dropLast_append_getLast hne]
      have heq3 : s2.exec .fsync = { s with durable := bs, pending := [], flushed := some s.ds.freelists } := by
        simp only [heq2, exec, foldl_append, foldl_cons, foldl_bytes, FileWrite.apply, nil_append]
      have hok3 : (s2.exec .fsync).Ok m crc32 := by
        rw [heq3]
        refine ⟨hok.inv, hok.large, hok.pow, hok.size, fun fl h => some.inj h, fun k fl h => ?_⟩
        refine hfull bs.length fl ?_
        simpa [image] using h
      refine ⟨?_, hok3, ?_, fun h => by cases h⟩
      · rw [heq2]
        refine ⟨hok.inv, hok.large, hok.pow, hok.size, fun fl h => some.inj h, ?_⟩
        exact read_image rfl (fun i fl h => .inl (hnone i fl h)) hfull
      · exact ⟨⟨hok3.inv.noEmpty, hok3.inv.tiles, hok3.inv.pow, hok3.inv.largest⟩, hok3.large, hok3.pow, hok3.size,
          hok3.memory, hok3.disk⟩
  · have hcut' : ∀ j fl, readFreelistFromFile crc32 (bs.take j) = some fl → fl = OrdMap.empty := by
      intro j fl h
      rw [← hbs] at h
      exact readFreelistFromFile_take hw (.inl (by simpa using hall)) h
    cases stop with
    | none =>
      have htake := stopped (n := (persistWrites crc32 s.ds.freelists).length) hok (fun _ => hnone) hcut'
      rwa [← hwrites, take_length] at htake
    | some n =>
      simp only [hwrites]
      exact stopped hok (fun _ => hnone) hcut'

lemma grown_spec (hpow : ∃ k, request = 2 ^ k) (hreq : request ≤ 2 ^ 61) (fuel : ℕ) :
    ∀ ds : DataStore, Inv ds live → (ds.largestFreeChunk < request → ds.allocatedSize ≤ 2 ^ 61) →
      (∀ size ∈ grownSizes ftruncate request fuel ds, (∃ k ≤ 62, size = 2 ^ k) ∧ ds.allocatedSize ≤ size) ∧
      ∀ r ds', makeMoreSpace ftruncate request fuel ds = some (r, ds') → ds.allocatedSize ≤ ds'.allocatedSize := by
  induction fuel with
  | zero => exact fun ds h hA => ⟨(fun _ h => by cases h), fun _ _ h => by cases h⟩
  | succ fuel ih =>
    intro ds h hA
    rw [grownSizes, makeMoreSpace]
    by_cases hlt : request > ds.largestFreeChunk
    · have hdouble := doubled_allocatedSize (hA hlt)
      have hinv := h.doubled (hA hlt)
      have hle : ds.allocatedSize ≤ ds.doubled.allocatedSize := by omega
      rw [if_pos hlt, if_pos hlt]
      split_ifs with hft
      · obtain ⟨hsizes, hgrow⟩ := ih ds.doubled hinv fun hlt' => by
          obtain ⟨k, rfl⟩ := hpow
          obtain ⟨l, -, hl⟩ := h.pow
          replace hlt' : ds.allocatedSize < 2 ^ k := hlt'
          rw [hdouble, hl]
          rw [hl] at hlt'
          exact (double_le_of_lt hlt').trans hreq
        refine ⟨fun size hsize => ?_, fun r ds' hok => hle.trans (hgrow r ds' hok)⟩
        rcases mem_cons.mp hsize with rfl | hsize
        · exact ⟨hinv.pow, hle⟩
        · exact ⟨(hsizes size hsize).1, hle.trans (hsizes size hsize).2⟩
      · refine ⟨(fun _ h => by cases h), fun r ds' hok => ?_⟩
        cases hok
        exact hle
    · rw [if_neg hlt, if_neg hlt]
      refine ⟨(fun _ h => by cases h), fun r ds' hok => ?_⟩
      cases hok
      exact le_rfl

lemma SafeAll.grow {sizes : List ℕ} (hok : s.Ok m crc32)
    (hsizes : ∀ size ∈ sizes, (∃ k ≤ 62, size = 2 ^ k) ∧ s.ds.allocatedSize ≤ size)
    (hrest : ∀ size, ({ s with stSize := size } : StoredStore).Ok m crc32 → SafeAll m crc32 rest { s with stSize := size }) :
    SafeAll m crc32 (sizes.map .ftruncate ++ rest) s := by
  induction sizes generalizing s with
  | nil => exact hrest s.stSize hok
  | cons size sizes ih =>
    obtain ⟨hpow, hle⟩ := hsizes size mem_cons_self
    have hok' : ({ s with stSize := size } : StoredStore).Ok m crc32 :=
      ⟨hok.inv, hok.large, hpow, hok.large.trans hle, hok.memory, hok.disk⟩
    exact ⟨hok, ih hok' (fun size' hsize' => hsizes size' (mem_cons_of_mem size hsize')) hrest⟩

lemma SafeAll.memory (hok : s.Ok m crc32) (hnone : s.NoLists crc32) (hinv : Inv ds live)
    (hlarge : m.minAllocSize ≤ ds.allocatedSize) : SafeAll m crc32 [.memory ds live] s :=
  ⟨hok, ⟨hinv, hlarge, hok.pow, hok.size, nofun, fun k fl h => .inl (hnone k fl h)⟩, fun _ => hnone⟩

lemma SafeAll.invalidateThen (hok : s.Ok m crc32) (hidle : s.Idle crc32)
    (hrest : ∀ s' : StoredStore, s'.ds = s.ds → s'.Ok m crc32 → s'.NoLists crc32 → SafeAll m crc32 rest s') :
    SafeAll m crc32 (invalidateThen s.ds stop rest) s := by
  unfold Util.invalidateThen
  split_ifs with hdirty
  · exact hrest s rfl hok (hidle hdirty)
  · cases stop with
    | none => exact invalidate hok fun hok' hnone => hrest _ rfl hok' hnone
    | some n =>
      have hwrites : invalidateWrites.dropLast = .truncate :: (encodeLE 8 0).dropLast.map .byte := rfl
      rw [hwrites]
      refine stopped hok hidle fun j fl h => ?_
      rw [dropLast_eq_take, take_take] at h
      exact read_none h

lemma allocatedSize_takeFromFreelist (h : takeFromFreelist request ds = some (r, ds')) :
    ds'.allocatedSize = ds.allocatedSize := by
  obtain ⟨x, -, hx⟩ := map_eq_some_iff.mp h
  cases hx
  rfl

lemma allocatedSize_freeChunk {off allocated : ℕ} (h : freeChunk ds off allocated = some ds') :
    ds'.allocatedSize = ds.allocatedSize := by
  obtain ⟨fl, -, rfl⟩ := map_eq_some_iff.mp h
  rfl

lemma allocatedSize_allocateSpace {requestedSize : ℕ} (h : Inv ds live) (hfit : Fits m ds requestedSize)
    (hok : allocateSpace m ftruncate ds requestedSize = some (r, ds')) : ds.allocatedSize ≤ ds'.allocatedSize ∧
      ∀ size ∈ grownSizes ftruncate (requiredSize m requestedSize) (maxDoublings + 2) ds,
        (∃ k ≤ 62, size = 2 ^ k) ∧ ds.allocatedSize ≤ size := by
  have hneeded : neededSize m requestedSize ≤ 2 ^ 62 := by
    have := h.largest_le
    have := h.allocated_le
    rcases hfit with hfit | hfit <;> omega
  have hreq : requiredSize m requestedSize = neededSize m requestedSize := requiredSize_eq (by omega)
  simp only [allocateSpace, hreq] at hok
  rw [hreq]
  split_ifs at hok with hgrow
  · have hfit' := hfit.resolve_left (not_le.mpr hgrow)
    obtain ⟨hsizes, -⟩ := @grown_spec live ftruncate _ ⟨_, rfl⟩ hfit'.1 (maxDoublings + 2) ds h fun _ => hfit'.2
    obtain ⟨-, hmore⟩ := @grown_spec live ftruncate _ ⟨_, rfl⟩ hfit'.1 (maxDoublings + 2) _
      h.invalidateFreelistFile fun _ => hfit'.2
    refine ⟨?_, hsizes⟩
    cases hspace : makeMoreSpace ftruncate (neededSize m requestedSize) (maxDoublings + 2) ds.invalidateFreelistFile with
    | none => simp [hspace] at hok
    | some res =>
      obtain ⟨e | ⟨⟩, ds1⟩ := res
      · simp only [hspace, some.injEq, Prod.mk.injEq] at hok
        rw [← hok.2]
        exact hmore _ _ hspace
      · simp only [hspace] at hok
        rw [allocatedSize_takeFromFreelist hok]
        exact hmore _ _ hspace
  · refine ⟨(allocatedSize_takeFromFreelist hok).ge, ?_⟩
    have hstop : grownSizes ftruncate (neededSize m requestedSize) (maxDoublings + 2) ds = [] := by
      have hgrow : ¬ neededSize m requestedSize > ds.largestFreeChunk := hgrow
      rw [grownSizes, if_neg hgrow]
    rw [hstop]
    intro _ h
    cases h

lemma SafeAll.call {c : StoreCall} (hok : s.Ok m crc32) (hidle : s.Idle crc32)
    (hproper : ∀ requestedSize ftruncate stop, c = .allocate requestedSize ftruncate stop → Fits m s.ds requestedSize)
    (hfree : ∀ b stop, c = .free b stop → b ∈ s.live) (hes : c.events m crc32 s = some es) : SafeAll m crc32 es s := by
  cases c with
  | allocate requestedSize ftruncate stop =>
    have hfit := hproper requestedSize ftruncate stop rfl
    obtain ⟨⟨r, ds'⟩, halloc, rfl⟩ := map_eq_some_iff.mp hes
    obtain ⟨hle, hsizes⟩ := allocatedSize_allocateSpace hok.inv hfit halloc
    have hinv : Inv ds' (givenOut s.live r) := by
      rcases @allocateSpace_spec m ftruncate _ _ _ hok.inv hfit with ⟨ds'', he, hinv⟩ | ⟨off, ds'', he, hinv, -⟩
      · rw [halloc] at he
        cases he
        exact hinv
      · rw [halloc] at he
        cases he
        exact hinv
    refine invalidateThen hok hidle fun s' hds hok' hnone => ?_
    refine grow hok' (by rwa [hds]) fun size hok'' => ?_
    exact memory hok'' hnone hinv (hok.large.trans hle)
  | free b stop =>
    obtain ⟨ds', hfreed, rfl⟩ := map_eq_some_iff.mp hes
    obtain ⟨ds'', hfreed', hinv⟩ := freeChunk_spec hok.inv (hfree b stop rfl)
    obtain rfl : ds' = ds'' := some.inj (hfreed.symm.trans hfreed')
    refine invalidateThen hok hidle fun s' hds hok' hnone => ?_
    exact memory hok' hnone hinv (hok.large.trans (allocatedSize_freeChunk hfreed).ge)
  | flush stop =>
    cases hes
    split_ifs with hdirty
    · exact persist hok (hidle hdirty)
    · exact ⟨hok, hidle⟩

lemma SafeAll.ok (h : SafeAll m crc32 es s) : s.Ok m crc32 := by
  cases es with
  | nil => exact h.1
  | cons e es => exact h.1

end StoredStore

namespace RunningStore

variable {m : DataStores} {crc32 : List UInt8 → UInt32} {w : RunningStore}

/-- What callers may do. -/
def Proper (m : DataStores) (w : RunningStore) : StoreAction → Prop
  | .call (.allocate requestedSize _ _) => Fits m w.store.ds requestedSize
  | .call (.free b _) => b ∈ w.store.live
  | .call (.flush _) | .next => True

lemma safe_start : StoredStore.SafeAll m crc32 (start m).todo (start m).store := by
  have hinv := inv_fresh m
  have hlarge : m.minAllocSize ≤ (fresh m).allocatedSize := by
    rw [fresh_eq]
    exact Nat.le_pow_clog (by norm_num) _
  refine ⟨⟨hinv, hlarge, hinv.pow, hlarge, nofun, fun k fl h => .inl ?_⟩, fun hdirty => ?_⟩
  · simpa [start, StoredStore.image, readFreelistFromFile] using h.symm
  · simp [start, fresh_eq] at hdirty

/-- **A store that is opened after a crash finds no free lists, or those of the last flush that are still in memory.** It can be
opened, unless a part of the number of buckets is all there is. -/
theorem reopened_freelists (h : Reaches (step m crc32) (Proper m) (start m) w) (k : ℕ) :
    (∀ ds, w.store.reopen m crc32 k = some ds →
      (ds.freelists = OrdMap.empty ∨ w.store.flushed = some ds.freelists ∧ ds.freelists = w.store.ds.freelists) ∧
      ∀ b ∈ w.store.live, ∀ f ∈ freeBlocks ds.freelists, ∀ x, x ∈ b → x ∉ f) ∧
    (w.store.reopen m crc32 k = none → 0 < (w.store.image k).length ∧ (w.store.image k).length < 8) := by
  have hsafe : StoredStore.SafeAll m crc32 w.todo w.store := by
    refine h.invariant (I := fun w => StoredStore.SafeAll m crc32 w.todo w.store) safe_start fun w w' a hw hproper hstep => ?_
    cases a with
    | call c =>
      simp only [step] at hstep
      split_ifs at hstep with hidle
      obtain ⟨es, hes, rfl⟩ := map_eq_some_iff.mp hstep
      rw [isEmpty_iff.mp hidle] at hw
      refine StoredStore.SafeAll.call hw.1 hw.2 ?_ ?_ hes
      · rintro requestedSize ftruncate stop rfl
        exact hproper
      · rintro b stop rfl
        exact hproper
    | next =>
      obtain ⟨s, todo⟩ := w
      cases todo with
      | nil => simp [step] at hstep
      | cons e es =>
        cases hstep
        exact hw.2
  have hok := hsafe.ok
  obtain ⟨e, he, hsize⟩ := hok.pow
  have hround : roundUpPowerOf2 w.store.stSize = w.store.stSize := by
    have h62 : 2 ^ e ≤ 2 ^ 62 := Nat.pow_le_pow_right (by norm_num) he
    rw [hsize, roundUpPowerOf2_eq Nat.one_le_two_pow (by omega), Nat.clog_pow 2 e (by norm_num)]
  have hopen : ∀ saved, (initializeFreelist m w.store.stSize saved).freelists = saved := by
    intro saved
    simp only [initializeFreelist, hround, if_neg (not_lt.mpr hok.size)]
    rfl
  refine ⟨fun ds hds => ?_, fun hnone => ?_⟩
  · obtain ⟨fl, hread, rfl⟩ := map_eq_some_iff.mp hds
    rw [hopen]
    rcases hok.disk k fl hread with rfl | hflushed
    · refine ⟨.inl rfl, fun b _ f hf => ?_⟩
      simp [freeBlocks] at hf
    · have hmem := hok.memory fl hflushed
      refine ⟨.inr ⟨hflushed, hmem.symm⟩, fun b hb f hf x hxb hxf => ?_⟩
      exact hok.inv.tiles.separate hb (hmem ▸ hf) hxb hxf
  · have hread := map_eq_none_iff.mp hnone
    rw [readFreelistFromFile] at hread
    split_ifs at hread with hnil
    have hshort := map_eq_none_iff.mp hread
    rw [readAll] at hshort
    split_ifs at hshort with h8
    exact ⟨length_pos_iff.mpr hnil, not_le.mp h8⟩

def flushedRun : List StoreAction :=
  .call (.allocate 600 anyFile none) :: List.replicate 13 .next ++ .call (.flush none) :: List.replicate 56 .next

lemma fits_flushedRun : Fits .default (start .default).store.ds 600 := by
  right
  constructor
  · apply Nat.pow_le_pow_right (by norm_num)
    apply (Nat.clog_le_iff_le_pow (by norm_num)).mpr
    decide
  · decide

theorem flushedRun_reopened : ∃ w ds, runActions (step .default fun _ => 0) (start .default) flushedRun = some w ∧
      w.store.reopen .default (fun _ => 0) 0 = some ds ∧ freeBlocks ds.freelists = {⟨0, 512⟩, ⟨512, 512⟩} ∧
      (ds.freelists = OrdMap.empty ∨ w.store.flushed = some ds.freelists ∧ ds.freelists = w.store.ds.freelists) ∧
      ∀ b ∈ w.store.live, ∀ f ∈ freeBlocks ds.freelists, ∀ x, x ∈ b → x ∉ f := by
  have hrun : ((runActions (step .default fun _ => 0) (start .default) flushedRun).bind fun w =>
      (w.store.reopen .default (fun _ => 0) 0).map fun ds =>
        decide (freeBlocks ds.freelists = {⟨0, 512⟩, ⟨512, 512⟩})) = some true := by
    decide +kernel
  obtain ⟨w, hw, hds⟩ := bind_eq_some_iff.mp hrun
  obtain ⟨ds, hds, hblocks⟩ := map_eq_some_iff.mp hds
  refine ⟨w, ds, hw, hds, of_decide_eq_true hblocks, (reopened_freelists ?_ 0).1 ds hds⟩
  obtain ⟨w₁, hw₁, hrest⟩ := bind_eq_some_iff.mp hw
  have hreach₁ : Reaches (step .default fun _ => 0) (Proper .default) (start .default) w₁ :=
    (Reaches.start).step (a := .call (.allocate 600 anyFile none)) fits_flushedRun hw₁
  refine hreach₁.run (fun a ha w => ?_) hrest
  have ha : a ∈ replicate 13 StoreAction.next ++ .call (.flush none) :: replicate 56 .next := ha
  simp only [mem_append, mem_replicate, mem_cons] at ha
  rcases ha with ⟨-, rfl⟩ | rfl | ⟨-, rfl⟩ <;> trivial

/-- A block is given out. Then the file is to grow beyond what the file system can have, twice. -/
def wrappedRun : List StoreAction :=
  .call (.allocate 100 anyFile none) :: List.replicate 11 .next ++
    .call (.allocate (2 ^ 62) anyFile none) :: List.replicate 54 .next ++
    .call (.allocate (2 ^ 62) anyFile none) :: List.replicate 2 .next

/-- The data file is cut to size zero, and its first block is free for a store that is opened then. -/
theorem wrappedRun_overlaps : ∃ w ds, runActions (step .default fun _ => 0) (start .default) wrappedRun = some w ∧
      w.store.reopen .default (fun _ => 0) 0 = some ds ∧
      (⟨0, 512⟩ : Block) ∈ w.store.live ∧ (⟨0, 512⟩ : Block) ∈ freeBlocks ds.freelists := by
  have hrun : ((runActions (step .default fun _ => 0) (start .default) wrappedRun).bind fun w =>
      (w.store.reopen .default (fun _ => 0) 0).map fun ds =>
        decide ((⟨0, 512⟩ : Block) ∈ w.store.live ∧ (⟨0, 512⟩ : Block) ∈ freeBlocks ds.freelists)) = some true := by
    decide +kernel
  obtain ⟨w, hw, hds⟩ := bind_eq_some_iff.mp hrun
  obtain ⟨ds, hds, hblocks⟩ := map_eq_some_iff.mp hds
  exact ⟨w, ds, hw, hds, of_decide_eq_true hblocks⟩

end RunningStore

end SciDB.Util
