import SciDB.Lib.Runs
import SciDB.Lib.Sums
import SciDB.Util.DataFile

/-!
# The cache of the arrays in memory

`SharedMemCache` and its chunks (`LruMemChunk`); one that is not pinned may be swapped out. The list of these starts with the
next victim. An unsigned subtraction that would wrap around is an error. Left out: the locks, as a call is one step.
-/

namespace SciDB.Array

open SciDB.Lib SciDB.Util List Function Option

/-- An `LruMemChunk`. -/
structure LruMemChunk where
  data : Option (List UInt8)
  dirty : Bool
  size : ℕ
  dsOffset : Option ℕ
  dsAlloc : ℕ
  accessCount : ℕ
  sizeAtLastUnPin : ℕ

/-- A new chunk. -/
def LruMemChunk.init : LruMemChunk := ⟨none, false, 0, none, 0, 0, 0⟩

/-- What a chunk counts. -/
def LruMemChunk.accounted (c : LruMemChunk) : ℕ := if c.data.isSome then c.sizeAtLastUnPin else 0

/-- The largest buffer. -/
def maxBuffer : ℕ := 2 ^ 62

/-- A data store and its file. -/
structure StoreFile where
  ds : DataStore
  file : FileBytes

/-- Why a call does not return. -/
inductive CacheError where
  | wraps
  | store
  | noMemory
  deriving DecidableEq

/-- Unsigned subtraction. -/
def sub (a b : ℕ) : Except CacheError ℕ := if b ≤ a then .ok (a - b) else .error .wraps

def blockOf : Option (Except DataStoreError (ℕ × ℕ) × DataStore) → Except CacheError (Block × DataStore)
  | some (.ok (off, alloc), ds) => .ok (⟨off, alloc⟩, ds)
  | _ => .error .store

/-- What `freeChunk` returns. -/
def freedOf : Option DataStore → Except CacheError DataStore
  | some ds => .ok ds
  | none => .error .store

/-- The block of a dirty chunk. -/
def LruMemChunk.slot (m : DataStores) (ftruncate : ℕ → Bool) (c : LruMemChunk) (ds : DataStore) :
    Except CacheError (Block × DataStore) :=
  match c.dsOffset with
  | some off =>
    if wsub c.dsAlloc sizeofDiskChunkHeader < c.size then
      (freedOf (ds.freeChunk off c.dsAlloc)).bind fun ds => blockOf (ds.allocateSpace m ftruncate c.size)
    else .ok (⟨off, c.dsAlloc⟩, ds)
  | none => blockOf (ds.allocateSpace m ftruncate c.size)

structure SharedMemCache (K A : Type) where
  usedMemSize : ℕ
  usedMemThreshold : ℕ
  theLru : List K
  live : List K
  chunk : K → LruMemChunk
  store : A → Option StoreFile

namespace SharedMemCache

variable {K A : Type} [DecidableEq K] [DecidableEq A] (m : DataStores) (arrayOf : K → A) (ftruncate : ℕ → Bool)

/-- An empty cache. -/
def start (threshold : ℕ) : SharedMemCache K A := ⟨0, threshold, [], [], fun _ => .init, fun _ => none⟩

variable (k : K)

/-- Change a chunk. -/
def setChunk (c : LruMemChunk) (s : SharedMemCache K A) : SharedMemCache K A :=
  { s with chunk := Function.update s.chunk k c }

/-- The data store of an array. -/
def storeOf (a : A) (s : SharedMemCache K A) : StoreFile := (s.store a).getD ⟨fresh m, fun _ => 0⟩

variable (s : SharedMemCache K A)

/-- Writes a dirty chunk. -/
def writeOut : Except CacheError (SharedMemCache K A) :=
  ((s.chunk k).slot m ftruncate (s.storeOf m (arrayOf k)).ds).map fun r =>
    { s with
      chunk := Function.update s.chunk k { s.chunk k with dsOffset := some r.1.off, dsAlloc := r.1.size, dirty := true }
      store := Function.update s.store (arrayOf k)
        (some ⟨r.2, writeData (s.storeOf m (arrayOf k)).file r.1.off ((s.chunk k).data.getD []) r.1.size⟩) }

/-- What happens to a victim. -/
def evict : Except CacheError (SharedMemCache K A) :=
  (sub s.usedMemSize (s.chunk k).size).bind fun used =>
    (if (s.chunk k).dirty then writeOut m arrayOf ftruncate k s else .ok s).map fun s =>
      { s.setChunk k { s.chunk k with data := none } with usedMemSize := used }

/-- The loop of `swapOut`. -/
def swapOutLoop : List K → SharedMemCache K A → Except CacheError (SharedMemCache K A)
  | [], s => .ok { s with theLru := [] }
  | k :: lru, s =>
    if s.usedMemThreshold < s.usedMemSize then (evict m arrayOf ftruncate k s).bind (swapOutLoop lru)
    else .ok { s with theLru := k :: lru }

def swapOut : Except CacheError (SharedMemCache K A) :=
  swapOutLoop m arrayOf ftruncate s.theLru s

def swapOutIfOver : Except CacheError (SharedMemCache K A) :=
  if s.usedMemThreshold < s.usedMemSize then swapOut m arrayOf ftruncate s else .ok s

/-- Reads a chunk back. -/
def load : Except CacheError (SharedMemCache K A) :=
  if (s.chunk k).size ≤ maxBuffer then
    match s.store (arrayOf k), (s.chunk k).dsOffset with
    | some st, some off =>
      match readData st.file off (s.chunk k).size with
      | none => .error .store
      | some bs => .ok
        { s.setChunk k { s.chunk k with data := some bs, dirty := false } with
          usedMemSize := s.usedMemSize + (s.chunk k).size }
    | _, _ => .error .store
  else .error .noMemory

/-- The first pin. -/
def firstPin : SharedMemCache K A :=
  s.setChunk k { s.chunk k with accessCount := 1, sizeAtLastUnPin := (s.chunk k).size }

def loadIfAny : Except CacheError (SharedMemCache K A) :=
  if (s.chunk k).size = 0 then .ok s else s.load arrayOf k

def pinChunk : Except CacheError (SharedMemCache K A) :=
  if (s.chunk k).accessCount = 0 then
    if (s.chunk k).data = none then
      (swapOutIfOver m arrayOf ftruncate (s.firstPin k)).bind fun s => s.loadIfAny arrayOf k
    else .ok { s.firstPin k with theLru := s.theLru.erase k }
  else .ok (s.setChunk k { s.chunk k with accessCount := (s.chunk k).accessCount + 1 })

/-- The last unpin. -/
def lastUnpin (used : ℕ) (s : SharedMemCache K A) : SharedMemCache K A :=
  { s.setChunk k { s.chunk k with accessCount := 0, sizeAtLastUnPin := (s.chunk k).size } with
    usedMemSize := used + (s.chunk k).size
    theLru := s.theLru ++ [k] }

def unpinChunk : Except CacheError (SharedMemCache K A) :=
  if (s.chunk k).accessCount = 1 then
    (sub s.usedMemSize (s.chunk k).sizeAtLastUnPin).bind fun used =>
      if (s.chunk k).data = none then
        .ok { s.setChunk k { s.chunk k with accessCount := 0, sizeAtLastUnPin := 0 } with usedMemSize := used }
      else swapOutIfOver m arrayOf ftruncate (s.lastUnpin k used)
  else .ok (s.setChunk k { s.chunk k with accessCount := (s.chunk k).accessCount - 1 })

def reallocate (bs : List UInt8) (s : SharedMemCache K A) : Except CacheError (SharedMemCache K A) :=
  if bs.length ≤ maxBuffer then .ok (s.setChunk k { s.chunk k with data := some bs, size := bs.length })
  else .error .noMemory

/-- Writes to a pinned chunk. -/
def write (bs : List UInt8) (s : SharedMemCache K A) : Except CacheError (SharedMemCache K A) :=
  (s.reallocate k bs).map fun s => s.setChunk k { s.chunk k with dirty := true }

def deleteChunk : SharedMemCache K A :=
  { s with theLru := s.theLru.erase k, live := s.live.erase k }

/-- The loop of `cleanupArray`. -/
def cleanupLoop : List K → SharedMemCache K A → Except CacheError (SharedMemCache K A)
  | [], s => .ok s
  | k :: ks, s =>
    (if (s.chunk k).data.isSome then sub s.usedMemSize (s.chunk k).sizeAtLastUnPin else .ok s.usedMemSize).bind fun used =>
      cleanupLoop ks { s with usedMemSize := used, theLru := s.theLru.erase k, live := s.live.erase k }

def cleanupArray (a : A) (s : SharedMemCache K A) : Except CacheError (SharedMemCache K A) :=
  (cleanupLoop (s.live.filter fun k => arrayOf k = a) s).map fun s =>
    { s with store := Function.update s.store a none }

end SharedMemCache

/-- A call. -/
inductive CacheAction (K A : Type) where
  | newChunk (k : K)
  | pin (k : K) (ftruncate : ℕ → Bool)
  | pinNoMemory (k : K) (ftruncate : ℕ → Bool)
  | unpin (k : K) (ftruncate : ℕ → Bool)
  | swapOut (ftruncate : ℕ → Bool)
  | resize (k : K) (bs : List UInt8)
  | write (k : K) (bs : List UInt8)
  | delete (k : K)
  | cleanup (a : A)

namespace SharedMemCache

variable {K A : Type} [DecidableEq K] [DecidableEq A] (m : DataStores) (arrayOf : K → A)

/-- When a call may be made. -/
def Allowed (s : SharedMemCache K A) : CacheAction K A → Prop
  | .newChunk k => k ∉ s.live
  | .pin k _ | .delete k => k ∈ s.live
  | .pinNoMemory k _ =>
    k ∈ s.live ∧ (s.chunk k).accessCount = 0 ∧ (s.chunk k).data.isNone ∧ (s.chunk k).size ≠ 0
  | .unpin k _ => k ∈ s.live ∧ 0 < (s.chunk k).accessCount
  | .resize k bs | .write k bs => k ∈ s.live ∧ 0 < (s.chunk k).accessCount ∧ 0 < bs.length
  | .swapOut _ | .cleanup _ => True

instance (s : SharedMemCache K A) : DecidablePred s.Allowed
  | .newChunk _ => inferInstanceAs (Decidable (_ ∉ _))
  | .pin _ _ | .delete _ => inferInstanceAs (Decidable (_ ∈ _))
  | .pinNoMemory _ _ | .unpin _ _ => inferInstanceAs (Decidable (_ ∧ _))
  | .resize _ _ | .write _ _ => inferInstanceAs (Decidable (_ ∧ _))
  | .swapOut _ | .cleanup _ => inferInstanceAs (Decidable True)

/-- A call. -/
def call (s : SharedMemCache K A) : CacheAction K A → Except CacheError (SharedMemCache K A)
  | .newChunk k => .ok { s.setChunk k .init with live := k :: s.live }
  | .pin k ftruncate => s.pinChunk m arrayOf ftruncate k
  | .pinNoMemory k ftruncate => swapOutIfOver m arrayOf ftruncate (s.firstPin k)
  | .unpin k ftruncate => s.unpinChunk m arrayOf ftruncate k
  | .swapOut ftruncate => s.swapOut m arrayOf ftruncate
  | .resize k bs => s.reallocate k bs
  | .write k bs => s.write k bs
  | .delete k => .ok (s.deleteChunk k)
  | .cleanup a => s.cleanupArray arrayOf a

/-- A call that returns. -/
def step (s : SharedMemCache K A) (a : CacheAction K A) : Option (SharedMemCache K A) :=
  if s.Allowed a then (s.call m arrayOf a).toOption else none

/-- The call returns. -/
def Returns (s : SharedMemCache K A) (a : CacheAction K A) : Prop := ∃ s', s.call m arrayOf a = .ok s'

end SharedMemCache

/-- The data store that `allocateSpace` leaves when it throws. -/
def thrownOf : Option (Except DataStoreError (ℕ × ℕ) × DataStore) → Option DataStore
  | some (.error _, ds) => some ds
  | _ => none

/-- The data store that a chunk leaves when `allocateSpace` throws; a block that was too small has been freed by then. -/
def LruMemChunk.slotThrown (m : DataStores) (ftruncate : ℕ → Bool) (c : LruMemChunk) (ds : DataStore) : Option DataStore :=
  match c.dsOffset with
  | some off =>
    if wsub c.dsAlloc sizeofDiskChunkHeader < c.size then
      (ds.freeChunk off c.dsAlloc).bind fun ds => thrownOf (ds.allocateSpace m ftruncate c.size)
    else none
  | none => thrownOf (ds.allocateSpace m ftruncate c.size)

namespace SharedMemCache

variable {K A : Type} [DecidableEq K] [DecidableEq A] (m : DataStores) (arrayOf : K → A) (ftruncate : ℕ → Bool)

/-- What `swapOut` leaves when `allocateSpace` throws: the victim is not on the list and does not count any more, but has its
bytes and its old offset. -/
def evictThrown (k : K) (s : SharedMemCache K A) : Option (SharedMemCache K A) :=
  ((s.chunk k).slotThrown m ftruncate (s.storeOf m (arrayOf k)).ds).map fun ds =>
    { s with
      usedMemSize := s.usedMemSize - (s.chunk k).size
      store := Function.update s.store (arrayOf k) (some ⟨ds, (s.storeOf m (arrayOf k)).file⟩) }

/-- `swapOut` that throws. -/
def swapOutThrown : List K → SharedMemCache K A → Option (SharedMemCache K A)
  | [], _ => none
  | k :: lru, s =>
    if s.usedMemThreshold < s.usedMemSize then
      match evict m arrayOf ftruncate k s with
      | .ok s => swapOutThrown lru s
      | .error _ => (evictThrown m arrayOf ftruncate k s).map fun s => { s with theLru := lru }
    else none

/-- What a call leaves that throws because the file of a data store cannot grow. A chunk that was to be pinned is pinned then,
without a buffer. -/
def thrown (s : SharedMemCache K A) : CacheAction K A → Option (SharedMemCache K A)
  | .pin k ftruncate | .pinNoMemory k ftruncate => swapOutThrown m arrayOf ftruncate s.theLru (s.firstPin k)
  | .unpin k ftruncate =>
    let s' := s.lastUnpin k (s.usedMemSize - (s.chunk k).sizeAtLastUnPin)
    swapOutThrown m arrayOf ftruncate s'.theLru s'
  | .swapOut ftruncate => swapOutThrown m arrayOf ftruncate s.theLru s
  | _ => none

/-- A call that returns, or throws in `allocateSpace`. -/
def stepOrThrow (s : SharedMemCache K A) (a : CacheAction K A) : Option (SharedMemCache K A) :=
  if s.Allowed a then
    match s.call m arrayOf a with
    | .ok s' => some s'
    | .error .store => s.thrown m arrayOf a
    | .error _ => none
  else none

end SharedMemCache

/-- A call that returns a state with a property, or fails otherwise than by a subtraction. -/
def Fine {α : Type} (P : α → Prop) : Except CacheError α → Prop
  | .ok x => P x
  | .error e => e ≠ .wraps

namespace Fine

variable {α β : Type} {P Q : α → Prop} {R : β → Prop} {r : Except CacheError α}

lemma imp (h : Fine P r) (hPQ : ∀ x, P x → Q x) : Fine Q r := by
  cases r with
  | ok x => exact hPQ x h
  | error e => exact h

lemma of_ok {x : α} (h : Fine P r) (hr : r = .ok x) : P x := by
  rwa [hr] at h

lemma bind {f : α → Except CacheError β} (h : Fine P r) (hf : ∀ x, P x → Fine R (f x)) : Fine R (r.bind f) := by
  cases r with
  | ok x => exact hf x h
  | error e => exact h

lemma map {f : α → β} (h : Fine P r) (hf : ∀ x, P x → R (f x)) : Fine R (r.map f) := by
  cases r with
  | ok x => exact hf x h
  | error e => exact h

end Fine

lemma fine_sub {a b : ℕ} (h : b ≤ a) : Fine (fun x => x + b = a) (sub a b) := by
  rw [sub, if_pos h]
  exact Nat.sub_add_cancel h

namespace SharedMemCache

variable {K A : Type} [DecidableEq K] [DecidableEq A] {m : DataStores} {arrayOf : K → A} {ftruncate : ℕ → Bool}
  {s s' : SharedMemCache K A} {lru lru' : List K} {k : K} {bs : List UInt8} {c : LruMemChunk} {a : CacheAction K A}

/-- The memory that chunks take. -/
def memInUse (s : SharedMemCache K A) : ℕ := (s.live.map fun k => (s.chunk k).accounted).sum

/-- The accounting is right, and the chunks in `lru` are those that may be swapped out. -/
structure Accounted (lru : List K) (s : SharedMemCache K A) : Prop where
  nodup : s.live.Nodup
  used : s.usedMemSize = s.memInUse
  lru_nodup : lru.Nodup
  mem_lru : ∀ k, k ∈ lru ↔ k ∈ s.live ∧ (s.chunk k).data.isSome ∧ (s.chunk k).accessCount = 0
  size_eq : ∀ k ∈ lru, (s.chunk k).size = (s.chunk k).sizeAtLastUnPin

/-- A chunk that is pinned and has no buffer yet had none when it was pinned. -/
def Settled (s : SharedMemCache K A) : Prop :=
  ∀ k ∈ s.live, (s.chunk k).data = none → 0 < (s.chunk k).accessCount → (s.chunk k).sizeAtLastUnPin = 0

omit [DecidableEq A] in
lemma Accounted.update (h : s.Accounted lru) (hk : k ∈ s.live) (hlive : s'.live = s.live)
    (hchunk : s'.chunk = Function.update s.chunk k c)
    (hused : s'.usedMemSize + (s.chunk k).accounted = s.usedMemSize + c.accounted) (hnodup : lru'.Nodup)
    (hmem : ∀ j, j ∈ lru' ↔ j ≠ k ∧ j ∈ lru ∨ j = k ∧ c.data.isSome ∧ c.accessCount = 0)
    (hsize : c.data.isSome → c.accessCount = 0 → c.size = c.sizeAtLastUnPin) : s'.Accounted lru' where
  nodup := hlive ▸ h.nodup
  used := by
    have hsum := @sum_map_exchange K ℕ _ _ s.live k h.nodup hk (fun j => (s'.chunk j).accounted)
      (fun j => (s.chunk j).accounted) fun j hj => by simp [hchunk, hj]
    have hold := h.used
    simp only [memInUse, hchunk, hlive, update_self] at hsum hold ⊢
    omega
  lru_nodup := hnodup
  mem_lru := by
    intro j
    rw [hmem, hlive, hchunk]
    by_cases hj : j = k
    · subst hj
      simp [hk]
    · simp [hj, h.mem_lru j]
  size_eq := by
    intro j hj
    rw [hchunk]
    rcases (hmem j).mp hj with ⟨hne, hj⟩ | ⟨rfl, hdata, hcount⟩
    · simpa [hne] using h.size_eq j hj
    · simpa using hsize hdata hcount

omit [DecidableEq K] [DecidableEq A] in
lemma Accounted.accounted_le (h : s.Accounted lru) (hk : k ∈ s.live) : (s.chunk k).accounted ≤ s.usedMemSize := by
  rw [h.used, memInUse]
  exact le_sum_of_mem (mem_map_of_mem hk)

open LruMemChunk

lemma fine_writeOut (s : SharedMemCache K A) (k : K) :
    Fine (fun s' => s'.live = s.live ∧ s'.usedMemThreshold = s.usedMemThreshold ∧ s'.usedMemSize = s.usedMemSize ∧
      ∃ off alloc, s'.chunk = Function.update s.chunk k
        { s.chunk k with dsOffset := some off, dsAlloc := alloc, dirty := true }) (s.writeOut m arrayOf ftruncate k) := by
  have hblock : ∀ r, Fine (fun _ => True) (blockOf r) := by
    intro r
    rw [blockOf.eq_def]
    split <;> simp [Fine]
  have hfreed : ∀ r, Fine (fun _ => True) (freedOf r) := by
    intro r
    rw [freedOf.eq_def]
    split <;> simp [Fine]
  have hslot : Fine (fun _ => True) ((s.chunk k).slot m ftruncate (s.storeOf m (arrayOf k)).ds) := by
    rw [slot]
    split
    · split_ifs
      · exact (hfreed _).bind fun _ _ => hblock _
      · trivial
    · exact hblock _
  exact hslot.map fun r _ => ⟨rfl, rfl, rfl, r.1.off, r.1.size, rfl⟩

lemma Accounted.evict (h : s.Accounted (k :: lru)) :
    Fine (fun s' => s'.Accounted lru ∧ s'.live = s.live ∧ (∀ j, j ≠ k → s'.chunk j = s.chunk j) ∧
      (s'.chunk k).accessCount = (s.chunk k).accessCount) (s.evict m arrayOf ftruncate k) := by
  obtain ⟨hk, hdata, hcount⟩ := (h.mem_lru k).mp mem_cons_self
  have hsize := h.size_eq k mem_cons_self
  have hacc : (s.chunk k).accounted = (s.chunk k).size := by rw [accounted, if_pos hdata, hsize]
  obtain ⟨hnotMem, hnodup⟩ := nodup_cons.mp h.lru_nodup
  have hle : (s.chunk k).size ≤ s.usedMemSize := hacc ▸ h.accounted_le hk
  refine (fine_sub hle).bind fun used hused => ?_
  have hwrite : Fine (fun s' => s'.live = s.live ∧
      ∃ c, s'.chunk = Function.update s.chunk k c ∧ c.accessCount = 0)
      (if (s.chunk k).dirty then s.writeOut m arrayOf ftruncate k else .ok s) := by
    split_ifs
    · refine (fine_writeOut s k).imp fun s' hs' => ?_
      obtain ⟨hlive, -, -, off, alloc, hchunk⟩ := hs'
      exact ⟨hlive, _, hchunk, hcount⟩
    · exact ⟨rfl, s.chunk k, (update_eq_self k s.chunk).symm, hcount⟩
  refine hwrite.map fun s' hs' => ?_
  obtain ⟨hlive, c, hchunk, hc⟩ := hs'
  refine ⟨?_, hlive, fun j hj => by simp [setChunk, hchunk, hj], by simp [setChunk, hchunk, hc, hcount]⟩
  refine h.update hk (c := { c with data := none }) hlive ?_ ?_ hnodup ?_ nofun
  · simp [setChunk, hchunk]
  · rw [hacc]
    simpa [setChunk, accounted] using hused
  · intro j
    simp only [mem_cons]
    constructor
    · intro hj
      have hne : j ≠ k := by
        rintro rfl
        exact hnotMem hj
      exact .inl ⟨hne, .inr hj⟩
    · rintro (⟨hne, hj⟩ | ⟨-, hj, -⟩)
      · exact hj.resolve_left hne
      · cases hj

lemma Accounted.swapOutLoop (h : s.Accounted lru) :
    Fine (fun s' => s'.Accounted s'.theLru ∧ s'.live = s.live ∧ (∀ j, j ∉ lru → s'.chunk j = s.chunk j) ∧
      ∀ j, (s'.chunk j).accessCount = (s.chunk j).accessCount) (swapOutLoop m arrayOf ftruncate lru s) := by
  induction lru generalizing s with
  | nil => exact ⟨⟨h.nodup, h.used, h.lru_nodup, h.mem_lru, h.size_eq⟩, rfl, fun _ _ => rfl, fun _ => rfl⟩
  | cons k lru ih =>
    rw [SharedMemCache.swapOutLoop]
    split_ifs with hover
    · refine h.evict.bind fun s1 hs1 => ?_
      obtain ⟨hs1, hlive1, hother1, hcount1⟩ := hs1
      refine (ih hs1).imp fun s' hs' => ?_
      obtain ⟨hs', hlive, hother, hcount⟩ := hs'
      refine ⟨hs', hlive.trans hlive1, fun j hj => ?_, fun j => ?_⟩
      · rw [mem_cons, not_or] at hj
        rw [hother j hj.2, hother1 j hj.1]
      · rw [hcount j]
        by_cases hj : j = k
        · rw [hj, hcount1]
        · rw [hother1 j hj]
    · exact ⟨⟨h.nodup, h.used, h.lru_nodup, h.mem_lru, h.size_eq⟩, rfl, fun _ _ => rfl, fun _ => rfl⟩

lemma Accounted.swapOutIfOver (h : s.Accounted s.theLru) :
    Fine (fun s' => s'.Accounted s'.theLru ∧ s'.live = s.live ∧ (∀ j, j ∉ s.theLru → s'.chunk j = s.chunk j) ∧
      ∀ j, (s'.chunk j).accessCount = (s.chunk j).accessCount) (s.swapOutIfOver m arrayOf ftruncate) := by
  rw [SharedMemCache.swapOutIfOver]
  split_ifs
  · exact h.swapOutLoop
  · exact ⟨h, rfl, fun _ _ => rfl, fun _ => rfl⟩

omit [DecidableEq K] [DecidableEq A] in
lemma Accounted.notMem (h : s.Accounted lru) (hk : (s.chunk k).data = none ∨ (s.chunk k).accessCount ≠ 0) : k ∉ lru := by
  intro hmem
  obtain ⟨-, hdata, hcount⟩ := (h.mem_lru k).mp hmem
  rcases hk with hk | hk
  · simp [hk] at hdata
  · exact hk hcount

omit [DecidableEq A] in
lemma Accounted.update_off (h : s.Accounted lru) (hk : k ∈ s.live)
    (hoff : (s.chunk k).data = none ∨ (s.chunk k).accessCount ≠ 0) (hlive : s'.live = s.live)
    (hchunk : s'.chunk = Function.update s.chunk k c)
    (hused : s'.usedMemSize + (s.chunk k).accounted = s.usedMemSize + c.accounted)
    (hc : c.data = none ∨ c.accessCount ≠ 0) : s'.Accounted lru := by
  have hnot := h.notMem hoff
  have hstays : ¬ (c.data.isSome ∧ c.accessCount = 0) := by
    rintro ⟨hdata, hcount⟩
    rcases hc with hc | hc
    · simp [hc] at hdata
    · exact hc hcount
  refine h.update hk hlive hchunk hused h.lru_nodup (fun j => ?_) fun hdata hcount => absurd ⟨hdata, hcount⟩ hstays
  constructor
  · intro hj
    refine .inl ⟨?_, hj⟩
    rintro rfl
    exact hnot hj
  · rintro (⟨-, hj⟩ | ⟨-, hj⟩)
    · exact hj
    · exact absurd hj hstays

omit [DecidableEq A] in
lemma Settled.update (h : s.Settled) (hlive : s'.live = s.live) (hchunk : s'.chunk = Function.update s.chunk k c)
    (hc : c.data = none → 0 < c.accessCount → c.sizeAtLastUnPin = 0) : s'.Settled := by
  intro j hj
  rw [hchunk]
  by_cases hjk : j = k
  · subst hjk
    simpa using hc
  · simpa [hjk] using h j (hlive ▸ hj)

omit [DecidableEq K] [DecidableEq A] in
lemma Settled.of_swapOut (h : s.Settled) (hs : s.Accounted lru) (hlive : s'.live = s.live)
    (hother : ∀ j, j ∉ lru → s'.chunk j = s.chunk j)
    (hcount : ∀ j, (s'.chunk j).accessCount = (s.chunk j).accessCount) : s'.Settled := by
  intro j hj hdata hpos
  have hj' : j ∉ lru := hs.notMem (.inr (by rw [← hcount]; omega))
  rw [hother j hj'] at hdata hpos ⊢
  exact h j (hlive ▸ hj) hdata hpos

/-- The accounting is right. -/
def Sound (s : SharedMemCache K A) : Prop := s.Accounted s.theLru ∧ s.Settled

lemma Sound.swapOutIfOver (h : s.Sound) : Fine Sound (s.swapOutIfOver m arrayOf ftruncate) :=
  h.1.swapOutIfOver.imp fun _ hs' => ⟨hs'.1, h.2.of_swapOut h.1 hs'.2.1 hs'.2.2.1 hs'.2.2.2⟩

omit [DecidableEq A] in
lemma Accounted.load (h : s.Accounted s.theLru) (hk : k ∈ s.live) (hdata : (s.chunk k).data = none)
    (hcount : (s.chunk k).accessCount ≠ 0) (hsize : (s.chunk k).sizeAtLastUnPin = (s.chunk k).size) :
    Fine (fun s' => s'.Accounted s'.theLru ∧ s'.live = s.live ∧ (s'.chunk k).data ≠ none ∧
      ∀ j, j ≠ k → s'.chunk j = s.chunk j) (s.load arrayOf k) := by
  rw [SharedMemCache.load]
  split_ifs
  · split
    · split
      · simp [Fine]
      · refine ⟨?_, rfl, by simp [setChunk], fun j hj => by simp [setChunk, hj]⟩
        refine h.update_off hk (.inl hdata) rfl rfl ?_ (.inr hcount)
        simp [accounted, hdata, hsize]
    · simp [Fine]
  · simp [Fine]

section

variable (h : s.Sound) (hk : k ∈ s.live)

include h hk

omit [DecidableEq A] in
lemma Sound.firstPin (hdata : (s.chunk k).data = none) :
    (s.firstPin k).Accounted (s.firstPin k).theLru := by
  refine h.1.update_off hk (.inl hdata) rfl rfl ?_ (.inl hdata)
  simp [LruMemChunk.accounted, hdata, SharedMemCache.firstPin, setChunk]

lemma Sound.pin_swapped (hdata : (s.chunk k).data = none) :
    Fine Sound ((SharedMemCache.swapOutIfOver m arrayOf ftruncate (s.firstPin k)).bind fun s => s.loadIfAny arrayOf k) := by
  have hacc1 := h.firstPin hk hdata
  refine hacc1.swapOutIfOver.bind fun s2 hs2 => ?_
  obtain ⟨hacc2, hlive2, hother2, hcount2⟩ := hs2
  have hk2 : s2.chunk k = { s.chunk k with accessCount := 1, sizeAtLastUnPin := (s.chunk k).size } := by
    rw [hother2 k (hacc1.notMem (.inl (by simp [SharedMemCache.firstPin, setChunk, hdata])))]
    simp [SharedMemCache.firstPin, setChunk]
  -- all chunks but this one are settled
  have hsettled2 : ∀ j ∈ s2.live, j ≠ k → (s2.chunk j).data = none → 0 < (s2.chunk j).accessCount →
      (s2.chunk j).sizeAtLastUnPin = 0 := by
    intro j hj hjk hdata' hpos
    have hj' : j ∉ (s.firstPin k).theLru := hacc1.notMem (.inr (by rw [← hcount2]; omega))
    have hsame : s2.chunk j = s.chunk j := by
      rw [hother2 j hj']
      simp [SharedMemCache.firstPin, setChunk, hjk]
    rw [hsame] at hdata' hpos ⊢
    exact h.2 j (hlive2 ▸ hj) hdata' hpos
  rw [loadIfAny]
  split_ifs with hsize
  · refine ⟨hacc2, fun j hj hdata' hpos => ?_⟩
    by_cases hjk : j = k
    · rw [hjk, hk2]
      simpa [hk2] using hsize
    · exact hsettled2 j hj hjk hdata' hpos
  · have hload := @Accounted.load K A _ arrayOf s2 k hacc2 (hlive2 ▸ hk) (by rw [hk2, hdata]) (by simp [hk2]) (by simp [hk2])
    refine hload.imp fun s3 hs3 => ?_
    obtain ⟨hacc3, hlive3, hdata3, hother3⟩ := hs3
    refine ⟨hacc3, fun j hj hdata' hpos => ?_⟩
    by_cases hjk : j = k
    · exact absurd (hjk ▸ hdata') hdata3
    · rw [hother3 j hjk] at hdata' hpos ⊢
      exact hsettled2 j (hlive3 ▸ hj) hjk hdata' hpos

lemma Sound.pinChunk : Fine Sound (s.pinChunk m arrayOf ftruncate k) := by
  rw [SharedMemCache.pinChunk]
  split_ifs with hcount hdata
  · exact h.pin_swapped hk hdata
  · have hsome : (s.chunk k).data.isSome := isSome_iff_ne_none.mpr hdata
    have hmem : k ∈ s.theLru := (h.1.mem_lru k).mpr ⟨hk, hsome, hcount⟩
    refine ⟨?_, h.2.update (k := k) rfl rfl fun hnone => absurd hnone hdata⟩
    refine h.1.update hk rfl rfl ?_ (h.1.lru_nodup.erase k) (fun j => ?_) nofun
    · simp [LruMemChunk.accounted, hsome, h.1.size_eq k hmem, SharedMemCache.firstPin, setChunk]
    · simp [h.1.lru_nodup.mem_erase_iff]
  · refine ⟨h.1.update_off hk (.inr hcount) rfl rfl rfl (.inr (Nat.succ_ne_zero _)), ?_⟩
    exact h.2.update (k := k) rfl rfl fun hnone _ => h.2 k hk hnone (pos_of_ne_zero hcount)

section

variable (hpos : 0 < (s.chunk k).accessCount)

include hpos

omit [DecidableEq K] [DecidableEq A] in
lemma Sound.accounted_eq :
    (s.chunk k).accounted = (s.chunk k).sizeAtLastUnPin := by
  rw [accounted]
  split_ifs with hdata
  · rfl
  · exact (h.2 k hk (not_isSome_iff_eq_none.mp hdata) hpos).symm

omit [DecidableEq A] in
lemma Sound.lastUnpin
    (hdata : (s.chunk k).data ≠ none) {used : ℕ} (hused : used + (s.chunk k).sizeAtLastUnPin = s.usedMemSize) :
    (s.lastUnpin k used).Sound := by
  have hsome : (s.chunk k).data.isSome := isSome_iff_ne_none.mpr hdata
  have hnot := h.1.notMem (.inr hpos.ne')
  refine ⟨?_, h.2.update (k := k) rfl rfl nofun⟩
  refine h.1.update hk rfl rfl ?_ ?_ (fun j => ?_) fun _ _ => rfl
  · simp only [SharedMemCache.lastUnpin, LruMemChunk.accounted, hsome, if_pos]
    omega
  · simp only [SharedMemCache.lastUnpin, nodup_append, h.1.lru_nodup, nodup_singleton, true_and, mem_singleton]
    rintro i hi j rfl rfl
    exact hnot hi
  · simp only [SharedMemCache.lastUnpin, mem_append, mem_singleton, hsome, and_self, and_true]
    constructor
    · rintro (hj | hj)
      · refine .inl ⟨?_, hj⟩
        rintro rfl
        exact hnot hj
      · exact .inr hj
    · rintro (hj | hj)
      · exact .inl hj.2
      · exact .inr hj

lemma Sound.unpinChunk :
    Fine Sound (s.unpinChunk m arrayOf ftruncate k) := by
  rw [SharedMemCache.unpinChunk]
  have hoff : (s.chunk k).data = none ∨ (s.chunk k).accessCount ≠ 0 := .inr hpos.ne'
  by_cases hlast : (s.chunk k).accessCount = 1
  · rw [if_pos hlast]
    have hacc := h.accounted_eq hk hpos
    refine (fine_sub (hacc ▸ h.1.accounted_le hk)).bind fun used hused => ?_
    split_ifs with hdata
    · refine ⟨h.1.update_off hk hoff rfl rfl ?_ (.inl hdata), h.2.update (k := k) rfl rfl nofun⟩
      have hzero : (s.chunk k).accounted = 0 := by simp [accounted, hdata]
      rw [← hacc, hzero] at hused
      simp [accounted, hdata, ← hused]
    · exact (h.lastUnpin hk hpos hdata hused).swapOutIfOver
  · rw [if_neg hlast]
    refine ⟨h.1.update_off hk hoff rfl rfl rfl (.inr ?_), ?_⟩
    · simp only
      omega
    · exact h.2.update (k := k) rfl rfl fun hnone _ => h.2 k hk hnone hpos

end

end

lemma swapOut_eq (s : SharedMemCache K A) : s.swapOut m arrayOf ftruncate = s.swapOutIfOver m arrayOf ftruncate := by
  rw [SharedMemCache.swapOutIfOver]
  split_ifs with hover
  · rfl
  · rw [SharedMemCache.swapOut]
    cases hlru : s.theLru with
    | nil => simp [swapOutLoop, ← hlru]
    | cons k lru => simp [swapOutLoop, hover, ← hlru]

section

variable (h : s.Sound) (hk : k ∈ s.live) (hpos : 0 < (s.chunk k).accessCount)

include h hk hpos

omit [DecidableEq A] in
lemma Sound.resize
    (hdata : c.data.isSome) (hcount : c.accessCount = (s.chunk k).accessCount)
    (hlast : c.sizeAtLastUnPin = (s.chunk k).sizeAtLastUnPin) : (s.setChunk k c).Sound := by
  refine ⟨h.1.update_off hk (.inr hpos.ne') rfl rfl ?_ (.inr (hcount ▸ hpos.ne')), ?_⟩
  · cases hold : (s.chunk k).data with
    | some b => simp [accounted, hold, hdata, hlast, setChunk]
    | none => simp [accounted, hold, hdata, hlast, setChunk, h.2 k hk hold hpos]
  · refine h.2.update (k := k) rfl rfl fun hnone => ?_
    simp [hnone] at hdata

omit [DecidableEq A] in
lemma Sound.reallocate :
    Fine Sound (s.reallocate k bs) := by
  rw [SharedMemCache.reallocate]
  split_ifs
  · exact h.resize hk hpos rfl rfl rfl
  · simp [Fine]

omit [DecidableEq A] in
lemma Sound.write : Fine Sound (s.write k bs) := by
  rw [SharedMemCache.write, SharedMemCache.reallocate]
  split_ifs
  · have hset := h.resize hk hpos (c := ⟨some bs, true, bs.length, (s.chunk k).dsOffset, (s.chunk k).dsAlloc,
      (s.chunk k).accessCount, (s.chunk k).sizeAtLastUnPin⟩) rfl rfl rfl
    simpa [Except.map, Fine, setChunk] using hset
  · simp [Fine, Except.map]

end

omit [DecidableEq A] in
lemma Sound.remove (h : s.Sound) (hk : k ∈ s.live) (hlive : s'.live = s.live.erase k)
    (hlru : s'.theLru = s.theLru.erase k) (hchunk : s'.chunk = s.chunk)
    (hused : s'.usedMemSize + (s.chunk k).accounted = s.usedMemSize) : s'.Sound := by
  refine ⟨⟨hlive ▸ h.1.nodup.erase k, ?_, hlru ▸ h.1.lru_nodup.erase k, fun j => ?_, fun j hj => ?_⟩, ?_⟩
  · have hsum := sum_map_erase (fun j => (s.chunk j).accounted) hk
    have hold := h.1.used
    simp only [memInUse, hlive, hchunk] at hold ⊢
    omega
  · rw [hlru, hlive, hchunk, h.1.lru_nodup.mem_erase_iff, h.1.nodup.mem_erase_iff, h.1.mem_lru]
    tauto
  · rw [hlru] at hj
    rw [hchunk]
    exact h.1.size_eq j (mem_of_mem_erase hj)
  · intro j hj
    rw [hlive] at hj
    rw [hchunk]
    exact h.2 j (mem_of_mem_erase hj)

omit [DecidableEq A] in
lemma Sound.cleanupLoop {ks : List K} (h : s.Sound) (hks : ks.Nodup) (hlive : ∀ k ∈ ks, k ∈ s.live) :
    Fine Sound (SharedMemCache.cleanupLoop ks s) := by
  induction ks generalizing s with
  | nil => exact h
  | cons k ks ih =>
    have hk : k ∈ s.live := hlive k mem_cons_self
    have hfree : Fine (fun used => used + (s.chunk k).accounted = s.usedMemSize)
        (if (s.chunk k).data.isSome then sub s.usedMemSize (s.chunk k).sizeAtLastUnPin else .ok s.usedMemSize) := by
      have hle := h.1.accounted_le hk
      rw [accounted] at hle ⊢
      split_ifs with hdata
      · exact fine_sub (by simpa [hdata] using hle)
      · simp [Fine]
    refine hfree.bind fun used hused => ?_
    refine ih (h.remove hk rfl rfl rfl hused) hks.of_cons fun j hj => ?_
    refine (h.1.nodup.mem_erase_iff).mpr ⟨?_, hlive j (mem_cons_of_mem k hj)⟩
    rintro rfl
    exact (nodup_cons.mp hks).1 hj

lemma Sound.cleanupArray {a : A} (h : s.Sound) : Fine Sound (s.cleanupArray arrayOf a) := by
  refine (h.cleanupLoop (h.1.nodup.filter _) fun k hk => mem_of_mem_filter hk).map fun s' hs' => ?_
  exact ⟨⟨hs'.1.nodup, hs'.1.used, hs'.1.lru_nodup, hs'.1.mem_lru, hs'.1.size_eq⟩, hs'.2⟩

omit [DecidableEq A] in
lemma Sound.newChunk (h : s.Sound) (hk : k ∉ s.live) :
    ({ s.setChunk k .init with live := k :: s.live } : SharedMemCache K A).Sound := by
  have hne : ∀ j ∈ s.live, j ≠ k := by
    rintro j hj rfl
    exact hk hj
  refine ⟨⟨nodup_cons.mpr ⟨hk, h.1.nodup⟩, ?_, h.1.lru_nodup, fun j => ?_, fun j hj => ?_⟩, fun j hj => ?_⟩
  · have hsame : s.live.map (fun j => ((s.setChunk k .init).chunk j).accounted) =
        s.live.map fun j => (s.chunk j).accounted := by
      apply map_congr_left
      intro j hj
      simp [setChunk, hne j hj]
    have hold := h.1.used
    simp only [memInUse, map_cons, sum_cons] at hold ⊢
    rw [hsame]
    simp [setChunk, init, accounted] at hold ⊢
    exact hold
  · by_cases hj : j = k
    · subst hj
      simp [setChunk, init, h.1.mem_lru, hk]
    · simp [setChunk, hj, h.1.mem_lru]
  · have hjk := hne j ((h.1.mem_lru j).mp hj).1
    simpa [setChunk, hjk] using h.1.size_eq j hj
  · by_cases hjk : j = k
    · subst hjk
      simp [setChunk, init]
    · simpa [setChunk, hjk] using h.2 j ((mem_cons.mp hj).resolve_left hjk)

/-- The calls that keep `Sound`. -/
def Keeps (s : SharedMemCache K A) : CacheAction K A → Prop
  | .delete k => (s.chunk k).accounted = 0
  | .pinNoMemory _ _ => False
  | _ => True

lemma Sound.call (h : s.Sound) (ha : s.Allowed a) (hkeeps : s.Keeps a) : Fine Sound (s.call m arrayOf a) := by
  cases a with
  | newChunk k => exact h.newChunk ha
  | pin k ftruncate => exact h.pinChunk ha
  | pinNoMemory k ftruncate => exact absurd hkeeps not_false
  | unpin k ftruncate => exact h.unpinChunk ha.1 ha.2
  | swapOut ftruncate =>
    show Fine Sound (s.swapOut m arrayOf ftruncate)
    rw [swapOut_eq]
    exact h.swapOutIfOver
  | resize k bs => exact h.reallocate ha.1 ha.2.1
  | write k bs => exact h.write ha.1 ha.2.1
  | delete k => exact h.remove ha rfl rfl rfl (by rw [show (s.chunk k).accounted = 0 from hkeeps]; rfl)
  | cleanup a => exact h.cleanupArray

omit [DecidableEq K] [DecidableEq A] in
lemma sound_start (threshold : ℕ) : (start threshold : SharedMemCache K A).Sound :=
  ⟨⟨nodup_nil, rfl, nodup_nil, by simp [start], by simp [start]⟩, by simp [Settled, start]⟩

lemma call_of_step (h : s.step m arrayOf a = some s') : s.Allowed a ∧ s.call m arrayOf a = .ok s' := by
  rw [step] at h
  split_ifs at h with ha
  refine ⟨ha, ?_⟩
  cases hr : s.call m arrayOf a with
  | ok s1 => simpa [hr, Except.toOption] using h
  | error e => simp [hr, Except.toOption] at h

lemma call_of_stepOrThrow (h : s.stepOrThrow m arrayOf a = some s') (hret : s.Returns m arrayOf a) :
    s.Allowed a ∧ s.call m arrayOf a = .ok s' := by
  obtain ⟨s1, hs1⟩ := hret
  rw [stepOrThrow] at h
  split_ifs at h with ha
  rw [hs1] at h ⊢
  cases h
  exact ⟨ha, rfl⟩

/-- **`_usedMemSize` is what the chunks in memory take**, if none that counts is deleted and memory suffices. -/
theorem reachable_accounted {threshold : ℕ} (h : Reaches (step m arrayOf) Keeps (start threshold) s) :
    s.usedMemSize = s.memInUse ∧ (∀ k, k ∈ s.theLru ↔ k ∈ s.live ∧ (s.chunk k).data.isSome ∧ (s.chunk k).accessCount = 0) ∧
      ∀ a, s.Allowed a → s.Keeps a → s.call m arrayOf a ≠ .error .wraps := by
  have hsound : s.Sound := by
    refine h.invariant (sound_start threshold) fun s₁ s₂ a hs₁ hkeeps hstep => ?_
    obtain ⟨ha, hcall⟩ := call_of_step hstep
    exact (hs₁.call ha hkeeps).of_ok hcall
  refine ⟨hsound.1.used, hsound.1.mem_lru, fun a ha hkeeps hr => ?_⟩
  have hcall := @Sound.call K A _ _ m arrayOf s a hsound ha hkeeps
  rw [hr] at hcall
  exact hcall rfl

def swappedRun : List (CacheAction ℕ Unit) :=
  [.newChunk 0, .pin 0 fun _ => true, .write 0 [7, 8, 9], .unpin 0 fun _ => true, .pin 0 fun _ => true]

theorem swappedRun_accounted : ∃ s, runActions (step .default fun _ => ()) (start 0) swappedRun = some s ∧ s.usedMemSize = 3 ∧
      s.usedMemSize = s.memInUse ∧ (∀ k, k ∈ s.theLru ↔ k ∈ s.live ∧ (s.chunk k).data.isSome ∧ (s.chunk k).accessCount = 0) ∧
      ∀ a, s.Allowed a → s.Keeps a → s.call .default (fun _ => ()) a ≠ .error .wraps := by
  obtain ⟨s, hs, hused⟩ : ∃ s, runActions (step .default fun _ => ()) (start 0) swappedRun = some s ∧
      s.usedMemSize = 3 := ⟨_, rfl, rfl⟩
  refine ⟨s, hs, hused, reachable_accounted ((Reaches.start).run (fun a ha s => ?_) hs)⟩
  simp only [swappedRun, mem_cons, not_mem_nil, or_false] at ha
  rcases ha with rfl | rfl | rfl | rfl | rfl <;> trivial

/-- A chunk of three bytes is deleted. It counts forever. -/
theorem deletedRun_counts : ∃ s : SharedMemCache ℕ Unit, runActions (step .default fun _ => ()) (start 100)
        [.newChunk 0, .pin 0 fun _ => true, .write 0 [7, 8, 9], .unpin 0 fun _ => true, .delete 0] = some s ∧
      s.live = [] ∧ s.memInUse = 0 ∧ s.usedMemSize = 3 :=
  ⟨_, rfl, rfl, rfl, rfl⟩

lemma noMemoryRun_miscounts : ∃ s : SharedMemCache ℕ Unit, runActions (step .default fun _ => ()) (start 0)
        [.newChunk 0, .pin 0 fun _ => true, .write 0 [7, 8, 9], .unpin 0 fun _ => true,
          .pinNoMemory 0 fun _ => true, .pin 0 fun _ => true, .write 0 [7]] = some s ∧ s.memInUse = 3 ∧ s.usedMemSize = 0 :=
  ⟨_, rfl, rfl, rfl⟩

end SharedMemCache

end SciDB.Array
