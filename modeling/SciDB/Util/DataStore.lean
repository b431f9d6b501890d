import SciDB.Lib.OrdMap
import SciDB.Lib.Words
import SciDB.Lib.Blocks

/-!
# The DataStore space allocator

`DataStore` keeps the chunks of one array in a file that is "divided into power-of-two sized chunks". Arithmetic wraps at
`2^64`. `ftruncate n` says whether the file can be extended. A call that throws returns the error with the store as it is left.
`none` is a call that does not come back: a division by zero, or a loop that never ends; sizes are `0` after 64 doublings, so
the fuel is short exactly then. Left out: `_dslock`, as a call is one step.
-/

namespace SciDB.Util

open SciDB.Lib

/-- Offsets by powers of two. -/
abbrev DataStoreFreelists := OrdMap ℕ (Finset ℕ)

/-- `sizeof(DiskChunkHeader)`. -/
def sizeofDiskChunkHeader : ℕ := 16

/-- What the allocator reads. -/
structure DataStores where
  minAllocSize : ℕ
  pos : 0 < minAllocSize
  /-- It comes from an `int` option. -/
  lt : minAllocSize < 2 ^ 31

/-- The default allocation. -/
def DataStores.default : DataStores := ⟨512, by norm_num, by norm_num⟩

/-- A data store. -/
structure DataStore where
  freelists : DataStoreFreelists
  largestFreeChunk : ℕ
  allocatedSize : ℕ
  fldirty : Bool
  deriving DecidableEq

/-- What the allocator throws. -/
inductive DataStoreError where
  | ftruncateFailed
  | corruptFreelist
  deriving DecidableEq

variable (fl : DataStoreFreelists)

/-- `fl[bucket].insert(off)`. -/
def addBlock (bucket off : ℕ) : DataStoreFreelists :=
  fl.assign bucket (insert off ((fl.find? bucket).getD ∅))

/-- Erases a block. -/
def removeBlock (bucket : ℕ) (offs : Finset ℕ) (off : ℕ) : DataStoreFreelists :=
  if offs.erase off = ∅ then fl.erase bucket else fl.assign bucket (offs.erase off)

/-- The blocks on the free lists. -/
def freeBlocks : Finset Block :=
  fl.entries.toFinset.biUnion fun e => e.2.image fun off => ⟨off, e.1⟩

/-- A parent block is free. -/
def isParentBlockFree (off size : ℕ) : Bool :=
  (fl.above size).any fun e => off - off % e.1 ∈ e.2

/-- Verifies the free lists. -/
def verifyFreelistInternal : Except DataStoreError Unit :=
  if ∀ e ∈ fl.entries, ∀ off ∈ e.2, isParentBlockFree fl off e.1 = false then .ok ()
  else .error .corruptFreelist

/-- The next power of two. -/
def roundUpPowerOf2 (size : ℕ) : ℕ :=
  let roundupSize := wsub size 1
  let roundupSize := roundupSize ||| roundupSize >>> 1
  let roundupSize := roundupSize ||| roundupSize >>> 2
  let roundupSize := roundupSize ||| roundupSize >>> 4
  let roundupSize := roundupSize ||| roundupSize >>> 8
  let roundupSize := roundupSize ||| roundupSize >>> 16
  let roundupSize := roundupSize ||| roundupSize >>> 32
  wrap (roundupSize + 1)

/-- How often an `off_t` can double: the fuel of the loops over block sizes. -/
def maxDoublings : ℕ := 64

namespace DataStore

variable (ds : DataStore)

/-- The largest free block. -/
def calcLargestFreeChunk : DataStore :=
  { ds with largestFreeChunk := ds.freelists.lastKey?.getD 0 }

/-- From the size `stSize` of the data file; `saved` is what `readFreelistFromFile` loads. -/
def initializeFreelist (m : DataStores) (stSize : ℕ) (saved : DataStoreFreelists) : DataStore :=
  let allocatedSize := roundUpPowerOf2 stSize
  if allocatedSize < m.minAllocSize then
    let allocatedSize := roundUpPowerOf2 m.minAllocSize
    calcLargestFreeChunk ⟨addBlock OrdMap.empty allocatedSize 0, 0, allocatedSize, false⟩
  else calcLargestFreeChunk ⟨saved, 0, allocatedSize, false⟩

/-- Invalidates the file. -/
def invalidateFreelistFile : DataStore := { ds with fldirty := true }

/-- The assignments of the loop in `makeMoreSpace`: the new half of the file is one free
block. -/
def doubled : DataStore :=
  { ds with
    freelists := addBlock ds.freelists ds.allocatedSize ds.allocatedSize
    largestFreeChunk := ds.allocatedSize
    allocatedSize := wrap (ds.allocatedSize * 2) }

/-- Makes more space. -/
def makeMoreSpace (ftruncate : ℕ → Bool) (request : ℕ) : ℕ → DataStore → Option (Except DataStoreError Unit × DataStore)
  | 0, _ => none
  | fuel + 1, ds =>
    if request > ds.largestFreeChunk then
      if ftruncate ds.doubled.allocatedSize then makeMoreSpace ftruncate request fuel ds.doubled
      else some (.error .ftruncateFailed, ds.doubled)
    else some (.ok (), ds)

/-- Finds a free block. -/
def searchFreelist : ℕ → DataStoreFreelists → ℕ → Option (ℕ × DataStoreFreelists)
  | 0, _, _ => none
  | fuel + 1, fl, request =>
    match fl.find? request with
    | some offs =>
      -- the target bucket contains a free chunk (the code asserts that it is not empty)
      if h : offs.Nonempty then some (offs.min' h, removeBlock fl request offs (offs.min' h)) else none
    | none =>
      -- we have to get a free chunk by breaking up a larger free chunk
      match searchFreelist fuel fl (wrap (request * 2)) with
      | some (ret, fl') => some (ret, addBlock fl' request (wrap (ret + request)))
      | none => none

/-- The size of a block. -/
def requiredSize (m : DataStores) (requestedSize : ℕ) : ℕ :=
  let required := wrap (requestedSize + sizeofDiskChunkHeader)
  roundUpPowerOf2 (if required < m.minAllocSize then m.minAllocSize else required)

/-- The second half of `allocateSpace`: take a block of the required size off the free lists. -/
def takeFromFreelist (required : ℕ) (ds : DataStore) : Option (Except DataStoreError (ℕ × ℕ) × DataStore) :=
  (searchFreelist (maxDoublings + 1) ds.freelists required).map fun r =>
    (.ok (r.1, required), calcLargestFreeChunk { ds with freelists := r.2 })

/-- Allocates a block. -/
def allocateSpace (m : DataStores) (ftruncate : ℕ → Bool) (ds : DataStore) (requestedSize : ℕ) :
    Option (Except DataStoreError (ℕ × ℕ) × DataStore) :=
  let ds := ds.invalidateFreelistFile
  let required := requiredSize m requestedSize
  -- check if the free lists have a chunk of the proper size
  if required > ds.largestFreeChunk then
    match makeMoreSpace ftruncate required (maxDoublings + 2) ds with
    | none => none
    | some (.error e, ds) => some (.error e, ds)
    | some (.ok _, ds) => takeFromFreelist required ds
  else takeFromFreelist required ds

/-- Add block to free list and try to consolidate buddy blocks. -/
def addToFreelist : ℕ → DataStoreFreelists → ℕ → ℕ → Option DataStoreFreelists
  | 0, _, _, _ => none
  | fuel + 1, fl, bucket, off =>
    -- first check if a parent block is already on the freelist (possibly in crash recovery case)
    if isParentBlockFree fl off bucket then some fl
    else
      let parent := wrap (bucket * 2)
      -- `off % parent` with `parent == 0` is a division by zero
      if parent = 0 then none
      else
        let buddy := if off % parent = 0 then wrap (off + bucket) else wsub off bucket
        let offs := (fl.find? bucket).getD ∅
        if buddy ∈ offs then
          -- merge with the buddy
          let merged := if off < buddy then off else buddy
          addToFreelist fuel (removeBlock fl bucket offs buddy) parent merged
        else some (addBlock fl bucket off)

/-- Frees a block. -/
def freeChunk (off allocated : ℕ) : Option DataStore :=
  let ds := ds.invalidateFreelistFile
  (addToFreelist (maxDoublings + 1) ds.freelists allocated off).map fun fl =>
    calcLargestFreeChunk { ds with freelists := fl }

/-- Verifies the free list. -/
def verifyFreelist : Except DataStoreError Unit := verifyFreelistInternal ds.freelists

end DataStore

end SciDB.Util
