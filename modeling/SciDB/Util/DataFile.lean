import SciDB.Lib.Bytes
import SciDB.Util.DataStoreTiling

/-!
# The data in a data store

A chunk is written behind a header into a block of the allocator. In a file system without files of `2^63` bytes, a request
that gets a block is one that the arithmetic can carry (`fits_of_ok`).
-/

namespace SciDB.Util

open SciDB.Lib DataStore List

def usedValue : ℕ := 0xfeedfacefeedface

def freeValue : ℕ := 0xdeadbeefdeadbeef

/-- A header as it is written. -/
def headerBytes (allocatedSize : ℕ) : List UInt8 := encodeLE 8 usedValue ++ encodeLE 8 allocatedSize

/-- `isValid` of a header. -/
def isValidHeader (magic : List UInt8) : Bool := decodeLE magic = usedValue || decodeLE magic = freeValue

/-- Writes header and bytes. -/
def writeData (f : FileBytes) (off : ℕ) (buffer : List UInt8) (allocatedSize : ℕ) : FileBytes :=
  store f off (headerBytes allocatedSize ++ buffer)

def readData (f : FileBytes) (off len : ℕ) : Option (List UInt8) :=
  if isValidHeader (load f off 8) then some (load f (off + sizeofDiskChunkHeader) len) else none

/-- A block holds some bytes. -/
structure Holds (f : FileBytes) (b : Block) (bs : List UInt8) : Prop where
  le : bs.length + sizeofDiskChunkHeader ≤ b.size
  read : readData f b.off bs.length = some bs

@[simp] lemma length_headerBytes (n : ℕ) : (headerBytes n).length = sizeofDiskChunkHeader := by
  simp [headerBytes, sizeofDiskChunkHeader]

variable {f : FileBytes} {b c : Block} {bs cs : List UInt8} {off : ℕ}

lemma readData_writeData (n : ℕ) : readData (writeData f off bs n) off bs.length = some bs := by
  have hall : load (writeData f off bs n) off (sizeofDiskChunkHeader + bs.length) = headerBytes n ++ bs := by
    have := @load_store f off (headerBytes n ++ bs)
    rwa [length_append, length_headerBytes] at this
  rw [load_add] at hall
  obtain ⟨hheader, hdata⟩ := append_inj hall (by simp)
  have hvalid : isValidHeader (load (writeData f off bs n) off 8) := by
    rw [show sizeofDiskChunkHeader = 8 + 8 from rfl, load_add, headerBytes] at hheader
    obtain ⟨hmagic, -⟩ := append_inj hheader (by simp)
    rw [hmagic, isValidHeader, decodeLE_encodeLE (by decide)]
    decide
  rw [readData, if_pos hvalid, hdata]

lemma readData_zero (off len : ℕ) : readData (fun _ => 0) off len = none := by
  have hload : load (fun _ => 0) off 8 = [0, 0, 0, 0, 0, 0, 0, 0] := rfl
  have hinvalid : isValidHeader [0, 0, 0, 0, 0, 0, 0, 0] = false := by decide
  rw [readData, hload, hinvalid, if_neg Bool.false_ne_true]

lemma holds_writeData (h : bs.length + sizeofDiskChunkHeader ≤ b.size) (n : ℕ) :
    Holds (writeData f b.off bs n) b bs := ⟨h, readData_writeData n⟩

lemma before_or_after (hdisj : ∀ x, x ∈ b → x ∉ c) (hb : 0 < b.size) (hc : 0 < c.size) :
    b.off + b.size ≤ c.off ∨ c.off + c.size ≤ b.off := by
  by_contra h
  push Not at h
  apply hdisj (max b.off c.off) <;> rw [Block.mem_iff] <;> omega

lemma Holds.writeData_other (h : Holds f b bs) (hdisj : ∀ x, x ∈ b → x ∉ c)
    (hle : cs.length + sizeofDiskChunkHeader ≤ c.size) (n : ℕ) : Holds (writeData f c.off cs n) b bs := by
  have hpos : 0 < sizeofDiskChunkHeader := by decide
  have hb := h.le
  have hlen : (headerBytes n ++ cs).length = sizeofDiskChunkHeader + cs.length := by simp
  have hapart := before_or_after hdisj (by omega) (by omega)
  have hread := h.read
  have h8 : 8 ≤ sizeofDiskChunkHeader := by decide
  have hheader : load (writeData f c.off cs n) b.off 8 = load f b.off 8 := by
    apply load_store_of_disjoint
    omega
  have hdata : load (writeData f c.off cs n) (b.off + sizeofDiskChunkHeader) bs.length =
      load f (b.off + sizeofDiskChunkHeader) bs.length := by
    apply load_store_of_disjoint
    omega
  refine ⟨h.le, ?_⟩
  rw [readData, hheader, hdata]
  exact hread

variable {ds ds' : DataStore} {live : Finset Block} {ftruncate : ℕ → Bool}

lemma Inv.disjoint_live (h : Inv ds live) (hb : b ∈ live) (hc : c ∈ live) (hne : b ≠ c) :
    ∀ x, x ∈ b → x ∉ c := fun _ hxb hxc => hne (h.tiles.eqL hb hc hxb hxc)

/-- A file system cannot have a file whose size is not an `off_t`. -/
def OffTLimit (ftruncate : ℕ → Bool) : Prop := ∀ n, 2 ^ 63 ≤ n → ftruncate n = false

/-- Files of any size. -/
def anyFile (n : ℕ) : Bool := n < 2 ^ 63

lemma offTLimit_anyFile : OffTLimit anyFile := fun n hn => by simpa [anyFile] using hn

lemma le_of_makeMoreSpace_ok (hlimit : OffTLimit ftruncate) {request : ℕ} {fuel : ℕ} (h : Inv ds live)
    (hlt : ds.largestFreeChunk < request) (hok : makeMoreSpace ftruncate request fuel ds = some (.ok (), ds')) :
    request ≤ 2 ^ 61 ∧ ds.allocatedSize ≤ 2 ^ 61 := by
  induction fuel generalizing ds with
  | zero => cases hok
  | succ fuel ih =>
    rw [makeMoreSpace, if_pos hlt] at hok
    split_ifs at hok with hft
    swap
    · cases hok
    obtain ⟨k, hk, hpow⟩ := h.pow
    have hk61 : k ≤ 61 := by
      by_contra hgt
      obtain rfl : k = 62 := by omega
      have hdouble : ds.doubled.allocatedSize = 2 ^ 63 := by
        rw [DataStore.doubled, hpow]
        exact wrap_of_lt (by norm_num)
      rw [hlimit _ hdouble.ge] at hft
      cases hft
    have hA : ds.allocatedSize ≤ 2 ^ 61 := by
      rw [hpow]
      exact Nat.pow_le_pow_right (by norm_num) hk61
    refine ⟨?_, hA⟩
    by_cases hlt' : ds.doubled.largestFreeChunk < request
    · exact (ih (h.doubled hA) hlt' hok).1
    · have hlargest : ds.doubled.largestFreeChunk = ds.allocatedSize := rfl
      omega

lemma fits_of_ok {m : DataStores} (hlimit : OffTLimit ftruncate) (h : Inv ds live) {requestedSize : ℕ}
    (hsize : requestedSize ≤ 2 ^ 62) {r : ℕ × ℕ}
    (hok : allocateSpace m ftruncate ds requestedSize = some (.ok r, ds')) : Fits m ds requestedSize := by
  have hlt := m.lt
  have hneeded : neededSize m requestedSize ≤ 2 ^ 63 := by
    apply Nat.pow_le_pow_right (by norm_num)
    apply (Nat.clog_le_iff_le_pow (by norm_num)).mpr
    have : sizeofDiskChunkHeader = 16 := rfl
    omega
  simp only [allocateSpace, requiredSize_eq hneeded] at hok
  split_ifs at hok with hmore
  · right
    cases hspace : makeMoreSpace ftruncate (neededSize m requestedSize) (maxDoublings + 2) ds.invalidateFreelistFile with
    | none => simp [hspace] at hok
    | some res =>
      obtain ⟨e | ⟨⟩, ds1⟩ := res
      · simp [hspace] at hok
      · have hle := le_of_makeMoreSpace_ok hlimit h.invalidateFreelistFile hmore hspace
        exact hle
  · left
    exact Nat.le_of_not_lt hmore

end SciDB.Util
