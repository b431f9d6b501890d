import SciDB.Lib.Bytes
import SciDB.Util.DataStoreTiling

/-!
# The file of the free lists

The number of buckets, and then every bucket as `<size><key><nelements><offset 1>...<offset n><crc>`. The checksum may be any
function of the bytes.
-/

namespace SciDB.Util

open SciDB.Lib DataStore List Option Multiset

variable (offs : Finset ℕ)

/-- A set in order. -/
def inOrder : List ℕ :=
  Quot.liftOn offs.val (fun l => l.insertionSort (· ≤ ·)) fun l l' h =>
    ((l.perm_insertionSort (· ≤ ·)).trans (h.trans (l'.perm_insertionSort (· ≤ ·)).symm)).eq_of_pairwise
      (fun _ _ _ _ => le_antisymm) (l.pairwise_insertionSort (· ≤ ·)) (l'.pairwise_insertionSort (· ≤ ·))

lemma coe_inOrder : (inOrder offs : Multiset ℕ) = offs.val := by
  obtain ⟨⟨l⟩, hl⟩ := offs
  exact coe_eq_coe.mpr (l.perm_insertionSort (· ≤ ·))

@[simp] lemma mem_inOrder {offs : Finset ℕ} {off : ℕ} : off ∈ inOrder offs ↔ off ∈ offs := by
  rw [← mem_coe, coe_inOrder]
  rfl

@[simp] lemma length_inOrder : (inOrder offs).length = offs.card := by
  rw [← coe_card, coe_inOrder]
  rfl

@[simp] lemma toFinset_inOrder : (inOrder offs).toFinset = offs := by
  ext off
  simp

/-- A bucket as bytes. -/
def bucketBody (key : ℕ) (offs : List ℕ) : List UInt8 :=
  encodeLE 8 key ++ encodeLE 8 offs.length ++ offs.flatMap (encodeLE 8)

variable (crc32 : List UInt8 → UInt32)

/-- A bucket with its checksum. -/
def bucketBytes (e : ℕ × Finset ℕ) : List UInt8 :=
  encodeLE 8 ((bucketBody e.1 (inOrder e.2)).length + 4) ++ bucketBody e.1 (inOrder e.2) ++
    encodeLE 4 (crc32 (bucketBody e.1 (inOrder e.2))).toNat

/-- There is enough memory. -/
def fitsInMemory (e : ℕ × Finset ℕ) : Bool := 28 + 8 * e.2.card ≤ 2 ^ 62

/-- What `persistFreelists` writes, up to a bucket for which there is no memory. -/
def freelistBytes (fl : DataStoreFreelists) : List UInt8 :=
  encodeLE 8 fl.entries.length ++
    ((fl.entries.filter fun e => e.2.card ≠ 0).takeWhile fitsInMemory).flatMap (bucketBytes crc32)

def readAll (f : List UInt8) (n : ℕ) : Option (List UInt8 × List UInt8) :=
  if n ≤ f.length then some (f.take n, f.drop n) else none

/-- The offsets in a bucket. -/
def readOffsets : ℕ → List UInt8 → List ℕ
  | 0, _ => []
  | n + 1, bs => decodeLE (bs.take 8) :: readOffsets n (bs.drop 8)

/-- It throws at the end of the file, or if the checksum is wrong. -/
def readBucket (f : List UInt8) : Option ((ℕ × List ℕ) × List UInt8) :=
  (readAll f 8).bind fun r => (readAll r.2 (decodeLE r.1)).bind fun b =>
    let nelements := decodeLE ((b.1.drop 8).take 8)
    if decodeLE ((b.1.drop (16 + 8 * nelements)).take 4) = (crc32 (b.1.take (decodeLE r.1 - 4))).toNat then
      some ((decodeLE (b.1.take 8), readOffsets nelements (b.1.drop 16)), b.2)
    else none

/-- Reads a bucket. -/
def unload (fl : DataStoreFreelists) (key : ℕ) (offs : List ℕ) : DataStoreFreelists :=
  offs.foldl (fun fl off => addBlock fl key off) fl

def readBuckets (crc32 : List UInt8 → UInt32) : ℕ → List UInt8 → DataStoreFreelists → Option DataStoreFreelists
  | 0, _, fl => some fl
  | n + 1, f, fl => (readBucket crc32 f).bind fun r => readBuckets crc32 n r.2 (unload fl r.1.1 r.1.2)

def readFreelistFromFile (f : List UInt8) : Option DataStoreFreelists :=
  if f = [] then some OrdMap.empty
  else (readAll f 8).map fun r => (readBuckets crc32 (decodeLE r.1) r.2 OrdMap.empty).getD OrdMap.empty

variable {crc32 : List UInt8 → UInt32} {e : ℕ × Finset ℕ} {es : List (ℕ × Finset ℕ)} {fl : DataStoreFreelists}
  {f rest : List UInt8} {n j : ℕ}

/-- A bucket fits. -/
structure BucketFits (e : ℕ × Finset ℕ) : Prop where
  size : 28 + 8 * e.2.card ≤ 2 ^ 62
  key : e.1 < 2 ^ 64
  offs : ∀ off ∈ e.2, off < 2 ^ 64

lemma readAll_append (hn : n = f.length) : readAll (f ++ rest) n = some (f, rest) := by
  subst hn
  simp [readAll]

lemma length_bucketBody (key : ℕ) (offs : List ℕ) : (bucketBody key offs).length = 16 + 8 * offs.length := by
  simp [bucketBody]
  omega

lemma length_bucketBytes (e : ℕ × Finset ℕ) : (bucketBytes crc32 e).length = 28 + 8 * e.2.card := by
  simp only [bucketBytes, length_append, length_encodeLE, length_bucketBody, length_inOrder]
  omega

lemma decodeLE_word {n : ℕ} (h : n < 2 ^ 64) : decodeLE (encodeLE 8 n) = n := decodeLE_encodeLE (by simpa using h)

lemma readOffsets_append {offs : List ℕ} (h : ∀ off ∈ offs, off < 2 ^ 64) :
    readOffsets offs.length (offs.flatMap (encodeLE 8) ++ rest) = offs := by
  induction offs with
  | nil => rfl
  | cons off offs ih =>
    have htake : ((off :: offs).flatMap (encodeLE 8) ++ rest).take 8 = encodeLE 8 off := by
      simp [flatMap_cons, append_assoc]
    have hdrop : ((off :: offs).flatMap (encodeLE 8) ++ rest).drop 8 = offs.flatMap (encodeLE 8) ++ rest := by
      simp [flatMap_cons, append_assoc]
    rw [length_cons, readOffsets, htake, hdrop, decodeLE_word (h off mem_cons_self), ih fun o ho => h o (mem_cons_of_mem off ho)]

lemma readBucket_append (h : BucketFits e) :
    readBucket crc32 (bucketBytes crc32 e ++ rest) = some ((e.1, inOrder e.2), rest) := by
  generalize hoffs : inOrder e.2 = offs
  have hlen : offs.length = e.2.card := by rw [← hoffs, length_inOrder]
  have hsize := h.size
  have hbody := length_bucketBody e.1 offs
  have hword : (bucketBody e.1 offs).length + 4 < 2 ^ 64 := by omega
  have hcrc : (crc32 (bucketBody e.1 offs)).toNat < 256 ^ 4 := by
    simpa using (crc32 (bucketBody e.1 offs)).toNat_lt
  have hoffs' : ∀ off ∈ offs, off < 2 ^ 64 := by
    intro off hoff
    rw [← hoffs, mem_inOrder] at hoff
    exact h.offs off hoff
  rw [readBucket, bucketBytes, hoffs, append_assoc, append_assoc, readAll_append (by simp), bind_some]
  simp only [decodeLE_word hword]
  rw [← append_assoc, readAll_append (by simp), bind_some]
  have hkey : (bucketBody e.1 offs ++ encodeLE 4 (crc32 (bucketBody e.1 offs)).toNat).take 8 = encodeLE 8 e.1 := by
    simp [bucketBody, append_assoc]
  have hnum : ((bucketBody e.1 offs ++ encodeLE 4 (crc32 (bucketBody e.1 offs)).toNat).drop 8).take 8 =
      encodeLE 8 offs.length := by
    simp [bucketBody, append_assoc]
  have hdrop : (bucketBody e.1 offs ++ encodeLE 4 (crc32 (bucketBody e.1 offs)).toNat).drop 16 =
      offs.flatMap (encodeLE 8) ++ encodeLE 4 (crc32 (bucketBody e.1 offs)).toNat := by
    simp [bucketBody, append_assoc, drop_append]
  have hsum : ((bucketBody e.1 offs ++ encodeLE 4 (crc32 (bucketBody e.1 offs)).toNat).drop
      (16 + 8 * offs.length)).take 4 = encodeLE 4 (crc32 (bucketBody e.1 offs)).toNat := by
    rw [← hbody, drop_left]
    simp
  simp only [hkey, hnum, hdrop, decodeLE_word h.key, decodeLE_word (show offs.length < 2 ^ 64 by omega), hsum,
    decodeLE_encodeLE hcrc, readOffsets_append hoffs', Nat.add_sub_cancel, take_left, if_pos]

lemma readBucket_take (h : BucketFits e) (hj : j < (bucketBytes crc32 e).length) :
    readBucket crc32 ((bucketBytes crc32 e).take j) = none := by
  have hsize := h.size
  have hlen : (bucketBytes crc32 e).length = 28 + 8 * e.2.card := length_bucketBytes e
  rw [readBucket, readAll]
  split_ifs with h8
  · have hj8 : 8 ≤ j := by
      rw [length_take] at h8
      omega
    have hbody := length_bucketBody e.1 (inOrder e.2)
    rw [length_inOrder] at hbody
    have htake : ((bucketBytes crc32 e).take j).take 8 = encodeLE 8 ((bucketBody e.1 (inOrder e.2)).length + 4) := by
      rw [take_take, Nat.min_eq_left hj8, bucketBytes, append_assoc, take_append]
      simp
    simp only [bind_some, htake, decodeLE_word (show (bucketBody e.1 (inOrder e.2)).length + 4 < 2 ^ 64 by omega)]
    rw [readAll, if_neg]
    · rfl
    · simp only [length_drop, length_take]
      omega
  · rfl

/-- Unserialize an entry. -/
def unloadEntry (fl : DataStoreFreelists) (e : ℕ × Finset ℕ) : DataStoreFreelists := unload fl e.1 (inOrder e.2)

lemma readBuckets_append (h : ∀ e ∈ es, BucketFits e) :
    readBuckets crc32 es.length (es.flatMap (bucketBytes crc32)) fl = some (es.foldl unloadEntry fl) := by
  induction es generalizing fl with
  | nil => rfl
  | cons e es ih =>
    rw [length_cons, readBuckets, flatMap_cons, readBucket_append (h e mem_cons_self), bind_some,
      ih fun e' he' => h e' (mem_cons_of_mem e he')]
    rfl

lemma readBuckets_take (h : ∀ e ∈ es, BucketFits e) (hn : es.length ≤ n)
    (hj : es.length < n ∨ j < (es.flatMap (bucketBytes crc32)).length) :
    readBuckets crc32 n ((es.flatMap (bucketBytes crc32)).take j) fl = none := by
  induction es generalizing n j fl with
  | nil =>
    obtain ⟨n, rfl⟩ : ∃ k, n = k + 1 := Nat.exists_eq_succ_of_ne_zero (by simp at hj; omega)
    simp [readBuckets, readBucket, readAll]
  | cons e es ih =>
    obtain ⟨n, rfl⟩ : ∃ k, n = k + 1 := Nat.exists_eq_succ_of_ne_zero (by simp at hn; omega)
    rw [readBuckets, flatMap_cons]
    by_cases hlt : j < (bucketBytes crc32 e).length
    · rw [take_append_of_le_length hlt.le, readBucket_take (h e mem_cons_self) hlt]
      rfl
    · rw [take_append, take_of_length_le (not_lt.mp hlt), readBucket_append (h e mem_cons_self), bind_some]
      refine ih (fun e' he' => h e' (mem_cons_of_mem e he')) (by simpa using hn) ?_
      simp only [length_cons, flatMap_cons, length_append] at hj
      omega

lemma find?_unload (fl : DataStoreFreelists) (key : ℕ) (offs : List ℕ) (k : ℕ) : (unload fl key offs).find? k =
      if k = key ∧ offs ≠ [] then some ((fl.find? key).getD ∅ ∪ offs.toFinset) else fl.find? k := by
  induction offs generalizing fl with
  | nil => simp [unload]
  | cons off offs ih =>
    have hstep : unload fl key (off :: offs) = unload (addBlock fl key off) key offs := rfl
    rw [hstep, ih]
    by_cases hk : k = key
    · subst hk
      by_cases hnil : offs = []
      · subst hnil
        simp [addBlock]
      · simp [addBlock, hnil, Finset.union_comm]
    · simp [hk, addBlock, OrdMap.find?_assign]

lemma find?_unloadEntries (hne : ∀ e ∈ es, e.2.Nonempty) (hkeys : es.Pairwise fun a b => a.1 < b.1) (k : ℕ) :
    (es.foldl unloadEntry fl).find? k = match es.find? (fun e => e.1 = k) with
      | some e => some ((fl.find? k).getD ∅ ∪ e.2)
      | none => fl.find? k := by
  induction es generalizing fl with
  | nil => rfl
  | cons e es ih =>
    obtain ⟨hfirst, hkeys⟩ := pairwise_cons.mp hkeys
    have hoffs : inOrder e.2 ≠ [] := by
      obtain ⟨off, hoff⟩ := hne e mem_cons_self
      intro hnil
      rw [← mem_inOrder, hnil] at hoff
      cases hoff
    rw [List.foldl_cons, ih (fun e' he' => hne e' (List.mem_cons_of_mem e he')) hkeys, unloadEntry, find?_unload]
    by_cases hk : k = e.1
    · subst hk
      have hnone : es.find? (fun e' => e'.1 = e.1) = none := by
        rw [find?_eq_none]
        intro e' he'
        simpa using (hfirst e' he').ne'
      simp [hnone, hoffs]
    · simp [hk, Ne.symm hk]

lemma unloadEntries_eq (h : NoEmptyBucket fl) : fl.entries.foldl unloadEntry OrdMap.empty = fl := by
  apply OrdMap.ext_find
  intro k
  rw [find?_unloadEntries (fun e he => h e.1 e.2 (OrdMap.find?_eq_some_iff.mpr he)) fl.sorted]
  unfold OrdMap.find?
  cases fl.entries.find? fun e => e.1 = k <;> simp [OrdMap.empty]

/-- Numbers fit into words. -/
structure Writable (fl : DataStoreFreelists) : Prop where
  noEmpty : NoEmptyBucket fl
  count : fl.entries.length < 2 ^ 64
  key : ∀ e ∈ fl.entries, e.1 < 2 ^ 64
  offs : ∀ e ∈ fl.entries, ∀ off ∈ e.2, off < 2 ^ 64

lemma Writable.bytes_eq (h : Writable fl) : freelistBytes crc32 fl =
      encodeLE 8 fl.entries.length ++ (fl.entries.takeWhile fitsInMemory).flatMap (bucketBytes crc32) := by
  have hfilter : fl.entries.filter (fun e => e.2.card ≠ 0) = fl.entries := by
    apply filter_eq_self.mpr
    intro e he
    have hne := h.noEmpty e.1 e.2 (OrdMap.find?_eq_some_iff.mpr he)
    simpa using hne.ne_empty
  rw [freelistBytes, hfilter]

lemma Writable.fits (h : Writable fl) : ∀ e ∈ fl.entries.takeWhile fitsInMemory, BucketFits e := by
  intro e he
  have hmem := (takeWhile_sublist fitsInMemory).subset he
  exact ⟨by simpa [fitsInMemory] using mem_takeWhile_imp he, h.key e hmem, h.offs e hmem⟩

lemma readFreelistFromFile_bytes (h : Writable fl) (hall : fl.entries.all fitsInMemory) :
    readFreelistFromFile crc32 (freelistBytes crc32 fl) = some fl := by
  have hne : freelistBytes crc32 fl ≠ [] := by
    intro hnil
    have := congrArg length hnil
    simp [freelistBytes] at this
  have hwhile : fl.entries.takeWhile fitsInMemory = fl.entries := takeWhile_eq_self_iff.mpr (all_eq_true.mp hall)
  have hfits := h.fits
  rw [hwhile] at hfits
  rw [readFreelistFromFile, if_neg hne, h.bytes_eq, hwhile, readAll_append (by simp), map_some]
  simp only [decodeLE_word h.count]
  rw [readBuckets_append hfits, getD_some, unloadEntries_eq h.noEmpty]

lemma readFreelistFromFile_take (h : Writable fl)
    (hj : fl.entries.all fitsInMemory = false ∨ j < (freelistBytes crc32 fl).length) {fl' : DataStoreFreelists}
    (hread : readFreelistFromFile crc32 ((freelistBytes crc32 fl).take j) = some fl') : fl' = OrdMap.empty := by
  rw [readFreelistFromFile] at hread
  split_ifs at hread with hnil
  · exact (some.inj hread).symm
  · obtain ⟨r, hr, rfl⟩ := map_eq_some_iff.mp hread
    rw [h.bytes_eq] at hr hj
    generalize hes : fl.entries.takeWhile fitsInMemory = es at hr hj
    rw [readAll] at hr
    split_ifs at hr with h8
    cases hr
    have hj8 : 8 ≤ j := by
      rw [length_take] at h8
      omega
    have hcount : ((encodeLE 8 fl.entries.length ++ es.flatMap (bucketBytes crc32)).take j).take 8 =
        encodeLE 8 fl.entries.length := by
      rw [take_take, Nat.min_eq_left hj8, take_append]
      simp
    have hrest : ((encodeLE 8 fl.entries.length ++ es.flatMap (bucketBytes crc32)).take j).drop 8 =
        (es.flatMap (bucketBytes crc32)).take (j - 8) := by
      rw [drop_take, drop_append, drop_of_length_le (by simp), nil_append]
      simp
    have hle : es.length ≤ fl.entries.length := by
      rw [← hes]
      exact (takeWhile_sublist fitsInMemory).length_le
    have hshort : es.length < fl.entries.length ∨ j - 8 < (es.flatMap (bucketBytes crc32)).length := by
      rcases hj with hj | hj
      · left
        refine lt_of_le_of_ne hle fun heq => ?_
        have hself := (takeWhile_sublist fitsInMemory).eq_of_length ((congrArg length hes).trans heq)
        rw [all_eq_true.mpr (takeWhile_eq_self_iff.mp hself)] at hj
        cases hj
      · right
        simp only [length_append, length_encodeLE] at hj
        omega
    simp only [hcount, hrest, decodeLE_word h.count]
    rw [readBuckets_take (fun e he => h.fits e (hes ▸ he)) hle hshort, getD_none]

end SciDB.Util
