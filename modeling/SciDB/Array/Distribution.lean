import SciDB.Lib.Words

/-!
# Distributions and residencies

An `ArrayDistribution` gives a number to each chunk, an `ArrayResidency` the physical instances of these numbers. Both throw on
numbers out of range, here with an `ArrayFault`.
-/

namespace SciDB.Array

open SciDB.Lib List

/-- An instance. -/
abbrev InstanceID := ℕ

/-- Why a chunk has no place. -/
inductive ArrayFault where
  | invalidLogicalInstanceId
  | noLocation
deriving DecidableEq, Repr

/-- A dimension of an array. -/
structure DimensionDesc where
  startMin : ℤ
  endMax : ℤ
  chunkInterval : ℤ
deriving DecidableEq, Repr

namespace DimensionDesc

/-- The number of cells. -/
def getLength (d : DimensionDesc) : ℕ := ((d.endMax - d.startMin + 1) % 2 ^ 64).toNat

/-- The number of a chunk. -/
def chunkNumber (d : DimensionDesc) (c : ℤ) : ℕ := ((c - d.startMin).tdiv d.chunkInterval % 2 ^ 64).toNat

def blockNumber (d : DimensionDesc) (c : ℤ) (nInstances : ℕ) : ℕ :=
  let interval := (d.chunkInterval % 2 ^ 64).toNat
  d.chunkNumber c / (wsub (wrap (wsub (wrap (d.getLength + interval)) 1 / interval + nInstances)) 1 / nInstances)

end DimensionDesc

structure ArrayDistribution where
  redundancy : ℕ
  getPrimaryChunkLocation : List ℤ → List DimensionDesc → ℕ → Except ArrayFault InstanceID

/-- Every chunk has a place. -/
def ArrayDistribution.Places (dist : ArrayDistribution) : Prop :=
  ∀ pos dims nInstances, pos ≠ [] → dims ≠ [] → 0 < nInstances →
    ∃ i < nInstances, dist.getPrimaryChunkLocation pos dims nInstances = .ok i

def getHashedChunkNumber (dims : List DimensionDesc) (pos : List ℤ) : ℕ :=
  (pos.zip dims).foldl (fun no cd => wrap (no * 1013) ^^^ cd.2.chunkNumber cd.1) 0

variable (redundancy : ℕ)

/-- Chunks by the hash. -/
def hashedArrayDistribution : ArrayDistribution where
  redundancy := redundancy
  getPrimaryChunkLocation pos dims nInstances := .ok (getHashedChunkNumber dims pos % nInstances)

def byColumnArrayDistribution : ArrayDistribution where
  redundancy := redundancy
  getPrimaryChunkLocation pos dims nInstances :=
    match pos, dims with
    | _ :: c :: _, _ :: d :: _ => .ok (d.blockNumber c nInstances % nInstances)
    | _, _ => .ok (0 % nInstances)

def byRowArrayDistribution : ArrayDistribution where
  redundancy := redundancy
  getPrimaryChunkLocation pos dims nInstances :=
    match pos, dims with
    | c :: _, d :: _ => .ok (d.blockNumber c nInstances % nInstances)
    | _, _ => .error .noLocation

lemma hashedArrayDistribution_places : (hashedArrayDistribution redundancy).Places :=
  fun _ _ _ _ _ hn => ⟨_, Nat.mod_lt _ hn, rfl⟩

lemma byColumnArrayDistribution_places : (byColumnArrayDistribution redundancy).Places := by
  intro pos dims nInstances _ _ hn
  simp only [byColumnArrayDistribution]
  split
  · exact ⟨_, Nat.mod_lt _ hn, rfl⟩
  · exact ⟨_, Nat.mod_lt _ hn, rfl⟩

lemma byRowArrayDistribution_places : (byRowArrayDistribution redundancy).Places := by
  intro pos dims nInstances hpos hdims hn
  obtain ⟨c, pos, rfl⟩ := exists_cons_of_ne_nil hpos
  obtain ⟨d, dims, rfl⟩ := exists_cons_of_ne_nil hdims
  exact ⟨_, Nat.mod_lt _ hn, rfl⟩

/-- The instances of an array. -/
structure ArrayResidency where
  instances : List InstanceID
  nonempty : instances ≠ []
  ordered : instances.Pairwise (· < ·)

namespace ArrayResidency

variable (res : ArrayResidency)

/-- The number of instances. -/
def size : ℕ := res.instances.length

def getPhysicalInstanceAt (i : InstanceID) : Except ArrayFault InstanceID :=
  match res.instances[i]? with
  | some p => .ok p
  | none => .error .invalidLogicalInstanceId

lemma size_pos : 0 < res.size := length_pos_iff.mpr res.nonempty

lemma nodup : res.instances.Nodup := res.ordered.imp fun h => h.ne

lemma getPhysicalInstanceAt_eq_ok {res : ArrayResidency} {i p : InstanceID} :
    res.getPhysicalInstanceAt i = .ok p ↔ res.instances[i]? = some p := by
  rw [getPhysicalInstanceAt]
  split <;> simp [*]

end ArrayResidency

/-- The instances below `n`. -/
def consecutiveArrayResidency (n : ℕ) (hn : 0 < n) : ArrayResidency where
  instances := List.range n
  nonempty := by
    rw [ne_eq, List.range_eq_nil]
    exact hn.ne'
  ordered := List.pairwise_lt_range

end SciDB.Array
