import SciDB.Array.Distribution
import SciDB.Lib.Probing
import SciDB.Smgr.ChunkMap

/-!
# Replicas, and who answers for a chunk

The copies of a chunk are placed by hashing and linear probing. Every instance that has one decides on its own whether it
answers for the chunk, with an array of `MAX_REDUNDANCY + 1` places.
-/

namespace SciDB.Smgr

open SciDB.Lib SciDB.Array List Option Nat

def maxRedundancy : ℕ := 8

def maxInstanceBits : ℕ := 10

inductive ReplicaFault where
  | array (fault : ArrayFault)
  | invalidRedundancy
  /-- A write past the end of an array, after which nothing is certain. -/
  | overrun
  | diverges
deriving DecidableEq, Repr

/-- What placement reads. -/
structure ArrayPlacement where
  dimensions : List DimensionDesc
  distribution : ArrayDistribution
  residency : ArrayResidency

/-- A Fibonacci hash. -/
def fibHash64 (key fibB : ℕ) : ℕ := wrap (key * 11400714819323198485) >>> (64 - fibB)

namespace ArrayPlacement

/-- Copies besides the primary. -/
def redundancy (desc : ArrayPlacement) : ℕ := desc.distribution.redundancy

variable (desc : ArrayPlacement)

/-- The number of instances. -/
def nInstances : ℕ := desc.residency.size

def getPhysicalInstanceAt (desc : ArrayPlacement) (i : InstanceID) : Except ReplicaFault InstanceID :=
  (desc.residency.getPhysicalInstanceAt i).mapError .array

/-- The primary instance. -/
def getPrimaryInstanceId (address : StorageAddress) : Except ReplicaFault InstanceID :=
  match desc.distribution.getPrimaryChunkLocation address.coords desc.dimensions desc.nInstances with
  | .error fault => .error (.array fault)
  | .ok i => desc.getPhysicalInstanceAt i

def OnReplica (replicas : List InstanceID) (i : InstanceID) : Prop :=
  ∃ r ∈ replicas, desc.residency.instances[i]? = some r

instance (desc : ArrayPlacement) (replicas : List InstanceID) : DecidablePred (desc.OnReplica replicas) :=
  fun i => inferInstanceAs (Decidable (∃ r ∈ replicas, desc.residency.instances[i]? = some r))

variable (address : StorageAddress)

def hashedInstance (replicas : List InstanceID) : InstanceID :=
  let nReplicas := desc.redundancy + 1
  let currReplica := replicas.length
  let chunkId := wrap (wrap (getHashedChunkNumber desc.dimensions address.coords * nReplicas) + currReplica)
  fibHash64 chunkId maxInstanceBits % desc.nInstances

def nextReplica (replicas : List InstanceID) : Except ReplicaFault InstanceID :=
  match probe desc.nInstances (desc.OnReplica replicas) desc.nInstances (desc.hashedInstance address replicas) with
  | none => .error .diverges
  | some i => desc.getPhysicalInstanceAt i

/-- Writes the next replica. -/
def store (capacity : ℕ) (replicas : List InstanceID) (r : InstanceID) : Except ReplicaFault (List InstanceID) :=
  if replicas.length < capacity then .ok (replicas ++ [r]) else .error .overrun

/-- The loop over the replicas. -/
def fillReplicas (desc : ArrayPlacement) (capacity : ℕ) (address : StorageAddress) :
    ℕ → List InstanceID → Except ReplicaFault (List InstanceID)
  | 0, replicas => .ok replicas
  | k + 1, replicas => do
    let r ← desc.nextReplica address replicas
    let replicas ← store capacity replicas r
    fillReplicas desc capacity address k replicas

/-- The instances of all replicas of a chunk, in an array of `capacity` places. -/
def getReplicasInstanceId (capacity : ℕ) (address : StorageAddress) : Except ReplicaFault (List InstanceID) := do
  let primary ← desc.getPrimaryInstanceId address
  let replicas ← store capacity [] primary
  if desc.nInstances ≤ desc.redundancy then .error .invalidRedundancy
  else desc.fillReplicas capacity address desc.redundancy replicas

/-- The instances with a copy. -/
def holders : Except ReplicaFault (List InstanceID) :=
  desc.getReplicasInstanceId (desc.redundancy + 1) address

end ArrayPlacement

/-- The header of a new chunk. -/
def ChunkHeader.calculateBoundaries (hdr : ChunkHeader) (desc : ArrayPlacement) (address : StorageAddress) :
    Except ReplicaFault ChunkHeader := do
  let primary ← desc.getPrimaryInstanceId address
  .ok { hdr with instanceId := primary }

/-- Which instances are alive. -/
structure Query where
  coordinatorLiveness : InstanceID → Option Bool

/-- Non-existent is dead. -/
def Query.isPhysicalInstanceDead (query : Query) (i : InstanceID) : Bool := (query.coordinatorLiveness i).getD true

/-- `self` is the first alive. -/
def answersFirst (self : InstanceID) (query : Query) : List InstanceID → Bool
  | [] => false
  | r :: replicas =>
    if r = self then true
    else if query.isPhysicalInstanceDead r = false then false
    else answersFirst self query replicas

/-- `self` answers for a chunk. -/
def isResponsibleFor (self : InstanceID) (desc : ArrayPlacement) (address : StorageAddress) (hdr : ChunkHeader)
    (query : Query) : Except ReplicaFault Bool :=
  if hdr.instanceId = self then .ok true
  else if query.isPhysicalInstanceDead hdr.instanceId = false then .ok false
  -- the only chunks that are not its own must be from the dead instance
  else if desc.redundancy = 1 then .ok true
  else do
    let replicas ← desc.getReplicasInstanceId (maxRedundancy + 1) address
    .ok (answersFirst self query replicas.tail)

namespace ArrayPlacement

variable {desc : ArrayPlacement} {address : StorageAddress} {replicas : List InstanceID} {k : ℕ} {p : InstanceID}

lemma nInstances_pos (desc : ArrayPlacement) : 0 < desc.nInstances := desc.residency.size_pos

lemma getPhysicalInstanceAt_of_getElem? {i : InstanceID} (h : desc.residency.instances[i]? = some p) :
    desc.getPhysicalInstanceAt i = .ok p := by
  rw [getPhysicalInstanceAt, ArrayResidency.getPhysicalInstanceAt_eq_ok.mpr h]
  rfl

lemma exists_not_onReplica (h : replicas.length < desc.nInstances) : ∃ i < desc.nInstances, ¬ desc.OnReplica replicas i := by
  by_contra hall
  push Not at hall
  have hsub : desc.residency.instances ⊆ replicas := by
    intro q hq
    obtain ⟨i, hi, rfl⟩ := getElem_of_mem hq
    obtain ⟨r, hr, heq⟩ := hall i hi
    rw [getElem?_eq_getElem hi, some_inj] at heq
    exact heq ▸ hr
  exact absurd (subperm_of_subset desc.residency.nodup hsub).length_le (not_le.mpr h)

lemma exists_nextReplica (address : StorageAddress) (h : replicas.length < desc.nInstances) :
    ∃ r, desc.nextReplica address replicas = .ok r ∧ r ∉ replicas := by
  have hstart : desc.hashedInstance address replicas < desc.nInstances := mod_lt _ desc.nInstances_pos
  obtain ⟨i, hprobe, hi, hfree⟩ := exists_probe (exists_not_onReplica h) hstart
  obtain ⟨r, hr⟩ : ∃ r, desc.residency.instances[i]? = some r := ⟨_, getElem?_eq_getElem hi⟩
  refine ⟨r, ?_, fun hmem => hfree ⟨r, hmem, hr⟩⟩
  rw [nextReplica, hprobe]
  exact getPhysicalInstanceAt_of_getElem? hr

lemma fillReplicas_spec (address : StorageAddress) (hnodup : replicas.Nodup) (hlen : replicas.length + k ≤ desc.nInstances) :
    ∃ added, added.length = k ∧ (replicas ++ added).Nodup ∧ ∀ capacity, replicas.length ≤ capacity →
      desc.fillReplicas capacity address k replicas =
        if replicas.length + k ≤ capacity then .ok (replicas ++ added) else .error .overrun := by
  induction k generalizing replicas with
  | zero =>
    refine ⟨[], rfl, (append_nil replicas).symm ▸ hnodup, fun capacity hcap => ?_⟩
    rw [add_zero, if_pos hcap, append_nil, fillReplicas]
  | succ k ih =>
    obtain ⟨r, hr, hnew⟩ := @exists_nextReplica desc replicas address (by omega)
    have hlen' : (replicas ++ [r]).length = replicas.length + 1 := by
      rw [length_append, length_singleton]
    obtain ⟨added, hadded, hnodup', hfill⟩ := @ih (replicas ++ [r]) (concat_eq_append ▸ hnodup.concat hnew) (by omega)
    rw [append_assoc] at hnodup' hfill
    refine ⟨r :: added, congrArg succ hadded, hnodup', fun capacity hcap => ?_⟩
    rw [fillReplicas, hr]
    simp only [bind, Except.bind, store]
    by_cases hroom : replicas.length < capacity
    · simp only [if_pos hroom]
      rw [hfill capacity (by omega), hlen', show replicas.length + 1 + k = replicas.length + (k + 1) by omega]
      rfl
    · rw [if_neg hroom, if_neg (by omega)]

/-- **The replicas are on different instances**; an array that is too small for them is overrun. -/
lemma getReplicasInstanceId_spec (hr : desc.redundancy < desc.nInstances) (hp : desc.getPrimaryInstanceId address = .ok p) :
    ∃ others, others.length = desc.redundancy ∧ (p :: others).Nodup ∧ ∀ capacity, desc.getReplicasInstanceId capacity address =
        if desc.redundancy < capacity then .ok (p :: others) else .error .overrun := by
  obtain ⟨others, hlen, hnodup, hfill⟩ := @fillReplicas_spec desc [p] desc.redundancy address (nodup_singleton p)
    (by rw [length_singleton]; omega)
  refine ⟨others, hlen, hnodup, fun capacity => ?_⟩
  rw [getReplicasInstanceId, hp]
  simp only [bind, Except.bind, store, length_nil, nil_append, if_neg (not_le.mpr hr)]
  by_cases hcap : 0 < capacity
  · simp only [if_pos hcap]
    rw [hfill capacity hcap, length_singleton, add_comm 1]
    rfl
  · rw [if_neg hcap, if_neg (by omega)]

end ArrayPlacement

lemma ChunkHeader.calculateBoundaries_primary {hdr0 hdr : ChunkHeader} {desc : ArrayPlacement}
    {address : StorageAddress} (h : hdr0.calculateBoundaries desc address = .ok hdr) :
    desc.getPrimaryInstanceId address = .ok hdr.instanceId := by
  rw [calculateBoundaries] at h
  cases hp : desc.getPrimaryInstanceId address with
  | error fault =>
    rw [hp] at h
    cases h
  | ok p =>
    rw [hp] at h
    cases h
    rfl

section Responsible

variable {desc : ArrayPlacement} {address : StorageAddress} {hdr : ChunkHeader} {query : Query}
  {others : List InstanceID} {self : InstanceID}

lemma answersFirst_iff (hself : query.isPhysicalInstanceDead self = false) :
    answersFirst self query others = true ↔ others.find? (!query.isPhysicalInstanceDead ·) = some self := by
  induction others with
  | nil => simp [answersFirst]
  | cons r others ih =>
    rw [answersFirst]
    by_cases hr : r = self
    · subst hr
      rw [if_pos rfl, find?_cons_of_pos (by rw [hself]; rfl)]
      simp only
    · rw [if_neg hr]
      cases hdead : query.isPhysicalInstanceDead r with
      | false =>
        rw [if_pos rfl, find?_cons_of_pos (by rw [hdead]; rfl), some_inj]
        simp only [hr, Bool.false_eq_true]
      | true =>
        rwa [if_neg (by decide), find?_cons_of_neg (by rw [hdead]; decide)]

lemma isResponsibleFor_iff (hlen : others.length = desc.redundancy)
    (hreplicas : ∀ capacity, desc.getReplicasInstanceId capacity address =
      if desc.redundancy < capacity then .ok (hdr.instanceId :: others) else .error .overrun)
    (hself : query.isPhysicalInstanceDead self = false) (hmem : self ∈ hdr.instanceId :: others) :
    isResponsibleFor self desc address hdr query = .ok true ↔
      self = hdr.instanceId ∨ query.isPhysicalInstanceDead hdr.instanceId = true ∧ desc.redundancy ≤ maxRedundancy ∧
        others.find? (!query.isPhysicalInstanceDead ·) = some self := by
  rw [isResponsibleFor]
  by_cases hown : hdr.instanceId = self
  · rw [if_pos hown]
    exact iff_of_true rfl (.inl hown.symm)
  rw [if_neg hown]
  have hother : self ∈ others := (mem_cons.mp hmem).resolve_left (Ne.symm hown)
  cases hdead : query.isPhysicalInstanceDead hdr.instanceId with
  | false => simp [Ne.symm hown]
  | true =>
    simp only [Bool.true_eq_false, if_false, Ne.symm hown, false_or, true_and]
    by_cases hone : desc.redundancy = 1
    · -- the other copy is the only one
      obtain ⟨r, rfl⟩ := length_eq_one_iff.mp (hlen.trans hone)
      rw [mem_singleton.mp hother] at hself ⊢
      simp [hone, hself, maxRedundancy]
    · rw [if_neg hone, hreplicas, ← answersFirst_iff hself]
      by_cases hfits : desc.redundancy < maxRedundancy + 1
      · simp [hfits, le_of_lt_succ hfits, bind, Except.bind]
      · have hlarge : ¬ desc.redundancy ≤ maxRedundancy := fun h => hfits (lt_succ_of_le h)
        simp [hfits, hlarge, bind, Except.bind]

/-- **Exactly one instance answers for a chunk if and only if the replicas fit in the array, or the primary instance is alive.** -/
theorem isResponsibleFor_unique_iff {hdr₀ : ChunkHeader} (hr : desc.redundancy < desc.nInstances)
    (hhdr : hdr₀.calculateBoundaries desc address = .ok hdr) :
    ∃ holders, desc.holders address = .ok holders ∧ holders.length = desc.redundancy + 1 ∧ holders.Nodup ∧
      ∀ query : Query, (∃ h ∈ holders, query.isPhysicalInstanceDead h = false) →
        ((∃! h, h ∈ holders ∧ query.isPhysicalInstanceDead h = false ∧ isResponsibleFor h desc address hdr query = .ok true) ↔
            desc.redundancy ≤ maxRedundancy ∨ query.isPhysicalInstanceDead hdr.instanceId = false) := by
  have hp := ChunkHeader.calculateBoundaries_primary hhdr
  obtain ⟨others, hlen, hnodup, hreplicas⟩ := ArrayPlacement.getReplicasInstanceId_spec hr hp
  refine ⟨hdr.instanceId :: others, ?_, congrArg succ hlen, hnodup, fun query hlive => ?_⟩
  · rw [ArrayPlacement.holders, hreplicas, if_pos (lt_succ_self _)]
  have hiff := fun self => @isResponsibleFor_iff desc address hdr query others self hlen hreplicas
  cases hdead : query.isPhysicalInstanceDead hdr.instanceId with
  | false =>
    refine iff_of_true ⟨hdr.instanceId, ⟨mem_cons_self, hdead, ?_⟩, ?_⟩ (Or.inr rfl)
    · exact (hiff _ hdead mem_cons_self).mpr (Or.inl rfl)
    · rintro h ⟨hmem, halive, hresp⟩
      rcases (hiff h halive hmem).mp hresp with rfl | ⟨hdead', -⟩
      · rfl
      · cases hdead.symm.trans hdead'
  | true =>
    have hne : ∀ h, query.isPhysicalInstanceDead h = false → h ≠ hdr.instanceId := by
      rintro h halive rfl
      cases hdead.symm.trans halive
    obtain ⟨h, hmem, halive⟩ := hlive
    have hmem' : h ∈ others := (mem_cons.mp hmem).resolve_left (hne h halive)
    obtain ⟨first, hfirst⟩ : ∃ first, others.find? (!query.isPhysicalInstanceDead ·) = some first := by
      rw [← isSome_iff_exists, find?_isSome]
      exact ⟨h, hmem', by rw [halive]; rfl⟩
    have hfalive : query.isPhysicalInstanceDead first = false := by simpa using find?_some hfirst
    constructor
    · rintro ⟨g, ⟨hg, hgalive, hresp⟩, -⟩
      rcases (hiff g hgalive hg).mp hresp with hprimary | ⟨-, hle, -⟩
      · exact absurd hprimary (hne g hgalive)
      · exact Or.inl hle
    · rintro (hle | hfalse)
      · have hfmem := mem_cons_of_mem hdr.instanceId (mem_of_find?_eq_some hfirst)
        refine ⟨first, ⟨hfmem, hfalive, (hiff first hfalive hfmem).mpr (Or.inr ⟨hdead, hle, hfirst⟩)⟩, ?_⟩
        rintro g ⟨hg, hgalive, hresp⟩
        rcases (hiff g hgalive hg).mp hresp with hprimary | ⟨-, -, hg⟩
        · exact absurd hprimary (hne g hgalive)
        · exact some_inj.mp (hg.symm.trans hfirst)
      · cases hfalse

end Responsible

def tenInstances (redundancy : ℕ) : ArrayPlacement :=
  ⟨[⟨0, 999, 10⟩], hashedArrayDistribution redundancy, consecutiveArrayResidency 10 (by decide)⟩

/-- The first chunk. -/
def firstAddress : StorageAddress := ⟨0, [0], 1⟩

/-- Only instance 0 is dead. -/
def zeroDead : Query := ⟨fun i => if i < 10 then some (i = 0) else none⟩

theorem tenInstances_unique : ∃ holders, (tenInstances 2).holders firstAddress = .ok holders ∧
    ∃! h, h ∈ holders ∧ zeroDead.isPhysicalInstanceDead h = false ∧
      isResponsibleFor h (tenInstances 2) firstAddress ChunkHeader.zero zeroDead = .ok true := by
  obtain ⟨holders, hholders, -, -, h⟩ := @isResponsibleFor_unique_iff (tenInstances 2) firstAddress ChunkHeader.zero
    ChunkHeader.zero (by decide) rfl
  have hlive : (tenInstances 2).holders firstAddress = .ok [0, 2, 1] := by decide +kernel
  rw [hlive] at hholders
  cases hholders
  exact ⟨_, hlive, (h zeroDead ⟨2, by decide, rfl⟩).mpr (Or.inl (by decide))⟩

/-- With nine more copies, none of the nine instances that are alive comes to an answer. -/
theorem tenInstances_overrun : ∃ holders, (tenInstances 9).holders firstAddress = .ok holders ∧
    (∀ h < 10, h ∈ holders) ∧ ∀ h < 10, h ≠ 0 → zeroDead.isPhysicalInstanceDead h = false ∧
      isResponsibleFor h (tenInstances 9) firstAddress ChunkHeader.zero zeroDead = .error .overrun := by
  refine ⟨_, rfl, ?_, ?_⟩
  · decide +kernel
  · decide +kernel

end SciDB.Smgr
