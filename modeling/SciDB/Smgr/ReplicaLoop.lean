import SciDB.Smgr.Replicas

/-!
# The loops of `getReplicasInstanceId`

One loop over the replicas that have been placed; whenever one is on the instance, it goes on to the next instance and starts
again, by an unsigned index of -1. Replicas stay written when the function throws.
-/

namespace SciDB.Smgr

open SciDB.Lib SciDB.Array List

namespace ArrayPlacement

/-- `j++` for a `size_t`. -/
def incr (j : ℕ) : ℕ := (j + 1) % 2 ^ 64

/-- `size_t(-1)`. -/
def minusOne : ℕ := 2 ^ 64 - 1

/-- The loop up to replica `i`. -/
def probeLoop (desc : ArrayPlacement) (replicas : List InstanceID) (i : ℕ) : ℕ → InstanceID → ℕ → Except ReplicaFault InstanceID
  | 0, _, _ => .error .diverges
  | fuel + 1, instanceId, j =>
    if j ≤ i then
      match desc.getPhysicalInstanceAt instanceId with
      | .error e => .error e
      | .ok p =>
        if replicas[j]? = some p then probeLoop desc replicas i fuel ((instanceId + 1) % desc.nInstances) (incr minusOne)
        else probeLoop desc replicas i fuel instanceId (incr j)
    else .ok instanceId

/-- The loop over the replicas. -/
def placeReplicas (desc : ArrayPlacement) (address : StorageAddress) (fuel : ℕ) :
    ℕ → List InstanceID → List InstanceID × Option ReplicaFault
  | 0, replicas => (replicas, none)
  | k + 1, replicas =>
    match desc.probeLoop replicas (replicas.length - 1) fuel (desc.hashedInstance address replicas) 0 with
    | .error e => (replicas, some e)
    | .ok instanceId =>
      match desc.getPhysicalInstanceAt instanceId with
      | .error e => (replicas, some e)
      | .ok p => placeReplicas desc address fuel k (replicas ++ [p])

/-- `getReplicasInstanceId`, with a bound on the passes of each inner loop. -/
def getReplicas (desc : ArrayPlacement) (address : StorageAddress) (fuel : ℕ) : List InstanceID × Option ReplicaFault :=
  match desc.getPrimaryInstanceId address with
  | .error e => ([], some e)
  | .ok primary =>
    if desc.nInstances ≤ desc.redundancy then ([primary], some .invalidRedundancy)
    else desc.placeReplicas address fuel desc.redundancy [primary]

variable {desc : ArrayPlacement} {address : StorageAddress} {replicas : List InstanceID} {p : InstanceID} {i j fuel : ℕ}
  {id r : InstanceID}

lemma incr_eq (h : j + 1 < 2 ^ 64) : incr j = j + 1 := Nat.mod_eq_of_lt h

lemma incr_minusOne : incr minusOne = 0 := by decide

lemma probeLoop_free {id : InstanceID} (hp : desc.getPhysicalInstanceAt id = .ok p) (hfree : p ∉ replicas) (hi : i + 2 < 2 ^ 64)
    (hj : j ≤ i + 1) (hfuel : i + 2 ≤ fuel + j) : desc.probeLoop replicas i fuel id j = .ok id := by
  induction fuel generalizing j with
  | zero => omega
  | succ fuel ih =>
    rw [probeLoop]
    by_cases hji : j ≤ i
    · rw [if_pos hji, hp]
      dsimp only
      rw [if_neg fun hget => hfree (mem_of_getElem? hget), incr_eq (by omega)]
      exact ih (by omega) (by omega)
    · rw [if_neg hji]

lemma probeLoop_taken {id : InstanceID} (hp : desc.getPhysicalInstanceAt id = .ok p) (hi : i + 2 < 2 ^ 64) {d : ℕ}
    (hlen : replicas.length = i + 1) (hmem : p ∈ replicas.drop j) (hd : d = i + 1 - j) (hj : j ≤ i + 1) :
    ∃ used ≤ d, ∀ fuel, desc.probeLoop replicas i (fuel + used) id j =
      desc.probeLoop replicas i fuel ((id + 1) % desc.nInstances) 0 := by
  induction d generalizing j with
  | zero =>
    rw [drop_of_length_le (by omega)] at hmem
    cases hmem
  | succ d ih =>
    have hlt : j < replicas.length := by omega
    by_cases hget : replicas[j]? = some p
    · refine ⟨1, by omega, fun fuel => ?_⟩
      rw [probeLoop, if_pos (by omega), hp]
      dsimp only
      rw [if_pos hget, incr_minusOne]
    · rw [drop_eq_getElem_cons hlt, mem_cons] at hmem
      have hrest := hmem.resolve_left fun heq => hget (by rw [getElem?_eq_getElem hlt, heq])
      obtain ⟨used, hused, hloop⟩ := @ih (j + 1) hrest (by omega) (by omega)
      refine ⟨used + 1, by omega, fun fuel => ?_⟩
      rw [← add_assoc, probeLoop, if_pos (by omega), hp]
      dsimp only
      rw [if_neg hget, incr_eq (by omega), hloop]

lemma probeLoop_mono {more : ℕ} (h : desc.probeLoop replicas i fuel id j = .ok r) :
    desc.probeLoop replicas i (fuel + more) id j = .ok r := by
  induction fuel generalizing id j with
  | zero => cases h
  | succ fuel ih =>
    rw [probeLoop] at h
    rw [add_right_comm, probeLoop]
    by_cases hji : j ≤ i
    · rw [if_pos hji] at h ⊢
      cases hp : desc.getPhysicalInstanceAt id with
      | error e =>
        rw [hp] at h
        cases h
      | ok p =>
        rw [hp] at h
        dsimp only at h ⊢
        split_ifs at h ⊢
        · exact ih h
        · exact ih h
    · rw [if_neg hji] at h ⊢
      exact h

lemma probeLoop_eq_probe {tries : ℕ} (hlen : replicas.length = i + 1) (hi : i + 2 < 2 ^ 64)
    (hid : id < desc.nInstances) (h : probe desc.nInstances (desc.OnReplica replicas) tries id = some r) :
    desc.probeLoop replicas i (tries * (i + 2)) id 0 = .ok r := by
  induction tries generalizing id with
  | zero => cases h
  | succ tries ih =>
    obtain ⟨p, hget⟩ : ∃ p, desc.residency.instances[id]? = some p := ⟨_, getElem?_eq_getElem hid⟩
    have hp := getPhysicalInstanceAt_of_getElem? hget
    rw [probe] at h
    split_ifs at h with htaken
    · obtain ⟨q, hq, hgetq⟩ := htaken
      obtain rfl : p = q := Option.some.inj (hget.symm.trans hgetq)
      obtain ⟨used, hused, hloop⟩ := probeLoop_taken (j := 0) hp hi hlen hq rfl (Nat.zero_le _)
      have hsplit : (tries + 1) * (i + 2) = (tries * (i + 2) + (i + 2 - used)) + used := by
        rw [Nat.succ_mul]
        omega
      rw [hsplit, hloop]
      exact probeLoop_mono (ih (Nat.mod_lt _ desc.nInstances_pos) h)
    · cases h
      refine probeLoop_free hp (fun hmem => htaken ⟨p, hmem, hget⟩) hi (Nat.zero_le _) ?_
      rw [Nat.succ_mul]
      omega

lemma exists_probeLoop (address : StorageAddress) (hsize : desc.nInstances < 2 ^ 64) (hne : replicas ≠ [])
    (h : replicas.length < desc.nInstances) :
    ∃ id p, desc.residency.instances[id]? = some p ∧ p ∉ replicas ∧ desc.nextReplica address replicas = .ok p ∧
      ∀ fuel, desc.nInstances * (desc.nInstances + 1) ≤ fuel →
        desc.probeLoop replicas (replicas.length - 1) fuel (desc.hashedInstance address replicas) 0 = .ok id := by
  have hpos : 0 < replicas.length := length_pos_iff.mpr hne
  have hstart : desc.hashedInstance address replicas < desc.nInstances := Nat.mod_lt _ desc.nInstances_pos
  obtain ⟨id, hprobe, hid, hfree⟩ := exists_probe (exists_not_onReplica h) hstart
  have hloop := probeLoop_eq_probe (i := replicas.length - 1) (by omega) (by omega) hstart hprobe
  obtain ⟨p, hget⟩ : ∃ p, desc.residency.instances[id]? = some p := ⟨_, getElem?_eq_getElem hid⟩
  have hnext : desc.nextReplica address replicas = .ok p := by
    rw [nextReplica, hprobe]
    exact getPhysicalInstanceAt_of_getElem? hget
  refine ⟨id, p, hget, fun hmem => hfree ⟨_, hmem, hget⟩, hnext, fun fuel hfuel => ?_⟩
  have hle : desc.nInstances * (replicas.length - 1 + 2) ≤ fuel := le_trans (Nat.mul_le_mul_left _ (by omega)) hfuel
  rw [← Nat.add_sub_cancel' hle]
  exact probeLoop_mono hloop

lemma exists_placeReplicas (address : StorageAddress) (hsize : desc.nInstances < 2 ^ 64) (hne : replicas ≠ [])
    (hnodup : replicas.Nodup) {k : ℕ} (hlen : replicas.length + k ≤ desc.nInstances) :
    ∃ added, added.length = k ∧ (replicas ++ added).Nodup ∧ (∀ q ∈ added, q ∈ desc.residency.instances) ∧
      (∀ capacity, replicas.length + k ≤ capacity → desc.fillReplicas capacity address k replicas = .ok (replicas ++ added)) ∧
      ∀ fuel, desc.nInstances * (desc.nInstances + 1) ≤ fuel →
        desc.placeReplicas address fuel k replicas = (replicas ++ added, none) := by
  induction k generalizing replicas with
  | zero =>
    rw [← append_nil replicas] at hnodup
    refine ⟨[], rfl, hnodup, by simp, fun capacity _ => ?_, fun fuel _ => ?_⟩
    · rw [append_nil, fillReplicas]
    · rw [append_nil, placeReplicas]
  | succ k ih =>
    obtain ⟨id, p, hget, hnew, hnext, hloop⟩ := exists_probeLoop address hsize hne (by omega)
    have hlen' : (replicas ++ [p]).length = replicas.length + 1 := by rw [length_append, length_singleton]
    obtain ⟨added, hadded, hnodup', hmem, hfill, hplace⟩ := @ih (replicas ++ [p]) (by simp)
      (concat_eq_append ▸ hnodup.concat hnew) (by omega)
    rw [append_assoc] at hnodup' hfill hplace
    refine ⟨p :: added, congrArg Nat.succ hadded, hnodup', ?_, fun capacity hcap => ?_, fun fuel hfuel => ?_⟩
    · exact forall_mem_cons.mpr ⟨mem_of_getElem? hget, hmem⟩
    · rw [fillReplicas, hnext]
      simp only [bind, Except.bind, store]
      rw [if_pos (by omega)]
      exact hfill capacity (by omega)
    · rw [placeReplicas, hloop fuel hfuel]
      dsimp only
      rw [getPhysicalInstanceAt_of_getElem? hget]
      exact hplace fuel hfuel

lemma mem_of_getPrimaryInstanceId (h : desc.getPrimaryInstanceId address = .ok p) : p ∈ desc.residency.instances := by
  rw [getPrimaryInstanceId] at h
  split at h
  · cases h
  · next id _ =>
    rw [getPhysicalInstanceAt] at h
    cases hget : desc.residency.getPhysicalInstanceAt id with
    | error e =>
      rw [hget] at h
      cases h
    | ok q =>
      rw [hget] at h
      cases h
      exact mem_of_getElem? (ArrayResidency.getPhysicalInstanceAt_eq_ok.mp hget)

/-- **The two models of the function agree**, in an array that has room for the replicas. -/
lemma getReplicas_eq (hsize : desc.nInstances < 2 ^ 64) (address : StorageAddress) {capacity : ℕ}
    (hcap : desc.redundancy < capacity) (hfuel : desc.nInstances * (desc.nInstances + 1) ≤ fuel) :
    (match desc.getReplicas address fuel with
      | (replicas, none) => .ok replicas
      | (_, some e) => .error e) = desc.getReplicasInstanceId capacity address := by
  rw [getReplicas, getReplicasInstanceId]
  cases desc.getPrimaryInstanceId address with
  | error e => rfl
  | ok p =>
    simp only [bind, Except.bind, store, length_nil, nil_append, if_pos (show 0 < capacity by omega)]
    by_cases hr : desc.nInstances ≤ desc.redundancy
    · rw [if_pos hr, if_pos hr]
    · rw [if_neg hr, if_neg hr]
      obtain ⟨others, -, -, -, hfill, hplace⟩ := @exists_placeReplicas desc [p] address hsize (by simp)
        (nodup_singleton p) desc.redundancy (by rw [length_singleton]; omega)
      rw [hplace fuel hfuel, hfill capacity (by rw [length_singleton]; omega)]

/-- **The placement of replicas.** With enough instances the loops end, and the replicas are different instances; else the
function throws. -/
theorem getReplicas_distinct (hsize : desc.nInstances < 2 ^ 64) (address : StorageAddress) :
    match desc.getPrimaryInstanceId address with
    | .error e => ∀ fuel, desc.getReplicas address fuel = ([], some e)
    | .ok p =>
      if desc.redundancy < desc.nInstances then
        ∃ others, others.length = desc.redundancy ∧ (p :: others).Nodup ∧ (∀ q ∈ p :: others, q ∈ desc.residency.instances) ∧
          ∃ bound, ∀ fuel, bound ≤ fuel → desc.getReplicas address fuel = (p :: others, none)
      else ∀ fuel, desc.getReplicas address fuel = ([p], some .invalidRedundancy) := by
  cases hp : desc.getPrimaryInstanceId address with
  | error e =>
    intro fuel
    rw [getReplicas, hp]
  | ok p =>
    split_ifs with hr
    · obtain ⟨others, hlen, hnodup, hmem, -, hplace⟩ := @exists_placeReplicas desc [p] address hsize (by simp)
        (nodup_singleton p) desc.redundancy (by rw [length_singleton]; omega)
      refine ⟨others, hlen, hnodup, forall_mem_cons.mpr ⟨?_, hmem⟩, desc.nInstances * (desc.nInstances + 1), fun fuel hfuel => ?_⟩
      · exact mem_of_getPrimaryInstanceId hp
      · rw [getReplicas, hp]
        dsimp only
        rw [if_neg (not_le.mpr hr)]
        exact hplace fuel hfuel
    · intro fuel
      rw [getReplicas, hp]
      dsimp only
      rw [if_pos (not_lt.mp hr)]

theorem tenInstances_places : ∃ others, others.length = 2 ∧ (0 :: others).Nodup ∧
    ∃ bound, ∀ fuel, bound ≤ fuel → (tenInstances 2).getReplicas firstAddress fuel = (0 :: others, none) := by
  have h := @getReplicas_distinct (tenInstances 2) (by decide) firstAddress
  rw [show (tenInstances 2).getPrimaryInstanceId firstAddress = .ok 0 from rfl] at h
  dsimp only at h
  rw [if_pos (by decide)] at h
  obtain ⟨others, hlen, hnodup, -, hbound⟩ := h
  exact ⟨others, hlen, hnodup, hbound⟩

end ArrayPlacement

end SciDB.Smgr
