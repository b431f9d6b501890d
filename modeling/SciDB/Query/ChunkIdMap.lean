import SciDB.Util.ArrayCoordinatesMapper
import SciDB.Lib.Radix

/-!
# Chunk ids of a redimension

`ChunkIdMap`: the direct map computes the id of a chunk from its position, the indirect one counts the positions it is asked
for, until `reverse` turns it around. `none` is a failed assertion, an exception or an id of more than 64 bits. Left out: the
arena and `clear`.
-/

namespace SciDB.Query

open List Util Lib Radices Option

/-- Chunk counts as radices. -/
def chunkRadices (dims : List Dimension) : Radices := dims.map fun d => (0, (chunkCount d : ℤ))

namespace DirectChunkIdMap

def idFrom (id : ℕ) : List Dimension → List ℤ → Option ℕ
  | d :: dims, x :: cpos =>
    let id' := id * chunkCount d + ((x - d.startMin) / d.chunkInterval).toNat
    if id' < 2 ^ 64 then idFrom id' dims cpos else none
  | _, _ => some id

/-- The chunk with an id. -/
def mapIdToChunkPos (dims : List Dimension) (id : ℕ) : List ℤ :=
  zipWith (fun d k => (k * d.chunkInterval + d.startMin).bmod (2 ^ 64)) dims (decode (chunkRadices dims) id).1

def totalChunks (total : ℕ) : List Dimension → Option ℕ
  | [] => some total
  | d :: dims =>
    let newTotal := total * chunkCount d % 2 ^ 64
    if newTotal / total ≠ chunkCount d then none else totalChunks newTotal dims

/-- A direct map is enough. -/
def useDirect (dims : List Dimension) : Bool := dims.all (·.endMax ≠ 2 ^ 62 - 1) && (totalChunks 1 dims).isSome

variable {dims : List Dimension} {cpos : List ℤ}

lemma chunkRadices_pos : ∀ s ∈ chunkRadices dims, 0 < s.2 := by
  rintro _ hs
  obtain ⟨d, -, rfl⟩ := mem_map.mp hs
  exact Int.natCast_pos.mpr (chunkCount_pos d)

lemma volume_lt_of_totalChunks {total : ℕ} (hpos : 0 < total) (hlt : total < 2 ^ 64)
    (h : (totalChunks total dims).isSome) : total * (chunkRadices dims).volume < 2 ^ 64 := by
  induction dims generalizing total with
  | nil => simpa [chunkRadices, volume] using hlt
  | cons d dims ih =>
    rw [totalChunks] at h
    split at h
    · cases h
    · rename_i hdiv
      rw [not_not] at hdiv
      have hle := Nat.div_mul_le_self (total * chunkCount d % 2 ^ 64) total
      rw [hdiv, mul_comm] at hle
      have heq : total * chunkCount d % 2 ^ 64 = total * chunkCount d := (Nat.mod_le ..).antisymm hle
      rw [heq] at h
      have hrest := ih (Nat.mul_pos hpos (chunkCount_pos d)) (heq ▸ Nat.mod_lt _ (by decide)) h
      rw [Nat.cast_mul, mul_assoc] at hrest
      exact (congrArg ((total : ℤ) * ·) prod_cons).trans_lt hrest

/-- The numbers of a chunk. -/
def offsets (dims : List Dimension) (cpos : List ℤ) : List ℤ :=
  zipWith (fun d x => (x - d.startMin) / d.chunkInterval) dims cpos

lemma mem_offsets (h : IsChunkPos dims cpos) : (chunkRadices dims).Mem (offsets dims cpos) := by
  induction h with
  | nil => exact .nil
  | @cons d x _ _ hx _ ih =>
    obtain ⟨k, hk, rfl⟩ := hx
    refine .cons ?_ ih
    dsimp only
    rw [chunkStart, add_sub_cancel_right, Int.mul_ediv_cancel _ d.interval_pos.ne']
    omega

lemma idFrom_eq (h : IsChunkPos dims cpos) {id : ℕ} (hlt : encodeFrom id (chunkRadices dims) (offsets dims cpos) < 2 ^ 64) :
    ∃ n : ℕ, idFrom id dims cpos = some n ∧ n = encodeFrom id (chunkRadices dims) (offsets dims cpos) := by
  induction h generalizing id with
  | nil => exact ⟨id, rfl, rfl⟩
  | @cons d x dims cpos hx hrest ih =>
    obtain ⟨k, -, rfl⟩ := hx
    have hstep : encodeFrom id (chunkRadices (d :: dims)) (offsets (d :: dims) (chunkStart d k :: cpos)) =
        encodeFrom (id * chunkCount d + k : ℕ) (chunkRadices dims) (offsets dims cpos) := by
      simp [chunkRadices, offsets, encodeFrom, chunkStart, Int.mul_ediv_cancel _ d.interval_pos.ne']
    rw [hstep] at hlt ⊢
    have hle := le_encodeFrom chunkRadices_pos (mem_offsets hrest) (Int.natCast_nonneg (id * chunkCount d + k))
    rw [idFrom, chunkNo_chunkStart, if_pos (by omega)]
    exact ih hlt

lemma mapIdToChunkPos_encodeFrom (h : IsChunkPos dims cpos) {id : ℕ}
    (hid : id = encodeFrom 0 (chunkRadices dims) (offsets dims cpos)) : mapIdToChunkPos dims id = cpos := by
  rw [mapIdToChunkPos, hid, decode_encodeFrom chunkRadices_pos (mem_offsets h) le_rfl]
  clear hid
  induction h with
  | nil => rfl
  | @cons d x dims cpos hx _ ih =>
    obtain ⟨k, hk, rfl⟩ := hx
    have hin : k * d.chunkInterval ≤ d.endMax - d.startMin := by
      refine (mul_le_mul_of_nonneg_right ?_ d.interval_pos.le).trans (Int.ediv_mul_le _ d.interval_pos.ne')
      have := Int.ediv_nonneg (sub_nonneg.mpr d.start_le) d.interval_pos.le
      unfold chunkCount at hk
      omega
    have hnonneg := mul_nonneg (Int.natCast_nonneg k) d.interval_pos.le
    have := d.min_le
    have := d.le_max
    refine congrArg₂ cons ?_ ih
    dsimp only
    rw [chunkStart, add_sub_cancel_right, Int.mul_ediv_cancel _ d.interval_pos.ne']
    exact Int.bmod_eq_of_le (by omega) (by omega)

end DirectChunkIdMap

/-- `_posToId`. -/
structure IndirectChunkIdMap where
  posToId : List (List ℤ × ℕ)
  nodup : (posToId.map Prod.fst).Nodup
  ids : posToId.map Prod.snd = range posToId.length

namespace IndirectChunkIdMap

variable (m : IndirectChunkIdMap) (chunkOverhead chunkOverheadLimit : ℕ)

/-- The number of ids. -/
def size : ℕ := m.posToId.length

/-- A new position gets an id. -/
def insert (pos : List ℤ) (h : m.posToId.lookup pos = none) : IndirectChunkIdMap where
  posToId := m.posToId ++ [(pos, m.size)]
  nodup := by
    rw [lookup_eq_none_iff] at h
    rw [map_append, map_singleton, nodup_append]
    refine ⟨m.nodup, nodup_singleton _, ?_⟩
    rintro _ ha _ hb rfl
    obtain ⟨kv, hkv, rfl⟩ := mem_map.mp ha
    exact bne_iff_ne.mp (h kv hkv) (mem_singleton.mp hb).symm
  ids := by rw [map_append, m.ids, length_append, length_singleton, range_succ]; rfl

/-- The id of a position. -/
def mapChunkPosToId (pos : List ℤ) : Option (IndirectChunkIdMap × ℕ) :=
  match h : m.posToId.lookup pos with
  | some id => some (m, id)
  | none =>
    if chunkOverheadLimit ≠ 0 ∧
        chunkOverheadLimit * 2 ^ 20 % 2 ^ 64 < (m.insert pos h).size * chunkOverhead % 2 ^ 64 then none
    else some (m.insert pos h, m.size)

/-- `_idToPos` as `reverse` fills it. -/
def reverse : List (List ℤ) := m.posToId.foldl (fun idToPos kv => idToPos.set kv.2 kv.1) (replicate m.size [])

variable {m} {chunkOverhead chunkOverheadLimit} {m' : IndirectChunkIdMap} {pos : List ℤ} {id : ℕ}

lemma mem_of_mapChunkPosToId (h : m.mapChunkPosToId chunkOverhead chunkOverheadLimit pos = some (m', id)) :
    (pos, id) ∈ m'.posToId ∧ m.posToId ⊆ m'.posToId := by
  rw [mapChunkPosToId] at h
  split at h
  · rename_i hfound
    cases h
    obtain ⟨l₁, l₂, heq, -⟩ := lookup_eq_some_iff.mp hfound
    exact ⟨by simp [heq], Subset.refl _⟩
  · split_ifs at h
    cases h
    exact ⟨mem_append_right _ (mem_singleton_self _), subset_append_left ..⟩

lemma length_foldl_set (entries : List (List ℤ × ℕ)) (v : List (List ℤ)) :
    (entries.foldl (fun v kv => v.set kv.2 kv.1) v).length = v.length := by
  induction entries generalizing v with
  | nil => rfl
  | cons kv entries ih => rw [foldl_cons, ih, length_set]

lemma getElem?_foldl_set {entries : List (List ℤ × ℕ)} {v : List (List ℤ)} (hnodup : (entries.map Prod.snd).Nodup)
    (hmem : (pos, id) ∈ entries) (hlt : id < v.length) : (entries.foldl (fun v kv => v.set kv.2 kv.1) v)[id]? = some pos := by
  induction entries using reverseRecOn with
  | nil => cases hmem
  | append_singleton entries kv ih =>
    rw [map_append, nodup_append] at hnodup
    rw [foldl_append, foldl_cons, foldl_nil]
    rcases mem_append.mp hmem with hmem | hmem
    · have hne : kv.2 ≠ id := fun h => hnodup.2.2 id (mem_map_of_mem hmem) kv.2 (mem_singleton_self _) h.symm
      rw [getElem?_set_ne hne, ih hnodup.1 hmem]
    · rw [← mem_singleton.mp hmem, getElem?_set_self (by rwa [length_foldl_set])]

lemma getElem?_reverse (h : (pos, id) ∈ m.posToId) : m.reverse[id]? = some pos ∧ id < m.reverse.length := by
  have hlt : id < m.size := by
    rw [size, ← mem_range, ← m.ids]
    exact mem_map_of_mem h
  rw [reverse, length_foldl_set, length_replicate]
  exact ⟨getElem?_foldl_set (m.ids ▸ nodup_range) h (by rwa [length_replicate]), hlt⟩

end IndirectChunkIdMap

inductive ChunkIdMap where
  | direct (dims : List Dimension) (fits : (chunkRadices dims).volume < 2 ^ 64)
  | posToId (m : IndirectChunkIdMap)
  | idToPos (positions : List (List ℤ))

/-- Chooses a map. -/
def createChunkIdMap (dims : List Dimension) : ChunkIdMap :=
  if h : DirectChunkIdMap.useDirect dims then
    .direct dims (by simpa using DirectChunkIdMap.volume_lt_of_totalChunks zero_lt_one (by decide) (Bool.and_eq_true_iff.mp h).2)
  else .posToId ⟨[], nodup_nil, rfl⟩

namespace ChunkIdMap

variable (chunkOverhead chunkOverheadLimit : ℕ)

/-- The id of a position. -/
def mapChunkPosToId : ChunkIdMap → List ℤ → Option (ChunkIdMap × ℕ)
  | .direct dims fits, pos => (DirectChunkIdMap.idFrom 0 dims pos).map fun id => (.direct dims fits, id)
  | .posToId m, pos => (m.mapChunkPosToId chunkOverhead chunkOverheadLimit pos).map fun r => (.posToId r.1, r.2)
  | .idToPos _, _ => none

/-- The way back. -/
def reverse : ChunkIdMap → ChunkIdMap
  | .posToId m => .idToPos m.reverse
  | m => m

/-- The position of an id. -/
def mapIdToChunkPos : ChunkIdMap → ℕ → Option (List ℤ)
  | .direct dims _, id => some (DirectChunkIdMap.mapIdToChunkPos dims id)
  | .posToId _, _ => none
  | .idToPos positions, id => positions[id]?

/-- An id that is not in use. -/
def getUnusedId : ChunkIdMap → ℕ
  | .direct .. => 2 ^ 64 - 1
  | .posToId m => m.size
  | .idToPos positions => positions.length

/-- The ids of positions. -/
def mapAll : ChunkIdMap → List (List ℤ) → Option (ChunkIdMap × List ℕ)
  | m, [] => some (m, [])
  | m, pos :: rest => do
    let (m, id) ← m.mapChunkPosToId chunkOverhead chunkOverheadLimit pos
    let (m, ids) ← m.mapAll rest
    return (m, id :: ids)

def IsFor (dims : List Dimension) : ChunkIdMap → Prop
  | .direct dims' _ => dims' = dims
  | _ => True

/-- The map has given `pos` the id `id`, or would. -/
def Gives : ChunkIdMap → List ℤ → ℕ → Prop
  | .direct dims _, pos, id => IsChunkPos dims pos ∧
    (id : ℤ) = encodeFrom 0 (chunkRadices dims) (DirectChunkIdMap.offsets dims pos)
  | .posToId m, pos, id => (pos, id) ∈ m.posToId
  | .idToPos _, _, _ => False

variable {chunkOverhead chunkOverheadLimit} {dims : List Dimension} {m m' : ChunkIdMap} {pos q : List ℤ} {id i : ℕ}
  {ps : List (List ℤ)}

lemma isFor_createChunkIdMap : (createChunkIdMap dims).IsFor dims := by
  unfold createChunkIdMap
  split
  · rfl
  · trivial

open DirectChunkIdMap in
lemma idFrom_direct (fits : (chunkRadices dims).volume < 2 ^ 64) (hpos : IsChunkPos dims pos) :
    ∃ n, idFrom 0 dims pos = some n ∧ (n : ℤ) = encodeFrom 0 (chunkRadices dims) (offsets dims pos) :=
  idFrom_eq hpos ((encodeFrom_lt chunkRadices_pos (mem_offsets hpos)).2.trans fits)

lemma Gives.mapChunkPosToId (hm : m.IsFor dims) (hpos : IsChunkPos dims pos)
    (h : m.mapChunkPosToId chunkOverhead chunkOverheadLimit pos = some (m', id)) :
    m'.IsFor dims ∧ m'.Gives pos id ∧ ∀ q i, m.Gives q i → m'.Gives q i := by
  cases m with
  | direct _ fits =>
    cases hm
    obtain ⟨n, hn, henc⟩ := idFrom_direct fits hpos
    rw [ChunkIdMap.mapChunkPosToId, hn] at h
    cases h
    exact ⟨rfl, ⟨hpos, henc⟩, fun _ _ h => h⟩
  | posToId m =>
    obtain ⟨r, hr, heq⟩ := map_eq_some_iff.mp h
    cases heq
    obtain ⟨hmem, hsub⟩ := IndirectChunkIdMap.mem_of_mapChunkPosToId hr
    exact ⟨trivial, hmem, fun q i h => hsub h⟩
  | idToPos => cases h

lemma Gives.mapAll {ids : List ℕ} (hm : m.IsFor dims) (hps : ∀ pos ∈ ps, IsChunkPos dims pos)
    (h : m.mapAll chunkOverhead chunkOverheadLimit ps = some (m', ids)) :
    Forall₂ m'.Gives ps ids ∧ ∀ q i, m.Gives q i → m'.Gives q i := by
  induction ps generalizing m ids with
  | nil =>
    cases h
    exact ⟨.nil, fun _ _ h => h⟩
  | cons pos ps ih =>
    obtain ⟨hpos, hps⟩ := forall_mem_cons.mp hps
    obtain ⟨⟨m₁, id⟩, hfirst, h⟩ := bind_eq_some_iff.mp h
    obtain ⟨⟨m₂, rest⟩, hrest, h⟩ := bind_eq_some_iff.mp h
    cases h
    obtain ⟨hm₁, hgives, hstep⟩ := Gives.mapChunkPosToId hm hpos hfirst
    obtain ⟨hall, hrun⟩ := ih hm₁ hps hrest
    exact ⟨.cons (hrun _ _ hgives) hall, fun q i h => hrun _ _ (hstep _ _ h)⟩

lemma Gives.reverse (h : m.Gives pos id) : m.reverse.mapIdToChunkPos id = some pos ∧ id ≠ m.reverse.getUnusedId := by
  cases m with
  | direct dims fits =>
    have := (encodeFrom_lt DirectChunkIdMap.chunkRadices_pos (DirectChunkIdMap.mem_offsets h.1)).2
    have hid := h.2
    refine ⟨congrArg some (DirectChunkIdMap.mapIdToChunkPos_encodeFrom h.1 hid), ?_⟩
    simp only [ChunkIdMap.reverse, getUnusedId]
    omega
  | posToId m =>
    obtain ⟨hget, hlt⟩ := IndirectChunkIdMap.getElem?_reverse h
    exact ⟨hget, hlt.ne⟩
  | idToPos => cases h

lemma Gives.id_eq_iff (h : m.Gives pos id) (h' : m.Gives q i) : id = i ↔ pos = q := by
  constructor
  · rintro rfl
    exact some_inj.mp (h.reverse.1.symm.trans h'.reverse.1)
  · rintro rfl
    cases m with
    | direct => exact Int.ofNat_inj.mp (h.2.trans h'.2.symm)
    | posToId m => exact congrArg Prod.snd (inj_on_of_nodup_map m.nodup h h' rfl)
    | idToPos => cases h

lemma isSome_mapAll_direct {fits : (chunkRadices dims).volume < 2 ^ 64}
    (hps : ∀ pos ∈ ps, IsChunkPos dims pos) : ((direct dims fits).mapAll chunkOverhead chunkOverheadLimit ps).isSome := by
  induction ps with
  | nil => rfl
  | cons pos ps ih =>
    obtain ⟨hpos, hps⟩ := forall_mem_cons.mp hps
    obtain ⟨n, hn, -⟩ := idFrom_direct fits hpos
    obtain ⟨r, hr⟩ := isSome_iff_exists.mp (ih hps)
    simp [ChunkIdMap.mapAll, ChunkIdMap.mapChunkPosToId, hn, hr]

/-- **Chunk ids are a faithful code**: each of the mapped positions has its own id, which leads back to it and is not the unused
one, and the ids of a direct map do not overflow. -/
theorem createChunkIdMap_faithful (chunkOverhead chunkOverheadLimit : ℕ) (dims : List Dimension) (ps : List (List ℤ))
    (hps : ∀ pos ∈ ps, IsChunkPos dims pos) :
    (DirectChunkIdMap.useDirect dims → ((createChunkIdMap dims).mapAll chunkOverhead chunkOverheadLimit ps).isSome) ∧
      ∀ m ids, (createChunkIdMap dims).mapAll chunkOverhead chunkOverheadLimit ps = some (m, ids) → ids.length = ps.length ∧
          (∀ a ∈ ps.zip ids, m.reverse.mapIdToChunkPos a.2 = some a.1 ∧ a.2 ≠ m.reverse.getUnusedId) ∧
            ∀ a ∈ ps.zip ids, ∀ b ∈ ps.zip ids, a.2 = b.2 ↔ a.1 = b.1 := by
  refine ⟨fun h => ?_, fun m ids h => ?_⟩
  · rw [createChunkIdMap, dif_pos h]
    exact isSome_mapAll_direct hps
  · obtain ⟨hall, -⟩ := Gives.mapAll isFor_createChunkIdMap hps h
    obtain ⟨hlen, hzip⟩ := forall₂_iff_zip.mp hall
    exact ⟨hlen.symm, fun a ha => (hzip ha).reverse, fun a ha b hb => (hzip ha).id_eq_iff (hzip hb)⟩

def unbounded.desc : Array.DimensionDesc := ⟨0, 2 ^ 62 - 1, 5⟩

/-- A dimension without end. -/
def unbounded : Dimension := ⟨unbounded.desc, by decide, by decide, by decide, by decide, by decide⟩

/-- Without an upper bound the ids are given in the order in which the positions come. -/
theorem createChunkIdMap_faithful_unbounded : ∃ m, (createChunkIdMap [unbounded]).mapAll 1 0 [[5], [0], [5]] = some (m, [0, 1, 0]) ∧
    m.reverse.mapIdToChunkPos 1 = some [0] ∧ 1 ≠ m.reverse.getUnusedId := by
  have hps : ∀ pos ∈ [[5], [0], [5]], IsChunkPos [unbounded] pos := by
    have hzero : IsChunkPos [unbounded] [0] := .cons ⟨0, by decide, rfl⟩ .nil
    have hfive : IsChunkPos [unbounded] [5] := .cons ⟨1, by decide, rfl⟩ .nil
    simpa using ⟨hfive, hzero, hfive⟩
  have hmap : (createChunkIdMap [unbounded]).mapAll 1 0 [[5], [0], [5]] =
      some (.posToId ⟨[([5], 0), ([0], 1)], by decide, rfl⟩, [0, 1, 0]) := rfl
  exact ⟨_, hmap, ((createChunkIdMap_faithful 1 0 [unbounded] _ hps).2 _ _ hmap).2.1 ([0], 1) (by decide)⟩

end ChunkIdMap

end SciDB.Query
