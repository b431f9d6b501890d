import SciDB.Query.ChunkLoader

/-!
# Numbers of chunks

`chunkPos2pos` and `pos2chunkPos`, in the arithmetic of `size_t`. A sum that leaves the range of `int64_t` and a division by
zero are `none`. The last dimension comes first. Left out: positions of cells.
-/

namespace SciDB.Util

open SciDB.Query Option List Int

/-- The number of chunks. -/
def numChunksInDim (d : Dimension) : Option ℕ :=
  if d.endMax - d.startMin + d.chunkInterval < 2 ^ 63 then
    some ((d.endMax - d.startMin + d.chunkInterval - 1) / d.chunkInterval).toNat
  else none

/-- The number of a chunk. -/
def chunkPos2pos : List Dimension → List ℤ → Option ℕ
  | d :: dims, x :: chunkPos => do
    let pos ← chunkPos2pos dims chunkPos
    let n ← numChunksInDim d
    return (pos * n + ((x - d.startMin) / d.chunkInterval).toNat) % 2 ^ 64
  | _, _ => some 0

/-- The chunk with a number. -/
def pos2chunkPos : List Dimension → ℕ → Option (List ℤ)
  | [], _ => some []
  | d :: dims, pos => do
    let n ← numChunksInDim d
    if n = 0 then none
    let chunkPos ← pos2chunkPos dims (pos / n)
    return (((pos % n : ℕ) : ℤ) * d.chunkInterval + d.startMin) :: chunkPos

/-- The number of chunks. -/
def chunkCount (d : Dimension) : ℕ := ((d.endMax - d.startMin) / d.chunkInterval).toNat + 1

/-- Where chunk `k` starts. -/
def chunkStart (d : Dimension) (k : ℕ) : ℤ := k * d.chunkInterval + d.startMin

/-- A chunk of the array. -/
def IsChunkPos (dims : List Dimension) (chunkPos : List ℤ) : Prop :=
  List.Forall₂ (fun d x => ∃ k < chunkCount d, x = chunkStart d k) dims chunkPos

/-- The sum fits, and the last chunk has more than one cell. -/
def WellCounted (d : Dimension) : Prop :=
  d.endMax - d.startMin + d.chunkInterval < 2 ^ 63 ∧ ¬d.chunkInterval ∣ d.endMax - d.startMin

variable {d : Dimension} {dims : List Dimension} {c : List ℤ} {i n : ℕ}

lemma numChunksInDim_eq (h : WellCounted d) : numChunksInDim d = some (chunkCount d) := by
  rw [numChunksInDim, if_pos h.1, chunkCount]
  have hpos := d.interval_pos
  have hle := d.start_le
  have hrem := emod_add_mul_ediv (d.endMax - d.startMin) d.chunkInterval
  have hr := emod_pos_of_not_dvd h.2
  have hr' := emod_lt_of_pos (d.endMax - d.startMin) hpos
  have hq := ediv_nonneg (show 0 ≤ d.endMax - d.startMin by omega) hpos.le
  rw [some_inj, show d.endMax - d.startMin + d.chunkInterval - 1 =
      ((d.endMax - d.startMin) % d.chunkInterval - 1) + d.chunkInterval * ((d.endMax - d.startMin) / d.chunkInterval + 1) by
    rw [mul_add]; omega, add_mul_ediv_left _ _ hpos.ne', ediv_eq_zero_of_lt (by omega) (by omega)]
  omega

lemma wellCounted_of_le (h : numChunksInDim d = some n) (hn : chunkCount d ≤ n) : WellCounted d := by
  rw [numChunksInDim] at h
  split_ifs at h with hfit
  refine ⟨hfit, ?_⟩
  rintro ⟨q, hq⟩
  have hpos := d.interval_pos
  rw [← some_inj.mp h, chunkCount, hq, mul_ediv_cancel_left _ hpos.ne',
    show d.chunkInterval * q + d.chunkInterval - 1 = (d.chunkInterval - 1) + d.chunkInterval * q by ring,
    add_mul_ediv_left _ _ hpos.ne', ediv_eq_zero_of_lt (by omega) (by omega)] at hn
  omega

lemma chunkNo_chunkStart (d : Dimension) (k : ℕ) : ((chunkStart d k - d.startMin) / d.chunkInterval).toNat = k := by
  rw [chunkStart, add_sub_cancel_right, mul_ediv_cancel _ d.interval_pos.ne']
  rfl

lemma chunkCount_pos (d : Dimension) : 0 < chunkCount d := Nat.succ_pos _

lemma pos2chunkPos_chunkPos2pos (hok : ∀ d ∈ dims, WellCounted d) (hprod : (dims.map chunkCount).prod ≤ 2 ^ 64)
    (hc : IsChunkPos dims c) :
    ∃ pos < (dims.map chunkCount).prod, chunkPos2pos dims c = some pos ∧ pos2chunkPos dims pos = some c := by
  induction hc with
  | nil => exact ⟨0, by simp, rfl, rfl⟩
  | @cons d x dims c hx _ ih =>
    obtain ⟨k, hk, rfl⟩ := hx
    obtain ⟨hd, hdims⟩ := forall_mem_cons.mp hok
    rw [map_cons, prod_cons] at hprod ⊢
    obtain ⟨pos, hpos, hnum, hback⟩ := ih hdims ((Nat.le_mul_of_pos_left _ (chunkCount_pos d)).trans hprod)
    have hlt : pos * chunkCount d + k < chunkCount d * (dims.map chunkCount).prod := calc
      pos * chunkCount d + k < (pos + 1) * chunkCount d := by rw [Nat.succ_mul]; omega
      _ ≤ chunkCount d * (dims.map chunkCount).prod := by rw [mul_comm]; exact Nat.mul_le_mul_left _ hpos
    refine ⟨pos * chunkCount d + k, hlt, ?_, ?_⟩
    · simpa [chunkPos2pos, hnum, numChunksInDim_eq hd, chunkNo_chunkStart] using hlt.trans_le hprod
    · have hdiv : (pos * chunkCount d + k) / chunkCount d = pos := by
        rw [mul_comm, Nat.mul_add_div (chunkCount_pos d), Nat.div_eq_of_lt hk, add_zero]
      have hmod : (pos * chunkCount d + k) % chunkCount d = k := by rw [Nat.mul_add_mod', Nat.mod_eq_of_lt hk]
      simp only [pos2chunkPos, numChunksInDim_eq hd, hdiv, hmod, hback, (chunkCount_pos d).ne', bind_eq_bind, bind_some, if_false]
      rfl

lemma chunkPos2pos_lt (h : chunkPos2pos dims c = some i) : i < 2 ^ 64 := by
  cases dims <;> cases c <;> simp [chunkPos2pos, bind_eq_some_iff] at h
  case cons.cons =>
    obtain ⟨pos, -, n, -, rfl⟩ := h
    exact Nat.mod_lt _ (by decide)
  all_goals exact h ▸ by decide

lemma wellCounted_of_pos2chunkPos (h : pos2chunkPos dims i = some (dims.map fun d => chunkStart d (chunkCount d - 1))) :
    (∀ d ∈ dims, WellCounted d) ∧ (dims.map chunkCount).prod ≤ i + 1 := by
  induction dims generalizing i with
  | nil => simp
  | cons d dims ih =>
    simp only [pos2chunkPos, bind_eq_bind, bind_eq_some_iff] at h
    obtain ⟨n, hn, h⟩ := h
    split_ifs at h with h0
    · cases h
    rw [bind_eq_some_iff] at h
    obtain ⟨c, hc, h⟩ := h
    obtain ⟨hx, rfl⟩ := cons.inj (some_inj.mp h)
    have hk := chunkNo_chunkStart d (chunkCount d - 1)
    rw [← show _ = chunkStart d _ from hx, add_sub_cancel_right, mul_ediv_cancel _ d.interval_pos.ne', toNat_natCast] at hk
    have hmod := Nat.mod_lt i (pos_of_ne_zero h0)
    have hd := wellCounted_of_le hn (by omega)
    obtain ⟨hdims, hprod⟩ := ih hc
    obtain rfl : chunkCount d = n := some_inj.mp ((numChunksInDim_eq hd).symm.trans hn)
    refine ⟨forall_mem_cons.mpr ⟨hd, hdims⟩, ?_⟩
    rw [map_cons, prod_cons]
    have hdiv := Nat.div_add_mod i (chunkCount d)
    have hmul := Nat.mul_le_mul_left (chunkCount d) hprod
    rw [Nat.mul_succ] at hmul
    omega

/-- **Chunks are numbered one to one** exactly if sums and numbers fit and no dimension ends with a chunk of one cell. -/
theorem chunkPos2pos_bijective_iff (dims : List Dimension) :
    ((∀ c c', IsChunkPos dims c → IsChunkPos dims c' → chunkPos2pos dims c = chunkPos2pos dims c' → c = c') ∧
      ∀ c, IsChunkPos dims c → ∃ pos, chunkPos2pos dims c = some pos ∧ pos2chunkPos dims pos = some c) ↔
      (∀ d ∈ dims, WellCounted d) ∧ (dims.map chunkCount).prod ≤ 2 ^ 64 := by
  constructor
  · rintro ⟨-, hback⟩
    have hlast : IsChunkPos dims (dims.map fun d => chunkStart d (chunkCount d - 1)) := by
      rw [IsChunkPos, forall₂_map_right_iff, forall₂_same]
      exact fun d _ => ⟨_, Nat.sub_lt (chunkCount_pos d) Nat.one_pos, rfl⟩
    obtain ⟨pos, hnum, hpos⟩ := hback _ hlast
    obtain ⟨hok, hle⟩ := wellCounted_of_pos2chunkPos hpos
    exact ⟨hok, hle.trans (chunkPos2pos_lt hnum)⟩
  · rintro ⟨hok, hprod⟩
    refine ⟨fun c c' hc hc' heq => ?_, fun c hc => ?_⟩
    · obtain ⟨pos, -, hnum, hpos⟩ := pos2chunkPos_chunkPos2pos hok hprod hc
      obtain ⟨pos', -, hnum', hpos'⟩ := pos2chunkPos_chunkPos2pos hok hprod hc'
      rw [hnum, hnum', some_inj] at heq
      rw [heq, hpos'] at hpos
      exact (some_inj.mp hpos).symm
    · obtain ⟨pos, -, hrest⟩ := pos2chunkPos_chunkPos2pos hok hprod hc
      exact ⟨pos, hrest⟩

/-- Division by zero, and two chunks with one number. -/
theorem oneCell_divides : let cell : Dimension := ⟨⟨0, 0, 5⟩, by decide, by decide, by decide, by decide, by decide⟩
    let row : Dimension := ⟨⟨0, 10, 5⟩, by decide, by decide, by decide, by decide, by decide⟩
    chunkPos2pos [cell] [0] = some 0 ∧ pos2chunkPos [cell] 0 = none ∧
      chunkPos2pos [row, row] [10, 0] = chunkPos2pos [row, row] [0, 5] := by
  decide

end SciDB.Util
