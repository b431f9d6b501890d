import SciDB.Query.ChunkLoader
import SciDB.Lib.Radix

/-!
# Boundaries of arrays

`PhysicalBoundaries`: how they are sent as words of 64 bits, and what becomes of them in a reshape. `deSerialize` reads the
density where the number of dimensions is, and the density as the first coordinate. A density is a word when it is sent and an
exact number in a reshape, not a double. Left out: intersections and unions.
-/

namespace SciDB.Query

open List Int

/-- Within the bounds of coordinates. -/
def clip (x : ℤ) : ℤ := max (-(2 ^ 62 - 1)) (min x (2 ^ 62 - 1))

/-- Boundaries with a density of type `δ`, where `valid` tells if a density is between 0 and 1. -/
structure PhysicalBoundaries {δ : Type} (valid : δ → Bool) where
  startCoords : List ℤ
  endCoords : List ℤ
  density : δ
  length_eq : startCoords.length = endCoords.length
  length_lt : startCoords.length < 2 ^ 64
  clipped : ∀ x ∈ startCoords ++ endCoords, clip x = x
  valid_density : valid density

namespace PhysicalBoundaries

lemma clip_clip (x : ℤ) : clip (clip x) = clip x := by
  unfold clip
  omega

variable {δ : Type} {valid : δ → Bool}

/-- The constructor, if it returns. -/
def create (valid : δ → Bool) (startCoords endCoords : List ℤ) (density : δ) : Option (PhysicalBoundaries valid) :=
  if h : startCoords.length = endCoords.length ∧ startCoords.length < 2 ^ 64 ∧ valid density then
    some ⟨startCoords.map clip, endCoords.map clip, density, by simp [h.1], by simpa using h.2.1,
      by simp only [mem_append, mem_map]; rintro x (⟨y, -, rfl⟩ | ⟨y, -, rfl⟩) <;> exact clip_clip y, h.2.2⟩
  else none

lemma create_eq_some_iff {startCoords endCoords : List ℤ} {density : δ} {b : PhysicalBoundaries valid} :
    create valid startCoords endCoords density = some b ↔
      startCoords.map clip = b.startCoords ∧ endCoords.map clip = b.endCoords ∧ density = b.density := by
  obtain ⟨s, e, d, heq, hlt, hclipped, hvalid⟩ := b
  rw [create]
  constructor
  · intro h
    split_ifs at h
    cases h
    exact ⟨rfl, rfl, rfl⟩
  · rintro ⟨rfl, rfl, rfl⟩
    rw [dif_pos ⟨by simpa using heq, by simpa using hlt, hvalid⟩]

variable {valid : BitVec 64 → Bool}

/-- As words. -/
def serialize (b : PhysicalBoundaries valid) : List (BitVec 64) :=
  .ofNat 64 b.startCoords.length :: b.density :: (b.startCoords ++ b.endCoords).map (.ofInt 64)

/-- Reads coordinates. -/
def readCoords (buf : List (BitVec 64)) : ℕ → ℕ → Option (List ℤ)
  | _, 0 => some []
  | i, n + 1 => (buf[i]?).bind fun w => (readCoords buf (i + 1) n).map (w.toInt :: ·)

/-- From words. -/
def deSerialize (valid : BitVec 64 → Bool) (buf : List (BitVec 64)) : Option (Option (PhysicalBoundaries valid)) :=
  (buf[0]?).bind fun numCoords =>
    -- `densityPtr` starts at the beginning of the buffer again
    (buf[0]?).bind fun density =>
      (readCoords buf 1 numCoords.toNat).bind fun start =>
        (readCoords buf (1 + numCoords.toNat) numCoords.toNat).map fun end_ => create valid start end_ density

lemma readCoords_append (pre ws post : List (BitVec 64)) :
    readCoords (pre ++ (ws ++ post)) pre.length ws.length = some (ws.map BitVec.toInt) := by
  induction ws generalizing pre with
  | nil => rfl
  | cons w ws ih =>
    have hrest := ih (pre ++ [w])
    rw [length_append, length_singleton, append_assoc, singleton_append] at hrest
    simp [readCoords, hrest]

/-- The words as coordinates. -/
def sent (b : PhysicalBoundaries valid) : List ℤ := b.density.toInt :: (b.startCoords ++ b.endCoords)

lemma deSerialize_serialize (b : PhysicalBoundaries valid) {n : ℕ} (hn : b.startCoords.length = n) :
    deSerialize valid (serialize b) = some (create valid (b.sent.take n) ((b.sent.drop n).take n) (.ofNat 64 n)) := by
  obtain ⟨ws, hws⟩ : ∃ ws, ws = b.density :: (b.startCoords ++ b.endCoords).map (.ofInt 64) := ⟨_, rfl⟩
  have hsent : ws.map BitVec.toInt = b.sent := by
    rw [hws, sent, map_cons, map_map]
    refine congrArg _ ((map_congr_left fun x hx => ?_).trans (map_id _))
    have := b.clipped x hx
    rw [clip] at this
    exact (BitVec.toInt_ofInt ..).trans (bmod_eq_of_le (by omega) (by omega))
  have hlen : ws.length = n + n + 1 := by simp [hws, ← b.length_eq, hn]
  have hstart := readCoords_append [.ofNat 64 n] (ws.take n) (ws.drop n)
  have hend := readCoords_append (.ofNat 64 n :: ws.take n) ((ws.drop n).take n) ((ws.drop n).drop n)
  rw [take_append_drop, length_take, min_eq_left (by omega), map_take, hsent] at hstart
  rw [take_append_drop, cons_append, take_append_drop, length_cons, length_take, length_take, length_drop,
    min_eq_left (by omega), min_eq_left (by omega), map_take, map_drop, hsent, add_comm] at hend
  have hnum : (BitVec.ofNat 64 n).toNat = n := by
    rw [BitVec.toNat_ofNat, Nat.mod_eq_of_lt (hn ▸ b.length_lt)]
  rw [serialize, ← hws, hn, deSerialize, getElem?_cons_zero, Option.bind_some, Option.bind_some, hnum, hend]
  exact congrArg (Option.bind · _) hstart

lemma take_cons_eq_iff {d : ℤ} {l : List ℤ} : (d :: l).take l.length = l ↔ ∀ x ∈ l, x = d := by
  induction l generalizing d with
  | nil => simp
  | cons x l ih =>
    rw [length_cons, take_succ_cons, cons_eq_cons, forall_mem_cons, eq_comm, ih]
    exact and_congr_right fun h => by rw [h]

/-- **Boundaries survive transport** only if the density and all coordinates are the number of dimensions; no read is outside
the buffer. -/
theorem deSerialize_serialize_eq_iff (b : PhysicalBoundaries valid) : (deSerialize valid (serialize b)).isSome ∧
      (deSerialize valid (serialize b) = some (some b) ↔ b.density = .ofNat 64 b.startCoords.length ∧
          ∀ x ∈ b.startCoords ++ b.endCoords, x = clip b.density.toInt) := by
  obtain ⟨n, hn⟩ : ∃ n, b.startCoords.length = n := ⟨_, rfl⟩
  have hclip : (b.startCoords ++ b.endCoords).map clip = b.startCoords ++ b.endCoords :=
    (map_congr_left b.clipped).trans (map_id _)
  have hlen : (b.startCoords ++ b.endCoords).length = n + n := by rw [length_append, ← b.length_eq, hn]
  have hshift : b.sent.map clip = clip b.density.toInt :: (b.startCoords ++ b.endCoords) := by rw [sent, map_cons, hclip]
  rw [deSerialize_serialize b hn, ← take_cons_eq_iff, hlen, ← hshift, ← map_take, take_add, map_append, hn]
  rw [Option.some_inj, create_eq_some_iff]
  refine ⟨rfl, fun ⟨hs, he, hd⟩ => ⟨hd.symm, by rw [hs, he]⟩, fun ⟨hd, h⟩ => ?_⟩
  obtain ⟨hs, he⟩ := append_inj h (by rw [length_map, length_take, sent, length_cons, hlen, min_eq_left (by omega), hn])
  exact ⟨hs, he, hd.symm⟩

def oneDimension : PhysicalBoundaries fun _ : BitVec 64 => true :=
  ⟨[0], [5], 0x3FF0000000000000, rfl, by decide, by decide, rfl⟩

/-- The density comes back as a coordinate. -/
theorem oneDimension_changed : (deSerialize (fun _ => true) (serialize oneDimension)).map
    (·.map fun b => (b.startCoords, b.endCoords, b.density)) = some (some ([0x3FF0000000000000], [0], 1)) := by
  decide

end PhysicalBoundaries

/-- The greatest length. -/
def maxLength : ℕ := 2 ^ 63 - 1

/-- The number of coordinates. -/
def Dimension.getLength (d : Dimension) : ℕ := (d.endMax - d.startMin + 1).toNat

/-- Lengths as radices. -/
def radices (dims : List Dimension) : Lib.Radices := dims.map fun d => (d.startMin, (d.getLength : ℤ))

/-- The loop of `getCellNumber`. -/
def cellNumberFrom (result : ℕ) : List Dimension → List ℤ → ℕ
  | d :: dims, x :: coords =>
    let t := result * d.getLength % 2 ^ 64
    if t / d.getLength ≠ result then maxLength
    else
      let t' := ((t + x - d.startMin) % 2 ^ 64).toNat
      if t' < t then maxLength else cellNumberFrom t' dims coords
  | _, _ => if maxLength < result then maxLength else result

/-- The number of a cell. -/
def getCellNumber (coords : List ℤ) (dims : List Dimension) : Option ℕ :=
  if dims.length = coords.length then some (cellNumberFrom 0 dims coords) else none

/-- The cell with a number. -/
def getCoordinates (cellNum : ℕ) (dims : List Dimension) : Option (List ℤ) :=
  if maxLength ≤ cellNum then some (replicate dims.length (2 ^ 62 - 1))
  else
    let (result, left) := Lib.Radices.decode (radices dims) cellNum
    if left = 0 then some result else none

/-- From one shape to another. -/
def reshapeCoordinates (coords : List ℤ) (currentDims newDims : List Dimension) : Option (List ℤ) :=
  (getCellNumber coords currentDims).bind fun cellNum => getCoordinates cellNum newDims

lemma Dimension.getLength_eq (d : Dimension) : (d.getLength : ℤ) = d.endMax - d.startMin + 1 := by
  have := d.start_le
  rw [getLength]
  omega

section

open Lib Radices

variable {dims newDims : List Dimension} {coords : List ℤ} {n : ℕ}

lemma radices_pos : ∀ s ∈ radices dims, 0 < s.2 := by
  rintro _ hs
  obtain ⟨d, -, rfl⟩ := mem_map.mp hs
  have := d.getLength_eq
  have := d.start_le
  dsimp only
  omega

lemma cellNumberFrom_eq (h : (radices dims).Mem coords) (hn : encodeFrom n (radices dims) coords ≤ maxLength) :
    (cellNumberFrom n dims coords : ℤ) = encodeFrom n (radices dims) coords := by
  induction dims generalizing coords n with
  | nil =>
    cases h
    exact congrArg Nat.cast (if_neg (show ¬ maxLength < n from ofNat_le.mp hn |>.not_gt))
  | cons d dims ih =>
    obtain _ | @⟨_, x, _, xs, ⟨hlow, hhigh⟩, hxs⟩ := h
    dsimp only at hlow hhigh
    obtain ⟨k, rfl⟩ : ∃ k : ℕ, x = d.startMin + k := ⟨(x - d.startMin).toNat, by omega⟩
    have hstep : encodeFrom n (radices (d :: dims)) ((d.startMin + k) :: xs) =
        encodeFrom (n * d.getLength + k : ℕ) (radices dims) xs := by simp [radices, encodeFrom]
    rw [hstep] at hn ⊢
    have hle := (le_encodeFrom radices_pos hxs (natCast_nonneg _)).trans hn
    have hlen : 0 < d.getLength := by omega
    have ht : n * d.getLength % 2 ^ 64 = n * d.getLength := Nat.mod_eq_of_lt (by unfold maxLength at hle; omega)
    have ht' : ((((n * d.getLength : ℕ) : ℤ) + (d.startMin + k) - d.startMin) % 2 ^ 64).toNat = n * d.getLength + k := by
      unfold maxLength at hle
      omega
    rw [cellNumberFrom]
    dsimp only
    rw [ht, ht', Nat.mul_div_cancel _ hlen, if_neg (by simp), if_neg (by omega), ih hxs hn]

lemma reshapeCoordinates_eq (h : (radices dims).Mem coords) (hcount : (radices dims).volume = (radices newDims).volume)
    (hmax : (radices dims).volume ≤ maxLength) :
    ∃ xs, reshapeCoordinates coords dims newDims = some xs ∧ (radices newDims).Mem xs ∧
      encodeFrom 0 (radices newDims) xs = encodeFrom 0 (radices dims) coords := by
  have hlt := encodeFrom_lt radices_pos h
  have hnum : (cellNumberFrom 0 dims coords : ℤ) = encodeFrom 0 (radices dims) coords :=
    cellNumberFrom_eq h (by rw [Nat.cast_zero]; omega)
  have hlen : dims.length = coords.length := by rw [← h.length_eq, radices, length_map]
  rw [reshapeCoordinates, getCellNumber, if_pos hlen, Option.bind_some, getCoordinates, if_neg (by omega)]
  obtain ⟨hmem, hleft, heq⟩ := encodeFrom_decode (@radices_pos newDims) (natCast_nonneg (cellNumberFrom 0 dims coords))
  generalize decode (radices newDims) (cellNumberFrom 0 dims coords) = r at hmem hleft heq ⊢
  obtain ⟨xs, left⟩ := r
  dsimp only at hmem hleft heq ⊢
  obtain rfl : left = 0 := by
    have hxs := encodeFrom_lt radices_pos hmem
    rw [encodeFrom_eq hmem.length_eq, hnum] at heq
    by_contra hne
    have := mul_le_mul_of_nonneg_right (show 1 ≤ left by omega) (volume_pos (@radices_pos newDims)).le
    omega
  exact ⟨xs, if_pos rfl, hmem, heq.trans hnum⟩

end

/-- The box has no cell. -/
def isEmptyBox (start end_ : List ℤ) : Bool := start.isEmpty || (start.zip end_).any fun x => clip x.2 < clip x.1

/-- The loop of `getNumCells`. -/
def numCellsFrom (result : ℕ) : List (ℤ × ℤ) → ℕ
  | (x, y) :: box =>
    if x ≤ -(2 ^ 62 - 1) ∨ 2 ^ 62 - 1 ≤ y then maxLength
    else if x ≤ y then
      let t := result * (y - x + 1).toNat % 2 ^ 64
      if t / (y - x + 1).toNat ≠ result then maxLength else numCellsFrom t box
    else numCellsFrom 0 box
  | [] => if maxLength < result then maxLength else result

def getNumCells (start end_ : List ℤ) : ℕ :=
  if isEmptyBox start end_ then 0 else numCellsFrom 1 (start.zip end_)

/-- Neither end is open. -/
def Dimension.Bounded (d : Dimension) : Prop := -(2 ^ 62 - 1) < d.startMin ∧ d.endMax < 2 ^ 62 - 1

instance (d : Dimension) : Decidable d.Bounded := inferInstanceAs (Decidable (_ ∧ _))

/-- Behind the first dimension in which the corners differ, all dimensions are full. -/
def fill : List Dimension → List ℤ → List ℤ → Option (List ℤ × List ℤ)
  | _ :: dims, x :: start, y :: end_ =>
    if x < y then
      if ∀ d' ∈ dims, d'.Bounded then some (x :: dims.map (·.startMin), y :: dims.map (·.endMax)) else none
    else (fill dims start end_).map fun r => (x :: r.1, y :: r.2)
  | _, _, _ => some ([], [])

section

open Lib Radices

variable {dims : List Dimension} {start end_ : List ℤ}

lemma numCellsFrom_eq {n : ℕ} (hbounded : ∀ d ∈ dims, d.Bounded) (hs : (radices dims).Mem start) (he : (radices dims).Mem end_)
    (hle : Forall₂ (· ≤ ·) start end_) (hn : n * boxVolume start end_ ≤ maxLength) :
    (numCellsFrom n (start.zip end_) : ℤ) = n * boxVolume start end_ := by
  induction dims generalizing start end_ n with
  | nil =>
    cases hs
    cases he
    rw [zip_nil_left, numCellsFrom, if_neg (by simpa [boxVolume] using hn)]
    exact (mul_one _).symm
  | cons d dims ih =>
    obtain _ | @⟨_, x, _, xs, ⟨hxlow, hxhigh⟩, hxs⟩ := hs
    obtain _ | @⟨_, y, _, ys, ⟨hylow, hyhigh⟩, hys⟩ := he
    obtain ⟨hxy, hxys⟩ := forall₂_cons.mp hle
    obtain ⟨⟨hlow, hhigh⟩, hdims⟩ := forall_mem_cons.mp hbounded
    obtain ⟨k, rfl⟩ : ∃ k : ℕ, y = x + k := ⟨(y - x).toNat, by omega⟩
    have hlen := d.getLength_eq
    have hk : (x + k - x + 1).toNat = k + 1 := by omega
    have hstep : n * boxVolume (x :: xs) ((x + k) :: ys) =
        (n * (k + 1) : ℕ) * boxVolume xs ys := by
      simp [boxVolume, mul_assoc]
    rw [hstep] at hn ⊢
    have hpos := (boxVolume_le radices_pos hxs hys hxys).1
    have hle := (le_mul_of_one_le_right (natCast_nonneg (n * (k + 1))) hpos).trans hn
    have ht : n * (k + 1) % 2 ^ 64 = n * (k + 1) := Nat.mod_eq_of_lt (by unfold maxLength at hle; omega)
    dsimp only at hxlow hyhigh
    rw [zip_cons_cons, numCellsFrom, if_neg (by omega), if_pos hxy, hk]
    dsimp only
    rw [ht, Nat.mul_div_cancel _ k.succ_pos, if_neg (by simp), ih hdims hxs hys hxys hn]

/-- A box of cells of the array with corners `r` that holds the cells from `start` to `end_` in the order of their numbers. -/
structure Spans (dims : List Dimension) (start end_ : List ℤ) (r : List ℤ × List ℤ) : Prop where
  mem_start : (radices dims).Mem r.1
  mem_end : (radices dims).Mem r.2
  le : Forall₂ (· ≤ ·) r.1 r.2
  cells : encodeFrom 0 (radices dims) end_ - encodeFrom 0 (radices dims) start + 1 ≤
    boxVolume r.1 r.2
  inside : ∀ xs, (radices dims).Mem xs → ¬ xs < start → ¬ end_ < xs → Forall₂ (· ≤ ·) r.1 xs ∧ Forall₂ (· ≤ ·) xs r.2

lemma inside_full {xs : List ℤ} (h : (radices dims).Mem xs) :
    Forall₂ (· ≤ ·) (dims.map (·.startMin)) xs ∧ Forall₂ (· ≤ ·) xs (dims.map (·.endMax)) := by
  induction dims generalizing xs with
  | nil =>
    cases h
    exact ⟨.nil, .nil⟩
  | cons d dims ih =>
    obtain _ | @⟨_, x, _, xs, ⟨hlow, hhigh⟩, hxs⟩ := h
    have := d.getLength_eq
    dsimp only at hlow hhigh
    exact ⟨.cons hlow (ih hxs).1, .cons (show x ≤ d.endMax by omega) (ih hxs).2⟩

lemma mem_full : (radices dims).Mem (dims.map (·.startMin)) ∧ (radices dims).Mem (dims.map (·.endMax)) ∧
    boxVolume (dims.map (·.startMin)) (dims.map (·.endMax)) = (radices dims).volume := by
  induction dims with
  | nil => exact ⟨.nil, .nil, rfl⟩
  | cons d dims ih =>
    obtain ⟨hstart, hend, hvolume⟩ := ih
    have hlen := d.getLength_eq
    have := d.start_le
    refine ⟨.cons ⟨le_rfl, by dsimp only; omega⟩ hstart, .cons ⟨d.start_le, by dsimp only; omega⟩ hend, ?_⟩
    rw [map_cons, map_cons, boxVolume_cons, hvolume, ← hlen]
    exact prod_cons.symm

/-- The corners as the loop leaves them hold all cells between the given ones: where these differ first, all behind is full. -/
lemma fill_spans (hbounded : ∀ d ∈ dims, d.Bounded) (hs : (radices dims).Mem start) (he : (radices dims).Mem end_)
    (hle : ¬ end_ < start) : ∃ r, fill dims start end_ = some r ∧ Spans dims start end_ r := by
  induction dims generalizing start end_ with
  | nil =>
    cases hs
    cases he
    refine ⟨_, rfl, .nil, .nil, .nil, le_rfl, fun xs h _ _ => ?_⟩
    cases h
    exact ⟨.nil, .nil⟩
  | cons d dims ih =>
    obtain _ | @⟨_, x, _, xs, hx, hxs⟩ := hs
    obtain _ | @⟨_, y, _, ys, hy, hys⟩ := he
    obtain ⟨-, hdims⟩ := forall_mem_cons.mp hbounded
    rw [cons_lt_cons_iff, not_or, not_and] at hle
    have hnum : encodeFrom 0 (radices (d :: dims)) (y :: ys) - encodeFrom 0 (radices (d :: dims)) (x :: xs) =
        (y - x) * (radices dims).volume + (encodeFrom 0 (radices dims) ys - encodeFrom 0 (radices dims) xs) := by
      have hstep (z : ℤ) (zs : List ℤ) (hzs : (radices dims).Mem zs) : encodeFrom 0 (radices (d :: dims)) (z :: zs) =
          (z - d.startMin) * (radices dims).volume + encodeFrom 0 (radices dims) zs := by
        rw [radices, map_cons, encodeFrom, zero_mul, zero_add, ← radices, encodeFrom_eq hzs.length_eq]
      rw [hstep y ys hys, hstep x xs hxs]
      ring
    by_cases hxy : x < y
    · obtain ⟨hstart, hend, hvolume⟩ := @mem_full dims
      rw [fill, if_pos hxy, if_pos hdims]
      refine ⟨_, rfl, .cons hx hstart, .cons hy hend, .cons hxy.le (inside_full hstart).2, ?_, ?_⟩
      · have hp := encodeFrom_lt radices_pos hxs
        have hq := encodeFrom_lt radices_pos hys
        rw [hnum, boxVolume_cons, hvolume, add_one_mul]
        omega
      · intro zs h hlow hhigh
        obtain _ | @⟨_, z, _, zs, hz, hzs⟩ := h
        rw [cons_lt_cons_iff, not_or] at hlow hhigh
        exact ⟨.cons (not_lt.mp hlow.1) (inside_full hzs).1, .cons (not_lt.mp hhigh.1) (inside_full hzs).2⟩
    · obtain rfl : x = y := by omega
      obtain ⟨r, hr, hstart, hend, hbox, hcells, hinside⟩ := ih hdims hxs hys (hle.2 rfl)
      rw [fill, if_neg hxy, hr]
      refine ⟨_, rfl, .cons hx hstart, .cons hy hend, .cons le_rfl hbox, ?_, ?_⟩
      · rw [hnum, boxVolume_cons, sub_self]
        omega
      · intro zs h hlow hhigh
        obtain _ | @⟨_, z, _, zs, hz, hzs⟩ := h
        rw [cons_lt_cons_iff, not_or, not_and] at hlow hhigh
        obtain rfl : z = x := by omega
        obtain ⟨h₁, h₂⟩ := hinside zs hzs (hlow.2 rfl) (hhigh.2 rfl)
        exact ⟨.cons le_rfl h₁, .cons le_rfl h₂⟩

lemma clip_of_mem (h : (radices dims).Mem start) : ∀ x ∈ start, clip x = x := by
  induction dims generalizing start with
  | nil =>
    cases h
    exact forall_mem_nil _
  | cons d dims ih =>
    obtain _ | @⟨_, x, _, xs, ⟨hlow, hhigh⟩, hxs⟩ := h
    have := d.getLength_eq
    have := d.min_le
    have := d.le_max
    dsimp only at hlow hhigh
    exact forall_mem_cons.mpr ⟨by unfold clip; omega, ih hxs⟩

lemma isEmptyBox_eq_false_iff (hs : (radices dims).Mem start) (he : (radices dims).Mem end_) :
    isEmptyBox start end_ = false ↔ start ≠ [] ∧ Forall₂ (· ≤ ·) start end_ := by
  rw [isEmptyBox, Bool.or_eq_false_iff, isEmpty_eq_false_iff, any_eq_false, forall₂_iff_zip,
    and_iff_right (hs.length_eq.symm.trans he.length_eq)]
  refine and_congr_right fun _ => ⟨fun h x y hxy => ?_, fun h xy hxy => ?_⟩
  · have := h _ hxy
    rwa [clip_of_mem hs x (of_mem_zip hxy).1, clip_of_mem he y (of_mem_zip hxy).2, decide_eq_true_iff, not_lt] at this
  · rw [clip_of_mem hs _ (of_mem_zip hxy).1, clip_of_mem he _ (of_mem_zip hxy).2, decide_eq_true_iff, not_lt]
    exact h hxy

lemma getNumCells_eq (hbounded : ∀ d ∈ dims, d.Bounded) (hs : (radices dims).Mem start) (he : (radices dims).Mem end_)
    (hbox : isEmptyBox start end_ = false) (hmax : (radices dims).volume ≤ maxLength) :
    (getNumCells start end_ : ℤ) = boxVolume start end_ := by
  obtain ⟨-, hle⟩ := (isEmptyBox_eq_false_iff hs he).mp hbox
  have := (boxVolume_le radices_pos hs he hle).2
  have := encodeFrom_lt radices_pos hs
  have := encodeFrom_lt radices_pos he
  rw [getNumCells, hbox, if_neg Bool.false_ne_true, numCellsFrom_eq hbounded hs he hle (by push_cast; omega), Nat.cast_one, one_mul]

end

namespace PhysicalBoundaries

/-- Densities are exact numbers here. -/
abbrev Box := PhysicalBoundaries fun density : ℚ => 0 ≤ density && decide (density ≤ 1)

/-- The box in another shape. -/
def reshape (b : Box) (oldDims newDims : List Dimension) : Option Box :=
  if isEmptyBox b.startCoords b.endCoords then
    create _ (replicate newDims.length (2 ^ 62 - 1)) (replicate newDims.length (-(2 ^ 62 - 1))) 1
  else
    (reshapeCoordinates b.startCoords oldDims newDims).bind fun start =>
    (reshapeCoordinates b.endCoords oldDims newDims).bind fun end_ =>
    (if oldDims.length < newDims.length then fill newDims start end_ else some (start, end_)).bind fun (start, end_) =>
    let startingCells := getNumCells b.startCoords b.endCoords
    let resultCells := getNumCells start end_
    -- an infinite density
    if resultCells = 0 ∧ b.density * startingCells ≠ 0 then none
    else create _ start end_ (b.density * startingCells / resultCells)

section

open Lib Radices

/-- What `reshape` is for: an array with as many cells, at most `maxLength`, and a box of cells of the old one, if it has any. -/
structure Reshapes (b : Box) (oldDims newDims : List Dimension) : Prop where
  old_bounded : ∀ d ∈ oldDims, d.Bounded
  new_bounded : ∀ d ∈ newDims, d.Bounded
  new_ne : newDims ≠ []
  length_lt : newDims.length < 2 ^ 64
  count : (radices oldDims).volume = (radices newDims).volume
  count_le : (radices oldDims).volume ≤ maxLength
  start_ne : b.startCoords ≠ []
  inside : isEmptyBox b.startCoords b.endCoords = false →
    (radices oldDims).Mem b.startCoords ∧ (radices oldDims).Mem b.endCoords

/-- There is a reshaped box, it has a cell if the given one has, and it holds the new position of every cell of that: the one
with the same row-major number. -/
def Sound (b : Box) (oldDims newDims : List Dimension) : Prop :=
  ∃ r, reshape b oldDims newDims = some r ∧
    (isEmptyBox b.startCoords b.endCoords = false → isEmptyBox r.startCoords r.endCoords = false) ∧
    ∀ cell xs, Forall₂ (· ≤ ·) b.startCoords cell → Forall₂ (· ≤ ·) cell b.endCoords → (radices newDims).Mem xs →
      encodeFrom 0 (radices newDims) xs = encodeFrom 0 (radices oldDims) cell →
        Forall₂ (· ≤ ·) r.startCoords xs ∧ Forall₂ (· ≤ ·) xs r.endCoords

/-- In every dimension of the new array, the row-major number of each cell of the box has a digit between those of the corners. -/
def DigitsBetween (b : Box) (oldDims newDims : List Dimension) : Prop :=
  ∀ cell, Forall₂ (· ≤ ·) b.startCoords cell → Forall₂ (· ≤ ·) cell b.endCoords → ∀ i,
    digit (radices newDims) i (encodeFrom 0 (radices oldDims) b.startCoords) ≤
      digit (radices newDims) i (encodeFrom 0 (radices oldDims) cell) ∧
    digit (radices newDims) i (encodeFrom 0 (radices oldDims) cell) ≤
      digit (radices newDims) i (encodeFrom 0 (radices oldDims) b.endCoords)

namespace Reshapes

variable {b : Box} {oldDims newDims : List Dimension} {start end_ cell xs : List ℤ} {r : List ℤ × List ℤ}

lemma isEmptyBox_eq_false (h : Reshapes b oldDims newDims) (hlow : Forall₂ (· ≤ ·) b.startCoords cell)
    (hhigh : Forall₂ (· ≤ ·) cell b.endCoords) : isEmptyBox b.startCoords b.endCoords = false := by
  rw [isEmptyBox, Bool.or_eq_false_iff, isEmpty_eq_false_iff, any_eq_false]
  refine ⟨h.start_ne, fun xy hxy => ?_⟩
  have hle := (forall₂_iff_zip.mp (forall₂_le_trans hlow hhigh)).2 hxy
  rw [decide_eq_true_iff, not_lt]
  unfold clip
  omega

lemma sound_of_isEmptyBox (h : Reshapes b oldDims newDims) (hbox : isEmptyBox b.startCoords b.endCoords = true) :
    Sound b oldDims newDims := by
  obtain ⟨r, hr⟩ : ∃ r, reshape b oldDims newDims = some r := by
    rw [reshape, if_pos hbox, create, dif_pos ⟨by simp, by simpa using h.length_lt, rfl⟩]
    exact ⟨_, rfl⟩
  refine ⟨r, hr, fun hne => ?_, fun cell xs hlow hhigh _ _ => ?_⟩
  · rw [hbox] at hne
    cases hne
  · rw [h.isEmptyBox_eq_false hlow hhigh] at hbox
    cases hbox

lemma map_clip (hs : (radices newDims).Mem xs) : xs.map clip = xs :=
  (map_congr_left (clip_of_mem hs)).trans (map_id _)

/-- With at least as many cells in the new box its density is valid, so the constructor returns. -/
lemma reshape_eq (h : Reshapes b oldDims newDims) (hbox : isEmptyBox b.startCoords b.endCoords = false)
    (hstart : reshapeCoordinates b.startCoords oldDims newDims = some start)
    (hend : reshapeCoordinates b.endCoords oldDims newDims = some end_)
    (hcorners : (if oldDims.length < newDims.length then fill newDims start end_ else some (start, end_)) = some r)
    (hs : (radices newDims).Mem r.1) (he : (radices newDims).Mem r.2) (hle : Forall₂ (· ≤ ·) r.1 r.2)
    (hcells : boxVolume b.startCoords b.endCoords ≤ boxVolume r.1 r.2) :
    ∃ r' : Box, reshape b oldDims newDims = some r' ∧ r'.startCoords = r.1 ∧ r'.endCoords = r.2 ∧
      isEmptyBox r.1 r.2 = false := by
  obtain ⟨hbs, hbe⟩ := h.inside hbox
  have hrbox : isEmptyBox r.1 r.2 = false := by
    refine (isEmptyBox_eq_false_iff hs he).mpr ⟨?_, hle⟩
    rw [← length_pos_iff, ← hs.length_eq, radices, length_map]
    exact length_pos_iff.mpr h.new_ne
  have hstarting := getNumCells_eq h.old_bounded hbs hbe hbox h.count_le
  have hresult := getNumCells_eq h.new_bounded hs he hrbox (h.count ▸ h.count_le)
  have hone := (boxVolume_le radices_pos hbs hbe ((isEmptyBox_eq_false_iff hbs hbe).mp hbox).2).1
  have hfew : getNumCells b.startCoords b.endCoords ≤ getNumCells r.1 r.2 := by omega
  have hpos : 0 < getNumCells r.1 r.2 := by omega
  have hdensity : 0 ≤ b.density ∧ b.density ≤ 1 := by simpa using b.valid_density
  obtain ⟨q, hq⟩ : ∃ q, q = b.density * getNumCells b.startCoords b.endCoords / getNumCells r.1 r.2 := ⟨_, rfl⟩
  have hvalid : 0 ≤ q ∧ q ≤ 1 := by
    have hnonneg := mul_nonneg hdensity.1 (Nat.cast_nonneg (α := ℚ) (getNumCells b.startCoords b.endCoords))
    have hle := mul_le_mul hdensity.2 (Nat.cast_le (α := ℚ).mpr hfew) (Nat.cast_nonneg _) zero_le_one
    rw [one_mul] at hle
    exact hq ▸ ⟨div_nonneg hnonneg (Nat.cast_nonneg _), div_le_one_of_le₀ hle (Nat.cast_nonneg _)⟩
  have hlen : newDims.length = r.1.length ∧ newDims.length = r.2.length := by
    rw [← hs.length_eq, ← he.length_eq, radices, length_map]
    exact ⟨rfl, rfl⟩
  refine ⟨⟨r.1, r.2, q, hlen.1.symm.trans hlen.2, hlen.1 ▸ h.length_lt, ?_, by simpa using hvalid⟩, ?_, rfl, rfl, hrbox⟩
  · exact forall_mem_append.mpr ⟨clip_of_mem hs, clip_of_mem he⟩
  · rw [reshape, hbox, if_neg Bool.false_ne_true, hstart, Option.bind_some, hend, Option.bind_some, hcorners, Option.bind_some]
    dsimp only
    rw [if_neg fun h => hpos.ne' h.1, create_eq_some_iff]
    exact ⟨map_clip hs, map_clip he, hq.symm⟩

/-- With more new dimensions the corners are widened to a box of all numbers between theirs. -/
lemma sound_of_widened (h : Reshapes b oldDims newDims) (hbox : isEmptyBox b.startCoords b.endCoords = false)
    (hmore : oldDims.length < newDims.length) : Sound b oldDims newDims := by
  obtain ⟨hs, he⟩ := h.inside hbox
  obtain ⟨start, hstart, hsmem, hsnum⟩ := reshapeCoordinates_eq hs h.count h.count_le
  obtain ⟨end_, hend, hemem, henum⟩ := reshapeCoordinates_eq he h.count h.count_le
  have hcells := boxVolume_le radices_pos hs he ((isEmptyBox_eq_false_iff hs he).mp hbox).2
  have horder : ¬ end_ < start := by
    rw [← encodeFrom_lt_iff radices_pos hemem hsmem]
    omega
  obtain ⟨r, hr, hspans⟩ := fill_spans h.new_bounded hsmem hemem horder
  obtain ⟨r', hr', hrs, hre, hne⟩ := h.reshape_eq hbox hstart hend ((if_pos hmore).trans hr) hspans.mem_start hspans.mem_end
    hspans.le (by have := hspans.cells; omega)
  refine ⟨r', hr', fun _ => by rw [hrs, hre, hne], fun cell xs hlow hhigh hxs hnum => ?_⟩
  have hcell := hs.of_between he hlow hhigh
  have hbelow := boxVolume_le radices_pos hs hcell hlow
  have habove := boxVolume_le radices_pos hcell he hhigh
  rw [hrs, hre]
  refine hspans.inside xs hxs ?_ ?_
  · rw [← encodeFrom_lt_iff radices_pos hxs hsmem]
    omega
  · rw [← encodeFrom_lt_iff radices_pos hemem hxs]
    omega

section

variable (h : Reshapes b oldDims newDims) (hmore : ¬ oldDims.length < newDims.length)

include h hmore

/-- Else the corners are taken as they are, which is right if no cell has a digit outside of theirs. -/
lemma sound_of_digitsBetween (hbox : isEmptyBox b.startCoords b.endCoords = false) (hdigits : DigitsBetween b oldDims newDims) :
    Sound b oldDims newDims := by
  obtain ⟨hs, he⟩ := h.inside hbox
  have hle := ((isEmptyBox_eq_false_iff hs he).mp hbox).2
  obtain ⟨start, hstart, hsmem, hsnum⟩ := reshapeCoordinates_eq hs h.count h.count_le
  obtain ⟨end_, hend, hemem, henum⟩ := reshapeCoordinates_eq he h.count h.count_le
  have hinside : ∀ cell xs, Forall₂ (· ≤ ·) b.startCoords cell → Forall₂ (· ≤ ·) cell b.endCoords → (radices newDims).Mem xs →
      encodeFrom 0 (radices newDims) xs = encodeFrom 0 (radices oldDims) cell →
        Forall₂ (· ≤ ·) start xs ∧ Forall₂ (· ≤ ·) xs end_ := by
    intro cell xs hlow hhigh hxs hnum
    rw [hsmem.le_iff radices_pos hxs, hxs.le_iff radices_pos hemem, hnum, hsnum, henum, ← forall_and]
    exact hdigits cell hlow hhigh
  have himage : ∀ cell ∈ cells b.startCoords b.endCoords, ∃ xs ∈ cells start end_,
      encodeFrom 0 (radices newDims) xs = encodeFrom 0 (radices oldDims) cell := by
    intro cell hcell
    obtain ⟨hlow, hhigh⟩ := mem_cells.mp hcell
    obtain ⟨xs, -, hxs, hnum⟩ := reshapeCoordinates_eq (hs.of_between he hlow hhigh) h.count h.count_le
    exact ⟨xs, mem_cells.mpr (hinside cell xs hlow hhigh hxs hnum), hnum⟩
  choose! f hf hnum using himage
  have hstartend : Forall₂ (· ≤ ·) start end_ :=
    (hinside b.startCoords start (forall₂_same.mpr fun x _ => le_rfl) hle hsmem hsnum).2
  have hcells : boxVolume b.startCoords b.endCoords ≤ boxVolume start end_ := by
    refine boxVolume_le_of_injOn hle hstartend hf fun c hc c' hc' heq => ?_
    -- cells with one image have one number
    have hcmem := hs.of_between he (mem_cells.mp hc).1 (mem_cells.mp hc).2
    have hcmem' := hs.of_between he (mem_cells.mp hc').1 (mem_cells.mp hc').2
    have hsame := (hnum c hc).symm.trans ((congrArg _ heq).trans (hnum c' hc'))
    have hdecoded := decode_encodeFrom radices_pos hcmem le_rfl
    rw [hsame, decode_encodeFrom radices_pos hcmem' le_rfl] at hdecoded
    exact (congrArg Prod.fst hdecoded).symm
  obtain ⟨r, hr, hrs, hre, hne⟩ := h.reshape_eq hbox hstart hend (if_neg hmore) hsmem hemem hstartend hcells
  exact ⟨r, hr, fun _ => by rw [hrs, hre, hne], by rw [hrs, hre]; exact hinside⟩

lemma digitsBetween_of_sound (hsound : Sound b oldDims newDims) : DigitsBetween b oldDims newDims := by
  intro cell hlow hhigh
  have hbox := h.isEmptyBox_eq_false hlow hhigh
  obtain ⟨hs, he⟩ := h.inside hbox
  obtain ⟨start, hstart, hsmem, hsnum⟩ := reshapeCoordinates_eq hs h.count h.count_le
  obtain ⟨end_, hend, hemem, henum⟩ := reshapeCoordinates_eq he h.count h.count_le
  obtain ⟨xs, -, hxs, hnum⟩ := reshapeCoordinates_eq (hs.of_between he hlow hhigh) h.count h.count_le
  obtain ⟨r, hr, -, hinside⟩ := hsound
  obtain ⟨hxlow, hxhigh⟩ := hinside cell xs hlow hhigh hxs hnum
  rw [reshape, hbox, if_neg Bool.false_ne_true, hstart, Option.bind_some, hend, Option.bind_some, if_neg hmore,
    Option.bind_some] at hr
  dsimp only at hr
  split_ifs at hr
  obtain ⟨hrs, hre, -⟩ := create_eq_some_iff.mp hr
  rw [← hrs, map_clip hsmem, hsmem.le_iff radices_pos hxs] at hxlow
  rw [← hre, map_clip hemem, hxs.le_iff radices_pos hemem] at hxhigh
  rw [forall_and, ← hsnum, ← henum, ← hnum]
  exact ⟨hxlow, hxhigh⟩

end

end Reshapes

/-- Dimensions of the same lengths change no digit. -/
lemma digitsBetween_of_lengths {b : Box} {oldDims newDims : List Dimension}
    (hlengths : oldDims.map (·.getLength) = newDims.map (·.getLength)) (hs : (radices oldDims).Mem b.startCoords)
    (he : (radices oldDims).Mem b.endCoords) : DigitsBetween b oldDims newDims := by
  intro cell hlow hhigh i
  have hcell := hs.of_between he hlow hhigh
  have hradices : (radices newDims).map Prod.snd = (radices oldDims).map Prod.snd := by
    have hcast (dims : List Dimension) : (radices dims).map Prod.snd = (dims.map (·.getLength)).map Nat.cast := by
      rw [radices, List.map_map, List.map_map]
      rfl
    rw [hcast, hcast, hlengths]
  simp only [digit_congr hradices]
  exact ⟨(hs.le_iff radices_pos hcell).mp hlow i, (hcell.le_iff radices_pos he).mp hhigh i⟩

/-- In one dimension the digit is the number. -/
lemma digitsBetween_singleton {b : Box} {oldDims : List Dimension} {d : Dimension}
    (hcount : (radices oldDims).volume = (radices [d]).volume) (hs : (radices oldDims).Mem b.startCoords)
    (he : (radices oldDims).Mem b.endCoords) : DigitsBetween b oldDims [d] := by
  intro cell hlow hhigh i
  have hcell := hs.of_between he hlow hhigh
  have hbelow := boxVolume_le radices_pos hs hcell hlow
  have habove := boxVolume_le radices_pos hcell he hhigh
  have hself (xs : List ℤ) (hxs : (radices oldDims).Mem xs) :
      digit (radices [d]) 0 (encodeFrom 0 (radices oldDims) xs) = encodeFrom 0 (radices oldDims) xs := by
    have hlt := encodeFrom_lt radices_pos hxs
    rw [hcount] at hlt
    simp only [digit, volume, radices, map_cons, map_nil, prod_cons, prod_nil, mul_one] at hlt ⊢
    simpa using Int.emod_eq_of_lt hlt.1 hlt.2
  cases i with
  | zero =>
    rw [hself _ hs, hself _ hcell, hself _ he]
    omega
  | succ i => simp [digit, radices]

end

/-- A dimension of one chunk. -/
def ofLength (n : ℕ) (h : 0 < n ∧ n < 2 ^ 62) : Dimension where
  startMin := 0
  endMax := n - 1
  chunkInterval := n
  start_le := by omega
  min_le := by omega
  le_max := by omega
  interval_pos := by omega
  interval_lt := by omega

def twelve : List Dimension := [ofLength 12 (by decide)]

def threeByFour : List Dimension := [ofLength 3 (by decide), ofLength 4 (by decide)]

def middle : Box := ⟨[0, 1], [2, 2], 1, rfl, by decide, by decide, rfl⟩

def twoBySix : List Dimension := [ofLength 2 (by decide), ofLength 6 (by decide)]

/-- Three columns of two rows. -/
def columns : Box := ⟨[0, 0], [1, 2], 1 / 2, rfl, by decide, by decide, by decide +kernel⟩

end PhysicalBoundaries

end SciDB.Query
