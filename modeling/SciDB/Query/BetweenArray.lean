import SciDB.Array.SpatialRanges
import SciDB.Lib.Cursor

/-!
# The array iterator of `between`

`BetweenArrayIterator` steps the iterator of the input and the iterator over the chunk positions of the ranges in turns. A
`setPosition` that fails leaves the iterator of the input anywhere (`afterFailed`).
-/

namespace SciDB.Query

open SciDB.Lib SciDB.Array List Bool

variable (dims : List Dimension)

def getChunkPositionFor (pos : Coordinates) : Coordinates :=
  List.zipWith Dimension.getChunkPositionFor dims pos

variable (d : Dimension)

/-- One dimension of `InChunk`. -/
def InChunkSide (c x : ℤ) : Prop := c ≤ x ∧ x ≤ min (c + d.interval - 1) d.stop

/-- `x` is in the chunk at `c`. -/
def InChunk : List Dimension → Coordinates → Coordinates → Prop
  | d :: ds, c :: cs, x :: xs => InChunkSide d c x ∧ InChunk ds cs xs
  | [], [], [] => True
  | _, _, _ => False

/-- The position behind a chunk is an `int64` in every dimension. -/
def StepsFit (c : Coordinates) : Prop := List.Forall₂ (fun d x => x + d.interval < 2 ^ 63) dims c

/-- The chunks that meet a side of a range. Inside the array the low end is what `getChunkPositionFor` gives
(`Dimension.getChunkPositionFor_eq`). -/
def chunkSide (s : RangeSide) : Side where
  low := d.chunkPosition s.low
  high := s.high
  step := d.interval
  low_le_high := (d.chunkPosition_le _).trans s.valid
  step_pos := d.interval_pos

/-- The chunks of a range. -/
def chunkRegion (r : SpatialRange) : Region := List.zipWith chunkSide dims r

def extendedRange (r : SpatialRange) : SpatialRange :=
  List.zipWith (fun d s => ⟨d.chunkPosition s.low, s.high, (d.chunkPosition_le _).trans s.valid⟩) dims r

/-- A coordinate at which chunks start. -/
def Aligned (x : ℤ) : Prop := d.chunkPosition x = x

lemma chunkPosition_dvd (x : ℤ) : d.interval ∣ d.chunkPosition x - d.start := by
  rw [d.chunkPosition_eq, sub_right_comm]
  exact Int.dvd_self_sub_of_emod_eq rfl

variable {d : Dimension} {x : ℤ}

lemma Aligned.dvd (h : Aligned d x) : d.interval ∣ x - d.start := by
  have := chunkPosition_dvd d x
  rwa [h] at this

lemma aligned_of_dvd (h : d.interval ∣ x - d.start) : Aligned d x := by
  rw [Aligned, d.chunkPosition_eq, Int.emod_eq_zero_of_dvd h, sub_zero]

lemma Aligned.onGrid (h : Aligned d x) (s : RangeSide) : (chunkSide d s).OnGrid x := by
  have := Int.dvd_sub h.dvd (chunkPosition_dvd d s.low)
  rwa [sub_sub_sub_cancel_right] at this

lemma chunkSide_mem_iff {s : RangeSide} {c : ℤ} (h : Aligned d c) (hs : s.high ≤ d.stop) :
    (chunkSide d s).Mem c ↔ ∃ x, InChunkSide d c x ∧ s.low ≤ x ∧ x ≤ s.high := by
  have hpos := d.interval_pos
  have hvalid := s.valid
  have hle := d.chunkPosition_le s.low
  have hnear : s.low ≤ d.chunkPosition s.low + d.interval - 1 := by
    rw [d.chunkPosition_eq]
    have := Int.emod_lt_of_pos (s.low - d.start) hpos
    omega
  constructor
  · rintro ⟨hlow, hhigh, -⟩
    change d.chunkPosition s.low ≤ c at hlow
    change c ≤ s.high at hhigh
    exact ⟨max c s.low, ⟨by omega, by omega⟩, by omega, by omega⟩
  · rintro ⟨x, ⟨hcx, hxc⟩, hlow, hhigh⟩
    refine ⟨?_, hcx.trans hhigh, h.onGrid s⟩
    -- else the chunk of the low end starts one interval later, at least
    by_contra hlt
    have := (h.onGrid s).add_step_le (Side.mem_low _).2.2 (not_le.mp hlt)
    change c + d.interval ≤ d.chunkPosition s.low at this
    omega

/-- `BetweenArray`, one attribute. -/
structure BetweenArray where
  dims : List Dimension
  ranges : List SpatialRange
  chunks : List Coordinates
  afterFailed : Coordinates → Option Coordinates
  dims_ne : dims ≠ []
  inBounds : ∀ r ∈ ranges, List.Forall₂ (fun d s => d.start ≤ s.low ∧ s.high ≤ d.stop) dims r
  sorted : chunks.Pairwise (· < ·)
  aligned : ∀ c ∈ chunks, List.Forall₂ Aligned dims c
  int64 : ∀ c ∈ chunks, ∀ x ∈ c, IsInt64 x

namespace BetweenArray

variable (b : BetweenArray)

/-- The chunk meets a range. -/
def Meets (c : Coordinates) : Prop := ∃ r ∈ b.ranges, ∃ x, InChunk b.dims c x ∧ r.Mem x

/-- The regions of the ranges. -/
def regions : List Region := b.ranges.map (chunkRegion b.dims)

/-- A range with the chunk. -/
def inRange (c : Coordinates) (hint : ℕ) : Bool × ℕ :=
  findOneThat (fun r => r.contains c) (b.ranges.map (extendedRange b.dims)) hint

/-- `BetweenArrayIterator`. -/
structure ArrayIterator where
  input : Option Coordinates
  chunkPos : ChunkPosIterator
  pos : Coordinates
  hasCurrent : Bool
  hint : ℕ

variable (b : BetweenArray)

/-- The loop over the input. -/
def advanceLoop : List Coordinates → ArrayIterator → ArrayIterator
  | [], s => { s with input := none }
  | p :: rest, s =>
    let (found, hint) := b.inRange p s.hint
    let (advanced, it) := ChunkPosIterator.advancePositionToAtLeast b.regions s.chunkPos p
    if found then { input := some p, chunkPos := it, pos := p, hasCurrent := true, hint }
    else
      match it.position b.regions with
      | none => { s with input := some p, chunkPos := it, pos := p, hint }
      | some c =>
        -- a position that has just been reached has not been looked up in the input yet
        let it := if advanced && decide (p < c) then it else it.increment b.regions
        match it.position b.regions with
        | none => { s with input := some p, chunkPos := it, pos := p, hint }
        | some c =>
          if c ∈ b.chunks then { input := some c, chunkPos := it, pos := c, hasCurrent := true, hint }
          else advanceLoop rest { s with input := some p, chunkPos := it, pos := p, hint }

variable (s : ArrayIterator)

def advanceToNextChunkInRange : ArrayIterator :=
  match s.input with
  | none => { s with hasCurrent := false }
  | some p => b.advanceLoop (b.chunks.filter (Cursor.isAfter p)) { s with hasCurrent := false }

/-- To the first chunk in a range. -/
def reset (s : ArrayIterator) : ArrayIterator :=
  let it := ChunkPosIterator.reset b.regions
  match b.chunks.head?, it.position b.regions with
  | some p, some c =>
    let (found, hint) := b.inRange p s.hint
    if found then
      { input := some p, pos := p, hasCurrent := true, hint
        chunkPos := if c < p then (ChunkPosIterator.advancePositionToAtLeast b.regions it p).2 else it }
    else if c ∈ b.chunks then { input := some c, chunkPos := it, pos := c, hasCurrent := true, hint }
    else b.advanceToNextChunkInRange { input := some p, chunkPos := it, pos := p, hasCurrent := false, hint }
  | input, _ => { s with input, chunkPos := it, hasCurrent := false }

/-- To the chunk of a position. -/
def setPosition (newPos : Coordinates) : Bool × ArrayIterator :=
  let c := getChunkPositionFor b.dims newPos
  if s.hasCurrent && s.pos == c then (true, s)
  else if c ∈ b.chunks then
    let (found, hint) := b.inRange c s.hint
    if found then
      let it := match s.chunkPos.position b.regions with
        | none => ChunkPosIterator.reset b.regions
        | some q => if c < q then ChunkPosIterator.reset b.regions else s.chunkPos
      (true, { input := some c, pos := c, hasCurrent := true, hint
               chunkPos := (ChunkPosIterator.advancePositionToAtLeast b.regions it c).2 })
    else (false, { s with input := some c, hasCurrent := false, hint })
  else (false, { s with input := b.afterFailed c, hasCurrent := false })

/-- `getPosition`, `none` at the end. -/
def ArrayIterator.position : Option Coordinates := if s.hasCurrent then some s.pos else none

/-- The constructor. -/
def arrayIterator : ArrayIterator :=
  b.reset { input := none, chunkPos := [], pos := b.dims.map fun _ => 0, hasCurrent := false, hint := 0 }

/-- What a call returns. -/
def arrayCall : IteratorCall Coordinates → Option ((Bool × Option Coordinates) × ArrayIterator)
  | .reset => let s := b.reset s; some ((true, s.position), s)
  | .next =>
    if s.hasCurrent then
      let s := b.advanceToNextChunkInRange s
      some ((true, s.position), s)
    else none
  | .setPosition p =>
    let (ok, s) := b.setPosition s p
    some ((ok, s.position), s)

variable {b}

variable {dims : List Dimension} {r : SpatialRange} {c p : Coordinates} {it : ChunkPosIterator}
  {A : Coordinates → Prop} {s : ArrayIterator} {rest : List Coordinates}

lemma chunkRegion_mem_iff (hr : List.Forall₂ (fun d s => d.start ≤ s.low ∧ s.high ≤ d.stop) dims r)
    (hc : List.Forall₂ Aligned dims c) : (chunkRegion dims r).Mem c ↔ ∃ x, InChunk dims c x ∧ r.Mem x := by
  induction hr generalizing c with
  | nil =>
    cases hc
    exact iff_of_true .nil ⟨[], trivial, .nil⟩
  | @cons d s ds ss hs _ ih =>
    cases hc with
    | @cons _ c _ cs hc hcs =>
      constructor
      · intro hmem
        cases hmem with
        | cons hside hmem =>
          obtain ⟨x, hx, hsx⟩ := (chunkSide_mem_iff hc hs.2).mp hside
          obtain ⟨xs, hxs, hsxs⟩ := (ih hcs).mp hmem
          exact ⟨x :: xs, ⟨hx, hxs⟩, .cons hsx hsxs⟩
      · rintro ⟨x, hx, hsx⟩
        cases hsx with
        | cons hsx hsxs => exact .cons ((chunkSide_mem_iff hc hs.2).mpr ⟨_, hx.1, hsx⟩) ((ih hcs).mpr ⟨_, hx.2, hsxs⟩)

lemma extendedRange_mem_iff (hlen : dims.length = r.length) (hc : List.Forall₂ Aligned dims c) :
    (extendedRange dims r).Mem c ↔ (chunkRegion dims r).Mem c := by
  induction hc generalizing r with
  | nil =>
    obtain rfl := eq_nil_of_length_eq_zero hlen.symm
    exact iff_of_true .nil .nil
  | cons hx _ ih =>
    obtain ⟨s, r, rfl⟩ := exists_cons_of_length_pos (by rw [← hlen]; exact Nat.succ_pos _)
    constructor
    · intro hmem
      cases hmem with
      | cons hside hmem => exact .cons ⟨hside.1, hside.2, hx.onGrid s⟩ ((ih (Nat.succ.inj hlen)).mp hmem)
    · intro hmem
      cases hmem with
      | cons hside hmem => exact .cons ⟨hside.1, hside.2.1⟩ ((ih (Nat.succ.inj hlen)).mpr hmem)

lemma covers_iff (hc : c ∈ b.chunks) : ChunkPosIterator.Covers b.regions c ↔ b.Meets c := by
  constructor
  · rintro ⟨_, hreg, hmem⟩
    obtain ⟨r, hr, rfl⟩ := mem_map.mp hreg
    exact ⟨r, hr, (chunkRegion_mem_iff (b.inBounds r hr) (b.aligned c hc)).mp hmem⟩
  · rintro ⟨r, hr, hmeets⟩
    exact ⟨_, mem_map_of_mem hr, (chunkRegion_mem_iff (b.inBounds r hr) (b.aligned c hc)).mpr hmeets⟩

lemma inRange_iff {hint : ℕ} (hc : c ∈ b.chunks) : (b.inRange c hint).1 = true ↔ b.Meets c := by
  rw [inRange, findOneThat_iff, ← covers_iff hc]
  have hlen := (b.aligned c hc).length_eq
  constructor
  · rintro ⟨_, hext, hcont⟩
    obtain ⟨r, hr, rfl⟩ := mem_map.mp hext
    have hlen' := (b.inBounds r hr).length_eq
    refine ⟨_, mem_map_of_mem hr, (extendedRange_mem_iff hlen' (b.aligned c hc)).mp ?_⟩
    exact (SpatialRange.contains_iff (by rw [extendedRange, length_zipWith]; omega)).mp hcont
  · rintro ⟨_, hreg, hmem⟩
    obtain ⟨r, hr, rfl⟩ := mem_map.mp hreg
    have hlen' := (b.inBounds r hr).length_eq
    refine ⟨_, mem_map_of_mem hr, ?_⟩
    exact (SpatialRange.contains_iff (by rw [extendedRange, length_zipWith]; omega)).mpr
      ((extendedRange_mem_iff hlen' (b.aligned c hc)).mpr hmem)

lemma regions_ne {r : Region} (hreg : r ∈ b.regions) : r ≠ [] := by
  obtain ⟨r, hr, rfl⟩ := mem_map.mp hreg
  have hlen := (b.inBounds r hr).length_eq
  have := length_pos_iff.mpr b.dims_ne
  rw [← length_pos_iff, chunkRegion, length_zipWith]
  omega

lemma aligned_of_mem : ∀ {dims : List Dimension} {r : SpatialRange} {q : Coordinates}, dims.length = r.length →
    (chunkRegion dims r).Mem q → Forall₂ Aligned dims q
  | [], [], _, _, h => by
    cases h
    exact .nil
  | d :: dims, s :: r, _, hlen, h => by
    cases h with
    | @cons _ x _ _ hx hxs =>
      refine .cons ?_ (aligned_of_mem (Nat.succ.inj hlen) hxs)
      have := Int.dvd_add hx.2.2 (chunkPosition_dvd d s.low)
      exact aligned_of_dvd (by rwa [chunkSide, sub_add_sub_cancel] at this)

lemma chunkRegion_inInt64 (hr : List.Forall₂ (fun d s => d.start ≤ s.low ∧ s.high ≤ d.stop) dims r) :
    ∀ side ∈ chunkRegion dims r, side.InInt64 := by
  induction hr with
  | nil => exact fun _ h => absurd h not_mem_nil
  | @cons d s dims r hs _ ih =>
    have hstart := d.start_le_chunkPosition hs.1
    have := d.start_min
    have := d.stop_max
    refine forall_mem_cons.mpr ⟨⟨?_, ?_, d.interval_max⟩, ih⟩
    · change -2 ^ 63 ≤ d.chunkPosition s.low
      omega
    · change s.high < 2 ^ 63
      omega

lemma stepsFit_iff (hlen : dims.length = r.length) :
    List.Forall₂ (fun side x => x + side.step < 2 ^ 63) (chunkRegion dims r) c ↔ StepsFit dims c := by
  induction dims generalizing r c with
  | nil => rw [StepsFit, chunkRegion, zipWith_nil_left, forall₂_nil_left_iff, forall₂_nil_left_iff]
  | cons d dims ih =>
    obtain ⟨s, r, rfl⟩ := exists_cons_of_length_pos (by rw [← hlen]; exact Nat.succ_pos _)
    rw [StepsFit, chunkRegion, zipWith_cons_cons, forall₂_cons_left_iff, forall₂_cons_left_iff]
    exact exists_congr fun x => exists_congr fun xs => and_congr_right fun _ => and_congr_left fun _ =>
      ih (Nat.succ.inj hlen)

lemma chunkRegion_fits_iff (hr : List.Forall₂ (fun d s => d.start ≤ s.low ∧ s.high ≤ d.stop) dims r) :
    (chunkRegion dims r).Fits ↔
      ∀ c, Forall₂ Aligned dims c → (∃ x, InChunk dims c x ∧ r.Mem x) → StepsFit dims c := by
  constructor
  · intro hfit c hal hmeets
    exact (stepsFit_iff hr.length_eq).mp (hfit.add_step_lt ((chunkRegion_mem_iff hr hal).mpr hmeets))
  · intro h
    refine Region.fits_of_mem (fun side hside => (chunkRegion_inInt64 hr side hside).1) fun c hc => ?_
    have hal := aligned_of_mem hr.length_eq hc
    exact (stepsFit_iff hr.length_eq).mpr (h c hal ((chunkRegion_mem_iff hr hal).mp hc))

/-- The position behind every chunk of the array that meets a range is an `int64`. -/
def Fits (b : BetweenArray) : Prop := ∀ c, Forall₂ Aligned b.dims c → b.Meets c → StepsFit b.dims c

lemma regions_fits (hfit : b.Fits) {r : Region} (hreg : r ∈ b.regions) : r.Fits := by
  obtain ⟨r, hr, rfl⟩ := mem_map.mp hreg
  exact (chunkRegion_fits_iff (b.inBounds r hr)).mpr fun c hal hmeets => hfit c hal ⟨r, hr, hmeets⟩

lemma chunkRegion_onGrid (hlen : dims.length = r.length) (hc : List.Forall₂ Aligned dims c) :
    (chunkRegion dims r).OnGrid c := by
  induction hc generalizing r with
  | nil => exact .nil
  | cons hx _ ih =>
    obtain ⟨s, r, rfl⟩ := exists_cons_of_length_pos (by rw [← hlen]; exact Nat.succ_pos _)
    exact .cons (hx.onGrid s) (ih (Nat.succ.inj hlen))

lemma regions_onGrid (hc : c ∈ b.chunks) : ∀ r ∈ b.regions, r.OnGrid c := by
  intro r hreg
  obtain ⟨r, hr, rfl⟩ := mem_map.mp hreg
  exact chunkRegion_onGrid (b.inBounds r hr).length_eq (b.aligned c hc)

open Classical in
/-- The chunks that meet a range. -/
noncomputable def selected (b : BetweenArray) : List Coordinates := b.chunks.filter fun c => decide (b.Meets c)

open Classical in
lemma mem_selected : c ∈ b.selected ↔ c ∈ b.chunks ∧ b.Meets c := by
  rw [selected, mem_filter, decide_eq_true_iff]

lemma selected_sorted (b : BetweenArray) : b.selected.Pairwise (· < ·) := b.sorted.filter _

def Placed (b : BetweenArray) (it : ChunkPosIterator) (A : Coordinates → Prop) : Prop :=
  ChunkPosIterator.At b.regions it A ∧ ∀ p q, A p → p ≤ q → A q

structure Stands (s : ArrayIterator) (o : Option Coordinates) : Prop where
  placed : ∃ A, b.Placed s.chunkPos A
  position : s.position = o
  current : ∀ c, o = some c → c ∈ b.selected ∧ s.input = some c ∧ s.chunkPos.position b.regions = some c

lemma Placed.reset (b : BetweenArray) : b.Placed (ChunkPosIterator.reset b.regions) fun _ => True :=
  ⟨ChunkPosIterator.at_reset _, fun _ _ _ _ => trivial⟩

section

variable (h : b.Placed it A)

include h

lemma Placed.increment (hfit : b.Fits) (hpos : it.position b.regions = some c) : b.Placed (it.increment b.regions) fun q => A q ∧ c < q :=
  ⟨h.1.increment h.2 (fun _ hr => regions_ne hr) (fun _ => regions_fits hfit) hpos, fun _ _ hA hle => ⟨h.2 _ _ hA.1 hle, hA.2.trans_le hle⟩⟩

lemma Placed.advance (hfit : b.Fits) (hp : p ∈ b.chunks) :
    b.Placed (ChunkPosIterator.advancePositionToAtLeast b.regions it p).2 fun q => A q ∧ p ≤ q :=
  ⟨h.1.advance h.2 (fun _ hr => regions_ne hr) (fun _ => regions_fits hfit) (regions_onGrid hp) (b.int64 p hp), fun _ _ hA hle => ⟨h.2 _ _ hA.1 hle, hA.2.trans hle⟩⟩

lemma Placed.position_eq (hc : c ∈ b.selected) (hA : A c) (hmin : ∀ q, A q → c ≤ q) : it.position b.regions = some c := by
  obtain ⟨hchunk, hmeets⟩ := mem_selected.mp hc
  exact h.1.position.unique ⟨(covers_iff hchunk).mpr hmeets, hA, fun q _ hAq => hmin q hAq⟩

lemma Placed.advance_position (hfit : b.Fits) (hc : c ∈ b.selected) (hA : A c) :
    ChunkPosIterator.position b.regions (ChunkPosIterator.advancePositionToAtLeast b.regions it c).2 = some c :=
  (h.advance hfit (mem_selected.mp hc).1).position_eq hc ⟨hA, le_rfl⟩ fun _ hq => hq.2

end

lemma stands_none (h : b.Placed s.chunkPos A) (hcur : s.hasCurrent = false) : b.Stands s none :=
  ⟨⟨A, h⟩, by rw [ArrayIterator.position, hcur]; rfl, nofun⟩

lemma stands_some (h : b.Placed s.chunkPos A) (hc : c ∈ b.selected) (hcur : s.hasCurrent = true) (hpos : s.pos = c)
    (hinput : s.input = some c) (hat : s.chunkPos.position b.regions = some c) : b.Stands s (some c) := by
  refine ⟨⟨A, h⟩, by rw [ArrayIterator.position, hcur, hpos]; rfl, fun c' hc' => ?_⟩
  cases hc'
  exact ⟨hc, hinput, hat⟩

lemma find_none_of_ended (h : b.Placed it A) (hend : it.position b.regions = none)
    (hahead : ∀ q ∈ rest, q ∈ b.selected → A q) : rest.find? (· ∈ b.selected) = none := by
  have hleast := h.1.position
  rw [hend] at hleast
  refine find?_eq_none.mpr fun q hq hsel => ?_
  have hsel := of_decide_eq_true hsel
  obtain ⟨hchunk, hmeets⟩ := mem_selected.mp hsel
  exact hleast q ((covers_iff hchunk).mpr hmeets) (hahead q hq hsel)

lemma Placed.step_over {it' : ChunkPosIterator} {advanced : Bool} (h : b.Placed it A) (hfit : b.Fits) (hp : p ∈ b.chunks)
    (hmeets : ¬b.Meets p) (hafter : ∀ q ∈ rest, p < q) (hahead : ∀ q ∈ rest, q ∈ b.selected → A q)
    (hpassed : ∀ c, it.position b.regions = some c → c ∉ rest)
    (hadv : ChunkPosIterator.advancePositionToAtLeast b.regions it p = (advanced, it')) (hpos : it'.position b.regions = some c) :
    ∃ A', b.Placed (if advanced && decide (p < c) then it' else it'.increment b.regions) A' ∧
      (∀ q ∈ rest, q ∈ b.selected → A' q) ∧ ∀ q, A' q → p ≤ q := by
  have hplaced := h.advance hfit hp
  rw [hadv] at hplaced
  have hleast := hplaced.1.position
  rw [hpos] at hleast
  obtain ⟨hcov, ⟨-, hle⟩, hmin⟩ := hleast
  have hlt : p < c := by
    refine lt_of_le_of_ne hle ?_
    rintro rfl
    exact hmeets ((covers_iff hp).mp hcov)
  have hahead' : ∀ q ∈ rest, q ∈ b.selected → A q ∧ p ≤ q := fun q hq hsel => ⟨hahead q hq hsel, (hafter q hq).le⟩
  rw [decide_eq_true hlt, Bool.and_true]
  cases advanced with
  | true => exact ⟨_, hplaced, hahead', fun q hq => hq.2⟩
  | false =>
    -- nothing has been done: the position is the one that has been looked up before
    have hit : it' = it := by
      rw [ChunkPosIterator.advancePositionToAtLeast] at hadv
      cases hold : it.position b.regions with
      | none =>
        rw [hold] at hadv
        exact (Prod.mk.inj hadv).2.symm
      | some c' =>
        rw [hold] at hadv
        dsimp only at hadv
        split_ifs at hadv
        · exact (Prod.mk.inj hadv).2.symm
        · cases (Prod.mk.inj hadv).1
    refine ⟨_, hplaced.increment hfit hpos, fun q hq hsel => ⟨hahead' q hq hsel, ?_⟩, fun q hq => hq.1.2⟩
    obtain ⟨hchunk, hm⟩ := mem_selected.mp hsel
    refine lt_of_le_of_ne (hmin q ((covers_iff hchunk).mpr hm) (hahead' q hq hsel)) ?_
    rintro rfl
    exact hpassed _ (hit ▸ hpos) hq

/-- **What the loop finds**: no chunk that meets a range has been passed. -/
lemma advanceLoop_stands (hfit : b.Fits) {l : List Coordinates} (hchunks : b.chunks = l ++ rest) (hcur : s.hasCurrent = false)
    (h : b.Placed s.chunkPos A) (hahead : ∀ q ∈ rest, q ∈ b.selected → A q)
    (hpassed : ∀ c, s.chunkPos.position b.regions = some c → c ∉ rest) :
    b.Stands (b.advanceLoop rest s) (rest.find? (· ∈ b.selected)) := by
  induction rest generalizing l s A with
  | nil => exact stands_none h hcur
  | cons p rest ih =>
    have hp : p ∈ b.chunks := by
      rw [hchunks]
      exact mem_append_right _ mem_cons_self
    have hsorted : (p :: rest).Pairwise (· < ·) := (pairwise_append.mp (hchunks ▸ b.sorted)).2.1
    have hafter := (pairwise_cons.mp hsorted).1
    have hmem : ∀ q ∈ rest, q ∈ b.chunks := fun q hq => by
      rw [hchunks]
      exact mem_append_right _ (mem_cons_of_mem _ hq)
    have hadv := h.advance hfit hp
    rw [advanceLoop]
    dsimp only
    by_cases hmeets : b.Meets p
    · -- the input comes to a chunk that meets a range
      have hsel : p ∈ b.selected := mem_selected.mpr ⟨hp, hmeets⟩
      rw [if_pos ((inRange_iff hp).mpr hmeets), find?_cons_of_pos (by simpa using hsel)]
      exact stands_some hadv hsel rfl rfl rfl (h.advance_position hfit hsel (hahead p mem_cons_self hsel))
    have hnot : p ∉ b.selected := fun hsel => hmeets (mem_selected.mp hsel).2
    rw [if_neg fun hin => hmeets ((inRange_iff hp).mp hin), find?_cons_of_neg (by simpa using hnot)]
    have hahead' : ∀ q ∈ rest, q ∈ b.selected → A q := fun q hq hsel =>
      hahead q (mem_cons_of_mem _ hq) hsel
    generalize hadvanced : ChunkPosIterator.advancePositionToAtLeast b.regions s.chunkPos p = r at hadv ⊢
    obtain ⟨advanced, it⟩ := r
    cases hpos : it.position b.regions with
    | none =>
      have hnone := find_none_of_ended hadv hpos fun q hq hsel => ⟨hahead' q hq hsel, (hafter q hq).le⟩
      rw [hnone]
      exact stands_none hadv hcur
    | some c =>
      obtain ⟨A', hplaced, hahead'', hgt⟩ := h.step_over hfit hp hmeets hafter hahead'
        (fun c hc hin => hpassed c hc (mem_cons_of_mem _ hin)) hadvanced hpos
      dsimp only
      generalize (if (advanced && decide (p < c)) = true then it else it.increment b.regions) = it' at hplaced ⊢
      cases hpos' : it'.position b.regions with
      | none =>
        have hnone := find_none_of_ended hplaced hpos' hahead''
        rw [hnone]
        exact stands_none hplaced hcur
      | some c' =>
        have hleast := hplaced.1.position
        rw [hpos'] at hleast
        obtain ⟨hcov, hA', hmin⟩ := hleast
        dsimp only
        split_ifs with hin
        · -- the position of a range that the input has
          have hsel : c' ∈ b.selected := mem_selected.mpr ⟨hin, (covers_iff hin).mp hcov⟩
          have hrest : c' ∈ rest := by
            rcases mem_append.mp (hchunks ▸ hin) with hpre | hin
            · have := (pairwise_append.mp (hchunks ▸ b.sorted)).2.2 c' hpre p mem_cons_self
              exact absurd (hgt c' hA') (not_le.mpr this)
            · exact (mem_cons.mp hin).resolve_left fun heq => hnot (heq ▸ hsel)
          rw [Cursor.find_eq_some_of_least (pairwise_cons.mp hsorted).2 hrest (decide_eq_true hsel) fun q hq hq' => ?_]
          · exact stands_some hplaced hsel rfl rfl rfl hpos'
          · have hq' := of_decide_eq_true hq'
            obtain ⟨hchunk, hm⟩ := mem_selected.mp hq'
            exact hmin q ((covers_iff hchunk).mpr hm) (hahead'' q hq hq')
        · refine ih (by rw [hchunks, append_cons]) hcur hplaced hahead'' fun c'' hc'' hrest => ?_
          cases hpos'.symm.trans hc''
          exact hin (hmem _ hrest)

variable (b)

open Classical in
lemma selected_eq : b.selected = b.chunks.filter (· ∈ b.selected) := by
  conv_lhs => rw [selected]
  refine filter_congr fun c hc => decide_eq_decide.mpr ?_
  rw [mem_selected]
  exact ⟨fun hm => ⟨hc, hm⟩, And.right⟩

lemma head_selected : b.selected.head? = b.chunks.find? (· ∈ b.selected) := by
  rw [← head?_filter, ← selected_eq]

lemma find_selected (P : Coordinates → Bool) : b.selected.find? P = (b.chunks.filter P).find? (· ∈ b.selected) := by
  rw [← head?_filter, ← head?_filter, filter_filter]
  conv_lhs => rw [selected_eq, filter_filter]
  simp only [Bool.and_comm]

variable {b}

lemma reset_stands (hfit : b.Fits) (s : ArrayIterator) : b.Stands (b.reset s) b.selected.head? := by
  have hplaced := Placed.reset b
  have hleast := hplaced.1.position
  rw [head_selected, reset]
  cases hchunks : b.chunks with
  | nil => exact stands_none hplaced rfl
  | cons p rest =>
    have hp : p ∈ b.chunks := by
      rw [hchunks]
      exact mem_cons_self
    rw [head?_cons]
    cases hpos : ChunkPosIterator.position b.regions (ChunkPosIterator.reset b.regions) with
    | none =>
      rw [find_none_of_ended hplaced hpos fun _ _ _ => trivial]
      exact stands_none hplaced rfl
    | some c =>
      rw [hpos] at hleast
      obtain ⟨hcov, -, hmin⟩ := hleast
      dsimp only
      by_cases hmeets : b.Meets p
      · have hsel : p ∈ b.selected := mem_selected.mpr ⟨hp, hmeets⟩
        rw [if_pos ((inRange_iff hp).mpr hmeets), find?_cons_of_pos (by simpa using hsel)]
        by_cases hlt : c < p
        · rw [if_pos hlt]
          exact stands_some (hplaced.advance hfit hp) hsel rfl rfl rfl (hplaced.advance_position hfit hsel trivial)
        · rw [if_neg hlt]
          have hcp := le_antisymm (hmin p ((covers_iff hp).mpr hmeets) trivial) (not_lt.mp hlt)
          exact stands_some hplaced hsel rfl rfl rfl (hcp ▸ hpos)
      have hnot : p ∉ b.selected := fun hsel => hmeets (mem_selected.mp hsel).2
      rw [if_neg fun hin => hmeets ((inRange_iff hp).mp hin)]
      have hsorted := b.sorted
      rw [hchunks] at hsorted
      split_ifs with hin
      · -- the first position of the ranges is a chunk
        have hsel : c ∈ b.selected := mem_selected.mpr ⟨hchunks ▸ hin, (covers_iff (hchunks ▸ hin)).mp hcov⟩
        rw [Cursor.find_eq_some_of_least hsorted hin (decide_eq_true hsel) fun q hq hq' => ?_]
        · exact stands_some hplaced hsel rfl rfl rfl hpos
        · obtain ⟨hchunk, hm⟩ := mem_selected.mp (of_decide_eq_true hq')
          exact hmin q ((covers_iff hchunk).mpr hm) trivial
      · rw [advanceToNextChunkInRange, hchunks]
        have hrest := Cursor.filter_gt_of_sorted (l := []) hsorted
        rw [nil_append] at hrest
        dsimp only
        rw [hrest, find?_cons_of_neg (by simpa using hnot)]
        refine advanceLoop_stands hfit (l := [p]) hchunks rfl hplaced (fun _ _ _ => trivial) fun c' hc' hrest => ?_
        cases hpos.symm.trans hc'
        exact hin (mem_cons_of_mem _ hrest)

lemma next_stands (hfit : b.Fits) (h : b.Stands s (some c)) :
    b.Stands (b.advanceToNextChunkInRange s) (b.selected.find? (Cursor.isAfter c)) := by
  obtain ⟨hsel, hinput, hpos⟩ := h.current c rfl
  obtain ⟨A, hplaced⟩ := h.placed
  obtain ⟨pre, rest, hchunks⟩ := append_of_mem (mem_selected.mp hsel).1
  have hsorted := b.sorted
  rw [hchunks] at hsorted
  have hafter := (pairwise_cons.mp (pairwise_append.mp hsorted).2.1).1
  have hleast := hplaced.1.position
  rw [hpos] at hleast
  rw [find_selected, advanceToNextChunkInRange, hinput]
  dsimp only
  have hrest : b.chunks.filter (Cursor.isAfter c) = rest := by
    rw [hchunks]
    exact Cursor.filter_gt_of_sorted hsorted
  rw [hrest]
  refine advanceLoop_stands hfit (A := A) (l := pre ++ [c]) (by rw [hchunks, append_cons]) rfl hplaced
    (fun q hq _ => hplaced.2 c q hleast.2.1 (hafter q hq).le) fun c' hc' hin => ?_
  cases hpos.symm.trans hc'
  exact lt_irrefl _ (hafter c hin)

lemma setPosition_stands (hfit : b.Fits) {o : Option Coordinates} (h : b.Stands s o) :
    Agree b.Stands (b.arrayCall s (.setPosition p)) (Cursor.call b.selected (getChunkPositionFor b.dims) o (.setPosition p)) := by
  obtain ⟨A, hplaced⟩ := h.placed
  rw [arrayCall, setPosition, Cursor.call]
  dsimp only
  generalize getChunkPositionFor b.dims p = c
  by_cases hsame : (s.hasCurrent && s.pos == c) = true
  · -- already there
    obtain ⟨hcur, heq⟩ := and_eq_true_iff.mp hsame
    have hpos : s.position = some c := by rw [ArrayIterator.position, hcur, eq_of_beq heq]; rfl
    obtain rfl : o = some c := h.position.symm.trans hpos
    rw [if_pos hsame, if_pos (h.current c rfl).1, hpos]
    exact .answer _ h
  rw [if_neg hsame]
  by_cases hchunk : c ∈ b.chunks
  swap
  · rw [if_neg hchunk, if_neg fun hsel => hchunk (mem_selected.mp hsel).1]
    exact .answer _ (stands_none hplaced rfl)
  rw [if_pos hchunk]
  by_cases hmeets : b.Meets c
  swap
  · rw [if_neg fun hin => hmeets ((inRange_iff hchunk).mp hin), if_neg fun hsel => hmeets (mem_selected.mp hsel).2]
    exact .answer _ (stands_none hplaced rfl)
  have hsel : c ∈ b.selected := mem_selected.mpr ⟨hchunk, hmeets⟩
  rw [if_pos ((inRange_iff hchunk).mpr hmeets), if_pos hsel]
  -- from where the iterator over chunk positions is set to, the chunk is not passed
  obtain ⟨A', hplaced', hA'⟩ : ∃ A', b.Placed (match s.chunkPos.position b.regions with
      | none => ChunkPosIterator.reset b.regions
      | some q => if c < q then ChunkPosIterator.reset b.regions else s.chunkPos) A' ∧ A' c := by
    cases hpos : s.chunkPos.position b.regions with
    | none => exact ⟨_, Placed.reset b, trivial⟩
    | some q =>
      dsimp only
      split_ifs with hlt
      · exact ⟨_, Placed.reset b, trivial⟩
      · have hleast := hplaced.1.position
        rw [hpos] at hleast
        exact ⟨A, hplaced, hplaced.2 q c hleast.2.1 (not_lt.mp hlt)⟩
  exact .answer _ (stands_some (hplaced'.advance hfit hchunk) hsel rfl rfl rfl (hplaced'.advance_position hfit hsel hA'))

/-- **The iterator answers as a cursor over the chunks that meet a range.** -/
lemma arrayIterator_answers (hfit : b.Fits) (calls : List (IteratorCall Coordinates)) :
    answers b.arrayCall b.arrayIterator calls =
      answers (Cursor.call b.selected (getChunkPositionFor b.dims)) b.selected.head? calls := by
  refine answers_eq_of_agree (R := b.Stands) (fun s o a h => ?_) (reset_stands hfit _) calls
  cases a with
  | reset =>
    rw [arrayCall, Cursor.call, (reset_stands hfit s).position]
    exact .answer _ (reset_stands hfit s)
  | next =>
    rw [arrayCall]
    have hpos := h.position
    cases o with
    | none =>
      rw [ArrayIterator.position] at hpos
      split_ifs at hpos with hcur
      rw [if_neg hcur]
      exact .throws
    | some c =>
      rw [ArrayIterator.position] at hpos
      split_ifs at hpos with hcur
      rw [if_pos hcur]
      dsimp only
      rw [(next_stands hfit h).position]
      exact .answer _ (next_stands hfit h)
  | setPosition p => exact setPosition_stands hfit h

end BetweenArray

end SciDB.Query
