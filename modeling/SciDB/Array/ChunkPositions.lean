import SciDB.Query.BetweenArray

/-!
# Iterators over chunk positions

`RegionCoordinatesIterator`, and `SpatialRangesChunkPosIterator` over `MultiConstIterators`, whose set of coordinates and IDs
the model has as coordinates next to the iterators. A range need not be valid. Left out: `setPosition`.
-/

namespace SciDB.Array

open SciDB.Lib SciDB.Query List Option

/-- `operator++`, or a jump. -/
inductive PositionCall
  | increment
  | advanceToAtLeast (newPos : Coordinates)

namespace RegionIterator

variable (r : Region)

/-- What a call does. -/
def call (current : Coordinates) : PositionCall → Coordinates
  | .increment => Region.increment r current
  | .advanceToAtLeast newPos => Region.advanceToAtLeast r current newPos

/-- `++` is called before the end only, and jumps go to positions on the grid. -/
def Admitted (current : Coordinates) : PositionCall → Prop
  | .increment => ¬r.highs < current
  | .advanceToAtLeast newPos => r.OnGrid newPos ∧ ∀ x ∈ newPos, IsInt64 x

/-- What calls come to from `reset`. -/
def Reached : Coordinates → Prop := Reaches (fun x c => some (call r x c)) (Admitted r) r.lows

def Standing (x : Coordinates) : Prop := r.Mem x ∨ r.highs < x

variable {r : Region} {x p : Coordinates} {A : Coordinates → Prop}

lemma standing_of_least (h : LeastIn r.Mem A (Region.now r x)) : Standing r x := by
  unfold Region.now at h
  split_ifs at h with hend
  · exact .inr hend
  · exact .inl h.1

lemma Standing.advance (hr : r ≠ []) (hfit : r.Fits) (h : Standing r x) (hp : r.OnGrid p) (hp64 : ∀ x ∈ p, IsInt64 x) :
    LeastIn r.Mem (fun q => x ≤ q ∧ p ≤ q) (Region.now r (Region.advanceToAtLeast r x p)) := by
  by_cases hle : p ≤ x
  · rw [Region.advanceToAtLeast, if_pos hle]
    rcases h with hmem | hend
    · rw [Region.now_of_mem hmem]
      exact ⟨hmem, ⟨le_rfl, hle⟩, fun q _ hq => hq.1⟩
    · rw [Region.now, if_pos hend]
      exact fun q hq hA => not_lt.mpr ((hA.1).trans (Lib.Region.le_highs hq)) hend
  · rw [Region.now_advanceToAtLeast hr hfit hp hp64 (not_le.mp hle)]
    exact (Lib.Region.leastFrom_isLeast hp).congr fun q _ => ⟨fun hq => ⟨(not_le.mp hle).le.trans hq, hq⟩, And.right⟩

lemma Reached.standing (hr : r ≠ []) (hfit : r.Fits) (h : Reached r x) : Standing r x := by
  refine h.invariant (.inl (Lib.Region.mem_lows r)) fun x x' c hx hok hcall => ?_
  cases hcall
  cases c with
  | increment =>
    have hmem := hx.resolve_right hok
    have hleast := Lib.Region.nextIn_isLeast hmem
    rw [← Region.now_increment hr hfit hmem] at hleast
    exact standing_of_least hleast
  | advanceToAtLeast p => exact standing_of_least (hx.advance hr hfit hok.1 hok.2)

def AtFirst (r : Region) (x : Coordinates) (A : Coordinates → Prop) : Prop :=
  (∀ p q, A p → p ≤ q → A q) ∧ LeastIn r.Mem A (Region.now r x)

lemma AtFirst.increment (hr : r ≠ []) (hfit : r.Fits) {c : Coordinates} (h : AtFirst r x A) (hnow : Region.now r x = some c) :
    AtFirst r (Region.increment r x) fun q => A q ∧ c < q := by
  obtain ⟨hup, hx⟩ := h
  rw [hnow] at hx
  unfold Region.now at hnow
  split_ifs at hnow
  obtain rfl := some.inj hnow
  refine ⟨fun p q hp hpq => ⟨hup p q hp.1 hpq, hp.2.trans_le hpq⟩, ?_⟩
  rw [Region.now_increment hr hfit hx.1]
  exact (Lib.Region.nextIn_isLeast hx.1).congr fun q _ => ⟨fun hq => ⟨hup _ _ hx.2.1 hq.le, hq⟩, And.right⟩

lemma visited_region (hr : r ≠ []) (hfit : r.Fits) : ∃ n, ∀ fuel ≥ n,
    (visited (Region.now r) (Region.increment r) fuel r.lows).Pairwise (· < ·) ∧
      ∀ q, q ∈ visited (Region.now r) (Region.increment r) fuel r.lows ↔ r.Mem q := by
  have hfirst : AtFirst r r.lows fun _ => True := by
    refine ⟨fun _ _ _ _ => trivial, ?_⟩
    rw [Region.now_lows]
    exact ⟨Lib.Region.mem_lows r, trivial, fun q hq _ => Lib.Region.lows_le hq⟩
  simpa only [and_true] using visited_spec r.finite_mem (fun _ _ h => h.2) (fun _ _ _ h => h.increment hr hfit) hfirst

lemma fits_of_increasing (hr : r ≠ []) (h64 : ∀ d ∈ r, d.InInt64) (hx : r.Mem x)
    (h : Increasing (Region.now r) (Region.increment r) x) : r.Fits := by
  suffices hall : ∀ A : Coordinates → Prop, ∀ x, r.Mem x → (∀ q, x ≤ q → A q) →
      Increasing (Region.now r) (Region.increment r) x → r.Fits from hall (fun _ => True) x hx (fun _ _ => trivial) h
  intro A
  induction A using remaining_induction r.finite_mem with
  | step A ih =>
    intro x hx hA h
    obtain ⟨hnext, hlater⟩ := h.next (Region.now_of_mem hx)
    rcases Region.increment_cases hr h64 hx with ⟨q, hlt, hq⟩ | ⟨hq, hfit⟩
    · exact absurd (hlater q hq) (not_lt.mpr hlt.le)
    · have hleast := Lib.Region.nextIn_isLeast hx
      cases hn : r.nextIn x with
      | none => exact hfit hn
      | some q =>
        rw [hn] at hq hleast
        obtain ⟨hmem, hlt, -⟩ := hleast
        obtain rfl := Region.now_eq_some hq
        exact ih x hx (hA x le_rfl) _ hmem (fun q hq => ⟨hA q (hlt.le.trans hq), hlt.trans_le hq⟩) hnext

/-- **A region is gone through in order, and jumps come to the first position that is not passed**, if and only if no step
leaves `int64`. -/
theorem advanceToAtLeast_first (r : Region) (hr : r ≠ []) (h64 : ∀ d ∈ r, d.InInt64) :
    ((∀ x, Reached r x → ∀ p, r.OnGrid p → (∀ y ∈ p, IsInt64 y) →
      LeastIn r.Mem (fun q => x ≤ q ∧ p ≤ q) (Region.now r (Region.advanceToAtLeast r x p))) ∧
      ∃ n, ∀ fuel ≥ n, (visited (Region.now r) (Region.increment r) fuel r.lows).Pairwise (· < ·) ∧
        ∀ q, q ∈ visited (Region.now r) (Region.increment r) fuel r.lows ↔ r.Mem q) ↔ r.Fits := by
  constructor
  · rintro ⟨-, n, hn⟩
    exact fits_of_increasing hr h64 (Lib.Region.mem_lows r) ⟨n, fun fuel hf => (hn fuel hf).1⟩
  · intro hfit
    exact ⟨fun _ hx _ hp hp64 => (hx.standing hr hfit).advance hr hfit hp hp64, visited_region hr hfit⟩

theorem advanceToAtLeast_first_row : let r : Region := [⟨0, 4, 3, by decide, by decide⟩, ⟨0, 1, 1, by decide, by decide⟩]
    LeastIn r.Mem (fun q => [0, 1] ≤ q ∧ [0, 7] ≤ q) (Region.now r (Region.advanceToAtLeast r [0, 1] [0, 7])) := by
  intro r
  have hx : Reached r [0, 1] := Reaches.start.step (a := .increment) (show ¬_ < _ by decide) (by decide)
  have hfit : r.Fits := forall_mem_cons.mpr ⟨Side.fits_of_high (by decide) (by decide), forall_mem_singleton.mpr
    (Side.fits_of_high (by decide) (by decide))⟩
  exact ((advanceToAtLeast_first r (by simp [r]) (by simp [r, Side.InInt64])).mpr hfit).1 _ hx [0, 7]
    (.cons ⟨0, rfl⟩ (.cons ⟨7, rfl⟩ .nil)) (by simp [IsInt64])

/-- **A step that leaves `int64` does not come to the end**: the iterator goes on at a position before the box. -/
theorem increment_wraps : let r : Region := [⟨2, 10, 2 ^ 63 - 1, by decide, by decide⟩]
    visited (Region.now r) (Region.increment r) 3 r.lows = [[2], [-2 ^ 63 + 1], [0]] ∧ ¬r.Mem [0] := by
  refine ⟨by decide +kernel, fun h => ?_⟩
  cases h with
  | cons hx _ => exact absurd hx.1 (by decide)

end RegionIterator

/-- A range, valid or not. -/
abbrev AnyRange := List (ℤ × ℤ)

/-- The range, if it is valid. -/
def AnyRange.valid? : AnyRange → Option SpatialRange
  | [] => some []
  | s :: r => if h : s.1 ≤ s.2 then (valid? r).map (⟨s.1, s.2, h⟩ :: ·) else none

/-- The regions of the valid ranges. -/
def regionsOf (dims : List Dimension) (ranges : List AnyRange) : List Region :=
  ranges.filterMap fun r => r.valid?.map (chunkRegion dims)

abbrev RangesIterator := List (Coordinates × Option Coordinates)

namespace RangesIterator

variable (regions : List Region) (raw : ChunkPosIterator) (s : RangesIterator)

/-- The constructor. -/
def ofRaw : RangesIterator := zipWith (fun r x => (x, Region.now r x)) regions raw

/-- All at their first positions. -/
def reset : RangesIterator := ofRaw regions (ChunkPosIterator.reset regions)

/-- `getPosition`, `none` at the end. -/
def position : Option Coordinates := (s.filterMap Prod.snd).min?

/-- `operator++`: pairs up to the least position are removed, and added back with new positions. -/
def increment : RangesIterator :=
  match position s with
  | none => s
  | some minPos => zipWith (fun r e =>
      if e.2.any (· ≤ minPos) then (Region.increment r e.1, Region.now r (Region.increment r e.1)) else e) regions s

/-- A jump, and whether it was made. -/
def advancePositionToAtLeast (newPos : Coordinates) : Bool × RangesIterator :=
  match position s with
  | none => (false, s)
  | some c =>
    if newPos ≤ c then (false, s)
    else (true, ofRaw regions (zipWith (fun r e => Region.advanceToAtLeast r e.1 newPos) regions s))

/-- What a call does. -/
def call (s : RangesIterator) : PositionCall → RangesIterator
  | .increment => increment regions s
  | .advanceToAtLeast newPos => (advancePositionToAtLeast regions s newPos).2

/-- `++` up to `p`. -/
def incrementUntil (p : Coordinates) : ℕ → RangesIterator → RangesIterator
  | 0, s => s
  | fuel + 1, s =>
    match position s with
    | none => s
    | some c => if p ≤ c then s else incrementUntil p fuel (increment regions s)

variable {regions : List Region} {raw : ChunkPosIterator} {s s' : RangesIterator} {A : Coordinates → Prop} {c p : Coordinates}

lemma position_ofRaw : position (ofRaw regions raw) = ChunkPosIterator.position regions raw := by
  have hlive : filterMap Prod.snd (ofRaw regions raw) = filterMap id ((ofRaw regions raw).map Prod.snd) := by
    rw [filterMap_map]
    rfl
  rw [position, hlive, ofRaw, map_zipWith]
  rfl

lemma zipWith_ofRaw {α : Type} (f : Region → Coordinates × Option Coordinates → α) :
    zipWith f regions (ofRaw regions raw) = zipWith (fun r x => f r (x, Region.now r x)) regions raw := by
  refine ext_getElem? fun i => ?_
  rw [ofRaw, getElem?_zipWith, getElem?_zipWith, getElem?_zipWith]
  cases regions[i]? <;> cases raw[i]? <;> rfl

lemma increment_ofRaw : increment regions (ofRaw regions raw) = ofRaw regions (ChunkPosIterator.increment regions raw) := by
  rw [increment, ChunkPosIterator.increment, position_ofRaw]
  cases hc : ChunkPosIterator.position regions raw with
  | none => rfl
  | some c =>
    have hmin := (min?_eq_some_iff.mp hc).2
    dsimp only
    rw [zipWith_ofRaw, ofRaw]
    refine ext_getElem? fun i => ?_
    rw [getElem?_zipWith, getElem?_zipWith, getElem?_zipWith]
    cases hr : regions[i]? with
    | none => rfl
    | some r =>
      cases hx : raw[i]? with
      | none => rfl
      | some x =>
        -- an iterator that is not after the least position is there
        have hiff : (Region.now r x).any (· ≤ c) = true ↔ Region.now r x = some c := by
          rw [Option.any_eq_true]
          constructor
          · rintro ⟨q, hq, hle⟩
            have hmem : q ∈ ChunkPosIterator.live regions raw :=
              mem_filterMap.mpr ⟨some q, mem_of_getElem? (by rw [getElem?_zipWith, hr, hx, ← hq]), rfl⟩
            rw [hq, le_antisymm (of_decide_eq_true hle) (hmin q hmem)]
          · exact fun hq => ⟨c, hq, decide_eq_true le_rfl⟩
        simp only [hiff]
        split_ifs <;> rfl

lemma advance_ofRaw : (advancePositionToAtLeast regions (ofRaw regions raw) p).2 =
    ofRaw regions (ChunkPosIterator.advancePositionToAtLeast regions raw p).2 := by
  rw [advancePositionToAtLeast, ChunkPosIterator.advancePositionToAtLeast, position_ofRaw]
  cases ChunkPosIterator.position regions raw with
  | none => rfl
  | some c =>
    dsimp only
    split_ifs
    · rfl
    · rw [zipWith_ofRaw]

lemma finite_covers (regions : List Region) : {q | ChunkPosIterator.Covers regions q}.Finite := by
  refine (Set.Finite.biUnion (s := {r | r ∈ regions}) (finite_toSet regions) fun r _ => r.finite_mem).subset fun q hq => ?_
  obtain ⟨r, hr, hq⟩ := hq
  exact Set.mem_biUnion hr hq

/-- All at their first of `A`. -/
def AtFirst (regions : List Region) (s : RangesIterator) (A : Coordinates → Prop) : Prop :=
  (∀ p q, A p → p ≤ q → A q) ∧ ∃ raw, s = ofRaw regions raw ∧ ChunkPosIterator.At regions raw A

lemma atFirst_reset (regions : List Region) : AtFirst regions (reset regions) fun _ => True :=
  ⟨fun _ _ _ _ => trivial, _, rfl, ChunkPosIterator.at_reset regions⟩

namespace AtFirst

variable (h : AtFirst regions s A)

include h

lemma position : LeastIn (ChunkPosIterator.Covers regions) A (position s) := by
  obtain ⟨-, raw, rfl, hraw⟩ := h
  rw [position_ofRaw]
  exact hraw.position

lemma congr_from (hA : ∀ q, ChunkPosIterator.Covers regions q → A q → p ≤ q) : AtFirst regions s fun q => A q ∧ p ≤ q := by
  obtain ⟨hup, raw, rfl, hraw⟩ := h
  exact ⟨fun q q' hq hle => ⟨hup q q' hq.1 hle, hq.2.trans hle⟩, raw, rfl,
    hraw.congr fun q hq => ⟨fun hAq => ⟨hAq, hA q hq hAq⟩, And.left⟩⟩

variable (hne : ∀ r ∈ regions, r ≠ []) (hfit : ∀ r ∈ regions, r.Fits)

include hne hfit

lemma increment (hc : RangesIterator.position s = some c) : AtFirst regions (increment regions s) fun q => A q ∧ c < q := by
  obtain ⟨hup, raw, rfl, hraw⟩ := h
  rw [position_ofRaw] at hc
  exact ⟨fun p q hp hpq => ⟨hup p q hp.1 hpq, hp.2.trans_le hpq⟩, _, increment_ofRaw, hraw.increment hup hne hfit hc⟩

lemma advance (hp : ∀ r ∈ regions, r.OnGrid p) (hp64 : ∀ x ∈ p, IsInt64 x) :
    AtFirst regions (advancePositionToAtLeast regions s p).2 fun q => A q ∧ p ≤ q := by
  obtain ⟨hup, raw, rfl, hraw⟩ := h
  exact ⟨fun q q' hq hle => ⟨hup q q' hq.1 hle, hq.2.trans hle⟩, _, advance_ofRaw, hraw.advance hup hne hfit hp hp64⟩

lemma incrementUntil (p : Coordinates) :
    ∃ n, ∀ fuel ≥ n, AtFirst regions (incrementUntil regions p fuel s) fun q => A q ∧ p ≤ q := by
  induction A using remaining_induction (finite_covers regions) generalizing s with
  | step A ih =>
    have hs := h.position
    have hstays (hstop : ∀ c, RangesIterator.position s = some c → p ≤ c) (fuel : ℕ) :
        RangesIterator.incrementUntil regions p fuel s = s := by
      cases fuel with
      | zero => rfl
      | succ fuel =>
        rw [RangesIterator.incrementUntil]
        cases hc : RangesIterator.position s with
        | none => rfl
        | some c => exact if_pos (hstop c hc)
    cases hc : RangesIterator.position s with
    | none =>
      rw [hc] at hs
      refine ⟨0, fun fuel _ => ?_⟩
      rw [hstays (by simp [hc])]
      exact h.congr_from fun q hq hA => absurd hA (hs q hq)
    | some c =>
      rw [hc] at hs
      by_cases hle : p ≤ c
      · refine ⟨0, fun fuel _ => ?_⟩
        rw [hstays (by simp [hc, hle])]
        exact h.congr_from fun q hq hA => hle.trans (hs.2.2 q hq hA)
      · obtain ⟨n, hn⟩ := ih c hs.1 hs.2.1 (h.increment hne hfit hc)
        refine ⟨n + 1, fun fuel hf => ?_⟩
        obtain ⟨fuel, rfl⟩ := Nat.exists_eq_add_of_le' (Nat.le_of_add_left_le hf)
        rw [RangesIterator.incrementUntil, hc]
        dsimp only
        rw [if_neg hle]
        obtain ⟨-, raw, hraw, hat⟩ := hn fuel (by omega)
        refine ⟨fun q q' hq hq' => ⟨h.1 q q' hq.1 hq', hq.2.trans hq'⟩, raw, hraw, hat.congr fun q _ => ?_⟩
        exact ⟨fun hA => ⟨hA.1.1, hA.2⟩, fun hA => ⟨⟨hA.1, (not_le.mp hle).trans_le hA.2⟩, hA.2⟩⟩

lemma call (h' : AtFirst regions s' A) {k : PositionCall}
    (hk : ∀ p, k = .advanceToAtLeast p → (∀ r ∈ regions, r.OnGrid p) ∧ ∀ x ∈ p, IsInt64 x) :
    ∃ B, AtFirst regions (call regions s k) B ∧ AtFirst regions (RangesIterator.call regions s' k) B := by
  cases k with
  | increment =>
    have hpos := h.position.unique h'.position
    rw [RangesIterator.call, RangesIterator.call]
    cases hc : RangesIterator.position s with
    | none =>
      rw [RangesIterator.increment, RangesIterator.increment, ← hpos, hc]
      exact ⟨A, h, h'⟩
    | some c => exact ⟨_, h.increment hne hfit hc, h'.increment hne hfit (hpos ▸ hc)⟩
  | advanceToAtLeast p =>
    obtain ⟨hp, hp64⟩ := hk p rfl
    exact ⟨_, h.advance hne hfit hp hp64, h'.advance hne hfit hp hp64⟩

lemma calls (h' : AtFirst regions s' A) {calls : List PositionCall}
    (hcalls : ∀ p, .advanceToAtLeast p ∈ calls → (∀ r ∈ regions, r.OnGrid p) ∧ ∀ x ∈ p, IsInt64 x) :
    ∃ B, AtFirst regions (calls.foldl (RangesIterator.call regions) s) B ∧
      AtFirst regions (calls.foldl (RangesIterator.call regions) s') B := by
  induction calls generalizing s s' A with
  | nil => exact ⟨A, h, h'⟩
  | cons k calls ih =>
    obtain ⟨B, hB, hB'⟩ := h.call hne hfit h' fun p hp => hcalls p (hp ▸ mem_cons_self)
    exact ih hB hB' fun p hp => hcalls p (mem_cons_of_mem _ hp)

end AtFirst

/-- If the positions come in order, each iterator has gone through its region, and no step has overflowed. -/
lemma fits_of_increasing (hne : ∀ r ∈ regions, r ≠ []) (h64 : ∀ r ∈ regions, ∀ d ∈ r, d.InInt64)
    (hat : ChunkPosIterator.At regions raw A) (hup : ∀ p q, A p → p ≤ q → A q)
    (hended : ∀ e ∈ regions.zip raw, Region.now e.1 e.2 = none → e.1.Fits)
    (h : Increasing position (increment regions) (ofRaw regions raw)) : ∀ r ∈ regions, r.Fits := by
  induction A using remaining_induction (finite_covers regions) generalizing raw with
  | step A ih =>
    have hleast := hat.position
    cases hc : ChunkPosIterator.position regions raw with
    | none =>
      intro r hr
      obtain ⟨x, hx⟩ : ∃ x, (r, x) ∈ regions.zip raw := by
        rw [← map_fst_zip hat.length_eq.le] at hr
        obtain ⟨e, he, rfl⟩ := mem_map.mp hr
        exact ⟨e.2, he⟩
      refine hended _ hx (eq_none_iff_forall_ne_some.mpr fun q hq => ?_)
      have hlive : q ∈ ChunkPosIterator.live regions raw := ChunkPosIterator.mem_live_iff.mpr ⟨_, hx, hq⟩
      rw [min?_eq_none_iff.mp hc] at hlive
      cases hlive
    | some c =>
      rw [hc] at hleast
      obtain ⟨hnext, hlater⟩ := h.next (by rw [position_ofRaw, hc])
      rw [increment_ofRaw] at hnext hlater
      rw [position_ofRaw] at hlater
      have hstep (r : Region) (hr : (r, c) ∈ regions.zip raw) (hmem : r.Mem c) :
          Region.now r (Region.increment r c) = r.nextIn c ∧ (r.nextIn c = none → r.Fits) := by
        have hreg := (of_mem_zip hr).1
        refine (Region.increment_cases (hne r hreg) (h64 r hreg) hmem).resolve_left ?_
        rintro ⟨q, hlt, hq⟩
        -- an iterator that has gone back is before the position that was the least
        have hlive : q ∈ ChunkPosIterator.live regions (ChunkPosIterator.increment regions raw) := by
          rw [ChunkPosIterator.mem_live_iff, ChunkPosIterator.increment, hc]
          refine ⟨(r, Region.increment r c), ChunkPosIterator.mem_zip_zipWith.mpr ⟨c, hr, ?_⟩, hq⟩
          exact if_pos (Region.now_of_mem hmem)
        cases hc' : ChunkPosIterator.position regions (ChunkPosIterator.increment regions raw) with
        | none =>
          rw [min?_eq_none_iff.mp hc'] at hlive
          cases hlive
        | some c' => exact absurd (hlater c' hc') (not_lt.mpr (((min?_eq_some_iff.mp hc').2 q hlive).trans hlt.le))
      refine ih c hleast.1 hleast.2.1 (hat.increment_of_step hup hc fun r hr hmem => (hstep r hr hmem).1)
        (fun p q hp hpq => ⟨hup p q hp.1 hpq, hp.2.trans_le hpq⟩) (fun e he hnone => ?_) hnext
      rw [ChunkPosIterator.increment, hc] at he
      obtain ⟨x, hx, hxe⟩ := ChunkPosIterator.mem_zip_zipWith.mp he
      by_cases hnow : Region.now e.1 x = some c
      · obtain rfl := Region.now_eq_some hnow
        rw [if_pos hnow] at hxe
        have hmem : e.1.Mem x := by
          have hmin := forall₂_zip hat hx
          rw [hnow] at hmin
          exact hmin.1
        rw [← hxe, (hstep _ hx hmem).1] at hnone
        exact (hstep _ hx hmem).2 hnone
      · rw [if_neg hnow] at hxe
        exact hended (e.1, x) hx (hxe ▸ hnone)

end RangesIterator

namespace AnyRange

/-- A position of the range. -/
def Mem (r : AnyRange) (x : Coordinates) : Prop := Forall₂ (fun s x => s.1 ≤ x ∧ x ≤ s.2) r x

/-- Both ends are in the array. -/
def InBounds (r : AnyRange) (dims : List Dimension) : Prop :=
  Forall₂ (fun d s => d.start ≤ s.1 ∧ s.1 ≤ d.stop ∧ d.start ≤ s.2 ∧ s.2 ≤ d.stop) dims r

lemma valid?_eq : ∀ {r : AnyRange} {r' : SpatialRange}, r.valid? = some r' → r = r'.map fun s => (s.low, s.high)
  | [], _, h => by
    cases h
    rfl
  | s :: r, _, h => by
    rw [valid?] at h
    split_ifs at h
    obtain ⟨r', hr', rfl⟩ := map_eq_some_iff.mp h
    rw [valid?_eq hr', map_cons]

lemma Mem.valid {r : AnyRange} {x : Coordinates} (h : r.Mem x) : ∃ r', r.valid? = some r' := by
  induction h with
  | nil => exact ⟨[], rfl⟩
  | cons hx _ ih =>
    obtain ⟨r', hr'⟩ := ih
    rw [valid?, dif_pos (hx.1.trans hx.2), hr']
    exact ⟨_, rfl⟩

end AnyRange

variable {dims : List Dimension} {ranges : List AnyRange}

lemma mem_regionsOf {g : Region} (hin : ∀ r ∈ ranges, r.InBounds dims) (hg : g ∈ regionsOf dims ranges) :
    ∃ r ∈ ranges, ∃ r' : SpatialRange, r = r'.map (fun s => (s.low, s.high)) ∧ g = chunkRegion dims r' ∧
      Forall₂ (fun d s => d.start ≤ s.low ∧ s.high ≤ d.stop) dims r' := by
  obtain ⟨r, hr, hg⟩ := mem_filterMap.mp hg
  obtain ⟨r', hr', rfl⟩ := map_eq_some_iff.mp hg
  have heq := AnyRange.valid?_eq hr'
  have hb := hin r hr
  rw [heq, AnyRange.InBounds, forall₂_map_right_iff] at hb
  exact ⟨r, hr, r', heq, rfl, hb.imp fun _ _ h => ⟨h.1, h.2.2.2⟩⟩

/-- The position of a chunk that has a cell in one of the ranges. -/
def Touched (dims : List Dimension) (ranges : List AnyRange) (q : Coordinates) : Prop :=
  Forall₂ Aligned dims q ∧ ∃ r ∈ ranges, ∃ x, InChunk dims q x ∧ r.Mem x

lemma covers_iff (hin : ∀ r ∈ ranges, r.InBounds dims) {q : Coordinates} :
    ChunkPosIterator.Covers (regionsOf dims ranges) q ↔ Touched dims ranges q := by
  constructor
  · rintro ⟨g, hg, hq⟩
    obtain ⟨r, hr, r', rfl, rfl, hb⟩ := mem_regionsOf hin hg
    have hal := BetweenArray.aligned_of_mem hb.length_eq hq
    obtain ⟨x, hx, hmem⟩ := (BetweenArray.chunkRegion_mem_iff hb hal).mp hq
    exact ⟨hal, _, hr, x, hx, forall₂_map_left_iff.mpr hmem⟩
  · rintro ⟨hal, r, hr, x, hx, hmem⟩
    obtain ⟨r', hr'⟩ := hmem.valid
    have hg : chunkRegion dims r' ∈ regionsOf dims ranges := mem_filterMap.mpr ⟨r, hr, by rw [hr']; rfl⟩
    have heq := AnyRange.valid?_eq hr'
    have hb := hin r hr
    rw [heq, AnyRange.InBounds, forall₂_map_right_iff] at hb
    rw [heq, AnyRange.Mem, forall₂_map_left_iff] at hmem
    exact ⟨_, hg, (BetweenArray.chunkRegion_mem_iff (hb.imp fun _ _ h => ⟨h.1, h.2.2.2⟩) hal).mpr ⟨x, hx, hmem⟩⟩

lemma regionsOf_fits_iff (hin : ∀ r ∈ ranges, r.InBounds dims) :
    (∀ g ∈ regionsOf dims ranges, g.Fits) ↔ ∀ q, Touched dims ranges q → StepsFit dims q := by
  constructor
  · intro h q hq
    obtain ⟨g, hg, hmem⟩ := (covers_iff hin).mpr hq
    have hfit := h g hg
    obtain ⟨r, -, r', -, rfl, hb⟩ := mem_regionsOf hin hg
    exact (BetweenArray.stepsFit_iff hb.length_eq).mp (hfit.add_step_lt hmem)
  · intro h g hg
    obtain ⟨r, hr, r', rfl, rfl, hb⟩ := mem_regionsOf hin hg
    refine (BetweenArray.chunkRegion_fits_iff hb).mpr fun c hal ⟨x, hx, hmem⟩ => h c ⟨hal, _, hr, x, hx, ?_⟩
    exact forall₂_map_left_iff.mpr hmem

/-- The position of a chunk, inside or outside of the array. -/
def IsPosition (dims : List Dimension) (p : Coordinates) : Prop := Forall₂ Aligned dims p ∧ ∀ x ∈ p, IsInt64 x

open RangesIterator in
/-- **The chunks that meet a range come in order, and a jump does what repeated `++` does**, if and only if the position behind
each of these chunks is an `int64`. -/
theorem chunkPositions_exact (dims : List Dimension) (hdims : dims ≠ []) (ranges : List AnyRange)
    (hin : ∀ r ∈ ranges, r.InBounds dims) : let regions := regionsOf dims ranges
    ((∃ n, ∀ fuel ≥ n,
      let positions := visited position (increment regions) fuel (reset regions)
      positions.Pairwise (· < ·) ∧ ∀ q, q ∈ positions ↔ Touched dims ranges q) ∧
    ∀ calls : List PositionCall, (∀ p, .advanceToAtLeast p ∈ calls → IsPosition dims p) →
      let s := calls.foldl (call regions) (reset regions)
      ∀ p, IsPosition dims p → ∃ n, ∀ fuel ≥ n,
        ∀ later : List PositionCall, (∀ p, .advanceToAtLeast p ∈ later → IsPosition dims p) →
          position (later.foldl (call regions) (incrementUntil regions p fuel s)) =
            position (later.foldl (call regions) (advancePositionToAtLeast regions s p).2)) ↔
      ∀ q, Touched dims ranges q → StepsFit dims q := by
  have hfirst := atFirst_reset (regionsOf dims ranges)
  have hne : ∀ g ∈ regionsOf dims ranges, g ≠ [] := by
    intro g hg
    obtain ⟨r, -, r', -, rfl, hb⟩ := mem_regionsOf hin hg
    rw [← length_pos_iff, chunkRegion, length_zipWith, ← hb.length_eq, min_self, length_pos_iff]
    exact hdims
  have hgrid : ∀ p, IsPosition dims p → (∀ g ∈ regionsOf dims ranges, g.OnGrid p) ∧ ∀ x ∈ p, IsInt64 x := by
    refine fun p hp => ⟨fun g hg => ?_, hp.2⟩
    obtain ⟨r, -, r', -, rfl, hb⟩ := mem_regionsOf hin hg
    exact BetweenArray.chunkRegion_onGrid hb.length_eq hp.1
  rw [← regionsOf_fits_iff hin]
  constructor
  · rintro ⟨⟨n, hn⟩, -⟩
    have h64 : ∀ g ∈ regionsOf dims ranges, ∀ d ∈ g, d.InInt64 := by
      intro g hg
      obtain ⟨r, -, r', -, rfl, hb⟩ := mem_regionsOf hin hg
      exact BetweenArray.chunkRegion_inInt64 hb
    refine fits_of_increasing hne h64 (ChunkPosIterator.at_reset _) (fun _ _ _ _ => trivial) (fun e he hnone => ?_)
      ⟨n, fun fuel hf => (hn fuel hf).1⟩
    -- at the start no iterator has ended
    rw [ChunkPosIterator.reset, ← map_prod_left_eq_zip, List.mem_map] at he
    obtain ⟨g, -, rfl⟩ := he
    rw [Region.now_lows] at hnone
    cases hnone
  · intro hfits
    refine ⟨?_, fun calls hcalls => ?_⟩
    · simpa only [and_true, covers_iff hin] using visited_spec (finite_covers _) (fun _ _ h => h.position)
        (fun _ _ _ h => h.increment hne hfits) hfirst
    · intro s p hp
      obtain ⟨hp, hp64⟩ := hgrid p hp
      obtain ⟨A, hA, -⟩ := hfirst.calls hne hfits hfirst fun p hp => hgrid p (hcalls p hp)
      obtain ⟨n, hn⟩ := hA.incrementUntil hne hfits p
      refine ⟨n, fun fuel hf later hlater => ?_⟩
      obtain ⟨B, hB, hB'⟩ := (hn fuel hf).calls hne hfits (hA.advance hne hfits hp hp64) fun p hp => hgrid p (hlater p hp)
      exact hB.position.unique hB'.position

theorem chunkPositions_exact_two : let dims : List Dimension := [⟨0, 9, 5, by decide, by decide, by decide, by decide⟩]
    let ranges : List AnyRange := [[(3, 6)], [(8, 2)]]
    ∃ n, ∀ fuel ≥ n, (visited RangesIterator.position (RangesIterator.increment (regionsOf dims ranges)) fuel
      (RangesIterator.reset (regionsOf dims ranges))).Pairwise (· < ·) := by
  intro dims ranges
  have hin : ∀ r ∈ ranges, r.InBounds dims := by simp [ranges, dims, AnyRange.InBounds]
  obtain ⟨⟨n, hn⟩, -⟩ := (chunkPositions_exact dims (by simp [dims]) ranges hin).mpr fun q hq => by
    obtain ⟨c, _, -, hnil, rfl⟩ := forall₂_cons_left_iff.mp hq.1
    obtain rfl := forall₂_nil_left_iff.mp hnil
    obtain ⟨-, r, hr, x, hx, hmem⟩ := hq
    obtain ⟨s, _, hb, -, rfl⟩ := forall₂_cons_left_iff.mp (hin r hr)
    obtain ⟨y, _, hy, -, rfl⟩ := forall₂_cons_left_iff.mp hmem
    have := hx.1.1
    have := hy.2
    have : s.2 ≤ 9 := hb.2.2.2
    exact .cons (show c + 5 < _ by omega) .nil
  exact ⟨n, fun fuel hf => (hn fuel hf).1⟩

/-- **One chunk of the greatest interval**: its only position is 1, and the iterator goes on to two others. -/
theorem chunkPositions_wrap : let dims : List Dimension := [⟨1, 10, 2 ^ 63 - 1, by decide, by decide, by decide, by decide⟩]
    visited RangesIterator.position (RangesIterator.increment (regionsOf dims [[(3, 5)]])) 4
      (RangesIterator.reset (regionsOf dims [[(3, 5)]])) = [[1], [-2 ^ 63], [-1]] ∧
    ¬Forall₂ Aligned dims [-1] := by
  refine ⟨by decide +kernel, fun h => ?_⟩
  cases h with
  | cons h _ => exact absurd h (by unfold Aligned; decide +kernel)

end SciDB.Array
