import SciDB.Array.Distribution
import SciDB.Lib.Odometer
import SciDB.Lib.Outcome

/-!
# The chunk positions of a load

`ChunkLoader::nextImplicitChunkPosition`: a call steps along the last dimension; behind its end it steps along the one before,
and is not put back when the search goes on. Left out: the rest of `bind`, the look-ahead and the log.
-/

namespace SciDB.Query

open SciDB.Lib SciDB.Array List Function Int

inductive LoadFailure where
  | nextChunkOOB
  | overflow
  | fault (f : ArrayFault)
  | unfinished
deriving DecidableEq, Repr

/-- A valid dimension. -/
structure Dimension extends DimensionDesc where
  start_le : startMin ≤ endMax
  min_le : -(2 ^ 62 - 1) ≤ startMin
  le_max : endMax ≤ 2 ^ 62 - 1
  interval_pos : 0 < chunkInterval
  interval_lt : chunkInterval < 2 ^ 63

inductive WhoseChunk where
  | anyChunk
  | myChunk
deriving DecidableEq, Repr

/-- Addition of coordinates. -/
def addCoordinate (a b : ℤ) : Except LoadFailure ℤ :=
  if -2 ^ 63 ≤ a + b ∧ a + b < 2 ^ 63 then .ok (a + b) else .error .overflow

/-- A `ChunkLoader`. -/
structure ChunkLoader where
  dims : List Dimension
  chunkPos : List ℤ
  parallelLoad : Bool
  preferredDist : ArrayDistribution
  numInstances : ℕ
  myInstance : InstanceID

namespace ChunkLoader

variable (l : ChunkLoader)

/-- `dims[i]`. -/
def dimAt (i : ℕ) : DimensionDesc := (l.dims.map Dimension.toDimensionDesc).getD i ⟨0, 0, 0⟩

/-- `bind`, as far as `_chunkPos` goes. -/
def bind : Except LoadFailure ChunkLoader := do
  let start := l.dims.map fun d => d.startMin
  let i := l.dims.length - 1
  let c ← addCoordinate (start.getD i 0) (-(l.dimAt i).chunkInterval)
  .ok { l with chunkPos := start.set i c }

/-- The instance of a chunk. -/
def getPrimaryChunkLocation (pos : List ℤ) : Except ArrayFault InstanceID :=
  l.preferredDist.getPrimaryChunkLocation pos (l.dims.map Dimension.toDimensionDesc) l.numInstances

/-- The position is asked for. -/
def accepts (whose : WhoseChunk) (pos : List ℤ) : Except LoadFailure Bool :=
  match whose with
  | .anyChunk => .ok true
  | .myChunk =>
    if l.parallelLoad = false then .ok true
    else
      match l.getPrimaryChunkLocation pos with
      | .ok i => .ok (i == l.myInstance)
      | .error f => .error (.fault f)

/-- The loop over the positions. -/
def search (whose : WhoseChunk) : ℕ → ℕ → List ℤ → Except LoadFailure (List ℤ)
  | 0, _, _ => .error .unfinished
  | fuel + 1, i, pos => do
    let c ← addCoordinate (pos.getD i 0) (l.dimAt i).chunkInterval
    if c ≤ (l.dimAt i).endMax then do
      let good ← l.accepts whose (pos.set i c)
      if good then .ok (pos.set i c) else search whose fuel i (pos.set i c)
    else if i = 0 then .error .nextChunkOOB
    else search whose fuel (i - 1) (pos.set i (l.dimAt i).startMin)

end ChunkLoader

namespace Dimension

variable (d : Dimension)

/-- The chunks behind a coordinate. -/
def later (c : ℤ) : List ℤ :=
  (List.range ((d.endMax - c) / d.chunkInterval).toNat).map fun k : ℕ => c + (k + 1) * d.chunkInterval

/-- How many chunks there are. -/
def chunkCount : ℕ := (d.later (d.startMin - d.chunkInterval)).length

end Dimension

namespace ChunkLoader

variable (l : ChunkLoader)

/-- How often the loop can go round. -/
def fuel : ℕ := (l.dims.map fun d => d.chunkCount + 1).sum

def nextImplicitChunkPosition (whose : WhoseChunk) : Except LoadFailure ChunkLoader := do
  let pos ← l.search whose l.fuel (l.dims.length - 1) l.chunkPos
  .ok { l with chunkPos := pos }

/-- What successive calls give. -/
inductive Yields (whose : WhoseChunk) : ChunkLoader → List (List ℤ) → LoadFailure → Prop where
  | stop {l : ChunkLoader} {e : LoadFailure} : l.nextImplicitChunkPosition whose = .error e → Yields whose l [] e
  | step {l l' : ChunkLoader} {ps : List (List ℤ)} {e : LoadFailure} :
      l.nextImplicitChunkPosition whose = .ok l' → Yields whose l' ps e → Yields whose l (l'.chunkPos :: ps) e

end ChunkLoader

namespace Dimension

variable {d : Dimension} {c : ℤ}

lemma later_of_le (h : c + d.chunkInterval ≤ d.endMax) :
    d.later c = (c + d.chunkInterval) :: d.later (c + d.chunkInterval) := by
  have hpos := d.interval_pos
  have hdiv : (d.endMax - c) / d.chunkInterval = (d.endMax - (c + d.chunkInterval)) / d.chunkInterval + 1 := by
    rw [show d.endMax - c = d.endMax - (c + d.chunkInterval) + 1 * d.chunkInterval by ring, add_mul_ediv_right _ _ hpos.ne']
  have hnonneg : 0 ≤ (d.endMax - (c + d.chunkInterval)) / d.chunkInterval := ediv_nonneg (by omega) hpos.le
  obtain ⟨m, hm⟩ := eq_ofNat_of_zero_le hnonneg
  rw [later, later, hdiv, hm, show ((m : ℤ) + 1).toNat = m + 1 by omega, toNat_natCast, range_succ_eq_map, map_cons, map_map]
  congr 1
  · push_cast
    ring
  · refine map_congr_left fun k _ => ?_
    simp only [comp_apply]
    push_cast
    ring

lemma later_of_lt (h : d.endMax < c + d.chunkInterval) : d.later c = [] := by
  have hpos := d.interval_pos
  have hle : (d.endMax - c) / d.chunkInterval ≤ 0 := by
    have := Int.ediv_lt_of_lt_mul hpos (show d.endMax - c < 1 * d.chunkInterval by omega)
    omega
  rw [later, toNat_of_nonpos hle]
  rfl

lemma later_induction {P : ℤ → Prop} (hnone : ∀ c, d.endMax < c + d.chunkInterval → P c)
    (hstep : ∀ c, c + d.chunkInterval ≤ d.endMax → P (c + d.chunkInterval) → P c) (c : ℤ) : P c := by
  induction hn : (d.later c).length generalizing c with
  | zero =>
    apply hnone
    by_contra hle
    rw [later_of_le (not_lt.mp hle)] at hn
    cases hn
  | succ n ih =>
    have hle : c + d.chunkInterval ≤ d.endMax := by
      by_contra hlt
      rw [later_of_lt (not_le.mp hlt)] at hn
      cases hn
    rw [later_of_le hle] at hn
    exact hstep c hle (ih _ (Nat.succ.inj hn))

lemma pairwise_later (d : Dimension) (c : ℤ) : (c :: d.later c).Pairwise (· < ·) := by
  induction c using d.later_induction with
  | hnone c h =>
    rw [later_of_lt h]
    exact pairwise_singleton _ _
  | hstep c h ih =>
    have hpos := d.interval_pos
    rw [later_of_le h]
    refine pairwise_cons.mpr ⟨fun x hx => ?_, ih⟩
    rcases mem_cons.mp hx with rfl | hx
    · omega
    · have := (pairwise_cons.mp ih).1 x hx
      omega

/-- The chunks of a dimension. -/
def axis (d : Dimension) : Axis ℤ where
  first := d.startMin
  more := d.later d.startMin
  nodup := (d.pairwise_later _).imp fun h => h.ne

/-- Where a chunk starts. -/
def Standing (d : Dimension) (c : ℤ) : Prop := c ∈ d.axis.digits ∨ c = d.startMin - d.chunkInterval

lemma later_split {x : ℤ} (h : x ∈ d.later c) : ∃ u, d.later c = u ++ x :: d.later x := by
  induction c using d.later_induction with
  | hnone c hlt =>
    rw [later_of_lt hlt] at h
    cases h
  | hstep c hle ih =>
    rw [later_of_le hle] at h ⊢
    rcases mem_cons.mp h with rfl | h
    · exact ⟨[], rfl⟩
    · obtain ⟨u, hu⟩ := ih h
      exact ⟨(c + d.chunkInterval) :: u, by rw [hu, cons_append]⟩

lemma digits_eq (d : Dimension) : d.axis.digits = d.later (d.startMin - d.chunkInterval) := by
  have hle : d.startMin - d.chunkInterval + d.chunkInterval ≤ d.endMax := by
    have := d.start_le
    omega
  rw [later_of_le hle, Int.sub_add_cancel]
  rfl

lemma before_not_mem (d : Dimension) : d.startMin - d.chunkInterval ∉ d.axis.digits := by
  have hpos := d.interval_pos
  intro h
  rcases mem_cons.mp h with h | h
  · change d.startMin - d.chunkInterval = d.startMin at h
    omega
  · have := (pairwise_cons.mp (d.pairwise_later d.startMin)).1 _ h
    omega

lemma Standing.after_digits (h : d.Standing c) : after d.axis.digits c = d.later c := by
  rcases h with h | rfl
  · rcases mem_cons.mp h with rfl | h
    · exact after_first
    · obtain ⟨u, hu⟩ := later_split h
      refine after_of_split d.axis.nodup_digits (u := d.startMin :: u) ?_
      rw [cons_append, ← hu]
      rfl
  · rw [after_of_not_mem d.before_not_mem, digits_eq]

lemma Standing.mem_digits {x : ℤ} (h : d.Standing c) (hx : x ∈ d.later c) : x ∈ d.axis.digits := by
  rw [← h.after_digits] at hx
  obtain ⟨u, hu⟩ := exists_append_after d.axis.digits c
  rw [hu]
  exact mem_append_right _ hx

lemma Standing.length_later_le (h : d.Standing c) : (d.later c).length ≤ d.chunkCount := by
  obtain ⟨u, hu⟩ := exists_append_after d.axis.digits c
  rw [chunkCount, ← digits_eq, ← h.after_digits]
  conv_rhs => rw [hu, length_append]
  omega

lemma Standing.last (h : d.Standing c) (hend : d.endMax < c + d.chunkInterval) : ∀ x ∈ d.axis.digits, x ≤ c := by
  have hc : c ∈ d.axis.digits := by
    refine h.resolve_right fun hc => ?_
    have := d.start_le
    omega
  intro x hx
  obtain ⟨u, v, hsplit⟩ := append_of_mem hc
  have hv : v = [] := by
    rw [← after_of_split d.axis.nodup_digits hsplit, h.after_digits, later_of_lt hend]
  have hsorted : d.axis.digits.Pairwise (· < ·) := d.pairwise_later d.startMin
  rw [hsplit, hv] at hx hsorted
  rcases mem_append.mp hx with hx | hx
  · exact ((pairwise_append.mp hsorted).2.2 x hx c (by simp)).le
  · exact (mem_singleton.mp hx).le

end Dimension

/-- A position, from its parts. -/
def placed (before : List (Dimension × ℤ)) (c : ℤ) (behind : List ℤ) : List ℤ :=
  (before.map Prod.snd).reverse ++ c :: behind

/-- The first position. -/
def starts (dims : List Dimension) : List ℤ := dims.map fun d => d.startMin

/-- What the loop comes to. -/
def scan : List (Dimension × ℤ) → List ℤ → List (List ℤ)
  | [], _ => []
  | (d, c) :: before, behind => (d.later c).map (placed before · behind) ++ scan before (d.startMin :: behind)

namespace ChunkLoader

/-- The axes of the dimensions. -/
def axes (l : ChunkLoader) : List (Axis ℤ) := l.dims.map Dimension.axis

/-- No step from a chunk to the next one leaves the range of `int64_t`. -/
def NoOverflow (l : ChunkLoader) : Prop := ∀ d ∈ l.dims, ∀ c ∈ d.axis.digits, c + d.chunkInterval < 2 ^ 63

variable {l : ChunkLoader} {whose : WhoseChunk} {fuel : ℕ} {before : List (Dimension × ℤ)} {d : Dimension} {c : ℤ}
  {behind : List Dimension} {own : List ℤ → Bool}

lemma search_succ (hdims : l.dims = (before.map Prod.fst).reverse ++ d :: behind) (ps : List ℤ) :
    l.search whose (fuel + 1) before.length (placed before c ps) = (do
      let x ← addCoordinate c d.chunkInterval if x ≤ d.endMax then do
        let good ← l.accepts whose (placed before x ps)
        if good then .ok (placed before x ps) else l.search whose fuel before.length (placed before x ps)
      else if before.length = 0 then .error .nextChunkOOB
      else l.search whose fuel (before.length - 1) (placed before d.startMin ps)) := by
  have hlen : (before.map Prod.snd).reverse.length = before.length := by simp
  have hdim : l.dimAt before.length = d.toDimensionDesc := by
    rw [dimAt, hdims]
    simp
  have hget : (placed before c ps).getD before.length 0 = c := by
    rw [placed, ← hlen]
    simp
  have hset : ∀ x, (placed before c ps).set before.length x = placed before x ps := by
    intro x
    rw [placed, ← hlen, set_append_right _ _ le_rfl]
    simp [placed]
  rw [search]
  simp only [hdim, hget, hset]

lemma placed_cons (y : Dimension × ℤ) (c : ℤ) (ps : List ℤ) : placed (y :: before) c ps = placed before y.2 (c :: ps) := by
  simp [placed]

lemma dims_cons {y : Dimension × ℤ} (hdims : l.dims = ((y :: before).map Prod.fst).reverse ++ d :: behind) :
    l.dims = (before.map Prod.fst).reverse ++ y.1 :: (d :: behind) := by
  simpa using hdims

lemma reverse_mem (hbefore : ∀ y ∈ before, y.2 ∈ y.1.axis.digits) :
    (before.map Prod.snd).reverse ∈ positions ((before.map Prod.fst).reverse.map Dimension.axis) := by
  induction before with
  | nil => exact mem_singleton_self _
  | cons y before ih =>
    simp only [map_cons, reverse_cons, map_append]
    refine append_mem_positions (ih fun z hz => hbefore z (mem_cons_of_mem _ hz)) ?_
    exact mem_positions_cons.mpr ⟨hbefore y mem_cons_self, mem_singleton_self _⟩

lemma placed_mem (hdims : l.dims = (before.map Prod.fst).reverse ++ d :: behind)
    (hbefore : ∀ y ∈ before, y.2 ∈ y.1.axis.digits) (hc : c ∈ d.axis.digits) :
    placed before c (starts behind) ∈ positions l.axes := by
  have hbehind : starts behind ∈ positions (behind.map Dimension.axis) := by
    have := firsts_mem_positions (behind.map Dimension.axis)
    rwa [firsts, map_map] at this
  rw [axes, hdims, map_append, map_cons]
  exact append_mem_positions (reverse_mem hbefore) (mem_positions_cons.mpr ⟨hc, hbehind⟩)

lemma addCoordinate_interval (hc : d.Standing c) (hlt : ∀ x ∈ d.axis.digits, x + d.chunkInterval < 2 ^ 63) :
    addCoordinate c d.chunkInterval = .ok (c + d.chunkInterval) := by
  have hmin := d.min_le
  have hmax := d.le_max
  have hle := d.start_le
  have hpos := d.interval_pos
  refine if_pos ?_
  rcases hc with hc | rfl
  · have hstart : d.startMin ≤ c := by
      rcases mem_cons.mp hc with rfl | hc
      · exact le_refl d.startMin
      · exact ((pairwise_cons.mp (d.pairwise_later d.startMin)).1 c hc).le
    exact ⟨by omega, hlt c hc⟩
  · omega

lemma search_eq (hno : l.NoOverflow) (hacc : ∀ p ∈ positions l.axes, l.accepts whose p = .ok (own p))
    (hdims : l.dims = (before.map Prod.fst).reverse ++ d :: behind)
    (hbefore : ∀ y ∈ before, y.2 ∈ y.1.axis.digits) (hc : d.Standing c)
    (hfuel : (d.later c).length + 1 + (before.map fun y => y.1.chunkCount + 1).sum ≤ fuel) :
    l.search whose fuel before.length (placed before c (starts behind)) =
      match (scan ((d, c) :: before) (starts behind)).find? own with
      | some p => .ok p
      | none => .error .nextChunkOOB := by
  induction fuel generalizing before d c behind with
  | zero => omega
  | succ fuel ih =>
    rw [search_succ hdims, addCoordinate_interval hc (hno d (by simp [hdims]))]
    dsimp only [Bind.bind, Except.bind]
    by_cases hle : c + d.chunkInterval ≤ d.endMax
    · have hlater := Dimension.later_of_le hle
      have hmem : c + d.chunkInterval ∈ d.axis.digits := hc.mem_digits (by simp [hlater])
      have hscan : scan ((d, c) :: before) (starts behind) =
          placed before (c + d.chunkInterval) (starts behind) ::
            scan ((d, c + d.chunkInterval) :: before) (starts behind) := by
        rw [scan, hlater, map_cons, cons_append]
        rfl
      rw [if_pos hle, hacc _ (placed_mem hdims hbefore hmem), hscan, find?_cons]
      cases hown : own (placed before (c + d.chunkInterval) (starts behind)) with
      | true => rfl
      | false =>
        rw [hlater, length_cons] at hfuel
        exact ih hdims hbefore (.inl hmem) (by omega)
    · rw [if_neg hle]
      have hlater := Dimension.later_of_lt (not_le.mp hle)
      cases before with
      | nil =>
        rw [scan, hlater]
        rfl
      | cons y before =>
        have hy := hbefore y mem_cons_self
        rw [if_neg (by simp), placed_cons, length_cons, Nat.add_sub_cancel]
        have hstep := ih (dims_cons hdims) (fun z hz => hbefore z (mem_cons_of_mem _ hz)) (.inl hy) (by
          have := Dimension.Standing.length_later_le (.inl hy : y.1.Standing y.2)
          rw [map_cons, sum_cons] at hfuel
          omega)
        rwa [scan, hlater, map_nil, nil_append]

lemma accepts_ne {p : List ℤ} {e : LoadFailure} (h : l.accepts whose p = .error e) : e ≠ .nextChunkOOB := by
  unfold accepts at h
  split at h
  · cases h
  · split_ifs at h
    split at h
    · cases h
    · cases h
      exact LoadFailure.noConfusion

lemma search_outcome (hdims : l.dims = (before.map Prod.fst).reverse ++ d :: behind)
    (hbefore : ∀ y ∈ before, y.2 ∈ y.1.axis.digits) (hc : d.Standing c) :
    Outcome (l.search whose fuel before.length (placed before c (starts behind))) (· ∈ positions l.axes) fun e =>
      e = .nextChunkOOB → ∀ y ∈ d :: before.map Prod.fst, ∀ x ∈ y.axis.digits, x + y.chunkInterval < 2 ^ 63 := by
  induction fuel generalizing before d c behind with
  | zero => exact fun h => nomatch h
  | succ fuel ih =>
    rw [search_succ hdims, addCoordinate]
    by_cases hrange : -2 ^ 63 ≤ c + d.chunkInterval ∧ c + d.chunkInterval < 2 ^ 63
    · rw [if_pos hrange]
      refine .bind_ok rfl ?_
      by_cases hle : c + d.chunkInterval ≤ d.endMax
      · rw [if_pos hle]
        have hmem : c + d.chunkInterval ∈ d.axis.digits := hc.mem_digits (by simp [Dimension.later_of_le hle])
        cases hacc : l.accepts whose (placed before (c + d.chunkInterval) (starts behind)) with
        | error f => exact fun h => absurd h (accepts_ne hacc)
        | ok good =>
          refine .bind_ok rfl ?_
          cases good with
          | true => exact placed_mem hdims hbefore hmem
          | false => exact ih hdims hbefore (.inl hmem)
      · rw [if_neg hle]
        have hlast : ∀ x ∈ d.axis.digits, x + d.chunkInterval < 2 ^ 63 := fun x hx => by
          have := hc.last (not_le.mp hle) x hx
          omega
        cases before with
        | nil =>
          intro _ y hy
          rwa [mem_singleton.mp hy]
        | cons y before =>
          have hy := hbefore y mem_cons_self
          rw [if_neg (by simp), placed_cons, length_cons, Nat.add_sub_cancel]
          refine (ih (dims_cons hdims) (fun z hz => hbefore z (mem_cons_of_mem _ hz)) (.inl hy)).imp
            (fun _ h => h) fun e he hoob z hz => ?_
          rcases mem_cons.mp hz with rfl | hz
          · exact hlast
          · exact he hoob z hz
    · rw [if_neg hrange]
      exact fun h => nomatch h

end ChunkLoader

/-- A position that a call can start from: a chunk position, or the one before the first of a row. -/
def Ready : List Dimension → List ℤ → Prop
  | [d], [c] => d.Standing c
  | d :: e :: dims, c :: p => c ∈ d.axis.digits ∧ Ready (e :: dims) p
  | _, _ => False

section Ready

variable {dims : List Dimension} {p : List ℤ}

lemma ready_of_mem (hne : dims ≠ []) (h : p ∈ positions (dims.map Dimension.axis)) : Ready dims p := by
  induction dims generalizing p with
  | nil => exact absurd rfl hne
  | cons d dims ih =>
    obtain ⟨c, q, rfl, hc, hq⟩ := exists_of_mem_positions h
    cases dims with
    | nil =>
      rw [mem_singleton.mp hq]
      exact .inl hc
    | cons e dims => exact ⟨hc, ih (cons_ne_nil _ _) hq⟩

lemma scan_append (d : Dimension) (c : ℤ) (before : List (Dimension × ℤ)) (ps : List ℤ) : scan (before ++ [(d, c)]) ps =
      (scan before ps).map (c :: ·) ++ (d.later c).map (· :: (starts (before.map Prod.fst).reverse ++ ps)) := by
  induction before generalizing ps with
  | nil => simp [scan, placed, starts]
  | cons y before ih =>
    have hplaced : ∀ x, placed (before ++ [(d, c)]) x ps = c :: placed before x ps := by
      intro x
      simp [placed]
    rw [cons_append, scan, scan, ih, map_append, map_map]
    simp [hplaced, starts, comp_def]

lemma Ready.placed (h : Ready dims p) : ∃ before d c, dims = (before.map Prod.fst).reverse ++ [d] ∧
    p = placed before c [] ∧ (∀ y ∈ before, y.2 ∈ y.1.axis.digits) ∧ d.Standing c ∧
    scan ((d, c) :: before) [] = candidates (dims.map Dimension.axis) p := by
  induction dims generalizing p with
  | nil => cases h
  | cons e dims ih =>
    cases dims with
    | nil =>
      obtain _ | ⟨c, _ | _⟩ := p
      · cases h
      · have hafter := Dimension.Standing.after_digits h
        refine ⟨[], e, c, rfl, rfl, by simp, h, ?_⟩
        rw [scan, map_cons, candidates, hafter]
        simp [scan, Query.placed, candidates, firsts]
      · cases h
    | cons e' dims =>
      obtain _ | ⟨x, q⟩ := p
      · cases h
      · obtain ⟨hx, hq⟩ := h
        obtain ⟨before, d, c, hdims, rfl, hbefore, hc, hscan⟩ := ih hq
        refine ⟨before ++ [(e, x)], d, c, by simp [hdims], by simp [Query.placed], ?_, hc, ?_⟩
        · intro y hy
          rcases mem_append.mp hy with hy | hy
          · exact hbefore y hy
          · rwa [mem_singleton.mp hy]
        · have hstarts : starts ((((d, c) :: before).map Prod.fst).reverse) = firsts ((e' :: dims).map Dimension.axis) := by
            rw [map_cons, reverse_cons, ← hdims, firsts, map_map]
            rfl
          have hcandidates : candidates ((e :: e' :: dims).map Dimension.axis) (x :: Query.placed before c []) =
              (candidates ((e' :: dims).map Dimension.axis) (Query.placed before c [])).map (x :: ·) ++
                (after e.axis.digits x).map (· :: firsts ((e' :: dims).map Dimension.axis)) := rfl
          rw [← cons_append, scan_append, hscan, hstarts, append_nil, hcandidates, Dimension.Standing.after_digits (.inl hx)]

end Ready

namespace ChunkLoader

variable {l l' : ChunkLoader} {whose : WhoseChunk} {own : List ℤ → Bool} {ps : List (List ℤ)}

section

variable (hready : Ready l.dims l.chunkPos)

include hready

lemma next_eq (hno : l.NoOverflow) (hacc : ∀ p ∈ positions l.axes, l.accepts whose p = .ok (own p)) :
    l.nextImplicitChunkPosition whose = match (candidates l.axes l.chunkPos).find? own with
      | some p => .ok { l with chunkPos := p }
      | none => .error .nextChunkOOB := by
  obtain ⟨before, d, c, hdims, hpos, hbefore, hc, hscan⟩ := hready.placed
  have hlen : l.dims.length - 1 = before.length := by simp [hdims]
  have hfuel : (d.later c).length + 1 + (before.map fun y => y.1.chunkCount + 1).sum ≤ l.fuel := by
    have hle := hc.length_later_le
    have hsum : l.fuel = (before.map fun y => y.1.chunkCount + 1).sum + (d.chunkCount + 1) := by
      rw [fuel, hdims]
      simp [map_reverse, sum_reverse, comp_def]
    omega
  have hsearch := search_eq hno hacc hdims hbefore hc hfuel
  rw [nextImplicitChunkPosition, hlen, hpos]
  change (l.search whose l.fuel before.length (placed before c (starts [])) >>= _) = _
  rw [hsearch, show starts [] = [] from rfl, hscan, ← hpos]
  unfold axes
  cases (candidates (l.dims.map Dimension.axis) l.chunkPos).find? own with
  | none => rfl
  | some p => rfl

lemma next_outcome : Outcome (l.nextImplicitChunkPosition whose)
      (fun l' => ∃ p ∈ positions l.axes, l' = { l with chunkPos := p }) (fun e => e = .nextChunkOOB → l.NoOverflow) := by
  obtain ⟨before, d, c, hdims, hpos, hbefore, hc, -⟩ := hready.placed
  have hlen : l.dims.length - 1 = before.length := by simp [hdims]
  rw [nextImplicitChunkPosition, hlen, hpos]
  have hsearch : Outcome (l.search whose l.fuel before.length (placed before c (starts []))) _ _ :=
    search_outcome hdims hbefore hc
  refine .bind (hsearch.imp (fun _ h => h) fun e he hoob y hy => he hoob y ?_) fun p hp => .ok ⟨p, hp, rfl⟩
  rw [hdims] at hy
  simpa [or_comm] using hy

lemma ready_next (h : l.nextImplicitChunkPosition whose = .ok l') :
    ∃ p ∈ positions l.axes, l' = { l with chunkPos := p } ∧ Ready l'.dims l'.chunkPos := by
  obtain ⟨p, hp, rfl⟩ := (next_outcome hready).of_ok h
  refine ⟨p, hp, rfl, ready_of_mem (fun hnil => ?_) hp⟩
  rw [hnil] at hready
  cases hready

end

lemma Yields.noOverflow {e : LoadFailure} (h : Yields whose l ps e) (hready : Ready l.dims l.chunkPos)
    (he : e = .nextChunkOOB) : l.NoOverflow := by
  induction h with
  | stop hnext => exact (next_outcome hready).of_error hnext he
  | step hnext _ ih =>
    obtain ⟨p, -, rfl, hready'⟩ := ready_next hready hnext
    exact ih hready' he

section

variable {p : List ℤ} (hready : Ready l.dims p) (hno : l.NoOverflow)
  (hacc : ∀ p ∈ positions l.axes, l.accepts whose p = .ok (own p))

include hready hno hacc

lemma next_eq_at : nextImplicitChunkPosition { l with chunkPos := p } whose =
      match (candidates l.axes p).find? own with
      | some q => .ok { l with chunkPos := q }
      | none => .error .nextChunkOOB :=
  @next_eq { l with chunkPos := p } whose own hready hno hacc

lemma ready_of_find {q : List ℤ} (hq : (candidates l.axes p).find? own = some q) :
    nextImplicitChunkPosition { l with chunkPos := p } whose = .ok { l with chunkPos := q } ∧ Ready l.dims q := by
  have hnext : nextImplicitChunkPosition { l with chunkPos := p } whose = .ok { l with chunkPos := q } := by
    rw [next_eq_at hready hno hacc, hq]
  obtain ⟨-, -, -, hready'⟩ := @ready_next { l with chunkPos := p } _ whose hready hnext
  exact ⟨hnext, hready'⟩

lemma yields_iff :
    Yields whose { l with chunkPos := p } ps .nextChunkOOB ↔ Visits (fun p => (candidates l.axes p).find? own) p ps := by
  constructor
  · intro h
    generalize hl : ({ l with chunkPos := p } : ChunkLoader) = l1 at h
    generalize he : LoadFailure.nextChunkOOB = e at h
    induction h generalizing p with
    | stop hnext =>
      subst hl
      refine .stop ?_
      cases hfind : (candidates l.axes p).find? own with
      | none => rfl
      | some q =>
        rw [(ready_of_find hready hno hacc hfind).1] at hnext
        cases hnext
    | step hnext _ ih =>
      subst hl
      cases hfind : (candidates l.axes p).find? own with
      | none =>
        rw [next_eq_at hready hno hacc, hfind] at hnext
        cases hnext
      | some q =>
        obtain ⟨hq, hready'⟩ := ready_of_find hready hno hacc hfind
        rw [hq] at hnext
        cases hnext
        exact .step hfind (ih hready' rfl he)
  · intro h
    induction h with
    | stop hnext =>
      refine .stop ?_
      rw [next_eq_at hready hno hacc, hnext]
    | @step p q qs hnext _ ih =>
      obtain ⟨hq, hready'⟩ := ready_of_find hready hno hacc hnext
      exact .step hq (ih hready')

end

variable (l)

/-- All positions, in order. -/
def chunkPositions : List (List ℤ) := positions l.axes

/-- The chunk belongs to this instance. -/
def isMine (p : List ℤ) : Bool :=
  match l.getPrimaryChunkLocation p with
  | .ok i => i == l.myInstance
  | .error _ => false

/-- Each row but the first that has an own chunk begins with one. -/
def RowsLedByMine : Prop :=
  ∀ p ∈ l.chunkPositions, l.isMine p = true → ∀ j : ℕ, p[j]? ≠ (starts l.dims)[j]? →
    l.isMine (p.take (j + 1) ++ (starts l.dims).drop (j + 1)) = true

/-- `bind` stays in `int64`. -/
def CanBind : Prop := ∀ d ∈ l.dims.getLast?, -2 ^ 63 ≤ d.startMin - d.chunkInterval

variable {l}

lemma ready_bind {dims : List Dimension} (hne : dims ≠ []) : ∃ d p, dims.getLast? = some d ∧
    (starts dims).getD (dims.length - 1) 0 = d.startMin ∧
    (starts dims).set (dims.length - 1) (d.startMin - d.chunkInterval) = p ∧ Ready dims p ∧
    Before (dims.map Dimension.axis) p := by
  induction dims with
  | nil => exact absurd rfl hne
  | cons e dims ih =>
    cases dims with
    | nil => exact ⟨e, [e.startMin - e.chunkInterval], rfl, rfl, rfl, .inr rfl, e.before_not_mem⟩
    | cons e' dims =>
      obtain ⟨d, p, hlast, hget, hset, hready, hbefore⟩ := ih (cons_ne_nil _ _)
      refine ⟨d, e.startMin :: p, ?_, ?_, ?_, ⟨mem_cons_self, hready⟩, rfl, hbefore⟩
      · rw [getLast?_cons_cons, hlast]
      · exact hget
      · rw [← hset]
        rfl

lemma bind_eq (hne : l.dims ≠ []) : ∃ p, Ready l.dims p ∧ Before l.axes p ∧
    (l.CanBind → l.bind = .ok { l with chunkPos := p }) ∧ (¬ l.CanBind → l.bind = .error .overflow) := by
  obtain ⟨d, p, hlast, hget, hset, hready, hbefore⟩ := ready_bind hne
  have hdim : l.dimAt (l.dims.length - 1) = d.toDimensionDesc := by
    rw [dimAt, getD_eq_getElem?_getD, getElem?_map, ← getLast?_eq_getElem?, hlast]
    rfl
  have hcan : l.CanBind ↔ -2 ^ 63 ≤ d.startMin + -d.chunkInterval := by
    rw [CanBind, hlast]
    simp [Int.sub_eq_add_neg]
  have hbind : l.bind = (addCoordinate d.startMin (-d.chunkInterval)).map fun c =>
      { l with chunkPos := (starts l.dims).set (l.dims.length - 1) c } := by
    unfold ChunkLoader.bind
    dsimp only
    rw [hdim]
    change (addCoordinate ((starts l.dims).getD (l.dims.length - 1) 0) _ >>= _) = _
    rw [hget]
    rfl
  have hmax : d.startMin + -d.chunkInterval < 2 ^ 63 := by
    have := d.start_le
    have := d.le_max
    have := d.interval_pos
    omega
  refine ⟨p, hready, hbefore, fun h => ?_, fun h => ?_⟩
  · rw [hbind, addCoordinate, if_pos ⟨hcan.mp h, hmax⟩, ← Int.sub_eq_add_neg, Except.map, hset]
  · rw [hbind, addCoordinate, if_neg fun h' => h (hcan.mpr h'.1)]
    rfl

lemma rowsLedByMine_iff : l.RowsLedByMine ↔ RowsLed l.axes l.isMine := by
  have hstarts : starts l.dims = firsts l.axes := by
    rw [firsts, axes, map_map]
    rfl
  rw [RowsLedByMine, rowsLed_iff, hstarts]
  rfl

lemma rowsLed_true (dims : List (Axis ℤ)) : RowsLed dims fun _ => true :=
  rowsLed_iff.mpr fun _ _ _ _ _ => rfl

/-- Every distribution there is has an instance for each chunk position. -/
lemma getPrimaryChunkLocation_ok {redundancy : ℕ} (hne : l.dims ≠ []) (hn : 0 < l.numInstances)
    (hdist : l.preferredDist = hashedArrayDistribution redundancy ∨ l.preferredDist = byColumnArrayDistribution redundancy ∨
      l.preferredDist = byRowArrayDistribution redundancy) :
    ∀ p ∈ l.chunkPositions, ∃ i, l.getPrimaryChunkLocation p = .ok i := by
  have hplaces : l.preferredDist.Places := by
    rcases hdist with h | h | h
    · exact h ▸ hashedArrayDistribution_places redundancy
    · exact h ▸ byColumnArrayDistribution_places redundancy
    · exact h ▸ byRowArrayDistribution_places redundancy
  intro p hp
  have hpos : p ≠ [] := by
    obtain ⟨d, dims, hdims⟩ := exists_cons_of_ne_nil hne
    rw [chunkPositions, axes, hdims, map_cons] at hp
    obtain ⟨c, q, rfl, -⟩ := exists_of_mem_positions hp
    exact cons_ne_nil c q
  obtain ⟨i, -, hi⟩ := hplaces p (l.dims.map Dimension.toDimensionDesc) l.numInstances hpos (by simpa using hne) hn
  exact ⟨i, hi⟩

/-- **A load visits its own chunks in order exactly if no coordinate overflows and each row but the first that has one begins
with one.** -/
theorem nextImplicitChunkPosition_iff (l : ChunkLoader) (hne : l.dims ≠ []) (hparallel : l.parallelLoad = true)
    (hmap : ∀ p ∈ l.chunkPositions, ∃ i, l.getPrimaryChunkLocation p = .ok i) :
    (∃ b, l.bind = .ok b ∧ Yields .myChunk b (l.chunkPositions.filter l.isMine) .nextChunkOOB ∧
      Yields .anyChunk b l.chunkPositions .nextChunkOOB) ↔ l.CanBind ∧ l.NoOverflow ∧ l.RowsLedByMine := by
  obtain ⟨p, hready, hbefore, hbind, hnotBind⟩ := bind_eq hne
  have hmine : ∀ p ∈ positions l.axes, l.accepts .myChunk p = .ok (l.isMine p) := by
    intro p hp
    obtain ⟨i, hi⟩ := hmap p hp
    simp [accepts, isMine, hparallel, hi]
  have hany : ∀ p ∈ positions l.axes, l.accepts .anyChunk p = .ok ((fun _ => true) p) := fun _ _ => rfl
  have hall : l.chunkPositions.filter (fun _ => true) = l.chunkPositions := filter_eq_self.mpr fun _ _ => rfl
  constructor
  · rintro ⟨b, hb, hmy, -⟩
    have hcan : l.CanBind := by
      by_contra h
      rw [hnotBind h] at hb
      cases hb
    rw [hbind hcan] at hb
    cases hb
    have hno : l.NoOverflow := hmy.noOverflow hready rfl
    rw [yields_iff hready hno hmine, chunkPositions, visits_candidates_iff hbefore] at hmy
    exact ⟨hcan, hno, rowsLedByMine_iff.mpr hmy⟩
  · rintro ⟨hcan, hno, hled⟩
    refine ⟨_, hbind hcan, ?_, ?_⟩
    · rw [yields_iff hready hno hmine, chunkPositions, visits_candidates_iff hbefore]
      exact rowsLedByMine_iff.mp hled
    · rw [yields_iff hready hno hany, ← hall, chunkPositions, visits_candidates_iff hbefore]
      exact rowsLed_true l.axes

def twoChunks : Dimension where
  startMin := 0
  endMax := 1
  chunkInterval := 1
  start_le := by decide
  min_le := by decide
  le_max := by decide
  interval_pos := by decide
  interval_lt := by decide

/-- A loader of two instances. -/
def hashedLoader (dims : List Dimension) : ChunkLoader := ⟨dims, [], true, hashedArrayDistribution 0, 2, 0⟩

/-- The second of two rows begins with a chunk of the other instance, and is skipped. -/
theorem twoByTwo_skips : ∃ b, (hashedLoader [twoChunks, twoChunks]).bind = .ok b ∧ Yields .myChunk b [[0, 0]] .nextChunkOOB ∧
    (hashedLoader [twoChunks, twoChunks]).chunkPositions.filter (hashedLoader [twoChunks, twoChunks]).isMine =
      [[0, 0], [1, 1]] := by
  have hfirst : nextImplicitChunkPosition { hashedLoader [twoChunks, twoChunks] with chunkPos := [0, -1] } .myChunk =
      .ok { hashedLoader [twoChunks, twoChunks] with chunkPos := [0, 0] } := rfl
  exact ⟨_, rfl, .step hfirst (.stop rfl), by decide⟩

theorem oneRow_visits : ∃ b, (hashedLoader [twoChunks]).bind = .ok b ∧
    Yields .myChunk b [[0]] .nextChunkOOB ∧ Yields .anyChunk b [[0], [1]] .nextChunkOOB := by
  have hcan : (hashedLoader [twoChunks]).CanBind := by simp [CanBind, hashedLoader, twoChunks]
  have hno : (hashedLoader [twoChunks]).NoOverflow := by
    unfold NoOverflow
    decide
  have hled : (hashedLoader [twoChunks]).RowsLedByMine := rowsLedByMine_iff.mpr ⟨fun _ _ => trivial, by decide⟩
  have hmap := @getPrimaryChunkLocation_ok (hashedLoader [twoChunks]) 0 (by decide) (by decide) (.inl rfl)
  exact (nextImplicitChunkPosition_iff (hashedLoader [twoChunks]) (by decide) rfl hmap).mpr ⟨hcan, hno, hled⟩

end ChunkLoader

end SciDB.Query
