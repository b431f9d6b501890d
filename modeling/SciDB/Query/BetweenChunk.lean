import SciDB.Query.BetweenArray

/-!
# The chunk iterators of `between`

A chunk inside one range is passed through, in any other the iterators go through the cells that are in some range. The
iterator of the input goes through all cells or those not empty, as the mode says, and ends when a `setPosition` fails.
`currPos` is only set where empty cells are ignored. Left out: `fullyOutside`.
-/

namespace SciDB.Query

open SciDB.Lib SciDB.Array List Option

/-- A cell of an input chunk. -/
structure BetweenCell where
  pos : Coordinates
  isEmpty : Bool
  item : Bool
deriving DecidableEq, Repr

/-- A chunk of one attribute. -/
structure BetweenChunk (b : BetweenArray) where
  myRange : SpatialRange
  cells : List BetweenCell
  isEmptyIndicator : Bool
  isNew : Bool
  dims_eq : b.dims.length = myRange.length
  sorted : (cells.map BetweenCell.pos).Pairwise (· < ·)
  inBox : ∀ c ∈ cells, myRange.Mem c.pos
  full : isNew = true → ∀ c ∈ cells, c.isEmpty = false

namespace BetweenChunk

/-- The iterators over a chunk. -/
inductive IteratorKind where
  | delegate
  | between
  | existedBitmap
  | newBitmap
  | emptyBitmap
deriving DecidableEq, Repr

structure ChunkIterator where
  input : Option Coordinates
  currPos : Coordinates
  hasCurrent : Bool
  hint : ℕ
deriving DecidableEq

variable {b : BetweenArray} (k : BetweenChunk b) (ignoreEmptyCells : Bool)

/-- Set by `setInputChunk`. -/
def fullyInside : Bool := (findOneThat (fun r => r.containsRange k.myRange) b.ranges 0).1

/-- Which iterator is made. -/
def getConstIterator : IteratorKind :=
  if k.isEmptyIndicator then
    if k.isNew then
      if k.fullyInside then .emptyBitmap else .newBitmap
    else if k.fullyInside then .delegate else .existedBitmap
  else if k.fullyInside then .delegate else .between

/-- What the input goes through. -/
def inputPositions : List Coordinates :=
  (if ignoreEmptyCells then k.cells.filter fun c => !c.isEmpty else k.cells).map BetweenCell.pos

/-- A range with the position. -/
def findOneThatContains (b : BetweenArray) (p : Coordinates) (hint : ℕ) : Bool × ℕ :=
  findOneThat (fun r => r.contains p) b.ranges hint

/-- The loop of `operator++`. -/
def nextLoop (b : BetweenArray) : List Coordinates → ChunkIterator → ChunkIterator
  | [], s => { s with input := none, hasCurrent := false }
  | p :: rest, s =>
    let (found, hint) := findOneThatContains b p s.hint
    if found then { input := some p, currPos := p, hasCurrent := true, hint }
    else nextLoop b rest { s with input := some p, hint }

variable (s : ChunkIterator)

/-- `operator++`. -/
def next : ChunkIterator :=
  match s.input with
  | none => s
  | some p =>
    if ignoreEmptyCells then nextLoop b ((k.inputPositions true).filter (Cursor.isAfter p)) s
    else
      let o := (k.inputPositions false).find? (Cursor.isAfter p)
      { s with input := o, hasCurrent := o.isSome }

lemma lawfulBEq : LawfulBEq Coordinates := inferInstance

-- named, so that the membership test below has no proof of its own
attribute [local instance] lawfulBEq

def setPosition (p : Coordinates) : Bool × ChunkIterator :=
  if ignoreEmptyCells then
    let (found, hint) := findOneThatContains b p s.hint
    if found then
      if p ∈ k.inputPositions true then (true, { input := some p, currPos := p, hasCurrent := true, hint })
      else (false, { s with input := none, hasCurrent := false, hint })
    else (false, { s with hasCurrent := false, hint })
  else if p ∈ k.inputPositions false then (true, { s with input := some p, hasCurrent := true })
  else (false, { s with input := none, hasCurrent := false })

/-- To the first position. -/
def reset : ChunkIterator :=
  match (k.inputPositions ignoreEmptyCells).head? with
  | none => { s with input := none, hasCurrent := false }
  | some p =>
    if ignoreEmptyCells then
      let (found, hint) := findOneThatContains b p s.hint
      if found then { input := some p, currPos := p, hasCurrent := true, hint }
      else k.next true { s with input := some p, hint }
    else { s with input := some p, hasCurrent := true }

/-- `getPosition`, `none` at the end. -/
def position : Option Coordinates :=
  if s.hasCurrent then if ignoreEmptyCells then some s.currPos else s.input else none

def betweenCall : IteratorCall Coordinates → Option ((Bool × Option Coordinates) × ChunkIterator)
  | .reset => let s := k.reset ignoreEmptyCells s; some ((true, position ignoreEmptyCells s), s)
  | .next =>
    if s.hasCurrent then
      let s := k.next ignoreEmptyCells s
      some ((true, position ignoreEmptyCells s), s)
    else none
  | .setPosition p =>
    let (ok, s) := k.setPosition ignoreEmptyCells s p
    some ((ok, position ignoreEmptyCells s), s)

def delegateCall (a : IteratorCall Coordinates) : Option ((Bool × Option Coordinates) × ChunkIterator) :=
  (Cursor.call (k.inputPositions ignoreEmptyCells) id s.input a).map fun r =>
    (r.1, { s with input := r.2, hasCurrent := r.2.isSome })

/-- What a call returns. -/
def call (a : IteratorCall Coordinates) : Option ((Bool × Option Coordinates) × ChunkIterator) :=
  match k.getConstIterator with
  | .delegate => k.delegateCall ignoreEmptyCells s a
  | _ => k.betweenCall ignoreEmptyCells s a

/-- All zeros. -/
def origin (b : BetweenArray) : Coordinates := b.dims.map fun _ => 0

/-- The constructor. -/
def chunkIterator : ChunkIterator :=
  let s : ChunkIterator := { input := none, currPos := origin b, hasCurrent := false, hint := 0 }
  match k.getConstIterator with
  | .delegate =>
    let o := (k.inputPositions ignoreEmptyCells).head?
    { s with input := o, hasCurrent := o.isSome }
  | _ => k.reset ignoreEmptyCells s

/-- `isEmpty` at a cell. -/
def isEmpty (s : ChunkIterator) (c : BetweenCell) : Bool :=
  match k.getConstIterator with
  | .delegate => c.isEmpty
  | .emptyBitmap => false
  | _ => c.isEmpty || !(findOneThatContains b s.currPos s.hint).1

/-- `getItem` at a cell. -/
def getItem (c : BetweenCell) : Bool :=
  match k.getConstIterator with
  | .delegate | .between => c.item
  | .existedBitmap => c.item && (findOneThatContains b s.currPos s.hint).1
  | .newBitmap => (findOneThatContains b s.currPos s.hint).1
  | .emptyBitmap => true

/-- The position is in some range. -/
def Inside (b : BetweenArray) (p : Coordinates) : Prop := ∃ r ∈ b.ranges, r.Mem p

variable {k ignoreEmptyCells}

variable {p : Coordinates} {hint : ℕ} {c : BetweenCell} {s : ChunkIterator} {o : Option Coordinates}

lemma findOneThatContains_iff (hlen : b.dims.length = p.length) : (findOneThatContains b p hint).1 = true ↔ Inside b p := by
  rw [findOneThatContains, findOneThat_iff]
  have hcontains : ∀ r ∈ b.ranges, (r.contains p = true ↔ r.Mem p) := fun r hr =>
    SpatialRange.contains_iff ((b.inBounds r hr).length_eq.symm.trans hlen)
  exact ⟨fun ⟨r, hr, h⟩ => ⟨r, hr, (hcontains r hr).mp h⟩, fun ⟨r, hr, h⟩ => ⟨r, hr, (hcontains r hr).mpr h⟩⟩

lemma length_pos (hc : c ∈ k.cells) : b.dims.length = c.pos.length :=
  k.dims_eq.trans (k.inBox c hc).length_eq

lemma inside_of_fullyInside (h : k.fullyInside = true) (hc : c ∈ k.cells) : Inside b c.pos := by
  obtain ⟨r, hr, hcontains⟩ := findOneThat_iff.mp h
  obtain ⟨hlow, hhigh⟩ := Bool.and_eq_true_iff.mp hcontains
  have hlen : r.length = k.myRange.length := (b.inBounds r hr).length_eq.symm.trans k.dims_eq
  rw [SpatialRange.contains_iff (by rw [hlen, SpatialRange.low, length_map])] at hlow
  rw [SpatialRange.contains_iff (by rw [hlen, SpatialRange.high, length_map])] at hhigh
  refine ⟨r, hr, hlow.between hhigh ?_ ?_⟩
  · rw [SpatialRange.low, forall₂_map_left_iff]
    exact (k.inBox c hc).imp fun _ _ h => h.1
  · rw [SpatialRange.high, forall₂_map_right_iff]
    exact ((k.inBox c hc).imp fun _ _ h => h.2).flip

lemma inputPositions_sorted (k : BetweenChunk b) (ignore : Bool) : (k.inputPositions ignore).Pairwise (· < ·) := by
  cases ignore with
  | false => exact k.sorted
  | true => exact k.sorted.sublist (filter_sublist.map _)

lemma mem_inputPositions (h : p ∈ k.inputPositions ignoreEmptyCells) : ∃ c ∈ k.cells, c.pos = p := by
  obtain ⟨c, hc, rfl⟩ := mem_map.mp h
  cases ignoreEmptyCells with
  | false => exact ⟨c, hc, rfl⟩
  | true => exact ⟨c, (mem_filter.mp hc).1, rfl⟩

open Classical in
/-- The cells in some range. -/
noncomputable def selected (k : BetweenChunk b) : List Coordinates :=
  (k.inputPositions true).filter fun p => decide (Inside b p)

open Classical in
lemma mem_selected : p ∈ k.selected ↔ (∃ c ∈ k.cells, c.isEmpty = false ∧ c.pos = p) ∧ Inside b p := by
  rw [selected, mem_filter, decide_eq_true_iff, inputPositions, if_pos rfl, List.mem_map]
  simp only [mem_filter, Bool.not_eq_true', and_assoc]

lemma selected_sorted (k : BetweenChunk b) : k.selected.Pairwise (· < ·) := (k.inputPositions_sorted true).filter _

lemma found_iff (hint : ℕ) (hp : p ∈ k.inputPositions ignoreEmptyCells) :
    (findOneThatContains b p hint).1 = true ↔ Inside b p := by
  obtain ⟨c, hc, rfl⟩ := mem_inputPositions hp
  exact findOneThatContains_iff (length_pos hc)

open Classical in
lemma mem_selected_iff : p ∈ k.selected ↔ p ∈ k.inputPositions true ∧ Inside b p := by
  rw [selected, mem_filter, decide_eq_true_iff]

open Classical in
lemma find_selected (k : BetweenChunk b) (P : Coordinates → Bool) :
    k.selected.find? P = ((k.inputPositions true).filter P).find? fun p => decide (Inside b p) := by
  rw [← head?_filter, ← head?_filter, selected, List.filter_filter, List.filter_filter]
  simp only [Bool.and_comm]

structure Stands (ignoreEmptyCells : Bool) (s : ChunkIterator) (o : Option Coordinates) : Prop where
  hasCurrent : s.hasCurrent = o.isSome
  input : o.isSome → s.input = o
  currPos : ignoreEmptyCells = true → ∀ c, o = some c → s.currPos = c

lemma Stands.position (h : Stands ignoreEmptyCells s o) : position ignoreEmptyCells s = o := by
  rw [BetweenChunk.position, h.hasCurrent]
  cases o with
  | none => rfl
  | some c =>
    rw [isSome_some, if_pos rfl]
    cases ignoreEmptyCells with
    | false => exact h.input rfl
    | true => exact congrArg some (h.currPos rfl c rfl)

lemma stands_here (ignoreEmptyCells : Bool) (p : Coordinates) :
    Stands ignoreEmptyCells { input := some p, currPos := p, hasCurrent := true, hint } (some p) :=
  ⟨rfl, fun _ => rfl, fun _ _ h => some.inj h⟩

lemma stands_end (h : s.hasCurrent = false) : Stands ignoreEmptyCells s none := ⟨h, nofun, nofun⟩

open Classical in
lemma nextLoop_stands {rest : List Coordinates} (hrest : ∀ p ∈ rest, p ∈ k.inputPositions true) :
    Stands true (nextLoop b rest s) (rest.find? fun p => decide (Inside b p)) := by
  induction rest generalizing s with
  | nil => exact stands_end rfl
  | cons p rest ih =>
    have hfound := found_iff s.hint (hrest p mem_cons_self)
    rw [nextLoop]
    dsimp only
    by_cases hin : Inside b p
    · rw [if_pos (hfound.mpr hin), find?_cons_of_pos (by simpa using hin)]
      exact stands_here true p
    · rw [if_neg fun h => hin (hfound.mp h), find?_cons_of_neg (by simpa using hin)]
      exact ih fun q hq => hrest q (mem_cons_of_mem _ hq)

lemma next_stands {c : Coordinates} (hinput : s.input = some c) :
    Stands true (k.next true s) (k.selected.find? (Cursor.isAfter c)) := by
  rw [next, hinput, find_selected]
  exact nextLoop_stands fun p hp => (mem_filter.mp hp).1

lemma reset_stands (s : ChunkIterator) : Stands true (k.reset true s) k.selected.head? := by
  rw [reset]
  cases hpos : k.inputPositions true with
  | nil =>
    rw [selected, hpos]
    exact stands_end rfl
  | cons p rest =>
    have hp : p ∈ k.inputPositions true := hpos ▸ mem_cons_self
    have hfound := found_iff s.hint hp
    rw [head?_cons]
    dsimp only
    rw [if_pos rfl]
    by_cases hin : Inside b p
    · rw [if_pos (hfound.mpr hin), selected, hpos, filter_cons_of_pos (by simpa using hin)]
      exact stands_here true p
    · rw [if_neg fun h => hin (hfound.mp h)]
      have hnext := next_stands (k := k) (s := { s with input := some p, hint := (findOneThatContains b p s.hint).2 }) rfl
      have hsorted := k.inputPositions_sorted true
      rw [hpos] at hsorted
      have hrest := Cursor.filter_gt_of_sorted (l := []) hsorted
      rw [nil_append] at hrest
      rw [find_selected, hpos, hrest] at hnext
      rwa [selected, hpos, filter_cons_of_neg (by simpa using hin), head?_filter]

lemma setPosition_agree :
    Agree (Stands true) (k.betweenCall true s (.setPosition p)) (Cursor.call k.selected id o (.setPosition p)) := by
  rw [betweenCall, setPosition, Cursor.call]
  dsimp only
  rw [if_pos rfl, id]
  by_cases hp : p ∈ k.inputPositions true
  · by_cases hin : Inside b p
    · rw [if_pos ((found_iff _ hp).mpr hin), if_pos hp, if_pos (mem_selected_iff.mpr ⟨hp, hin⟩)]
      exact .answer _ (stands_here true p)
    · rw [if_neg fun h => hin ((found_iff _ hp).mp h), if_neg fun h => hin (mem_selected_iff.mp h).2]
      exact .answer _ (stands_end rfl)
  · rw [if_neg hp, if_neg fun h => hp (mem_selected_iff.mp h).1]
    split_ifs <;> exact .answer _ (stands_end rfl)

lemma delegateCall_answers (h : s.input = o) (calls : List (IteratorCall Coordinates)) :
    answers (k.delegateCall ignoreEmptyCells) s calls = answers (Cursor.call (k.inputPositions ignoreEmptyCells) id) o calls := by
  refine answers_eq_of_agree (R := fun s o => s.input = o) (fun s o a h => ?_) h calls
  subst h
  rw [delegateCall]
  cases Cursor.call (k.inputPositions ignoreEmptyCells) id s.input a with
  | none => exact .throws
  | some r => exact .answer _ rfl

lemma fullyInside_of_delegate (h : k.getConstIterator = .delegate) : k.fullyInside = true := by
  by_contra hnot
  rw [getConstIterator, if_neg hnot, if_neg hnot, if_neg hnot] at h
  split_ifs at h

open Classical in
lemma selected_of_fullyInside (h : k.fullyInside = true) : k.selected = k.inputPositions true := by
  refine filter_eq_self.mpr fun p hp => decide_eq_true ?_
  obtain ⟨c, hc, rfl⟩ := mem_inputPositions hp
  exact inside_of_fullyInside h hc

lemma call_of_delegate (h : k.getConstIterator = .delegate) : k.call ignoreEmptyCells = k.delegateCall ignoreEmptyCells := by
  funext s a
  rw [call, h]

lemma call_of_not_delegate (h : k.getConstIterator ≠ .delegate) : k.call ignoreEmptyCells = k.betweenCall ignoreEmptyCells := by
  funext s a
  rw [call]
  split
  · exact absurd ‹_› h
  · rfl

variable (k)

lemma chunkIterator_of_not_delegate (ignoreEmptyCells : Bool) (h : k.getConstIterator ≠ .delegate) :
    ∃ s : ChunkIterator, s.currPos = origin b ∧ k.chunkIterator ignoreEmptyCells = k.reset ignoreEmptyCells s := by
  refine ⟨{ input := none, currPos := origin b, hasCurrent := false, hint := 0 }, rfl, ?_⟩
  rw [chunkIterator]
  split
  · exact absurd ‹_› h
  · rfl

lemma call_answers_of {l : List Coordinates} (hdelegate : k.fullyInside = true → l = k.inputPositions ignoreEmptyCells)
    (hreset : ∀ s, Stands ignoreEmptyCells (k.reset ignoreEmptyCells s) l.head?)
    (hnext : ∀ s c, s.input = some c → Stands ignoreEmptyCells (k.next ignoreEmptyCells s) (l.find? (Cursor.isAfter c)))
    (hset : ∀ s o p, Agree (Stands ignoreEmptyCells) (k.betweenCall ignoreEmptyCells s (.setPosition p))
      (Cursor.call l id o (.setPosition p))) (calls : List (IteratorCall Coordinates)) :
    answers (k.call ignoreEmptyCells) (k.chunkIterator ignoreEmptyCells) calls = answers (Cursor.call l id) l.head? calls := by
  by_cases hkind : k.getConstIterator = .delegate
  · rw [call_of_delegate hkind, chunkIterator, hkind, hdelegate (fullyInside_of_delegate hkind)]
    exact delegateCall_answers rfl calls
  obtain ⟨s, -, hs⟩ := chunkIterator_of_not_delegate k ignoreEmptyCells hkind
  rw [call_of_not_delegate hkind, hs]
  refine answers_eq_of_agree (R := Stands ignoreEmptyCells) (fun s o a h => ?_) (hreset s) calls
  cases a with
  | reset =>
    rw [betweenCall, Cursor.call, (hreset s).position]
    exact .answer _ (hreset s)
  | next =>
    rw [betweenCall, h.hasCurrent]
    cases o with
    | none => exact .throws
    | some c =>
      have hstands := hnext s c (h.input rfl)
      rw [isSome_some, if_pos rfl]
      dsimp only
      rw [hstands.position]
      exact .answer _ hstands
  | setPosition p => exact hset s o p

variable (calls : List (IteratorCall Coordinates))

/-- **Where empty cells are ignored, the iterators answer as a cursor over the cells in the ranges.** -/
lemma call_answers :
    answers (k.call true) (k.chunkIterator true) calls = answers (Cursor.call k.selected id) k.selected.head? calls :=
  k.call_answers_of selected_of_fullyInside reset_stands (fun _ _ => next_stands) (fun _ _ _ => setPosition_agree) calls

lemma call_answers_all : answers (k.call false) (k.chunkIterator false) calls =
      answers (Cursor.call (k.inputPositions false) id) (k.inputPositions false).head? calls := by
  refine k.call_answers_of (fun _ => rfl) (fun s => ?_) (fun s c hinput => ?_) (fun s o p => ?_) calls
  · rw [reset]
    cases (k.inputPositions false).head? with
    | none => exact stands_end rfl
    | some p => exact ⟨rfl, fun _ => rfl, nofun⟩
  · rw [next, hinput]
    exact ⟨rfl, fun _ => rfl, nofun⟩
  · rw [betweenCall, setPosition, Cursor.call, if_neg Bool.false_ne_true, id]
    split_ifs with hp
    · exact .answer _ ⟨rfl, fun _ => rfl, nofun⟩
    · exact .answer _ (stands_end rfl)

/-- The states of the iterator that calls lead to, where empty cells are not ignored. -/
def Reached (s : ChunkIterator) : Prop :=
  Reaches (fun s a => (k.call false s a).map Prod.snd) (fun _ _ => True) (k.chunkIterator false) s

variable {k}

variable (s)

lemma reset_currPos : (k.reset false s).currPos = s.currPos := by
  rw [reset]
  cases (k.inputPositions false).head? <;> rfl

lemma next_currPos : (k.next false s).currPos = s.currPos := by
  rw [next]
  cases s.input <;> rfl

lemma setPosition_currPos (p : Coordinates) : (k.setPosition false s p).2.currPos = s.currPos := by
  rw [setPosition, if_neg Bool.false_ne_true]
  split_ifs <;> rfl

variable {s}

lemma call_currPos {s' : ChunkIterator} {a : IteratorCall Coordinates}
    (h : (k.call false s a).map Prod.snd = some s') : s'.currPos = s.currPos := by
  obtain ⟨⟨r, s''⟩, hcall, rfl⟩ := map_eq_some_iff.mp h
  by_cases hkind : k.getConstIterator = .delegate
  · rw [call_of_delegate hkind, delegateCall] at hcall
    obtain ⟨r', -, hr⟩ := map_eq_some_iff.mp hcall
    cases hr
    rfl
  · rw [call_of_not_delegate hkind] at hcall
    cases a with
    | reset =>
      cases hcall
      exact reset_currPos s
    | next =>
      rw [betweenCall] at hcall
      split_ifs at hcall
      cases hcall
      exact next_currPos s
    | setPosition p =>
      cases hcall
      exact setPosition_currPos s p

lemma Reached.currPos (h : k.Reached s) : s.currPos = origin b := by
  refine Reaches.invariant (I := fun s => s.currPos = origin b) h ?_ fun s s' a hs _ hcall => (call_currPos hcall).trans hs
  by_cases hkind : k.getConstIterator = .delegate
  · rw [chunkIterator, hkind]
  · obtain ⟨s, hs, heq⟩ := chunkIterator_of_not_delegate k false hkind
    rw [heq, reset_currPos, hs]

/-- `isEmpty` is right about the cell: it is empty in the input, or in no range. -/
def EmptyRight (k : BetweenChunk b) (s : ChunkIterator) (c : BetweenCell) : Prop :=
  k.isEmpty s c = true ↔ c.isEmpty = true ∨ ¬Inside b c.pos

/-- `getItem` of the bitmap is right: the cell is in some range, and in the bitmap of the input, if there is one. -/
def ItemRight (k : BetweenChunk b) (s : ChunkIterator) (c : BetweenCell) : Prop :=
  k.getItem s c = true ↔ (k.isNew = true ∨ c.item = true) ∧ Inside b c.pos

lemma origin_iff : (findOneThatContains b (origin b) hint).1 = true ↔ Inside b (origin b) :=
  findOneThatContains_iff (by rw [origin, length_map])

lemma isEmpty_eq (h : k.fullyInside = false) : k.isEmpty s c = (c.isEmpty || !(findOneThatContains b s.currPos s.hint).1) := by
  rw [isEmpty, getConstIterator, h]
  cases k.isEmptyIndicator <;> cases k.isNew <;> rfl

lemma emptyRight_iff (h : k.Reached s) (hc : c ∈ k.cells) :
    k.EmptyRight s c ↔ k.fullyInside = true ∨ c.isEmpty = true ∨ (Inside b (origin b) ↔ Inside b c.pos) := by
  cases hinside : k.fullyInside with
  | true =>
    refine iff_of_true ?_ (.inl rfl)
    have hin := inside_of_fullyInside hinside hc
    rw [EmptyRight, isEmpty, getConstIterator, hinside]
    cases hindicator : k.isEmptyIndicator with
    | false => simp [hin]
    | true =>
      cases hnew : k.isNew with
      | false => simp [hin]
      | true => simp [hin, k.full hnew c hc]
  | false =>
    rw [EmptyRight, isEmpty_eq hinside, h.currPos, Bool.or_eq_true, Bool.not_eq_true', ← Bool.not_eq_true, origin_iff]
    cases c.isEmpty <;> simp [not_iff_not]

lemma getItem_iff (h : k.fullyInside = false) (hbitmap : k.isEmptyIndicator = true) :
    k.getItem s c = true ↔ (k.isNew = true ∨ c.item = true) ∧ (findOneThatContains b s.currPos s.hint).1 = true := by
  rw [getItem, getConstIterator, h, hbitmap]
  cases k.isNew <;> simp

lemma itemRight_iff (h : k.Reached s) (hc : c ∈ k.cells) (hbitmap : k.isEmptyIndicator = true) : k.ItemRight s c ↔
      k.fullyInside = true ∨ (k.isNew = false ∧ c.item = false) ∨ (Inside b (origin b) ↔ Inside b c.pos) := by
  cases hinside : k.fullyInside with
  | true =>
    refine iff_of_true ?_ (.inl rfl)
    have hin := inside_of_fullyInside hinside hc
    rw [ItemRight, getItem, getConstIterator, hinside, hbitmap]
    cases k.isNew <;> simp [hin]
  | false =>
    rw [ItemRight, getItem_iff hinside hbitmap, h.currPos, origin_iff]
    cases k.isNew <;> cases c.item <;> simp

/-- **`between` is exact**; of cells that it does not skip, if the chunk is inside one range, or the input decides alone, or the
origin is in a range just as the position is. -/
theorem between_exact (b : BetweenArray) : (b.Fits → (∀ calls, answers b.arrayCall b.arrayIterator calls =
      answers (Cursor.call b.selected (getChunkPositionFor b.dims)) b.selected.head? calls) ∧
      answers b.arrayCall b.arrayIterator (.reset :: List.replicate b.selected.length .next) =
        some ((b.selected.map some ++ [none]).map (true, ·))) ∧
    b.selected.Pairwise (· < ·) ∧ (∀ c, c ∈ b.selected ↔ c ∈ b.chunks ∧ b.Meets c) ∧ ∀ k : BetweenChunk b,
      (∀ calls, answers (k.call true) (k.chunkIterator true) calls = answers (Cursor.call k.selected id) k.selected.head? calls) ∧
      k.selected.Pairwise (· < ·) ∧ (∀ p, p ∈ k.selected ↔ (∃ c ∈ k.cells, c.isEmpty = false ∧ c.pos = p) ∧ Inside b p) ∧
      answers (k.call true) (k.chunkIterator true) (.reset :: List.replicate k.selected.length .next) =
        some ((k.selected.map some ++ [none]).map (true, ·)) ∧ (∀ calls, answers (k.call false) (k.chunkIterator false) calls =
        answers (Cursor.call (k.cells.map BetweenCell.pos) id) (k.cells.map BetweenCell.pos).head? calls) ∧
      ∀ s, k.Reached s → ∀ c ∈ k.cells, position false s = some c.pos →
        (k.EmptyRight s c ↔ k.fullyInside = true ∨ c.isEmpty = true ∨ (Inside b (origin b) ↔ Inside b c.pos)) ∧
        (k.isEmptyIndicator = true → (k.ItemRight s c ↔
          k.fullyInside = true ∨ (k.isNew = false ∧ c.item = false) ∨ (Inside b (origin b) ↔ Inside b c.pos))) :=
  ⟨fun hfit => ⟨BetweenArray.arrayIterator_answers hfit,
      (BetweenArray.arrayIterator_answers hfit _).trans (Cursor.enumerates b.selected_sorted _ _)⟩,
    b.selected_sorted, fun _ => BetweenArray.mem_selected, fun k =>
    ⟨k.call_answers, k.selected_sorted, fun _ => mem_selected,
      (k.call_answers _).trans (Cursor.enumerates k.selected_sorted _ _), k.call_answers_all, fun _ hs _ hc _ =>
      ⟨emptyRight_iff hs hc, itemRight_iff hs hc⟩⟩⟩

def tenCells : BetweenArray where
  dims := [⟨0, 9, 10, by decide, by decide, by decide, by decide⟩]
  ranges := [[⟨3, 5, by decide⟩]]
  chunks := [[0]]
  afterFailed := fun _ => none
  dims_ne := by decide
  inBounds := by simp
  sorted := by simp
  aligned := by simp [Aligned, Dimension.chunkPosition]
  int64 := by simp [IsInt64]

def tenBits : BetweenChunk tenCells where
  myRange := [⟨0, 9, by decide⟩]
  cells := (List.range 10).map fun i : ℕ => ⟨[(i : ℤ)], false, true⟩
  isEmptyIndicator := true
  isNew := false
  dims_eq := rfl
  sorted := by decide
  inBox := by
    intro c hc
    obtain ⟨i, hi, rfl⟩ := List.mem_map.mp hc
    have := List.mem_range.mp hi
    exact .cons ⟨by simp, by simp; omega⟩ .nil
  full := nofun

/-- The iterator at position 4. -/
def atFour : ChunkIterator := { input := some [4], currPos := [0], hasCurrent := true, hint := 0 }

lemma tenCells_fits : tenCells.Fits := by
  rintro c hal ⟨r, hr, x, hx, hmem⟩
  obtain rfl := mem_singleton.mp hr
  cases hal with
  | cons _ hnil =>
    cases hnil
    cases hmem with
    | cons hrange hnil =>
      cases hnil
      exact .cons (show _ + 10 < _ by have := hx.1.1; have := hrange.2; dsimp only at *; omega) .nil

lemma atFour_reached : tenBits.Reached atFour :=
  Reaches.start.step trivial (show (tenBits.call false _ (.setPosition [4])).map Prod.snd = some atFour by decide +kernel)

/-- **The bitmap says that cell 4, which is in the range, is not there.** -/
theorem isEmpty_at_origin : tenBits.Reached atFour ∧ position false atFour = some [4] ∧ Inside tenCells [4] ∧
    tenBits.isEmpty atFour ⟨[4], false, true⟩ = true ∧ tenBits.getItem atFour ⟨[4], false, true⟩ = false :=
  ⟨atFour_reached, rfl, ⟨_, mem_cons_self, .cons (by decide) .nil⟩, by decide, by decide⟩

/-- Ten rows in one chunk of the greatest interval, and ten columns. -/
def wideRows : BetweenArray where
  dims := [⟨1, 10, 2 ^ 63 - 1, by decide, by decide, by decide, by decide⟩, ⟨0, 9, 3, by decide, by decide, by decide, by decide⟩]
  ranges := [[⟨1, 10, by decide⟩, ⟨3, 6, by decide⟩]]
  chunks := [[1, 3], [1, 6], [1, 9]]
  afterFailed := fun _ => none
  dims_ne := by decide
  inBounds := by simp
  sorted := by decide
  aligned := by simp [Aligned, Dimension.chunkPosition]
  int64 := by simp [IsInt64]

/-- **Without `Fits` the row wraps around**: the iterator over the ranges goes back to the first row, and the array iterator
comes to one chunk again and again. -/
theorem arrayIterator_returns : answers wideRows.arrayCall wideRows.arrayIterator [.reset, .next, .next, .next] =
    some [(true, some [1, 3]), (true, some [1, 6]), (true, some [1, 6]), (true, some [1, 6])] := by
  decide +kernel

theorem tenBits_reports : tenBits.Reached atFour ∧
    answers tenCells.arrayCall tenCells.arrayIterator [.next] =
      answers (Cursor.call tenCells.selected (getChunkPositionFor tenCells.dims)) tenCells.selected.head? [.next] ∧
    (tenBits.EmptyRight atFour ⟨[4], false, true⟩ ↔ tenBits.fullyInside = true ∨ false = true ∨
      (Inside tenCells (origin tenCells) ↔ Inside tenCells [4])) :=
  ⟨atFour_reached, ((between_exact tenCells).1 tenCells_fits).1 _,
    (((between_exact tenCells).2.2.2 tenBits).2.2.2.2.2 atFour atFour_reached ⟨[4], false, true⟩ (by decide)
    rfl).1⟩

end BetweenChunk

end SciDB.Query
