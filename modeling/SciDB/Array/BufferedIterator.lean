import SciDB.Lib.Runs

/-!
# Reading a chunk through a tile

`BufferedConstChunkIterator` answers `getItem` out of a tile. While its cursor is an index into the tile, the wrapped iterator
(`Implements`) stands at the cell after the tile. A call that throws has no answer.
-/

namespace SciDB.Array

open SciDB.Lib List Option

universe u v w

variable {σ : Type u} {Coord : Type v} {Value : Type w}

/-- The calls of an iterator over a chunk. Positions in the chunk are signed, `-1` is none. -/
structure TiledIterator (σ : Type u) (Coord : Type v) (Value : Type w) where
  atEnd : σ → Bool
  getLogicalPosition : σ → Option ℤ
  getPosition : σ → Option Coord
  setPosition : ℤ → σ → Bool × σ
  setCoordinates : Coord → σ → Bool × σ
  next : σ → Option σ
  reset : σ → σ
  getItem : σ → Option (Value × σ)
  getData : ℤ → ℕ → σ → Option (ℤ × List Value × List ℤ × σ)
  pos2coord : ℤ → Coord

/-- The cursor at an index. -/
def cursorAt (cells : List (ℤ × Value)) (i : ℕ) : Option ℕ := if i < cells.length then some i else none

/-- What it means that an iterator runs over `cells`. `At s c` says where a state stands. -/
structure Implements (it : TiledIterator σ Coord Value) (cells : List (ℤ × Value))
    (At : σ → Option ℕ → Prop) : Prop where
  atEnd {s c} : At s c → it.atEnd s = c.isNone
  logical {s i p v} : At s (some i) → cells[i]? = some (p, v) → it.getLogicalPosition s = some p
  position {s i p v} : At s (some i) → cells[i]? = some (p, v) → it.getPosition s = some (it.pos2coord p)
  item {s i p v} : At s (some i) → cells[i]? = some (p, v) → ∃ s', it.getItem s = some (v, s') ∧ At s' (some i)
  next {s i} : At s (some i) → ∃ s', it.next s = some s' ∧ At s' (cursorAt cells (i + 1))
  no_logical {s} : At s none → it.getLogicalPosition s = none
  no_position {s} : At s none → it.getPosition s = none
  no_item {s} : At s none → it.getItem s = none
  no_next {s} : At s none → it.next s = none
  hit {s c i p v} : At s c → cells[i]? = some (p, v) → (it.setPosition p s).1 = true ∧ At (it.setPosition p s).2 (some i)
  miss {s c p} : At s c → p ∉ cells.map Prod.fst → (it.setPosition p s).1 = false ∧ At (it.setPosition p s).2 none
  hit_coordinates {s c i p v} : At s c → cells[i]? = some (p, v) →
    (it.setCoordinates (it.pos2coord p) s).1 = true ∧ At (it.setCoordinates (it.pos2coord p) s).2 (some i)
  miss_coordinates {s c x} : At s c → x ∉ cells.map (it.pos2coord ∘ Prod.fst) →
    (it.setCoordinates x s).1 = false ∧ At (it.setCoordinates x s).2 none
  reset {s c} : At s c → At (it.reset s) (cursorAt cells 0)
  data {s c i p v n} : At s c → cells[i]? = some (p, v) → 1 ≤ n → ∃ next s',
    it.getData p n s = some (next, ((cells.drop i).take n).map Prod.snd, ((cells.drop i).take n).map Prod.fst, s') ∧
      At s' (cursorAt cells (i + n)) ∧ next = ((cells[i + n]?).map Prod.fst).getD (-1)
  lt {s i} : At s (some i) → i < cells.length
  nonneg {p v} : (p, v) ∈ cells → 0 ≤ p
  sorted : cells.Pairwise fun a b => a.1 < b.1

/-- `BufferedConstChunkIterator`. -/
structure Buffered (σ : Type u) (Value : Type w) where
  tiled : σ
  tileSize : ℕ
  tileData : Option (List Value)
  tileCoords : Option (List ℤ)
  currLPosInTile : ℤ
  currTileIndex : ℕ

namespace Buffered

variable (it : TiledIterator σ Coord Value)

/-- The constructor. -/
def mk₀ (tiled : σ) (tileSize : ℕ) : Buffered σ Value := ⟨tiled, tileSize, none, none, -1, 0⟩

def isCurrentLPosNotInTile (b : Buffered σ Value) : Prop := b.currLPosInTile < 0

instance (b : Buffered σ Value) : Decidable b.isCurrentLPosNotInTile := inferInstanceAs (Decidable (_ < _))

def clearCurrentLPosInTile (b : Buffered σ Value) : Buffered σ Value :=
  { b with currLPosInTile := -1, currTileIndex := 0 }

def bisect (coords : List ℤ) (pos : ℤ) (low high : ℕ) : Option ℕ :=
  if low ≤ high then
    match coords[(low + high) / 2]? with
    | none => none
    | some pcurr =>
      if pos = pcurr then some ((low + high) / 2)
      else if pos < pcurr then
        if (low + high) / 2 = 0 then none else bisect coords pos low ((low + high) / 2 - 1)
      else bisect coords pos ((low + high) / 2 + 1) high
  else none
termination_by high + 1 - low
decreasing_by all_goals omega

def findPosition (coords : List ℤ) (pos : ℤ) (index : ℕ) : Option ℕ :=
  if coords.length = 0 then none
  else
    let high := coords.length - 1
    if 0 < high ∧ coords[index % high + 1]? = some pos then some (index % high + 1)
    else
      match coords[high]? with
      | none => none
      | some pcurr =>
        if pcurr = pos then some high
        else if pcurr < pos then none
        else if high = 0 then none
        else
          match coords[0]? with
          | none => none
          | some pfirst =>
            if pfirst = pos then some 0
            else if pos < pfirst then none
            else bisect coords pos 1 (high - 1)

/-- `setPosition`, by position. -/
def setPosition (p : ℤ) (b : Buffered σ Value) : Bool × Buffered σ Value :=
  let r := it.setPosition p b.tiled
  (r.1, { b.clearCurrentLPosInTile with tiled := r.2 })

def setCoordinates (x : Coord) (b : Buffered σ Value) : Bool × Buffered σ Value :=
  let r := it.setCoordinates x b.tiled
  (r.1, { b.clearCurrentLPosInTile with tiled := r.2 })

/-- `end`. -/
def atEnd (b : Buffered σ Value) : Bool :=
  if b.isCurrentLPosNotInTile then it.atEnd b.tiled else false

def getPosition (b : Buffered σ Value) : Option Coord :=
  if b.isCurrentLPosNotInTile then it.getPosition b.tiled else some (it.pos2coord b.currLPosInTile)

def getLogicalPosition (b : Buffered σ Value) : Option ℤ :=
  if b.isCurrentLPosNotInTile then it.getLogicalPosition b.tiled else some b.currLPosInTile

/-- `operator++`. -/
def next (b : Buffered σ Value) : Option (Buffered σ Value) :=
  if b.isCurrentLPosNotInTile then (it.next b.tiled).map fun s => { b with tiled := s }
  else b.tileCoords.bind fun coords =>
    if coords.length ≤ b.currTileIndex + 1 then some b.clearCurrentLPosInTile
    else (coords[b.currTileIndex + 1]?).map fun p =>
      { b with currTileIndex := b.currTileIndex + 1, currLPosInTile := p }

def reset (b : Buffered σ Value) : Buffered σ Value :=
  { b.clearCurrentLPosInTile with tiled := it.reset b.tiled }

def moveAfterTile (coords : List ℤ) (b : Buffered σ Value) : Option (Buffered σ Value) :=
  (coords[coords.length - 1]?).bind fun lastTilePos =>
    (it.next (it.setPosition lastTilePos b.tiled).2).map fun s => { b with tiled := s }

def fetchTile (lPos : ℤ) (b : Buffered σ Value) : Option (Buffered σ Value) :=
  (it.getData lPos b.tileSize b.tiled).map fun r =>
    { b with tileData := some r.2.1, tileCoords := some r.2.2.1, tiled := r.2.2.2 }

/-- The tile of `lPos`. -/
def findTile (lPos : ℤ) (b : Buffered σ Value) : Option (ℕ × Buffered σ Value) :=
  match b.tileCoords.bind fun coords => (findPosition coords lPos 0).map (coords, ·) with
  | some (coords, index) => (moveAfterTile it coords b).map (index, ·)
  | none => (fetchTile it lPos b).map (0, ·)

def enterTile (index : ℕ) (b : Buffered σ Value) : Option (Value × Buffered σ Value) :=
  (b.tileCoords.bind fun coords => coords[index]?).bind fun p =>
    (b.tileData.bind fun data => data[index]?).map fun v =>
      (v, { b with currLPosInTile := p, currTileIndex := index })

def getItem (b : Buffered σ Value) : Option (Value × Buffered σ Value) :=
  if b.isCurrentLPosNotInTile then
    (it.getLogicalPosition b.tiled).bind fun lPos => (findTile it lPos b).bind fun r => enterTile r.1 r.2
  else (b.tileData.bind fun data => data[b.currTileIndex]?).map (·, b)

end Buffered

/-- A call of a consumer. -/
inductive Call (Coord : Type v) where
  | next
  | setPosition (p : ℤ)
  | setCoordinates (x : Coord)
  | reset
  | getItem
  | getPosition
  | getLogicalPosition
  | atEnd

inductive Answer (Coord : Type v) (Value : Type w) where
  | moved
  | found (b : Bool)
  | item (v : Value)
  | position (x : Coord)
  | logical (p : ℤ)
  | atEnd (b : Bool)
  deriving DecidableEq

/-- A call on the iterator itself. -/
def TiledIterator.call (it : TiledIterator σ Coord Value) (s : σ) : Call Coord → Option (Answer Coord Value × σ)
  | .next => (it.next s).map (.moved, ·)
  | .setPosition p => some (.found (it.setPosition p s).1, (it.setPosition p s).2)
  | .setCoordinates x => some (.found (it.setCoordinates x s).1, (it.setCoordinates x s).2)
  | .reset => some (.moved, it.reset s)
  | .getItem => (it.getItem s).map fun r => (.item r.1, r.2)
  | .getPosition => (it.getPosition s).map fun x => (.position x, s)
  | .getLogicalPosition => (it.getLogicalPosition s).map fun p => (.logical p, s)
  | .atEnd => some (.atEnd (it.atEnd s), s)

/-- A call on the wrapper. -/
def Buffered.call (it : TiledIterator σ Coord Value) (b : Buffered σ Value) :
    Call Coord → Option (Answer Coord Value × Buffered σ Value)
  | .next => (b.next it).map (.moved, ·)
  | .setPosition p => some (.found (b.setPosition it p).1, (b.setPosition it p).2)
  | .setCoordinates x => some (.found (b.setCoordinates it x).1, (b.setCoordinates it x).2)
  | .reset => some (.moved, b.reset it)
  | .getItem => (b.getItem it).map fun r => (.item r.1, r.2)
  | .getPosition => (b.getPosition it).map fun x => (.position x, b)
  | .getLogicalPosition => (b.getLogicalPosition it).map fun p => (.logical p, b)
  | .atEnd => some (.atEnd (b.atEnd it), b)

/-- The cells of a tile. -/
def tileFrom (cells : List (ℤ × Value)) (n k : ℕ) : List (ℤ × Value) := (cells.drop k).take n

structure Buffered.HoldsTile (cells : List (ℤ × Value)) (k : ℕ) (b : Buffered σ Value) : Prop where
  coords : b.tileCoords = some ((tileFrom cells b.tileSize k).map Prod.fst)
  data : b.tileData = some ((tileFrom cells b.tileSize k).map Prod.snd)
  lt : k < cells.length

inductive Buffered.Stands (cells : List (ℤ × Value)) (At : σ → Option ℕ → Prop) (b : Buffered σ Value) :
    Option ℕ → Prop where
  | outside {c} : b.currLPosInTile = -1 → (b.tileCoords = none ∨ ∃ k, b.HoldsTile cells k) →
      At b.tiled c → Stands cells At b c
  | inside {k v} : b.HoldsTile cells k → b.currTileIndex < b.tileSize →
      cells[k + b.currTileIndex]? = some (b.currLPosInTile, v) →
      At b.tiled (cursorAt cells (k + b.tileSize)) → Stands cells At b (some (k + b.currTileIndex))

variable {it : TiledIterator σ Coord Value} {cells : List (ℤ × Value)} {At : σ → Option ℕ → Prop}
  {s : σ} {b : Buffered σ Value} {c c' : Option ℕ} {i k n : ℕ} {p : ℤ} {v : Value} {j : ℕ} {coords : List ℤ}

open List

lemma getElem?_tileFrom (h : j < n) : (tileFrom cells n k)[j]? = cells[k + j]? := by
  rw [tileFrom, getElem?_take_of_lt h, getElem?_drop]

lemma length_tileFrom : (tileFrom cells n k).length = min n (cells.length - k) := by
  rw [tileFrom, length_take, length_drop]

lemma cursorAt_length_tileFrom (hk : k < cells.length) (hn : 1 ≤ n) :
    cursorAt cells (k + ((tileFrom cells n k).length - 1) + 1) = cursorAt cells (k + n) := by
  rw [length_tileFrom]
  rcases Nat.lt_or_ge (k + n) cells.length with h | h
  · rw [Nat.min_eq_left (by omega)]
    congr 1
    omega
  · rw [Nat.min_eq_right (by omega), cursorAt, cursorAt, if_neg (by omega), if_neg (by omega)]

open Buffered

lemma getElem?_of_bisect {low high : ℕ} (h : Buffered.bisect coords p low high = some i) : coords[i]? = some p := by
  fun_induction bisect coords p low high with
  | case1 | case3 | case6 => cases h
  | case2 low high hle hmid =>
    cases h
    exact hmid
  | case4 low high hle pcurr hmid hne hlt hpos ih => exact ih h
  | case5 low high hle pcurr hmid hne hlt ih => exact ih h

lemma getElem?_of_findPosition {hint : ℕ} (h : Buffered.findPosition coords p hint = some i) : coords[i]? = some p := by
  simp only [findPosition] at h
  split at h
  · cases h
  split at h
  · rename_i hhint
    cases h
    exact hhint.2
  split at h
  · cases h
  rename_i pcurr hlast
  split at h
  · rename_i heq
    cases h
    rw [hlast, heq]
  split at h
  · cases h
  split at h
  · cases h
  split at h
  · cases h
  rename_i pfirst hfirst
  split at h
  · rename_i heq
    cases h
    rw [hfirst, heq]
  split at h
  · cases h
  exact getElem?_of_bisect h

/-- What calls do to a cursor. -/
noncomputable def cursorCall (cells : List (ℤ × Value)) (pos2coord : ℤ → Coord) (c : Option ℕ) :
    Call Coord → Option (Answer Coord Value × Option ℕ) :=
  open Classical in fun
  | .next => c.map fun i => (.moved, cursorAt cells (i + 1))
  | .setPosition p =>
    some (.found (cells.findIdx? fun cell => cell.1 = p).isSome, cells.findIdx? fun cell => cell.1 = p)
  | .setCoordinates x =>
    some (.found (cells.findIdx? fun cell => pos2coord cell.1 = x).isSome, cells.findIdx? fun cell => pos2coord cell.1 = x)
  | .reset => some (.moved, cursorAt cells 0)
  | .getItem => c.bind fun i => (cells[i]?).map fun cell => (.item cell.2, some i)
  | .getPosition => c.bind fun i => (cells[i]?).map fun cell => (.position (pos2coord cell.1), some i)
  | .getLogicalPosition => c.bind fun i => (cells[i]?).map fun cell => (.logical cell.1, some i)
  | .atEnd => some (.atEnd c.isNone, c)

namespace Implements

section

variable (h : Implements it cells At)

include h

lemma exists_cell (hs : At s (some i)) : ∃ p v, cells[i]? = some (p, v) :=
  ⟨_, _, getElem?_eq_getElem (h.lt hs)⟩

lemma setPosition (hs : At s c) (p : ℤ) : (it.setPosition p s).1 = (cells.findIdx? fun cell => decide (cell.1 = p)).isSome ∧
      At (it.setPosition p s).2 (cells.findIdx? fun cell => decide (cell.1 = p)) := by
  cases hfind : cells.findIdx? fun cell => decide (cell.1 = p) with
  | none =>
    refine h.miss hs fun hmem => ?_
    obtain ⟨cell, hcell, heq⟩ := mem_map.mp hmem
    have := findIdx?_eq_none_iff.mp hfind cell hcell
    simp [heq] at this
  | some i =>
    obtain ⟨hlt, heq, -⟩ := findIdx?_eq_some_iff_getElem.mp hfind
    have hcell : cells[i]? = some (p, cells[i].2) := by
      rw [getElem?_eq_getElem hlt, ← of_decide_eq_true heq]
    exact h.hit hs hcell

lemma setCoordinates (hs : At s c) (x : Coord) [DecidablePred fun cell : ℤ × Value => it.pos2coord cell.1 = x] :
    (it.setCoordinates x s).1 = (cells.findIdx? fun cell => decide (it.pos2coord cell.1 = x)).isSome ∧
      At (it.setCoordinates x s).2 (cells.findIdx? fun cell => decide (it.pos2coord cell.1 = x)) := by
  cases hfind : cells.findIdx? fun cell => decide (it.pos2coord cell.1 = x) with
  | none =>
    refine h.miss_coordinates hs fun hmem => ?_
    obtain ⟨cell, hcell, heq⟩ := mem_map.mp hmem
    have hne := findIdx?_eq_none_iff.mp hfind cell hcell
    exact of_decide_eq_false hne heq
  | some i =>
    obtain ⟨hlt, heq, -⟩ := findIdx?_eq_some_iff_getElem.mp hfind
    have hcell : cells[i]? = some (cells[i].1, cells[i].2) := getElem?_eq_getElem hlt
    rw [← of_decide_eq_true heq]
    exact h.hit_coordinates hs hcell

lemma agree_cursorCall (hs : At s c) (a : Call Coord) : Agree At (it.call s a) (cursorCall cells it.pos2coord c a) := by
  classical
  cases a with
  | setPosition p =>
    obtain ⟨hfound, hs'⟩ := h.setPosition hs p
    rw [TiledIterator.call, cursorCall, hfound]
    exact .answer _ hs'
  | setCoordinates x =>
    obtain ⟨hfound, hs'⟩ := h.setCoordinates hs x
    rw [TiledIterator.call, cursorCall, hfound]
    exact .answer _ hs'
  | reset => exact .answer _ (h.reset hs)
  | atEnd =>
    rw [TiledIterator.call, cursorCall, h.atEnd hs]
    exact .answer _ hs
  | next =>
    cases c with
    | none =>
      rw [TiledIterator.call, h.no_next hs]
      exact .throws
    | some i =>
      obtain ⟨s', hnext, hs'⟩ := h.next hs
      rw [TiledIterator.call, hnext]
      exact .answer _ hs'
  | getItem =>
    cases c with
    | none =>
      rw [TiledIterator.call, h.no_item hs]
      exact .throws
    | some i =>
      obtain ⟨p, v, hcell⟩ := h.exists_cell hs
      obtain ⟨s', hitem, hs'⟩ := h.item hs hcell
      rw [TiledIterator.call, hitem, cursorCall, bind_some, hcell]
      exact .answer _ hs'
  | getPosition =>
    cases c with
    | none =>
      rw [TiledIterator.call, h.no_position hs]
      exact .throws
    | some i =>
      obtain ⟨p, v, hcell⟩ := h.exists_cell hs
      rw [TiledIterator.call, h.position hs hcell, cursorCall, bind_some, hcell]
      exact .answer _ hs
  | getLogicalPosition =>
    cases c with
    | none =>
      rw [TiledIterator.call, h.no_logical hs]
      exact .throws
    | some i =>
      obtain ⟨p, v, hcell⟩ := h.exists_cell hs
      rw [TiledIterator.call, h.logical hs hcell, cursorCall, bind_some, hcell]
      exact .answer _ hs

end

end Implements

namespace Buffered

lemma HoldsTile.coords_getElem? (hb : b.HoldsTile cells k) (hi : i < b.tileSize) :
    (b.tileCoords.bind fun coords => coords[i]?) = (cells[k + i]?).map Prod.fst := by
  rw [hb.coords, bind_some, getElem?_map, getElem?_tileFrom hi]

lemma HoldsTile.data_getElem? (hb : b.HoldsTile cells k) (hi : i < b.tileSize) :
    (b.tileData.bind fun data => data[i]?) = (cells[k + i]?).map Prod.snd := by
  rw [hb.data, bind_some, getElem?_map, getElem?_tileFrom hi]

lemma of_findPosition_tileFrom {n hint : ℕ} (hfind : findPosition ((tileFrom cells n k).map Prod.fst) p hint = some i) :
    i < n ∧ (cells[k + i]?).map Prod.fst = some p := by
  have hget := getElem?_of_findPosition hfind
  rw [getElem?_map] at hget
  obtain ⟨cell, hcell, rfl⟩ := map_eq_some_iff.mp hget
  obtain ⟨hlt, -⟩ := List.getElem?_eq_some_iff.mp hcell
  rw [length_tileFrom] at hlt
  have hi : i < n := by omega
  rw [getElem?_tileFrom hi] at hcell
  exact ⟨hi, by rw [hcell, map_some]⟩

lemma Stands.tile (hb : b.Stands cells At c) : b.tileCoords = none ∨ ∃ k, b.HoldsTile cells k := by
  cases hb with
  | outside _ htile _ => exact htile
  | inside htile _ _ _ => exact .inr ⟨_, htile⟩

lemma Stands.tiled (hb : b.Stands cells At c) : ∃ c', At b.tiled c' := by
  cases hb with
  | outside _ _ hs => exact ⟨_, hs⟩
  | inside _ _ _ hs => exact ⟨_, hs⟩

lemma Stands.clear (hb : b.Stands cells At c) {s : σ} (hs : At s c') :
    Stands cells At { b.clearCurrentLPosInTile with tiled := s } c' :=
  .outside rfl (hb.tile.imp_right fun ⟨k, htile⟩ => ⟨k, htile.coords, htile.data, htile.lt⟩) hs

lemma not_outside (h : Implements it cells At) (hcell : cells[j]? = some (b.currLPosInTile, v)) : ¬ b.isCurrentLPosNotInTile :=
  not_lt.mpr (h.nonneg (mem_of_getElem? hcell))

lemma isCurrentLPosNotInTile_of_eq (hb : b.currLPosInTile = -1) : b.isCurrentLPosNotInTile := by
  rw [isCurrentLPosNotInTile, hb]
  decide

section

variable (h : Implements it cells At)

include h

lemma next_inside (hn : 1 ≤ b.tileSize) (hb : b.HoldsTile cells k) (hj : b.currTileIndex < b.tileSize)
    (hcell : cells[k + b.currTileIndex]? = some (b.currLPosInTile, v)) (hs : At b.tiled (cursorAt cells (k + b.tileSize))) :
    ∃ b', b.next it = some b' ∧ b'.tileSize = b.tileSize ∧ b'.Stands cells At (cursorAt cells (k + b.currTileIndex + 1)) := by
  have hlen : (tileFrom cells b.tileSize k).length = min b.tileSize (cells.length - k) := length_tileFrom
  obtain ⟨hlt, -⟩ := List.getElem?_eq_some_iff.mp hcell
  rw [next, if_neg (not_outside h hcell), hb.coords, bind_some, length_map]
  split_ifs with hlast
  · -- the last cell of the tile: the wrapped iterator is at the next one
    refine ⟨_, rfl, rfl, ?_⟩
    have hcursor : cursorAt cells (k + b.currTileIndex + 1) = cursorAt cells (k + b.tileSize) := by
      rw [← cursorAt_length_tileFrom hb.lt hn]
      congr 2
      omega
    rw [hcursor]
    exact Stands.outside rfl (.inr ⟨k, hb.coords, hb.data, hb.lt⟩) hs
  · have hj' : b.currTileIndex + 1 < b.tileSize := by omega
    have hlt' : k + (b.currTileIndex + 1) < cells.length := by omega
    obtain ⟨⟨q, w⟩, hcell'⟩ : ∃ cell, cells[k + (b.currTileIndex + 1)]? = some cell := ⟨_, getElem?_eq_getElem hlt'⟩
    rw [getElem?_map, getElem?_tileFrom hj', hcell']
    refine ⟨_, rfl, rfl, ?_⟩
    rw [add_assoc, cursorAt, if_pos hlt']
    exact Stands.inside ⟨rfl, hb.data, hb.lt⟩ hj' hcell' hs

lemma moveAfterTile_spec (hn : 1 ≤ b.tileSize) (hb : b.HoldsTile cells k) (hs : At b.tiled c) :
    ∃ s', moveAfterTile it ((tileFrom cells b.tileSize k).map Prod.fst) b = some { b with tiled := s' } ∧
      At s' (cursorAt cells (k + b.tileSize)) := by
  have hlen : (tileFrom cells b.tileSize k).length = min b.tileSize (cells.length - k) := length_tileFrom
  have hk := hb.lt
  have hlt : k + ((tileFrom cells b.tileSize k).length - 1) < cells.length := by omega
  obtain ⟨⟨q, w⟩, hcell⟩ : ∃ cell, cells[k + ((tileFrom cells b.tileSize k).length - 1)]? = some cell :=
    ⟨_, getElem?_eq_getElem hlt⟩
  obtain ⟨s', hnext, hs'⟩ := h.next (h.hit hs hcell).2
  refine ⟨s', ?_, ?_⟩
  · rw [moveAfterTile, length_map, getElem?_map, getElem?_tileFrom (by omega), hcell, map_some, bind_some, hnext, map_some]
  · rwa [cursorAt_length_tileFrom hk hn] at hs'

lemma index_eq (hi : cells[i]? = some (p, v)) (hj : (cells[j]?).map Prod.fst = some p) : j = i := by
  obtain ⟨hlti, hcelli⟩ := List.getElem?_eq_some_iff.mp hi
  obtain ⟨cell, hcell, hp⟩ := map_eq_some_iff.mp hj
  obtain ⟨hltj, hcellj⟩ := List.getElem?_eq_some_iff.mp hcell
  have hsorted := pairwise_iff_getElem.mp h.sorted
  rcases Nat.lt_trichotomy j i with hlt | heq | hgt
  · have := hsorted j i hltj hlti hlt
    rw [hcelli, hcellj, hp] at this
    exact absurd this (lt_irrefl p)
  · exact heq
  · have := hsorted i j hlti hltj hgt
    rw [hcelli, hcellj, hp] at this
    exact absurd this (lt_irrefl p)

lemma findTile_spec (hn : 1 ≤ b.tileSize) (htile : b.tileCoords = none ∨ ∃ k, b.HoldsTile cells k)
    (hs : At b.tiled (some i)) (hcell : cells[i]? = some (p, v)) :
    ∃ k j b', findTile it p b = some (j, b') ∧ b'.tileSize = b.tileSize ∧ b'.HoldsTile cells k ∧
      j < b.tileSize ∧ k + j = i ∧ At b'.tiled (cursorAt cells (k + b.tileSize)) := by
  rw [findTile]
  split
  · -- in the tile at hand
    rename_i coords j hfind
    obtain ⟨coords', hcoords, hmap⟩ := bind_eq_some_iff.mp hfind
    obtain ⟨j', hj', heq⟩ := map_eq_some_iff.mp hmap
    cases heq
    rcases htile with hnone | ⟨k, hb⟩
    · rw [hnone] at hcoords
      cases hcoords
    · rw [hb.coords] at hcoords
      cases hcoords
      obtain ⟨hj, hp⟩ := of_findPosition_tileFrom hj'
      obtain ⟨s', hmove, hs'⟩ := moveAfterTile_spec h hn hb hs
      rw [hmove]
      exact ⟨k, j, _, rfl, rfl, ⟨hb.coords, hb.data, hb.lt⟩, hj, index_eq h hcell hp, hs'⟩
  · -- in a new one that starts at the cell
    obtain ⟨next, s', hdata, hs', -⟩ := h.data hs hcell hn
    rw [fetchTile, hdata]
    exact ⟨i, 0, _, rfl, rfl, ⟨rfl, rfl, h.lt hs⟩, hn, rfl, hs'⟩

lemma getItem_outside (hn : 1 ≤ b.tileSize) (hout : b.currLPosInTile = -1)
    (htile : b.tileCoords = none ∨ ∃ k, b.HoldsTile cells k) (hs : At b.tiled (some i)) (hcell : cells[i]? = some (p, v)) :
    ∃ b', b.getItem it = some (v, b') ∧ b'.tileSize = b.tileSize ∧ b'.Stands cells At (some i) := by
  obtain ⟨k, j, b', hfind, hsize, hb', hj, rfl, hs'⟩ := findTile_spec h hn htile hs hcell
  rw [← hsize] at hj hs'
  refine ⟨{ b' with currLPosInTile := p, currTileIndex := j }, ?_, hsize, ?_⟩
  · rw [getItem, if_pos (isCurrentLPosNotInTile_of_eq hout), h.logical hs hcell, bind_some, hfind,
      bind_some, enterTile, hb'.coords_getElem? hj, hb'.data_getElem? hj, hcell, map_some,
      bind_some, map_some, map_some]
  · exact Stands.inside ⟨hb'.coords, hb'.data, hb'.lt⟩ hj hcell hs'

lemma agree_cursorCall (hn : 1 ≤ b.tileSize) (hb : b.Stands cells At c) (a : Call Coord) :
    Agree (fun b c => 1 ≤ b.tileSize ∧ b.Stands cells At c) (b.call it a) (cursorCall cells it.pos2coord c a) := by
  classical
  obtain ⟨c', hs⟩ := hb.tiled
  cases a with
  | setPosition p =>
    obtain ⟨hfound, hs'⟩ := h.setPosition hs p
    rw [call, cursorCall, setPosition, hfound]
    exact .answer _ ⟨hn, hb.clear hs'⟩
  | setCoordinates x =>
    obtain ⟨hfound, hs'⟩ := h.setCoordinates hs x
    rw [call, cursorCall, setCoordinates, hfound]
    exact .answer _ ⟨hn, hb.clear hs'⟩
  | reset => exact .answer _ ⟨hn, hb.clear (h.reset hs)⟩
  | atEnd =>
    rw [call, cursorCall, atEnd]
    cases hb with
    | outside hout htile hs =>
      rw [if_pos (isCurrentLPosNotInTile_of_eq hout), h.atEnd hs]
      exact .answer _ ⟨hn, .outside hout htile hs⟩
    | inside hb hj hcell hs =>
      rw [if_neg (not_outside h hcell), isNone_some]
      exact .answer _ ⟨hn, .inside hb hj hcell hs⟩
  | next =>
    rw [call]
    cases hb with
    | outside hout htile hs =>
      rw [next, if_pos (isCurrentLPosNotInTile_of_eq hout)]
      cases c with
      | none =>
        rw [h.no_next hs]
        exact .throws
      | some i =>
        obtain ⟨s', hnext, hs'⟩ := h.next hs
        rw [hnext]
        refine .answer _ ⟨hn, .outside hout ?_ hs'⟩
        exact htile.imp_right fun ⟨k, hb⟩ => ⟨k, hb.coords, hb.data, hb.lt⟩
    | inside hb hj hcell hs =>
      obtain ⟨b', hnext, hsize, hb'⟩ := next_inside h hn hb hj hcell hs
      rw [hnext]
      exact .answer _ ⟨hsize ▸ hn, hb'⟩
  | getItem =>
    rw [call]
    cases hb with
    | outside hout htile hs =>
      cases c with
      | none =>
        rw [getItem, if_pos (isCurrentLPosNotInTile_of_eq hout), h.no_logical hs]
        exact .throws
      | some i =>
        obtain ⟨p, v, hcell⟩ := h.exists_cell hs
        obtain ⟨b', hitem, hsize, hb'⟩ := getItem_outside h hn hout htile hs hcell
        rw [hitem, cursorCall, bind_some, hcell]
        exact .answer _ ⟨hsize ▸ hn, hb'⟩
    | inside hb hj hcell hs =>
      rw [getItem, if_neg (not_outside h hcell), hb.data_getElem? hj, cursorCall, bind_some, hcell]
      exact .answer _ ⟨hn, .inside hb hj hcell hs⟩
  | getPosition =>
    rw [call, getPosition]
    cases hb with
    | outside hout htile hs =>
      rw [if_pos (isCurrentLPosNotInTile_of_eq hout)]
      cases c with
      | none =>
        rw [h.no_position hs]
        exact .throws
      | some i =>
        obtain ⟨p, v, hcell⟩ := h.exists_cell hs
        rw [h.position hs hcell, cursorCall, bind_some, hcell]
        exact .answer _ ⟨hn, .outside hout htile hs⟩
    | inside hb hj hcell hs =>
      rw [if_neg (not_outside h hcell), cursorCall, bind_some, hcell]
      exact .answer _ ⟨hn, .inside hb hj hcell hs⟩
  | getLogicalPosition =>
    rw [call, getLogicalPosition]
    cases hb with
    | outside hout htile hs =>
      rw [if_pos (isCurrentLPosNotInTile_of_eq hout)]
      cases c with
      | none =>
        rw [h.no_logical hs]
        exact .throws
      | some i =>
        obtain ⟨p, v, hcell⟩ := h.exists_cell hs
        rw [h.logical hs hcell, cursorCall, bind_some, hcell]
        exact .answer _ ⟨hn, .outside hout htile hs⟩
    | inside hb hj hcell hs =>
      rw [if_neg (not_outside h hcell), cursorCall, bind_some, hcell]
      exact .answer _ ⟨hn, .inside hb hj hcell hs⟩

end

end Buffered

/-- **A buffered iterator answers as the iterator it wraps**; if one throws, both do. -/
theorem buffered_answers (h : Implements it cells At) (hs : At s c) (hn : 1 ≤ n) (calls : List (Call Coord)) :
    answers (Buffered.call it) (Buffered.mk₀ s n) calls = answers it.call s calls := by
  have hb : Buffered.Stands cells At (mk₀ s n) c := .outside rfl (.inl rfl) hs
  calc answers (call it) (mk₀ s n) calls = answers (cursorCall cells it.pos2coord) c calls :=
        answers_eq_of_agree (fun _ _ a hbc => agree_cursorCall h hbc.1 hbc.2 a) ⟨hn, hb⟩ calls
    _ = answers it.call s calls := (answers_eq_of_agree (fun _ _ a hsc => h.agree_cursorCall hsc a) hs calls).symm

/-- An iterator over a list. -/
def listIterator [DecidableEq Coord] (cells : List (ℤ × Value)) (pos2coord : ℤ → Coord) :
    TiledIterator (Option ℕ) Coord Value where
  atEnd c := c.isNone
  getLogicalPosition c := c.bind fun i => (cells[i]?).map Prod.fst
  getPosition c := c.bind fun i => (cells[i]?).map fun cell => pos2coord cell.1
  setPosition p _ := ((cells.findIdx? fun cell => cell.1 = p).isSome, cells.findIdx? fun cell => cell.1 = p)
  setCoordinates x _ := ((cells.findIdx? fun cell => pos2coord cell.1 = x).isSome,
    cells.findIdx? fun cell => pos2coord cell.1 = x)
  next c := c.map fun i => cursorAt cells (i + 1)
  reset _ := cursorAt cells 0
  getItem c := c.bind fun i => (cells[i]?).map fun cell => (cell.2, some i)
  getData p n _ := (cells.findIdx? fun cell => cell.1 = p).map fun i =>
    (((cells[i + n]?).map Prod.fst).getD (-1), (tileFrom cells n i).map Prod.snd, (tileFrom cells n i).map Prod.fst,
      cursorAt cells (i + n))
  pos2coord := pos2coord

variable {γ : Type v} {key : ℤ × Value → γ} {j : ℕ} {cell : ℤ × Value}

lemma findIdx?_eq_of_getElem? [DecidableEq γ] (hkey : (cells.map key).Nodup) (hcell : cells[i]? = some cell) :
    (cells.findIdx? fun cell' => key cell' = key cell) = some i := by
  obtain ⟨hlt, hget⟩ := List.getElem?_eq_some_iff.mp hcell
  refine findIdx?_eq_some_iff_getElem.mpr ⟨hlt, by simp [hget], fun j hj => ?_⟩
  have hne := pairwise_iff_getElem.mp hkey j i (by simpa using Nat.lt_trans hj hlt) (by simpa using hlt) hj
  simpa [hget] using hne

lemma findIdx?_eq_none_of_notMem [DecidableEq γ] {x : γ} (h : x ∉ cells.map key) :
    (cells.findIdx? fun cell => key cell = x) = none := by
  refine findIdx?_eq_none_iff.mpr fun cell hcell => ?_
  simp only [decide_eq_false_iff_not]
  rintro rfl
  exact h (mem_map_of_mem hcell)

lemma nodup_positions (hsorted : cells.Pairwise fun a b => a.1 < b.1) : (cells.map Prod.fst).Nodup := by
  rw [List.Nodup, pairwise_map]
  exact hsorted.imp fun hlt => ne_of_lt hlt

lemma lt_of_cursorAt (h : cursorAt cells i = some j) : j < cells.length := by
  rw [cursorAt] at h
  split_ifs at h with hlt
  cases h
  exact hlt

lemma lt_of_eq_some (hcell : cells[i]? = some cell) (h : some i = some j) : j < cells.length := by
  cases h
  exact (List.getElem?_eq_some_iff.mp hcell).1

lemma listIterator_implements [DecidableEq Coord] {pos2coord : ℤ → Coord}
    (hsorted : cells.Pairwise fun a b => a.1 < b.1) (hnonneg : ∀ cell ∈ cells, 0 ≤ cell.1)
    (hcoords : (cells.map (pos2coord ∘ Prod.fst)).Nodup) :
    Implements (listIterator cells pos2coord) cells fun s c => s = c ∧ ∀ i, c = some i → i < cells.length where
  atEnd h := by rw [h.1]; rfl
  logical h hcell := by simp [listIterator, h.1, hcell]
  position h hcell := by simp [listIterator, h.1, hcell]
  item h hcell := ⟨_, by simp [listIterator, h.1, hcell], rfl, h.2⟩
  next h := ⟨_, by simp [listIterator, h.1], rfl, fun _ => lt_of_cursorAt⟩
  no_logical h := by simp [listIterator, h.1]
  no_position h := by simp [listIterator, h.1]
  no_item h := by simp [listIterator, h.1]
  no_next h := by simp [listIterator, h.1]
  hit _ hcell := by
    have hfind := findIdx?_eq_of_getElem? (nodup_positions hsorted) hcell
    exact ⟨congrArg isSome hfind, hfind, fun _ => lt_of_eq_some hcell⟩
  miss _ hmem := by
    have hfind := findIdx?_eq_none_of_notMem hmem
    exact ⟨congrArg isSome hfind, hfind, nofun⟩
  hit_coordinates _ hcell := by
    have hfind := findIdx?_eq_of_getElem? hcoords hcell
    exact ⟨congrArg isSome hfind, hfind, fun _ => lt_of_eq_some hcell⟩
  miss_coordinates _ hmem := by
    have hfind := findIdx?_eq_none_of_notMem (show _ ∉ map (pos2coord ∘ Prod.fst) _ from hmem)
    exact ⟨congrArg isSome hfind, hfind, nofun⟩
  reset _ := ⟨rfl, fun _ => lt_of_cursorAt⟩
  data _ hcell _ := by
    have hfind := findIdx?_eq_of_getElem? (nodup_positions hsorted) hcell
    refine ⟨_, _, ?_, ⟨rfl, fun _ => lt_of_cursorAt⟩, rfl⟩
    simp only [listIterator, hfind, map_some, tileFrom]
  lt h := h.2 _ rfl
  nonneg hmem := hnonneg _ hmem
  sorted := hsorted

theorem buffered_answers_threeCells :
    answers (Buffered.call (listIterator [(0, 'a'), (2, 'b'), (7, 'c')] id)) (Buffered.mk₀ (some 0) 2)
        [.getItem, .next, .getItem, .setPosition 5, .atEnd, .setPosition 7, .getItem, .next, .atEnd] =
      some [.item 'a', .moved, .item 'b', .found false, .atEnd true, .found true, .item 'c', .moved, .atEnd true] := by
  rw [buffered_answers (listIterator_implements (by decide) (by decide) (by decide)) ⟨rfl, by decide⟩ (by decide)]
  decide

end SciDB.Array
