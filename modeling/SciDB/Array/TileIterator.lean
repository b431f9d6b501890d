import SciDB.Array.RLEEmptyBitmap
import SciDB.Array.RLEPayloadIterator

/-!
# Reading a chunk in tiles

`RLETileConstChunkIterator`. `prepare` pins the chunk for a call, unless the constructor keeps it pinned
(`_isDataChunkPinned`). A `TileChunk` is what the constructor is given; `none` stands for the position `-1`. A call that throws
has changed nothing. Tiles are lists of values, whatever their encoding.
-/

namespace SciDB.Array

open SciDB.Lib

/-- What the calls throw. -/
inductive TileFailure where
  | noCurrentElement
  | operationFailed
  | assertException
  | rle (e : RLEFailure)
deriving DecidableEq

/-- What the constructor is given. -/
structure TileChunk where
  payload : ConstRLEPayload
  dataSize : ℕ
  attached : ConstRLEEmptyBitmap
  bitmap : Option (Option ConstRLEEmptyBitmap)
  appendChunk : Bool
  ignoreOverlaps : Bool
  hasOverlap : Bool
  logicalChunkSize : ℕ
  cut : ConstRLEEmptyBitmap → ConstRLEEmptyBitmap
  contains : ℤ → Bool

namespace TileChunk

variable (c : TileChunk)

/-- `packedSize` of the payload. -/
def packedSize : ℕ := 48 + (c.payload.nSegs + 1) * 12 + c.payload.dataSize

def isEmptyBitmapAttached : Bool := (c.appendChunk || c.bitmap.isNone) && decide (c.packedSize < c.dataSize)

/-- The overlap is cut out. -/
def cutsOverlap : Bool := c.hasOverlap && c.ignoreOverlaps

def emptyBitmap : ConstRLEEmptyBitmap :=
  let bm := if c.isEmptyBitmapAttached then c.attached else c.bitmap.join.getD (.full c.logicalChunkSize)
  if c.cutsOverlap then c.cut bm else bm

/-- The bitmap is not copied. -/
def isDataChunkPinned : Bool :=
  c.isEmptyBitmapAttached && !c.cutsOverlap && !decide (2 * (c.dataSize - c.packedSize) ≤ c.packedSize)

def fastTileInitialize : Bool :=
  decide (c.emptyBitmap.nNonEmptyElements = c.payload.count) && !c.payload.isBoolean && decide (0 < c.payload.elemSize)

/-- The values of a tile. -/
def slice (off n : ℕ) : List Value := (List.range' off (min n (c.payload.count - off))).map c.payload.cellValue

end TileChunk

/-- `RLETileConstChunkIterator`. -/
structure TileIterator where
  payloadIterator : PayloadIterator
  emptyBitmapIterator : BitmapIterator
  hasCurrent : Bool
  lPosition : Option ℕ

/-- What `getData` gives: the tiles, if there is a cell at the offset, and the next position. -/
structure TileData where
  tiles : Option (List Value × List ℕ)
  next : Option ℕ
deriving DecidableEq

/-- The constructor. -/
def TileChunk.iterator (c : TileChunk) : Except TileFailure TileIterator :=
  let ebi := BitmapIterator.ofBitmap c.emptyBitmap
  if c.payload.count < c.emptyBitmap.nNonEmptyElements then .error .assertException
  else .ok {
    payloadIterator := .ofPayload c.payload
    emptyBitmapIterator := ebi
    hasCurrent := !ebi.atEnd
    lPosition := if ebi.atEnd then none else some ebi.getLPos }

namespace TileIterator

variable (c : TileChunk) (it : TileIterator)

/-- `prepare`, without the pin. -/
def prepare : TileIterator :=
  if c.isDataChunkPinned then it else { it with payloadIterator := .ofPayload c.payload }

def baseSetPosition (pos : ℤ) : Bool × TileIterator :=
  if pos < 0 ∨ c.contains pos = false then (false, { it with hasCurrent := false })
  else
    let r := it.emptyBitmapIterator.setPosition pos.toNat
    (r.1, { it with emptyBitmapIterator := r.2, hasCurrent := r.1 })

def setPosition (pos : ℤ) : Bool × TileIterator :=
  let r := it.baseSetPosition c pos
  if r.1 then (true, { r.2 with lPosition := some r.2.emptyBitmapIterator.getLPos }) else r

def reset : TileIterator :=
  let ebi := it.emptyBitmapIterator.reset
  { it with
    emptyBitmapIterator := ebi
    hasCurrent := !ebi.atEnd
    lPosition := if ebi.atEnd then none else some ebi.getLPos }

/-- `operator++`. -/
def next : Except TileFailure TileIterator :=
  if it.hasCurrent = false then .error .noCurrentElement
  else
    let ebi := it.emptyBitmapIterator.next
    if ebi.atEnd then .ok { it with emptyBitmapIterator := ebi, hasCurrent := false }
    else .ok { it with emptyBitmapIterator := ebi, lPosition := some ebi.getLPos }

def alignIterators : Except TileFailure TileIterator :=
  let pPosition := it.emptyBitmapIterator.getPPos
  if it.payloadIterator.currPpos ≠ pPosition then
    let r := it.payloadIterator.setPosition pPosition
    if r.1 then .ok { it with payloadIterator := r.2 } else .error .operationFailed
  else .ok it

def currentValue : Except TileFailure Value :=
  match it.payloadIterator.getItem with
  | .ok v => .ok v
  | .error e => .error (.rle e)

def getItem : Except TileFailure (TileIterator × Value) :=
  if it.hasCurrent = false then .error .noCurrentElement
  else do
    let it ← (it.prepare c).alignIterators
    let v ← it.currentValue
    .ok (it, v)

/-- Both iterators go to the next cell. -/
def step : TileIterator := { it with
  payloadIterator := it.payloadIterator.next
  emptyBitmapIterator := it.emptyBitmapIterator.next }

/-- Fills a tile cell by cell. -/
def fillLoop (it : TileIterator) : ℕ → Except TileFailure (TileIterator × List Value × List ℕ)
  | 0 => .ok (it, [], [])
  | n + 1 =>
    if it.payloadIterator.atEnd || it.emptyBitmapIterator.atEnd then .ok (it, [], [])
    else do
      let it ← it.alignIterators
      let v ← it.currentValue
      let r ← fillLoop it.step n
      .ok (r.1, v :: r.2.1, it.emptyBitmapIterator.getLPos :: r.2.2)

/-- The positions of a tile. -/
def coordLoop (it : TileIterator) : ℕ → TileIterator × List ℕ
  | 0 => (it, [])
  | n + 1 =>
    if it.payloadIterator.atEnd || it.emptyBitmapIterator.atEnd then (it, [])
    else
      let r := coordLoop it.step n
      (r.1, it.emptyBitmapIterator.getLPos :: r.2)

/-- The tiles from a cell on. -/
def fillTiles (maxValues : ℕ) (withCoords : Bool) : Except TileFailure (TileIterator × List Value × List ℕ) :=
  if c.fastTileInitialize then
    let values := c.slice it.emptyBitmapIterator.getPPos maxValues
    if withCoords then
      let r := it.coordLoop maxValues
      .ok (r.1, values, r.2)
    else
      let ebi := (it.emptyBitmapIterator.skip (values.length - 1)).2.next
      .ok ({ it with emptyBitmapIterator := ebi }, values, [])
  else if withCoords then it.fillLoop maxValues
  else do
    let r ← it.fillLoop maxValues
    .ok (r.1, r.2.1, [])

def finish : TileIterator :=
  if it.emptyBitmapIterator.atEnd then { it with hasCurrent := false, lPosition := none }
  else { it with hasCurrent := true, lPosition := some it.emptyBitmapIterator.getLPos }

/-- Sets the bitmap iterator. -/
def seek (off : ℤ) : Bool × TileIterator :=
  if it.emptyBitmapIterator.atEnd ∨ off ≠ it.emptyBitmapIterator.getLPos then it.baseSetPosition c off
  else (true, it)

def getData (off : ℤ) (maxValues : ℕ) (withCoords : Bool) : Except TileFailure (TileIterator × TileData) :=
  let r := (it.prepare c).seek c off
  if r.1 then do
    let filled ← r.2.fillTiles c maxValues withCoords
    .ok (filled.1.finish, ⟨some (filled.2.1, filled.2.2), filled.1.finish.lPosition⟩)
  else .ok ({ r.2 with lPosition := none }, ⟨none, none⟩)

/-- Calls of the iterator. -/
inductive Call where
  | getData (off : ℤ) (maxValues : { n : ℕ // 0 < n }) (withCoords : Bool)
  | setPosition (pos : ℤ)
  | next
  | getItem
  | reset

/-- The iterator after a call. -/
def after : Call → TileIterator
  | .getData off maxValues withCoords =>
    match it.getData c off maxValues withCoords with
    | .ok r => r.1
    | .error _ => it
  | .setPosition pos => (it.setPosition c pos).2
  | .next =>
    match it.next with
    | .ok it' => it'
    | .error _ => it
  | .getItem =>
    match it.getItem c with
    | .ok r => r.1
    | .error _ => it
  | .reset => it.reset

/-- The iterator after some calls. -/
def afterAll (calls : List Call) : TileIterator := calls.foldl (after c) it

def drain (maxValues : ℕ → ℕ) : ℕ → TileIterator → Option ℕ → Except TileFailure (List Value × List ℕ)
  | _, _, none => .ok ([], [])
  | 0, _, some _ => .ok ([], [])
  | fuel + 1, it, some off => do
    let r ← it.getData c off (maxValues fuel) true
    let rest ← drain maxValues fuel r.1 r.2.next
    .ok ((r.2.tiles.map Prod.fst).getD [] ++ rest.1, (r.2.tiles.map Prod.snd).getD [] ++ rest.2)

end TileIterator

def oneCellChunk (dataSize : ℕ) : TileChunk where
  payload := {
    seg := [{ isRun := true }, { startPosition := 1 }]
    payload := [7, 0, 0, 0, 0, 0, 0, 0]
    elemSize := 8
    dataSize := 8
    varOffs := 0
    isBoolean := false }
  dataSize := dataSize
  attached := .full 1
  bitmap := none
  appendChunk := false
  ignoreOverlaps := false
  hasOverlap := false
  logicalChunkSize := 1
  cut := id
  contains := fun pos => pos == 0

/-- An iterator with the pin count. -/
structure PinnedIterator where
  it : TileIterator
  pins : ℤ

namespace PinnedIterator

variable (c : TileChunk)

/-- The constructor. -/
def construct (pins : ℤ) : Except TileFailure PinnedIterator :=
  c.iterator.map fun it => ⟨it, if c.isDataChunkPinned then pins + 1 else pins + 1 - 1⟩

variable (s : PinnedIterator)

def reads : TileIterator.Call → Bool
  | .getData _ _ _ => true
  | .getItem => s.it.hasCurrent
  | _ => false

def pinsPrepared : ℤ := if c.isDataChunkPinned then s.pins else s.pins + 1

/-- A call, with the pin counts. -/
def call (a : TileIterator.Call) : Option ℤ × PinnedIterator :=
  if s.reads a then (some (s.pinsPrepared c), ⟨s.it.after c a, s.pinsPrepared c - 1⟩)
  else (none, ⟨s.it.after c a, s.pins⟩)

/-- The state after some calls. -/
def callAll (calls : List TileIterator.Call) : PinnedIterator := calls.foldl (fun s a => (s.call c a).2) s

/-- A call leaves the pin count as it finds it, and the chunk is pinned while it is read. -/
def Balanced (pins : ℤ) (a : TileIterator.Call) : Prop :=
  (s.call c a).2.pins = s.pins ∧ (∀ n ∈ (s.call c a).1, 1 ≤ n) ∧ pins ≤ s.pins

variable {c s}

lemma pins_of_construct {pins : ℤ} (h : construct c pins = .ok s) :
    s.pins = if c.isDataChunkPinned then pins + 1 else pins := by
  unfold construct at h
  cases hit : c.iterator with
  | error e =>
    rw [hit] at h
    cases h
  | ok it =>
    rw [hit] at h
    cases h
    dsimp only
    split_ifs <;> omega

lemma call_of_notPinned (h : c.isDataChunkPinned = false) (a : TileIterator.Call) :
    (s.call c a).2.pins = s.pins ∧ ∀ n ∈ (s.call c a).1, n = s.pins + 1 := by
  have hprepared : s.pinsPrepared c = s.pins + 1 := by rw [pinsPrepared, if_neg (by simp [h])]
  unfold call
  rw [hprepared]
  split_ifs
  · exact ⟨Int.add_sub_cancel _ _, fun n hn => (Option.mem_some_iff.mp hn).symm⟩
  · exact ⟨rfl, fun n hn => nomatch hn⟩

lemma pins_callAll (h : c.isDataChunkPinned = false) (calls : List TileIterator.Call) : (s.callAll c calls).pins = s.pins := by
  induction calls generalizing s with
  | nil => rfl
  | cons a calls ih =>
    have hstep : (s.callAll c (a :: calls)).pins = ((s.call c a).2.callAll c calls).pins := rfl
    rw [hstep, ih, (call_of_notPinned h a).1]

/-- **Pins are balanced** in every sequence of calls exactly if the chunk is not kept pinned. -/
theorem pins_balanced_iff (c : TileChunk) (pins : ℕ) (s : PinnedIterator) (h : construct c pins = .ok s) :
    (∀ (calls : List TileIterator.Call) (a : TileIterator.Call), (s.callAll c calls).Balanced c pins a) ↔
      c.isDataChunkPinned = false := by
  have hstart := pins_of_construct h
  constructor
  · intro hall
    by_contra hpinned
    rw [Bool.not_eq_false] at hpinned
    -- the first call of `getData` gives back the pin of the constructor
    obtain ⟨hpins, -⟩ := hall [] (.getData 0 ⟨1, Nat.one_pos⟩ true)
    have hprepared : s.pinsPrepared c = s.pins := if_pos hpinned
    change s.pinsPrepared c - 1 = s.pins at hpins
    omega
  · intro hpinned calls a
    rw [if_neg (by simp [hpinned])] at hstart
    have hpins : (s.callAll c calls).pins = pins := by rw [pins_callAll hpinned, hstart]
    obtain ⟨hleaves, hread⟩ := call_of_notPinned hpinned a (s := s.callAll c calls)
    refine ⟨hleaves, fun n hn => ?_, hpins.ge⟩
    have := hread n hn
    omega

/-- The first `getItem` gives back the pin of the constructor, the second reads without a pin. -/
theorem oneCellChunk_pins : ∃ s, construct (oneCellChunk 128) 0 = .ok s ∧ s.pins = 1 ∧
    (s.callAll (oneCellChunk 128) [.getItem]).pins = 0 ∧
    ((s.callAll (oneCellChunk 128) [.getItem]).call (oneCellChunk 128) .getItem).1 = some 0 ∧
    (s.callAll (oneCellChunk 128) [.getItem, .getItem]).pins = -1 :=
  ⟨_, rfl, by decide +kernel, by decide +kernel, by decide +kernel, by decide +kernel⟩

theorem oneCellChunk_balanced : ∃ s, construct (oneCellChunk 80) 0 = .ok s ∧
    ∀ (calls : List TileIterator.Call) (a : TileIterator.Call),
      (s.callAll (oneCellChunk 80) calls).Balanced (oneCellChunk 80) 0 a := by
  obtain ⟨s, hs⟩ : ∃ s, construct (oneCellChunk 80) 0 = .ok s := ⟨_, rfl⟩
  exact ⟨s, hs, (pins_balanced_iff (oneCellChunk 80) 0 s hs).mpr (by decide)⟩

end PinnedIterator

end SciDB.Array
