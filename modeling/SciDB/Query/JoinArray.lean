import SciDB.Lib.Union

/-!
# The iterators of `join`

`JoinEmptyableArray`, for two arrays of the same shape, one of them emptyable. The iterator of a stored chunk shows no empty
cells in either mode. Without `chunkLevelJoin` a chunk is passed through. `++`, `isEmpty`, `getItem` and `getPosition` are not
called without a current element.
-/

namespace SciDB.Query.Join

open SciDB.Lib Cursor List Option Bool

/-- The cells of each chunk. -/
structure Shape (P C : Type) [LinearOrder C] where
  box : P → List C
  sorted : ∀ p, (box p).Pairwise (· < ·)

variable {P C V : Type} [LinearOrder P] [LinearOrder C] {shape : Shape P C}

/-- An input array. -/
structure Input (shape : Shape P C) (V : Type) where
  nAttributes : ℕ
  emptyTag : Option ℕ
  tag_lt : ∀ t ∈ emptyTag, t < nAttributes
  chunks : List P
  sorted : chunks.Pairwise (· < ·)
  present : P → C → Bool
  full : emptyTag = none → ∀ p ∈ chunks, ∀ c ∈ shape.box p, present p c = true
  shows : ℕ → P → C → Bool
  shows_present : ∀ a p c, present p c = true → shows a p c = true
  value : ℕ → P → C → V

/-- A value of an attribute. -/
inductive Item (V : Type) where
  | data (v : V)
  | tag (b : Bool)
deriving DecidableEq

/-- An item of an input. -/
def Input.item (A : Input shape V) (a : ℕ) (p : P) (c : C) : Item V :=
  if A.emptyTag = some a then .tag (A.present p c) else .data (A.value a p c)

def Input.visits (A : Input shape V) (ignoreEmptyCells : Bool) (a : ℕ) (p : P) : List C :=
  (shape.box p).filter fun c => if ignoreEmptyCells then A.present p c else A.shows a p c

/-- Left or right. -/
inductive Side where
  | left
  | right
deriving DecidableEq

/-- The other side. -/
def Side.other : Side → Side
  | .left => .right
  | .right => .left

/-- The two inputs. -/
structure JoinEmptyableArray (shape : Shape P C) (V : Type) where
  left : Input shape V
  right : Input shape V
  emptyable : left.emptyTag.isSome = true ∨ right.emptyTag.isSome = true

/-- An attribute of the output. -/
inductive OutAttribute where
  | data (side : Side) (a : ℕ)
  | emptyTag
deriving DecidableEq

structure Sources where
  input : Side × ℕ
  join : Side × ℕ
  chunkLevelJoin : Bool
deriving DecidableEq

namespace JoinEmptyableArray

variable (J : JoinEmptyableArray shape V)

/-- An input. -/
def side : Side → Input shape V
  | .left => J.left
  | .right => J.right

/-- `LogicalJoin::inferSchema`: the left input without its tag, the right input, and a tag if that has none. -/
def outAttributes : List OutAttribute :=
  ((List.range J.left.nAttributes).filter fun a => decide (J.left.emptyTag ≠ some a)).map (.data .left) ++
    ((List.range J.right.nAttributes).map (fun a => if J.right.emptyTag = some a then .emptyTag else .data .right a) ++
      if J.right.emptyTag = none then [.emptyTag] else [])

/-- The empty tag of the output. -/
def emptyTagPosition : ℕ := J.outAttributes.idxOf .emptyTag

/-- Which attribute is read. -/
def inputAttrID (attrID : ℕ) : ℕ :=
  match J.left.emptyTag with
  | some leftEmptyTagPosition => if leftEmptyTagPosition ≤ attrID then attrID + 1 else attrID
  | none => attrID

/-- Chooses the iterators. -/
def createArrayIterator (attrID : ℕ) : Sources :=
  let inputAttrID := J.inputAttrID attrID
  match J.left.emptyTag, J.right.emptyTag with
  | some leftEmptyTagPosition, some rightEmptyTagPosition =>
    -- ignore left empty-tag attribute
    if J.left.nAttributes ≤ inputAttrID then
      ⟨(.right, inputAttrID - J.left.nAttributes), (.left, leftEmptyTagPosition), true⟩
    else ⟨(.left, inputAttrID), (.right, rightEmptyTagPosition), true⟩
  | some leftEmptyTagPosition, none =>
    -- emptyable array only from left side
    if attrID = J.emptyTagPosition then ⟨(.left, leftEmptyTagPosition), (.right, 0), false⟩
    else if J.left.nAttributes ≤ inputAttrID then
      ⟨(.right, inputAttrID - J.left.nAttributes), (.left, leftEmptyTagPosition), true⟩
    else ⟨(.left, inputAttrID), (.right, 0), false⟩
  | none, rightEmptyTagPosition =>
    -- only right array is emptyable
    if J.left.nAttributes ≤ inputAttrID then ⟨(.right, inputAttrID - J.left.nAttributes), (.left, 0), false⟩
    else ⟨(.left, inputAttrID), (.right, rightEmptyTagPosition.getD 0), true⟩

end JoinEmptyableArray

/-- A call of the array iterator. -/
def arrayCall (inputChunks joinChunks : List P) (s : InStep P) : IteratorCall P → Option ((Bool × Option P) × InStep P)
  | .reset => let s := InStep.align true joinChunks inputChunks joinChunks.head?; some ((true, s.current), s)
  | .next =>
    if s.hasCurrent then let s := InStep.align true joinChunks s.input.tail s.join; some ((true, s.current), s)
    else none
  | .setPosition p =>
    let r := InStep.setPosition true inputChunks joinChunks s p
    some ((r.1, r.2.current), r.2)

/-- The calls of a chunk iterator. -/
inductive Call (C : Type) where
  | reset
  | next
  | setPosition (c : C)
  | isEmpty
  | getItem
  | getPosition
  | atEnd

/-- What they return. -/
inductive Answer (C V : Type) where
  | done
  | flag (b : Bool)
  | item (i : Item V)
  | position (c : C)
deriving DecidableEq

/-- A chunk of the output. -/
structure JoinChunk (shape : Shape P C) (V : Type) where
  array : JoinEmptyableArray shape V
  attr : OutAttribute
  sources : Sources
  pos : P
  ignoreEmptyCells : Bool

namespace JoinChunk

variable (k : JoinChunk shape V) (s : InStep C)

/-- The side that is read. -/
def inputSide : Input shape V := k.array.side k.sources.input.1

/-- The side that is joined. -/
def joinSide : Input shape V := k.array.side k.sources.join.1

def inputCells : List C := k.inputSide.visits k.ignoreEmptyCells k.sources.input.2 k.pos

def joinCells : List C := k.joinSide.visits k.ignoreEmptyCells k.sources.join.2 k.pos

/-- `joinIterator` is looked at. -/
def joined : Bool := k.sources.chunkLevelJoin && k.ignoreEmptyCells

/-- `reset`, and the constructor. -/
def start : InStep C := InStep.align k.joined k.joinCells k.inputCells k.joinCells.head?

/-- `DelegateChunkIterator::isEmpty() const`, which every caller gets: `JoinChunkIterator::isEmpty()` is not `const`, so it
overrides nothing, and nothing calls it. -/
def isEmpty (c : C) : Bool := !k.inputSide.present k.pos c

/-- The Boolean of a tag. -/
def getBool : Item V → Bool
  | .tag b => b
  | .data _ => false

def getItem (c : C) : Option (Item V) :=
  let item := k.inputSide.item k.sources.input.2 k.pos c
  if k.sources.chunkLevelJoin = true ∧ k.attr = .emptyTag then
    if getBool item then s.join.map fun j => .tag (getBool (k.joinSide.item k.sources.join.2 k.pos j))
    else some (.tag false)
  else some item

/-- `createChunkIterator`. -/
def call : Call C → Option (Answer C V × InStep C)
  | .reset => some (.done, k.start)
  | .next => if s.hasCurrent then some (.done, InStep.align k.joined k.joinCells s.input.tail s.join) else none
  | .setPosition c =>
    let r := InStep.setPosition k.joined k.inputCells k.joinCells s c
    some (.flag r.1, r.2)
  | .isEmpty => s.current.map fun c => (.flag (k.isEmpty c), s)
  | .getItem => (s.current.bind (k.getItem s)).map fun i => (.item i, s)
  | .getPosition => s.current.map fun c => (.position c, s)
  | .atEnd => some (.flag (!s.hasCurrent), s)

end JoinChunk

namespace JoinEmptyableArray

variable (J : JoinEmptyableArray shape V)

/-- A chunk of an attribute. -/
def chunk (attrID : ℕ) (attr : OutAttribute) (p : P) (ignoreEmptyCells : Bool) :
    JoinChunk shape V := ⟨J, attr, J.createArrayIterator attrID, p, ignoreEmptyCells⟩

/-- The chunks that both inputs have. -/
def commonChunks : List P := J.left.chunks.filter fun p => decide (p ∈ J.right.chunks)

/-- The cell is in both inputs. -/
def both (p : P) (c : C) : Bool := J.left.present p c && J.right.present p c

/-- The value of an output cell. -/
def itemAt (attr : OutAttribute) (p : P) (c : C) : Item V :=
  match attr with
  | .data s a => .data ((J.side s).value a p c)
  | .emptyTag => .tag (J.both p c)

end JoinEmptyableArray

namespace JoinChunk

variable (k : JoinChunk shape V)

/-- What an iterator goes through. -/
def positions : List C :=
  if k.ignoreEmptyCells then (shape.box k.pos).filter fun c => k.array.both k.pos c else k.inputCells

/-- The iterator over these cells, in the state `o`: the current cell. -/
def specCall (o : Option C) : Call C → Option (Answer C V × Option C)
  | .reset => some (.done, k.positions.head?)
  | .next => o.map fun c => (.done, k.positions.find? (Cursor.isAfter c))
  | .setPosition c => some (.flag (decide (c ∈ k.positions)), if c ∈ k.positions then some c else none)
  | .isEmpty => o.map fun c => (.flag (!k.array.both k.pos c), o)
  | .getItem => o.map fun c => (.item (k.array.itemAt k.attr k.pos c), o)
  | .getPosition => o.map fun c => (.position c, o)
  | .atEnd => some (.flag o.isNone, o)

/-- The calls that are right where empty cells are not ignored. `isEmpty` asks the driving input alone, so a cell of that must
be one of the other input too. The tag's `getItem` reads the other tag where the second iterator was left, at the first cell
that it shows: that cell must not be an empty one. -/
def Answerable (s : InStep C) : Call C → Prop
  | .isEmpty => k.sources.chunkLevelJoin = true → k.ignoreEmptyCells = false → ∀ c, s.current = some c →
      k.inputSide.present k.pos c = true → k.joinSide.present k.pos c = true
  | .getItem => k.sources.chunkLevelJoin = true → k.ignoreEmptyCells = false → k.attr = .emptyTag →
      ∀ c, s.current = some c → k.inputSide.present k.pos c = true →
      k.joinSide.present k.pos c = true ∧ ∀ j ∈ k.joinCells.head?, k.joinSide.present k.pos j = true
  | _ => True

/-- The iterator at the cell `o`; in the mode that shows empty cells no call moves the second iterator. -/
structure Standing (s : InStep C) (o : Option C) : Prop where
  at_cell : InStep.At k.joined k.inputCells k.joinCells s o
  join_eq : k.joined = false → s.join = k.joinCells.head?

end JoinChunk

lemma range_filter_ne {n t : ℕ} (ht : t < n) :
    (range n).filter (fun a => decide (some t ≠ some a)) = (range (n - 1)).map fun k => if t ≤ k then k + 1 else k := by
  refine Union.eq_of_mem_iff (pairwise_lt_range.sublist filter_sublist)
    (pairwise_map.mpr (pairwise_lt_range.imp fun {a b} hab => ?_)) fun a => ?_
  · split_ifs <;> omega
  · rw [mem_filter, mem_range, List.mem_map, decide_eq_true_iff, ne_eq, some.injEq]
    constructor
    · rintro ⟨han, hat⟩
      by_cases hlt : a < t
      · exact ⟨a, mem_range.mpr (by omega), if_neg (by omega)⟩
      · exact ⟨a - 1, mem_range.mpr (by omega), by rw [if_pos (by omega)]; omega⟩
    · rintro ⟨k, hk, rfl⟩
      have := mem_range.mp hk
      split_ifs <;> omega

namespace JoinEmptyableArray

variable {J : JoinEmptyableArray shape V} {attrID : ℕ} {attr : OutAttribute}

/-- Sides are joined properly. -/
structure Proper (J : JoinEmptyableArray shape V) (attr : OutAttribute) (src : Sources) : Prop where
  other : src.join.1 = src.input.1.other
  own : match attr with
    | .data s a => src.input = (s, a) ∧ (J.side s).emptyTag ≠ some a
    | .emptyTag => (J.side src.input.1).emptyTag = some src.input.2
  cells : src.chunkLevelJoin = true → (J.side src.join.1).emptyTag = some src.join.2
  chunks : src.chunkLevelJoin = false → (J.side src.join.1).emptyTag = none

lemma leftAttributes_eq (J : JoinEmptyableArray shape V) :
    ∃ m, (range J.left.nAttributes).filter (fun a => decide (J.left.emptyTag ≠ some a)) =
      (range m).map J.inputAttrID ∧ (∀ k < m, J.inputAttrID k < J.left.nAttributes) ∧
      ∀ k ≥ m, J.inputAttrID k - J.left.nAttributes = k - m ∧ J.left.nAttributes ≤ J.inputAttrID k := by
  rcases hl : J.left.emptyTag with _ | t
  · have hid : ∀ k, J.inputAttrID k = k := by
      intro k
      rw [inputAttrID, hl]
    refine ⟨J.left.nAttributes, ?_, fun k hk => (hid k).symm ▸ hk, fun k hk => by rw [hid]; exact ⟨rfl, hk⟩⟩
    rw [map_congr_left fun a _ => hid a, List.map_id']
    exact filter_eq_self.mpr fun a _ => rfl
  · have ht := J.left.tag_lt t hl
    have hshift : ∀ k, J.inputAttrID k = if t ≤ k then k + 1 else k := by
      intro k
      rw [inputAttrID, hl]
    refine ⟨J.left.nAttributes - 1, ?_, fun k hk => ?_, fun k hk => ?_⟩
    · rw [range_filter_ne ht]
      exact map_congr_left fun k _ => (hshift k).symm
    · rw [hshift]
      split_ifs <;> omega
    · rw [hshift, if_pos (by omega)]
      omega

lemma outAttributes_cases (h : J.outAttributes[attrID]? = some attr) :
    (J.inputAttrID attrID < J.left.nAttributes ∧ attr = .data .left (J.inputAttrID attrID) ∧
      J.left.emptyTag ≠ some (J.inputAttrID attrID)) ∨ J.left.nAttributes ≤ J.inputAttrID attrID ∧
      (J.inputAttrID attrID - J.left.nAttributes < J.right.nAttributes ∧ (attr =
        if J.right.emptyTag = some (J.inputAttrID attrID - J.left.nAttributes) then .emptyTag
        else .data .right (J.inputAttrID attrID - J.left.nAttributes)) ∨
      J.inputAttrID attrID - J.left.nAttributes = J.right.nAttributes ∧ J.right.emptyTag = none ∧ attr = .emptyTag) := by
  obtain ⟨m, hm, hlow, hhigh⟩ := J.leftAttributes_eq
  have hmem : attrID < m → J.inputAttrID attrID ∈
      (range J.left.nAttributes).filter fun a => decide (J.left.emptyTag ≠ some a) := by
    intro hlt
    rw [hm]
    exact mem_map_of_mem (mem_range.mpr hlt)
  rw [outAttributes, hm, getElem?_append, length_map, length_map, length_range] at h
  by_cases hlt : attrID < m
  · left
    rw [if_pos hlt, getElem?_map, getElem?_map, getElem?_range hlt] at h
    cases h
    exact ⟨hlow attrID hlt, rfl, of_decide_eq_true (mem_filter.mp (hmem hlt)).2⟩
  · right
    obtain ⟨hsub, hge⟩ := hhigh attrID (not_lt.mp hlt)
    rw [if_neg hlt, ← hsub, getElem?_append, length_map, length_range] at h
    refine ⟨hge, ?_⟩
    by_cases hright : J.inputAttrID attrID - J.left.nAttributes < J.right.nAttributes
    · rw [if_pos hright, getElem?_map, getElem?_range hright] at h
      exact .inl ⟨hright, (some.inj h).symm⟩
    · rw [if_neg hright] at h
      by_cases hr : J.right.emptyTag = none
      · rw [if_pos hr] at h
        obtain ⟨hi, rfl⟩ := List.getElem?_eq_some_iff.mp h
        rw [length_singleton] at hi
        exact .inr ⟨by omega, hr, getElem_singleton _⟩
      · rw [if_neg hr] at h
        cases h

lemma inputAttrID_injective {a b : ℕ} (h : J.inputAttrID a = J.inputAttrID b) : a = b := by
  rw [inputAttrID, inputAttrID] at h
  rcases hl : J.left.emptyTag with _ | t
  · rwa [hl] at h
  · rw [hl] at h
    dsimp only at h
    split_ifs at h <;> omega

lemma eq_emptyTagPosition_iff (hr : J.right.emptyTag = none)
    (h : J.outAttributes[attrID]? = some attr) : attrID = J.emptyTagPosition ↔ attr = .emptyTag := by
  have hbehind : ∀ k, J.outAttributes[k]? = some .emptyTag → J.inputAttrID k = J.left.nAttributes + J.right.nAttributes := by
    intro k hk
    rcases outAttributes_cases hk with ⟨-, hattr, -⟩ | ⟨hge, ⟨-, hattr⟩ | ⟨heq, -⟩⟩
    · cases hattr
    · rw [hr] at hattr
      cases hattr
    · omega
  have hmem : OutAttribute.emptyTag ∈ J.outAttributes := by
    rw [outAttributes, if_pos hr]
    simp
  have hat : J.outAttributes[J.emptyTagPosition]? = some .emptyTag := by
    rw [emptyTagPosition, getElem?_eq_getElem (idxOf_lt_length_of_mem hmem), getElem_idxOf]
  constructor
  · rintro rfl
    rw [hat] at h
    exact (some.inj h).symm
  · rintro rfl
    exact inputAttrID_injective ((hbehind _ h).trans (hbehind _ hat).symm)

lemma createArrayIterator_proper (h : J.outAttributes[attrID]? = some attr) : J.Proper attr (J.createArrayIterator attrID) := by
  have hcases := outAttributes_cases h
  rw [createArrayIterator]
  rcases hl : J.left.emptyTag with _ | t <;> rcases hr : J.right.emptyTag with _ | u
  · have := J.emptyable
    rw [hl, hr] at this
    simp at this
  · -- only the right array is emptyable
    rw [hl, hr] at hcases
    dsimp only
    rcases hcases with ⟨hlt, rfl, -⟩ | ⟨hge, ⟨hlt, rfl⟩ | ⟨-, hnone, -⟩⟩
    · rw [if_neg (not_le.mpr hlt)]
      exact ⟨rfl, ⟨rfl, by rw [side, hl]; exact nofun⟩, fun _ => hr, nofun⟩
    · rw [if_pos hge]
      refine ⟨rfl, ?_, nofun, fun _ => hl⟩
      by_cases htag : some u = some (J.inputAttrID attrID - J.left.nAttributes)
      · rw [if_pos htag]
        exact hr.trans htag
      · rw [if_neg htag]
        exact ⟨rfl, by rw [side, hr]; exact htag⟩
    · cases hnone
  · -- only the left array is emptyable
    have htag := eq_emptyTagPosition_iff hr h
    rw [hl, hr] at hcases
    dsimp only
    by_cases hpos : attrID = J.emptyTagPosition
    · obtain rfl := htag.mp hpos
      rw [if_pos hpos]
      exact ⟨rfl, hl, nofun, fun _ => hr⟩
    · rw [if_neg hpos]
      rcases hcases with ⟨hlt, rfl, hne⟩ | ⟨hge, ⟨hlt, rfl⟩ | ⟨-, -, hattr⟩⟩
      · rw [if_neg (not_le.mpr hlt)]
        exact ⟨rfl, ⟨rfl, by rw [side, hl]; exact hne⟩, nofun, fun _ => hr⟩
      · rw [if_pos hge, if_neg nofun]
        exact ⟨rfl, ⟨rfl, by rw [side, hr]; exact nofun⟩, fun _ => hl, nofun⟩
      · exact absurd (htag.mpr hattr) hpos
  · rw [hl, hr] at hcases
    dsimp only
    rcases hcases with ⟨hlt, rfl, hne⟩ | ⟨hge, ⟨hlt, rfl⟩ | ⟨-, hnone, -⟩⟩
    · rw [if_neg (not_le.mpr hlt)]
      exact ⟨rfl, ⟨rfl, by rw [side, hl]; exact hne⟩, fun _ => hr, nofun⟩
    · rw [if_pos hge]
      refine ⟨rfl, ?_, fun _ => hl, nofun⟩
      by_cases htag : some u = some (J.inputAttrID attrID - J.left.nAttributes)
      · rw [if_pos htag]
        exact hr.trans htag
      · rw [if_neg htag]
        exact ⟨rfl, by rw [side, hr]; exact htag⟩
    · cases hnone

end JoinEmptyableArray

lemma arrayCall_agree {inputChunks joinChunks : List P} (hsorted : inputChunks.Pairwise (· < ·)) (s : InStep P)
    (o : Option P) (a : IteratorCall P) (h : InStep.At true inputChunks joinChunks s o) :
    Agree (InStep.At true inputChunks joinChunks) (arrayCall inputChunks joinChunks s a)
      (Cursor.call (inputChunks.filter (InStep.keeps true joinChunks)) id o a) := by
  cases a with
  | reset =>
    have hat : InStep.At true inputChunks joinChunks _ _ := InStep.at_start inputChunks joinChunks.head?
    rw [arrayCall, Cursor.call, hat.current_eq]
    exact .answer _ hat
  | next =>
    rw [arrayCall, h.hasCurrent_eq]
    cases o with
    | none => exact .throws
    | some p =>
      have hat := h.next hsorted s.join
      rw [if_pos isSome_some, Cursor.call]
      dsimp only
      rw [hat.current_eq]
      exact .answer _ hat
  | setPosition p =>
    obtain ⟨hfound, hat⟩ := InStep.at_setPosition true joinChunks hsorted s p
    rw [arrayCall, Cursor.call, id, hfound, hat.current_eq]
    by_cases hp : p ∈ inputChunks.filter (InStep.keeps true joinChunks)
    · rw [if_pos hp] at hat ⊢
      rw [if_pos hp, decide_eq_true hp]
      exact .answer _ hat
    · rw [if_neg hp] at hat ⊢
      rw [if_neg hp, decide_eq_false hp]
      exact .answer _ hat

namespace JoinChunk

variable {k : JoinChunk shape V} {s : InStep C} {o : Option C} {c : C}

lemma mem_visits {A : Input shape V} {ignore : Bool} {a : ℕ} {p : P} :
    c ∈ A.visits ignore a p ↔ c ∈ shape.box p ∧ (if ignore then A.present p c else A.shows a p c) = true :=
  mem_filter

lemma sorted_inputCells (k : JoinChunk shape V) : k.inputCells.Pairwise (· < ·) :=
  (shape.sorted k.pos).sublist filter_sublist

structure Joined (k : JoinChunk shape V) : Prop where
  proper : k.array.Proper k.attr k.sources
  common : k.pos ∈ k.array.commonChunks

lemma Joined.both_eq (hk : k.Joined) (c : C) :
    k.array.both k.pos c = (k.inputSide.present k.pos c && k.joinSide.present k.pos c) := by
  rw [inputSide, joinSide, hk.proper.other, JoinEmptyableArray.both]
  cases k.sources.input.1 with
  | left => rfl
  | right => exact and_comm _ _

lemma Joined.both_of_chunks (hk : k.Joined) (hlevel : k.sources.chunkLevelJoin = false) (hc : c ∈ shape.box k.pos) :
    k.array.both k.pos c = k.inputSide.present k.pos c := by
  have hchunk : k.pos ∈ k.joinSide.chunks := by
    obtain ⟨hl, hr⟩ := mem_filter.mp hk.common
    rw [joinSide]
    cases k.sources.join.1 with
    | left => exact hl
    | right => exact of_decide_eq_true hr
  rw [hk.both_eq, k.joinSide.full (hk.proper.chunks hlevel) k.pos hchunk c hc, Bool.and_true]

lemma mem_joinCells (hc : c ∈ shape.box k.pos) : (k.joinSide.present k.pos c = true → c ∈ k.joinCells) ∧
    (k.ignoreEmptyCells = true → c ∈ k.joinCells → k.joinSide.present k.pos c = true) := by
  rw [joinCells, mem_visits]
  constructor
  · intro hp
    refine ⟨hc, ?_⟩
    split_ifs
    exacts [hp, k.joinSide.shows_present _ _ _ hp]
  · intro hmode hmem
    simpa [hmode] using hmem.2

lemma Joined.positions_eq (hk : k.Joined) : k.positions = k.inputCells.filter (InStep.keeps k.joined k.joinCells) := by
  rw [positions, joined]
  rcases hmode : k.ignoreEmptyCells with _ | _
  · rw [Bool.and_false]
    exact (filter_eq_self.mpr fun _ _ => rfl).symm
  · rw [if_pos rfl, inputCells, Input.visits, hmode, List.filter_filter, Bool.and_true]
    refine filter_congr fun c hc => ?_
    rw [InStep.keeps]
    rcases hlevel : k.sources.chunkLevelJoin with _ | _
    · simpa using hk.both_of_chunks hlevel hc
    · have hmem : c ∈ k.joinCells ↔ k.joinSide.present k.pos c = true :=
        ⟨(mem_joinCells hc).2 hmode, (mem_joinCells hc).1⟩
      simp [hk.both_eq, hmem, Bool.and_comm]

section

variable (hk : k.Joined) (h : k.Standing s (some c))

include hk h

lemma Joined.isEmpty_eq (hok : k.Answerable s .isEmpty) : k.isEmpty c = !k.array.both k.pos c := by
  have hbox := (mem_visits.mp h.at_cell.mem).1
  rw [isEmpty]
  rcases hpres : k.inputSide.present k.pos c with _ | _
  · simp [hk.both_eq, hpres]
  rcases hlevel : k.sources.chunkLevelJoin with _ | _
  · simp [hk.both_of_chunks hlevel hbox, hpres]
  have hother : k.joinSide.present k.pos c = true := by
    rcases hmode : k.ignoreEmptyCells with _ | _
    · exact hok hlevel hmode c h.at_cell.current_eq hpres
    · obtain _ | ⟨_, _, _, -, -, -, hjoin⟩ := h.at_cell
      exact (mem_joinCells hbox).2 hmode (hjoin (by simp [joined, hlevel, hmode])).2
  simp [hk.both_eq, hpres, hother]

omit hk in
/-- Where the other tag is read it is that of the current cell. -/
lemma Standing.join_present (hlevel : k.sources.chunkLevelJoin = true) (hattr : k.attr = .emptyTag)
    (hpres : k.inputSide.present k.pos c = true) (hok : k.Answerable s .getItem) :
    ∃ j, s.join = some j ∧ k.joinSide.present k.pos j = k.joinSide.present k.pos c := by
  rcases hmode : k.ignoreEmptyCells with _ | _
  · obtain ⟨hother, hfirst⟩ := hok hlevel hmode hattr c h.at_cell.current_eq hpres
    have hmem : c ∈ k.joinCells := (mem_joinCells (mem_visits.mp h.at_cell.mem).1).1 hother
    obtain ⟨j, hj⟩ := isSome_iff_exists.mp (isSome_head?.mpr (ne_nil_of_mem hmem))
    refine ⟨j, (h.join_eq (by simp [joined, hmode])).trans hj, ?_⟩
    rw [hother, hfirst j hj]
  · obtain _ | ⟨_, _, _, -, -, -, hjoin⟩ := h.at_cell
    exact ⟨c, (hjoin (by simp [joined, hlevel, hmode])).1, rfl⟩

lemma Joined.getItem_eq (hok : k.Answerable s .getItem) : k.getItem s c = some (k.array.itemAt k.attr k.pos c) := by
  have hown := hk.proper.own
  rw [getItem]
  rcases hattr : k.attr with ⟨side, a⟩ | _
  · rw [hattr] at hown
    simp [JoinEmptyableArray.itemAt, inputSide, hown.1, Input.item, hown.2]
  rw [hattr] at hown
  have hitem : k.inputSide.item k.sources.input.2 k.pos c = .tag (k.inputSide.present k.pos c) := if_pos hown
  rw [hitem, JoinEmptyableArray.itemAt]
  rcases hlevel : k.sources.chunkLevelJoin with _ | _
  · simp [hk.both_of_chunks hlevel (mem_visits.mp h.at_cell.mem).1]
  rcases hpres : k.inputSide.present k.pos c with _ | _
  · simp [getBool, hk.both_eq, hpres]
  obtain ⟨j, hj, hsame⟩ := h.join_present hlevel hattr hpres hok
  have htag : k.joinSide.emptyTag = some k.sources.join.2 := hk.proper.cells hlevel
  simp [getBool, hk.both_eq, hpres, hj, Input.item, htag, hsame]

end

lemma standing_align {l : List C} (hat : InStep.At k.joined k.inputCells k.joinCells
    (InStep.align k.joined k.joinCells l s.join) o) (hjoin : k.joined = false → s.join = k.joinCells.head?) :
    k.Standing (InStep.align k.joined k.joinCells l s.join) o := by
  refine ⟨hat, fun hmode => ?_⟩
  rw [hmode, InStep.join_align]
  exact hjoin hmode

lemma Joined.standing_start (hk : k.Joined) : k.Standing k.start k.positions.head? := by
  rw [hk.positions_eq]
  exact standing_align (s := ⟨[], k.joinCells.head?, false⟩) (InStep.at_start _ _) fun _ => rfl

lemma Joined.call_agree (hk : k.Joined) (s : InStep C) (o : Option C) (a : Call C) (h : k.Standing s o)
    (hok : k.Answerable s a) : Agree k.Standing (k.call s a) (k.specCall o a) := by
  have hcur := h.at_cell.current_eq
  cases a with
  | reset => exact .answer _ hk.standing_start
  | next =>
    rw [call, specCall, hk.positions_eq, h.at_cell.hasCurrent_eq]
    cases o with
    | none => exact .throws
    | some c => exact .answer _ (standing_align (h.at_cell.next k.sorted_inputCells _) h.join_eq)
  | setPosition c =>
    obtain ⟨hfound, hat⟩ := InStep.at_setPosition k.joined k.joinCells k.sorted_inputCells s c
    rw [call, specCall, hk.positions_eq, ← hfound]
    refine .answer _ ⟨hat, fun hmode => ?_⟩
    rw [hmode, InStep.join_setPosition]
    exact h.join_eq hmode
  | isEmpty =>
    rw [call, specCall, hcur]
    cases o with
    | none => exact .throws
    | some c =>
      rw [map_some, map_some, hk.isEmpty_eq h hok]
      exact .answer _ h
  | getItem =>
    rw [call, specCall, hcur]
    cases o with
    | none => exact .throws
    | some c =>
      rw [bind_some, hk.getItem_eq h hok]
      exact .answer _ h
  | getPosition =>
    rw [call, specCall, hcur]
    cases o with
    | none => exact .throws
    | some c => exact .answer _ h
  | atEnd =>
    rw [call, specCall, h.at_cell.hasCurrent_eq, not_isSome]
    exact .answer _ h

lemma answerable_of_ignoring (hmode : k.ignoreEmptyCells = true) (s : InStep C) (a : Call C) : k.Answerable s a := by
  cases a with
  | isEmpty => simp [Answerable, hmode]
  | getItem => simp [Answerable, hmode]
  | _ => trivial

lemma Joined.answers_eq (hk : k.Joined) {calls : List (Call C)}
    (hcalls : k.ignoreEmptyCells = false → Admits k.call k.Answerable k.start calls) :
    answers k.call k.start calls = answers k.specCall k.positions.head? calls := by
  have hall : Admits k.call k.Answerable k.start calls := by
    rcases hmode : k.ignoreEmptyCells with _ | _
    · exact hcalls hmode
    · exact admits_of_forall (fun s a => answerable_of_ignoring hmode s a) _ _
  exact answers_eq_of_admits hk.call_agree hk.standing_start hall

end JoinChunk

lemma filter_chunks_eq (J : JoinEmptyableArray shape V) (s : Side) :
    (J.side s).chunks.filter (InStep.keeps true (J.side s.other).chunks) = J.commonChunks := by
  cases s with
  | left => rfl
  | right =>
    refine Union.eq_of_mem_iff (J.right.sorted.sublist filter_sublist) (J.left.sorted.sublist filter_sublist) fun p => ?_
    rw [mem_filter, JoinEmptyableArray.commonChunks, mem_filter, InStep.keeps, Bool.not_true, Bool.false_or,
      decide_eq_true_iff, decide_eq_true_iff]
    exact and_comm

/-- **Join is the intersection, for every attribute**; where empty cells are not ignored, for answerable calls. -/
theorem join_exact (J : JoinEmptyableArray shape V) (attrID : ℕ) (attr : OutAttribute)
    (hattr : J.outAttributes[attrID]? = some attr) : (∀ calls, answers
      (arrayCall (J.side (J.createArrayIterator attrID).input.1).chunks (J.side (J.createArrayIterator attrID).join.1).chunks)
      (InStep.align true (J.side (J.createArrayIterator attrID).join.1).chunks
        (J.side (J.createArrayIterator attrID).input.1).chunks
        (J.side (J.createArrayIterator attrID).join.1).chunks.head?) calls =
      answers (Cursor.call J.commonChunks id) J.commonChunks.head? calls) ∧ ∀ p ∈ J.commonChunks, ∀ ignoreEmptyCells calls,
      (ignoreEmptyCells = false → Admits (J.chunk attrID attr p ignoreEmptyCells).call
        (J.chunk attrID attr p ignoreEmptyCells).Answerable (J.chunk attrID attr p ignoreEmptyCells).start calls) →
      answers (J.chunk attrID attr p ignoreEmptyCells).call (J.chunk attrID attr p ignoreEmptyCells).start calls =
        answers (J.chunk attrID attr p ignoreEmptyCells).specCall
          (J.chunk attrID attr p ignoreEmptyCells).positions.head? calls := by
  have hproper := JoinEmptyableArray.createArrayIterator_proper hattr
  constructor
  · intro calls
    rw [hproper.other, ← filter_chunks_eq J (J.createArrayIterator attrID).input.1]
    exact answers_eq_of_agree (arrayCall_agree (Input.sorted _)) (InStep.at_start _ _) calls
  · intro p hp ignoreEmptyCells calls hcalls
    exact JoinChunk.Joined.answers_eq ⟨hproper, hp⟩ hcalls

def twoCells (present : ℕ → Bool) : Input (⟨fun _ => [1, 2], fun _ => by decide⟩ : Shape ℕ ℕ) ℕ where
  nAttributes := 2
  emptyTag := some 1
  tag_lt := by
    rintro t ⟨⟩
    decide
  chunks := [0]
  sorted := by decide
  present := fun _ c => present c
  full := nofun
  shows := fun _ _ c => present c
  shows_present := fun _ _ _ h => h
  value := fun _ _ c => c

def twoArrays : JoinEmptyableArray (⟨fun _ => [1, 2], fun _ => by decide⟩ : Shape ℕ ℕ) ℕ :=
  ⟨twoCells fun c => c == 1, twoCells fun _ => true, .inl rfl⟩

/-- If empty cells are not ignored, a cell that the left array does not have is not empty, and its tag is `true`. -/
theorem staleTag : twoArrays.outAttributes[2]? = some .emptyTag ∧ 0 ∈ twoArrays.commonChunks ∧
    answers (twoArrays.chunk 2 .emptyTag 0 false).call (twoArrays.chunk 2 .emptyTag 0 false).start
      [.next, .isEmpty, .getItem] = some [.done, .flag false, .item (.tag true)] ∧
    answers (twoArrays.chunk 2 .emptyTag 0 false).specCall (twoArrays.chunk 2 .emptyTag 0 false).positions.head?
      [.next, .isEmpty, .getItem] = some [.done, .flag true, .item (.tag false)] := by
  decide +kernel

theorem twoArrays_tag :
    answers (twoArrays.chunk 2 .emptyTag 0 false).call (twoArrays.chunk 2 .emptyTag 0 false).start
      [.getPosition, .isEmpty, .getItem] =
    answers (twoArrays.chunk 2 .emptyTag 0 false).specCall (twoArrays.chunk 2 .emptyTag 0 false).positions.head?
      [.getPosition, .isEmpty, .getItem] := by
  refine (join_exact twoArrays 2 .emptyTag (by decide +kernel)).2 0 (by decide +kernel) false _ fun _ => ?_
  refine ⟨trivial, ?_⟩
  rintro r ⟨⟩
  constructor
  · rintro - - c ⟨⟩ -
    rfl
  rintro r ⟨⟩
  refine ⟨?_, fun _ _ => trivial⟩
  rintro - - - c ⟨⟩ -
  refine ⟨rfl, ?_⟩
  rintro j ⟨⟩
  rfl

end SciDB.Query.Join
