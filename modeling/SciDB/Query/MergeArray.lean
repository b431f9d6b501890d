import SciDB.Lib.Union

/-!
# The iterators of `merge`

`MergeChunkIterator` and `MergeArrayIterator`: an iterator for each input, as what it still has to go through, and the number
of the one at the lowest position. `MergeChunkIterator::setPosition` leaves the inputs after the first that has the position as
they are. Left out: tile modes and `isEmpty`.
-/

namespace SciDB.Query.Merge

open SciDB.Lib SciDB.Lib.Union List Option

section Model

variable {P V : Type*} [LinearOrder P]

/-- `iterators` and `currIterator`. -/
structure MergeState (inputs : List (Entries P V)) where
  iterators : Fin inputs.length → List (P × V)
  currIterator : Option (Fin inputs.length)

variable {inputs : List (Entries P V)}

/-- One round of the choice. -/
def lower {n : ℕ} (iterators : Fin n → List (P × V)) (currIterator : Option (Fin n)) (i : Fin n) : Option (Fin n) :=
  match (iterators i).head?, currIterator.bind fun c => (iterators c).head? with
  | none, _ => currIterator
  | some _, none => some i
  | some e, some f => if e.1 < f.1 then some i else currIterator

/-- The iterator that is lowest. -/
def lowest {n : ℕ} (iterators : Fin n → List (P × V)) : Option (Fin n) :=
  (List.finRange n).foldl (lower iterators) none

namespace MergeState

def atLowest (iterators : Fin inputs.length → List (P × V)) : MergeState inputs := ⟨iterators, lowest iterators⟩

/-- `reset` and the constructors. -/
def reset (inputs : List (Entries P V)) : MergeState inputs := atLowest fun i => (inputs.get i).list

/-- The current entry. -/
def current (s : MergeState inputs) : Option (P × V) := s.currIterator.bind fun i => (s.iterators i).head?

/-- `operator++` of all that are there. -/
def next (s : MergeState inputs) : Option (MergeState inputs) :=
  s.current.map fun e => atLowest fun i => (s.iterators i).dropWhile fun f => decide (f.1 ≤ e.1)

end MergeState

/-- `setPosition` of an input. -/
def positioned (E : Entries P V) (p : P) : List (P × V) := E.list.dropWhile fun e => decide (e.1 < p)

/-- The first input that has it. -/
def firstWith (inputs : List (Entries P V)) (p : P) : Option (Fin inputs.length) :=
  (List.finRange inputs.length).find? fun i => ((inputs.get i).lookup p).isSome

def MergeState.setChunkPosition (s : MergeState inputs) (p : P) : Bool × MergeState inputs :=
  match firstWith inputs p with
  | none => (false, ⟨fun i => (inputs.get i).list, none⟩)
  | some h =>
    (true, ⟨fun i =>
      if i < h then (inputs.get i).list else if i = h then positioned (inputs.get i) p else s.iterators i, some h⟩)

/-- Calls of `MergeChunkIterator`. -/
def chunkCall (s : MergeState inputs) : Call P → Option (Answer P V × MergeState inputs)
  | .reset => some (.done, .reset inputs)
  | .next => s.next.map (.done, ·)
  | .setPosition p => some (.found (s.setChunkPosition p).1, (s.setChunkPosition p).2)
  | .getItem => s.current.map fun e => (.item e.2, s)
  | .getPosition => s.current.map fun e => (.position e.1, s)
  | .atEnd => some (.ended s.current.isNone, s)

end Model

section ArrayModel

variable {P C V : Type*} [LinearOrder P] [LinearOrder C]

/-- `MergeArrayIterator`. -/
structure ArrayState (inputs : List (Entries P (Entries C V))) where
  merge : MergeState inputs
  currentChunk : Option (List (Entries C V))

variable {inputs : List (Entries P (Entries C V))}

namespace ArrayState

/-- All inputs at their start. -/
def reset (inputs : List (Entries P (Entries C V))) : ArrayState inputs := ⟨.reset inputs, none⟩

def setPosition (inputs : List (Entries P (Entries C V))) (p : P) : Bool × ArrayState inputs :=
  ((firstWith inputs p).isSome,
    ⟨⟨fun i => if ((inputs.get i).lookup p).isSome then positioned (inputs.get i) p else (inputs.get i).list,
      firstWith inputs p⟩, none⟩)

def sameChunk (s : ArrayState inputs) (p : P) (i : Fin inputs.length) : Option (Entries C V) :=
  match (s.merge.iterators i).head? with
  | some e => if e.1 = p then some e.2 else none
  | none => none

def getChunk (emptyable : Bool) (s : ArrayState inputs) : Option (List (Entries C V) × ArrayState inputs) :=
  match s.currentChunk with
  | some chunks => some (chunks, s)
  | none =>
    match s.merge.currIterator with
    | none => none
    | some h =>
      match (s.merge.iterators h).head? with
      | none => none
      | some (p, currChunk) =>
        if emptyable then
          let later := (List.finRange inputs.length).filter (Cursor.isAfter h)
          let chunks := currChunk :: later.filterMap fun i => (s.sameChunk p i).filter fun c => !c.list.isEmpty
          -- an iterator with an empty chunk at the position moves on
          let iterators := fun i =>
            if h < i ∧ (s.sameChunk p i).any fun c => c.list.isEmpty then (s.merge.iterators i).tail
            else s.merge.iterators i
          some (chunks, ⟨⟨iterators, some h⟩, some chunks⟩)
        else some ([currChunk], ⟨s.merge, some [currChunk]⟩)

/-- The cells that are returned. -/
def cells : List (Entries C V) → List (C × V)
  | [c] => c.list
  | chunks => union chunks

/-- The calls of `MergeArrayIterator`. -/
def call (emptyable : Bool) (s : ArrayState inputs) : Call P → Option (Answer P (List (C × V)) × ArrayState inputs)
  | .reset => some (.done, reset inputs)
  | .next => s.merge.next.map fun m => (.done, ⟨m, none⟩)
  | .setPosition p => some (.found (setPosition inputs p).1, (setPosition inputs p).2)
  | .getItem => (s.getChunk emptyable).map fun r => (.item (cells r.1), r.2)
  | .getPosition => s.merge.current.map fun e => (.position e.1, s)
  | .atEnd => some (.ended s.merge.current.isNone, s)

end ArrayState

/-- What the chunk should have. -/
def chunkAt (emptyable : Bool) (inputs : List (Entries P (Entries C V))) (p : P) : Option (List (C × V)) :=
  if emptyable then (valueAt inputs p).map fun _ => union (inputs.filterMap fun E => E.lookup p)
  else (valueAt inputs p).map Entries.list

end ArrayModel

section Lowest

variable {P V : Type*} [LinearOrder P] {n : ℕ} {its : Fin n → List (P × V)}

/-- The first of the iterators in `l` that stand at the lowest position. -/
def IsLowest (its : Fin n → List (P × V)) (l : List (Fin n)) : Option (Fin n) → Prop
  | none => ∀ i ∈ l, its i = []
  | some h => h ∈ l ∧ ∃ e, (its h).head? = some e ∧ ∀ j ∈ l, ∀ f, (its j).head? = some f → e.1 ≤ f.1 ∧ (j < h → e.1 < f.1)

variable {l : List (Fin n)} {best : Option (Fin n)} {i : Fin n}

lemma isLowest_lower (h : IsLowest its l best) (hi : ∀ j ∈ l, j < i) : IsLowest its (l ++ [i]) (lower its best i) := by
  rw [lower]
  rcases best with _ | b
  · rcases hhead : (its i).head? with _ | e <;> simp_all [IsLowest, or_imp, forall_and]
  · obtain ⟨hb, f, hf, hleast⟩ := h
    rw [bind_some, hf]
    rcases hhead : (its i).head? with _ | e
    · exact ⟨by simp [hb], f, hf, by grind⟩
    · dsimp only
      split_ifs with hlt
      · exact ⟨by simp, e, hhead, by grind⟩
      · exact ⟨by simp [hb], f, hf, by grind⟩

lemma isLowest_lowest (its : Fin n → List (P × V)) : IsLowest its (finRange n) (lowest its) := by
  have hfold : ∀ l : List (Fin n), l.Pairwise (· < ·) → IsLowest its l (l.foldl (lower its) none) := by
    intro l
    induction l using reverseRecOn with
    | nil => exact fun _ => fun i hi => absurd hi not_mem_nil
    | append_singleton l i ih =>
      intro hl
      obtain ⟨hsorted, -, hlt⟩ := pairwise_append.mp hl
      rw [foldl_concat]
      exact isLowest_lower (ih hsorted) fun j hj => hlt j hj i mem_cons_self
  exact hfold _ (pairwise_lt_finRange n)

end Lowest

section First

variable {P V : Type*} [LinearOrder P] {inputs : List (Entries P V)} {p : P} {h : Fin inputs.length}

lemma isSome_lookup {E : Entries P V} : (E.lookup p).isSome = true ↔ ∃ v, (p, v) ∈ E.list := by
  simp only [isSome_iff_exists, Entries.lookup_eq_some]

lemma firstWith_eq_some : firstWith inputs p = some h ↔
    (∃ v, (p, v) ∈ (inputs.get h).list) ∧ ∀ j < h, ∀ v, (p, v) ∉ (inputs.get j).list := by
  have hnone : ∀ j : Fin inputs.length, (!((inputs.get j).lookup p).isSome) = true ↔ ∀ v, (p, v) ∉ (inputs.get j).list := by
    intro j
    simp [Entries.lookup_eq_none]
  rw [firstWith, find?_eq_some_iff_getElem]
  simp only [isSome_lookup, hnone, getElem_finRange]
  refine and_congr_right fun _ => ⟨?_, fun hfirst => ⟨h, by simp, rfl, fun j hj => hfirst ⟨j, by omega⟩ hj⟩⟩
  rintro ⟨i, hi, rfl, hfirst⟩ j hj
  exact hfirst j hj

lemma firstWith_of_mem (hp : p ∈ positions inputs) : ∃ h v, firstWith inputs p = some h ∧ (p, v) ∈ (inputs.get h).list := by
  obtain ⟨E, hE, v, hv⟩ := mem_positions.mp hp
  obtain ⟨i, rfl⟩ := get_of_mem hE
  rcases hfirst : firstWith inputs p with _ | h
  · exact absurd (isSome_lookup.mpr ⟨v, hv⟩) (find?_eq_none.mp hfirst i (mem_finRange i))
  · exact ⟨h, (firstWith_eq_some.mp hfirst).1.choose, rfl, (firstWith_eq_some.mp hfirst).1.choose_spec⟩

lemma mem_positions_of_mem {v : V} (hv : (p, v) ∈ (inputs.get h).list) : p ∈ positions inputs :=
  mem_positions.mpr ⟨_, get_mem inputs h, v, hv⟩

lemma firstWith_eq_none : firstWith inputs p = none ↔ p ∉ positions inputs := by
  constructor
  · intro hnone hp
    obtain ⟨h, v, hfirst, -⟩ := firstWith_of_mem hp
    cases hnone.symm.trans hfirst
  · intro hp
    rcases hfirst : firstWith inputs p with _ | h
    · rfl
    · exact absurd (mem_positions_of_mem (firstWith_eq_some.mp hfirst).1.choose_spec) hp

lemma valueAt_of_firstWith {v : V} (hfirst : firstWith inputs p = some h) (hv : (p, v) ∈ (inputs.get h).list) :
    valueAt inputs p = some v := by
  refine findSome?_eq_some_iff.mpr
    ⟨inputs.take h, inputs.get h, inputs.drop (h + 1), by simp, Entries.lookup_eq_some.mpr hv, fun E hE => ?_⟩
  obtain ⟨i, hi, rfl⟩ := mem_take_iff_getElem.mp hE
  exact Entries.lookup_eq_none.mpr ((firstWith_eq_some.mp hfirst).2 ⟨i, by omega⟩ (show i < h.val by omega))

end First

section Standing

variable {P V : Type*} [LinearOrder P] {inputs : List (Entries P V)} {s : MergeState inputs}

/-- The iterators stand for the position `o` of the union: the first input that has it is the current one. -/
inductive Standing (s : MergeState inputs) : Option P → Prop where
  | ended : s.currIterator = none → Standing s none
  | on (p : P) (h : Fin inputs.length) (v : V) : firstWith inputs p = some h → s.currIterator = some h →
    (s.iterators h).head? = some (p, v) →
    (∀ q > p, ∀ j w, firstWith inputs q = some j → (q, w) ∈ (inputs.get j).list → (q, w) ∈ s.iterators j) →
    Standing s (some p)

/-- All are inside their inputs. -/
def Inside (s : MergeState inputs) : Prop := ∀ i, s.iterators i <:+ (inputs.get i).list

variable {l : List (P × V)} {e f : P × V} {p : P} {E : Entries P V}

lemma head_le (hl : l <:+ E.list) (hf : f ∈ l) : ∃ e, l.head? = some e ∧ e.1 ≤ f.1 ∧ e ∈ E.list := by
  obtain ⟨e, rest, rfl⟩ := exists_cons_of_ne_nil (ne_nil_of_mem hf)
  refine ⟨e, rfl, ?_, hl.subset mem_cons_self⟩
  rcases mem_cons.mp hf with rfl | hf
  · exact le_rfl
  · exact ((pairwise_cons.mp (E.sorted.sublist hl.sublist)).1 f hf).le

/-- **The lowest iterator stands at the next position of the union.** -/
lemma standing_atLowest {its : Fin inputs.length → List (P × V)} (hinside : Inside (.atLowest its : MergeState inputs))
    {far : P → Bool} (hup : ∀ p q, p < q → far p = true → far q = true) (honly : ∀ i, ∀ e ∈ its i, far e.1 = true)
    (hall : ∀ q, far q = true → ∀ j w, firstWith inputs q = some j → (q, w) ∈ (inputs.get j).list → (q, w) ∈ its j) :
    Standing (.atLowest its) ((positions inputs).find? far) := by
  have hlow := isLowest_lowest its
  -- an entry that counts is still there, and the head is not behind it
  have hthere : ∀ q ∈ positions inputs, far q = true →
      ∃ j f, firstWith inputs q = some j ∧ (its j).head? = some f ∧ f.1 ≤ q := by
    intro q hq hfar
    obtain ⟨j, w, hj, hw⟩ := firstWith_of_mem hq
    obtain ⟨f, hf, hle, -⟩ := head_le (hinside j) (hall q hfar j w hj hw)
    exact ⟨j, f, hj, hf, hle⟩
  rcases hcurr : lowest its with _ | h
  · rw [hcurr] at hlow
    have hnone : (positions inputs).find? far = none := by
      refine find?_eq_none.mpr fun q hq hfar => ?_
      obtain ⟨j, f, -, hf, -⟩ := hthere q hq hfar
      rw [hlow j (mem_finRange j)] at hf
      cases hf
    rw [hnone]
    exact .ended hcurr
  · rw [hcurr] at hlow
    obtain ⟨-, ⟨p, v⟩, hhead, hleast⟩ := hlow
    have hmem : (p, v) ∈ its h := mem_of_head? hhead
    have hlist : (p, v) ∈ (inputs.get h).list := (hinside h).subset hmem
    have hp := mem_positions_of_mem hlist
    have hfind : (positions inputs).find? far = some p := by
      refine Cursor.find_eq_some_of_least (positions_sorted inputs) hp (honly h _ hmem) fun q hq hfar => ?_
      obtain ⟨j, f, -, hf, hle⟩ := hthere q hq hfar
      exact (hleast j (mem_finRange j) f hf).1.trans hle
    have hfirst : firstWith inputs p = some h := by
      obtain ⟨j, f, hj, hf, hle⟩ := hthere p hp (honly h _ hmem)
      rcases lt_trichotomy j h with hlt | rfl | hlt
      · exact absurd ((hleast j (mem_finRange j) f hf).2 hlt) (not_lt_of_ge hle)
      · exact hj
      · exact absurd hlist ((firstWith_eq_some.mp hj).2 h hlt v)
    rw [hfind]
    exact .on p h v hfirst hcurr hhead fun q hq j w => hall q (hup p q hq (honly h _ hmem)) j w

lemma Standing.current {o : Option P} (hs : Standing s o) (hinside : Inside s) :
    o = none ∧ s.current = none ∨ ∃ p v, o = some p ∧ s.current = some (p, v) ∧ valueAt inputs p = some v := by
  cases hs with
  | ended hcurr => simp [MergeState.current, hcurr]
  | on p h v hfirst hcurr hhead hahead =>
    have hvalue := valueAt_of_firstWith hfirst ((hinside h).subset (mem_of_head? hhead))
    exact .inr ⟨p, v, rfl, by simp [MergeState.current, hcurr, hhead], hvalue⟩

lemma inside_reset (inputs : List (Entries P V)) : Inside (MergeState.reset inputs) :=
  fun _ => suffix_refl _

omit [LinearOrder P] in
lemma head?_eq_find? (l : List P) : l.head? = l.find? fun _ => true := by
  cases l <;> rfl

lemma standing_reset (inputs : List (Entries P V)) : Standing (MergeState.reset inputs) (positions inputs).head? := by
  rw [head?_eq_find?]
  exact standing_atLowest (inside_reset inputs) (fun _ _ _ _ => rfl) (fun _ _ _ => rfl) fun _ _ _ _ _ hw => hw

lemma mem_passed (hl : l <:+ E.list) : e ∈ l.dropWhile (fun f => decide (f.1 ≤ p)) ↔ e ∈ l ∧ p < e.1 := by
  have hdrop := @Entries.dropWhile_eq_filter P V _ l (E.sorted.sublist hl.sublist) (fun q => decide (q ≤ p))
    fun a b hab hb => decide_eq_true (hab.le.trans (of_decide_eq_true hb))
  simp [hdrop]

lemma isAfter_up (p a b : P) (hab : a < b) (ha : Cursor.isAfter p a = true) : Cursor.isAfter p b = true :=
  Cursor.isAfter_iff.mpr ((Cursor.isAfter_iff.mp ha).trans hab)

lemma Standing.next (hs : Standing s (some p)) (hinside : Inside s) :
    ∃ s', s.next = some s' ∧ Inside s' ∧ Standing s' ((positions inputs).find? (Cursor.isAfter p)) := by
  obtain _ | ⟨_, h, v, hfirst, hcurr, hhead, hahead⟩ := hs
  have hinside' := fun i => (dropWhile_suffix fun f : P × V => decide (f.1 ≤ p)).trans (hinside i)
  refine ⟨.atLowest _, by rw [MergeState.next, MergeState.current, hcurr, bind_some, hhead]; rfl, hinside', ?_⟩
  refine standing_atLowest hinside' (isAfter_up p) ?_ ?_
  · exact fun i e he => Cursor.isAfter_iff.mpr ((mem_passed (hinside i)).mp he).2
  · intro q hq j w hj hw
    have hlt := Cursor.isAfter_iff.mp hq
    exact (mem_passed (hinside j)).mpr ⟨hahead q hlt j w hj hw, hlt⟩

lemma mem_positioned : e ∈ positioned E p ↔ e ∈ E.list ∧ p ≤ e.1 := by
  have hdrop := @Entries.dropWhile_eq_filter P V _ _ E.sorted (fun q => decide (q < p)) fun a b hab hb =>
    decide_eq_true (hab.trans (of_decide_eq_true hb))
  simp [positioned, hdrop]

lemma positioned_suffix (E : Entries P V) (p : P) : positioned E p <:+ E.list := dropWhile_suffix _

lemma head_positioned {v : V} (hv : (p, v) ∈ E.list) : (positioned E p).head? = some (p, v) := by
  obtain ⟨⟨q, w⟩, hhead, hle, hw⟩ := head_le (positioned_suffix E p) (mem_positioned.mpr ⟨hv, le_rfl⟩)
  obtain rfl := le_antisymm hle (mem_positioned.mp (mem_of_head? hhead)).2
  rw [hhead, Entries.value_unique hw hv]

end Standing

section ChunkIterator

variable {P V : Type*} [LinearOrder P] {inputs : List (Entries P V)} {s : MergeState inputs}

/-- `setPosition(p)` succeeds only when no input behind has passed a position after `p` that it is the first to have. -/
def Careful (s : MergeState inputs) : Call P → Prop
  | .setPosition p => ∀ h, firstWith inputs p = some h → ∀ q > p, ∀ j > h, ∀ w, firstWith inputs q = some j →
      (q, w) ∈ (inputs.get j).list → (q, w) ∈ s.iterators j
  | _ => True

lemma standing_setChunkPosition (hinside : Inside s) {p : P} (hok : Careful s (.setPosition p)) :
    Inside (s.setChunkPosition p).2 ∧ (s.setChunkPosition p).1 = decide (p ∈ positions inputs) ∧
      Standing (s.setChunkPosition p).2 (if p ∈ positions inputs then some p else none) := by
  rw [MergeState.setChunkPosition]
  by_cases hp : p ∈ positions inputs
  · obtain ⟨h, v, hfirst, hv⟩ := firstWith_of_mem hp
    rw [if_pos hp, hfirst]
    refine ⟨fun i => ?_, (decide_eq_true hp).symm, .on p h v hfirst rfl ?_ ?_⟩
    · dsimp only
      split_ifs
      exacts [suffix_refl _, positioned_suffix _ p, hinside i]
    · simpa using head_positioned hv
    · intro q hq j w hj hw
      dsimp only
      split_ifs with hlt heq
      · exact hw
      · exact mem_positioned.mpr ⟨hw, hq.le⟩
      · exact hok h hfirst q hq j (lt_of_le_of_ne (not_lt.mp hlt) (Ne.symm heq)) w hj hw
  · rw [if_neg hp, firstWith_eq_none.mpr hp]
    exact ⟨fun _ => suffix_refl _, (decide_eq_false hp).symm, .ended rfl⟩

lemma chunkCall_agree (s : MergeState inputs) (o : Option P) (c : Call P) (hR : Inside s ∧ Standing s o) (hok : Careful s c) :
    Agree (fun s o => Inside s ∧ Standing s o) (chunkCall s c) (Union.call (positions inputs) (valueAt inputs) o c) := by
  obtain ⟨hinside, hs⟩ := hR
  have hcurrent := hs.current hinside
  cases c with
  | reset => exact .answer _ ⟨inside_reset inputs, standing_reset inputs⟩
  | next =>
    obtain ⟨rfl, hnone⟩ | ⟨p, v, rfl, -, -⟩ := hcurrent
    · simpa [chunkCall, MergeState.next, hnone] using .throws
    · obtain ⟨s', hnext, hs'⟩ := hs.next hinside
      simpa [chunkCall, hnext] using .answer _ hs'
  | setPosition p =>
    obtain ⟨hin, hfound, hset⟩ := standing_setChunkPosition hinside hok
    exact Union.agree_setPosition hfound ⟨hin, hset⟩
  | getItem | getPosition | atEnd =>
    obtain ⟨rfl, hnone⟩ | ⟨p, v, rfl, hsome, hvalue⟩ := hcurrent
    · simp [chunkCall, Union.call, hnone, Agree.throws, Agree.answer, hinside, hs]
    · simp [chunkCall, Union.call, hsome, hvalue, Agree.answer, hinside, hs]

end ChunkIterator

section ArrayIterator

variable {P C V : Type*} [LinearOrder P] [LinearOrder C] {inputs : List (Entries P (Entries C V))}
  {s : ArrayState inputs} {emptyable : Bool}

def AllAt (m : MergeState inputs) (p : P) : Prop :=
  ∀ i c, (p, c) ∈ (inputs.get i).list → (m.iterators i).head? = some (p, c)

/-- Where the iterators stand. -/
structure ArrayStanding (emptyable : Bool) (s : ArrayState inputs) (o : Option P) : Prop where
  inside : Inside s.merge
  standing : Standing s.merge o
  ahead : ∀ p, o = some p → ∀ q > p, ∀ j w, (q, w) ∈ (inputs.get j).list → (q, w) ∈ s.merge.iterators j
  ended : o = none → s.currentChunk = none
  fresh : ∀ p, o = some p → s.currentChunk = none → AllAt s.merge p
  kept : ∀ p chunks, o = some p → s.currentChunk = some chunks → chunkAt emptyable inputs p = some (ArrayState.cells chunks)

variable {p : P} {h : Fin inputs.length} {c : Entries C V}

lemma filterMap_lookup (hfirst : firstWith inputs p = some h) (hc : (p, c) ∈ (inputs.get h).list) :
    inputs.filterMap (fun E => E.lookup p) =
      c :: ((finRange inputs.length).filter (Cursor.isAfter h)).filterMap fun i => (inputs.get i).lookup p := by
  obtain ⟨l, rest, hsplit⟩ := append_of_mem (mem_finRange h)
  have hsorted := pairwise_lt_finRange inputs.length
  have hmap : inputs.filterMap (fun E => E.lookup p) =
      (finRange inputs.length).filterMap fun i => (inputs.get i).lookup p := by
    conv_lhs => rw [← map_get_finRange inputs, filterMap_map]
    rfl
  rw [hmap]
  rw [hsplit] at hsorted ⊢
  rw [Cursor.filter_gt_of_sorted hsorted, filterMap_append, filterMap_cons, Entries.lookup_eq_some.mpr hc]
  have hnil : l.filterMap (fun i => (inputs.get i).lookup p) = [] := by
    refine filterMap_eq_nil_iff.mpr fun i hi => Entries.lookup_eq_none.mpr fun v => ?_
    exact (firstWith_eq_some.mp hfirst).2 i ((pairwise_append.mp hsorted).2.2 i hi h mem_cons_self) v
  rw [hnil, nil_append]

lemma cells_eq_union (chunks : List (Entries C V)) : ArrayState.cells chunks = union chunks := by
  match chunks with
  | [] => rfl
  | [c] => exact (union_singleton c).symm
  | _ :: _ :: _ => rfl

open ArrayState

lemma sameChunk_eq_lookup (hinside : Inside s.merge) (hall : AllAt s.merge p) (i : Fin inputs.length) :
    s.sameChunk p i = (inputs.get i).lookup p := by
  rw [sameChunk]
  rcases hlookup : (inputs.get i).lookup p with _ | c
  · rcases hhead : (s.merge.iterators i).head? with _ | ⟨q, c⟩
    · rfl
    · refine if_neg ?_
      rintro rfl
      exact Entries.lookup_eq_none.mp hlookup c ((hinside i).subset (mem_of_head? hhead))
  · simp [hall i c (Entries.lookup_eq_some.mp hlookup)]

lemma union_collected (hinside : Inside s.merge) (hall : AllAt s.merge p) (hfirst : firstWith inputs p = some h)
    (hc : (p, c) ∈ (inputs.get h).list) : union (c :: ((finRange inputs.length).filter (Cursor.isAfter h)).filterMap fun i =>
      (s.sameChunk p i).filter fun c => !c.list.isEmpty) = union (inputs.filterMap fun E => E.lookup p) := by
  rw [filterMap_lookup hfirst hc]
  generalize (finRange inputs.length).filter (Cursor.isAfter h) = later
  have hlater : later.filterMap (fun i => (s.sameChunk p i).filter fun c => !c.list.isEmpty) =
      (later.filterMap fun i => (inputs.get i).lookup p).filter fun c => !c.list.isEmpty := by
    rw [filter_filterMap]
    exact filterMap_congr fun i _ => by rw [sameChunk_eq_lookup hinside hall]
  rw [hlater, ← union_filter (c :: _), ← union_filter (c :: filterMap _ later), filter_cons, filter_cons, List.filter_filter]
  simp only [Bool.and_self]

lemma mem_of_moved (hall : AllAt s.merge p) (hinside : Inside s.merge) {q : P} {j : Fin inputs.length} {w : Entries C V}
    (hq : q > p) (hmem : (q, w) ∈ s.merge.iterators j) :
    (q, w) ∈ if h < j ∧ (s.sameChunk p j).any fun c => c.list.isEmpty then (s.merge.iterators j).tail
      else s.merge.iterators j := by
  split_ifs with hmove
  · rw [sameChunk_eq_lookup hinside hall] at hmove
    rcases hlookup : (inputs.get j).lookup p with _ | c
    · rw [hlookup] at hmove
      cases hmove.2
    · obtain ⟨rest, hcons⟩ := head?_eq_some_iff.mp (hall j c (Entries.lookup_eq_some.mp hlookup))
      rw [hcons] at hmem ⊢
      exact (mem_cons.mp hmem).resolve_left fun heq => hq.ne' (congrArg Prod.fst heq)
  · exact hmem

/-- **`getChunk` returns the cells of the union at the position**, and stays there. -/
lemma ArrayStanding.getChunk (hs : ArrayStanding emptyable s (some p)) :
    ∃ chunks s', s.getChunk emptyable = some (chunks, s') ∧ chunkAt emptyable inputs p = some (ArrayState.cells chunks) ∧
      ArrayStanding emptyable s' (some p) := by
  rw [ArrayState.getChunk]
  rcases hcache : s.currentChunk with _ | chunks
  · have hall := hs.fresh p rfl hcache
    rcases hs.standing with _ | ⟨_, h, c, hfirst, hcurr, hhead, hahead⟩
    have hc : (p, c) ∈ (inputs.get h).list := (hs.inside h).subset (mem_of_head? hhead)
    have hvalue := valueAt_of_firstWith hfirst hc
    simp only [hcurr, hhead]
    cases emptyable with
    | false =>
      have hchunk : chunkAt false inputs p = some (cells [c]) := by simp [chunkAt, hvalue, cells]
      exact ⟨_, _, rfl, hchunk, hs.inside, hs.standing, hs.ahead, nofun, nofun, by rintro q _ ⟨⟩ ⟨⟩; exact hchunk⟩
    | true =>
      have hchunk : chunkAt true inputs p = some (cells (c ::
          ((finRange inputs.length).filter (Cursor.isAfter h)).filterMap fun i =>
            (s.sameChunk p i).filter fun c => !c.list.isEmpty)) := by
        rw [cells_eq_union, union_collected hs.inside hall hfirst hc, chunkAt, hvalue]
        rfl
      refine ⟨_, _, rfl, hchunk, fun i => ?_, .on p h c hfirst rfl (by simpa using hhead) fun q hq j w hj hw => ?_,
        ?_, nofun, nofun, by rintro q _ ⟨⟩ ⟨⟩; exact hchunk⟩
      · dsimp only
        split_ifs
        exacts [(tail_suffix _).trans (hs.inside i), hs.inside i]
      · exact mem_of_moved hall hs.inside hq (hahead q hq j w hj hw)
      · rintro _ ⟨⟩ q hq j w hw
        exact mem_of_moved hall hs.inside hq (hs.ahead p rfl q hq j w hw)
  · exact ⟨chunks, s, rfl, hs.kept p chunks rfl hcache, hs⟩

lemma arrayStanding_atLowest {its : Fin inputs.length → List (P × Entries C V)}
    (hinside : Inside (.atLowest its : MergeState inputs)) {far : P → Bool} (hup : ∀ p q, p < q → far p = true → far q = true)
    (hits : ∀ i e, e ∈ its i ↔ e ∈ (inputs.get i).list ∧ far e.1 = true) (emptyable : Bool) :
    ArrayStanding emptyable (⟨.atLowest its, none⟩ : ArrayState inputs) ((positions inputs).find? far) where
  inside := hinside
  standing := standing_atLowest hinside hup (fun i e he => ((hits i e).mp he).2) fun q hq j w _ hw =>
    (hits j _).mpr ⟨hw, hq⟩
  ahead p hp q hq j w hw := (hits j _).mpr ⟨hw, hup p q hq (find?_some hp)⟩
  ended := fun _ => rfl
  fresh := by
    intro p hp _ i c hc
    obtain ⟨⟨q, c'⟩, hhead, hle, hlist⟩ := head_le (hinside i) ((hits i _).mpr ⟨hc, find?_some hp⟩)
    -- the head is not greater, and not less either
    have hge : p ≤ q := Cursor.le_of_find_eq_some (positions_sorted inputs) hp (mem_positions_of_mem hlist)
      ((hits i _).mp (mem_of_head? hhead)).2
    obtain rfl := le_antisymm hle hge
    exact hhead.trans (by rw [Entries.value_unique hlist hc])
  kept := nofun

lemma arrayStanding_reset (emptyable : Bool) (inputs : List (Entries P (Entries C V))) :
    ArrayStanding emptyable (ArrayState.reset inputs) (positions inputs).head? := by
  rw [head?_eq_find?]
  exact arrayStanding_atLowest (inside_reset inputs) (fun _ _ _ _ => rfl) (fun i e => by simp) emptyable

lemma ArrayStanding.next (hs : ArrayStanding emptyable s (some p)) :
    ∃ m, s.merge.next = some m ∧ ArrayStanding emptyable ⟨m, none⟩ ((positions inputs).find? (Cursor.isAfter p)) := by
  rcases hs.standing.current hs.inside with ⟨hnone, -⟩ | ⟨_, c, ⟨⟩, hcurrent, -⟩
  · cases hnone
  refine ⟨_, by rw [MergeState.next, hcurrent]; rfl, ?_⟩
  refine arrayStanding_atLowest (fun i => (dropWhile_suffix _).trans (hs.inside i)) (isAfter_up p) (fun i e => ?_) emptyable
  rw [mem_passed (hs.inside i), Cursor.isAfter_iff]
  exact ⟨fun he => ⟨(hs.inside i).subset he.1, he.2⟩, fun he => ⟨hs.ahead p rfl e.1 he.2 i e.2 he.1, he.2⟩⟩

lemma arrayStanding_setPosition (emptyable : Bool) (inputs : List (Entries P (Entries C V))) (p : P) :
    (ArrayState.setPosition inputs p).1 = decide (p ∈ positions inputs) ∧
      ArrayStanding emptyable (ArrayState.setPosition inputs p).2 (if p ∈ positions inputs then some p else none) := by
  have hinside : Inside (setPosition inputs p).2.merge := by
    intro i
    dsimp only [setPosition]
    split_ifs
    exacts [positioned_suffix _ p, suffix_refl _]
  by_cases hp : p ∈ positions inputs
  · obtain ⟨h, c, hfirst, hc⟩ := firstWith_of_mem hp
    have hall : AllAt (setPosition inputs p).2.merge p := by
      intro i c hc
      dsimp only [setPosition]
      rw [if_pos (isSome_lookup.mpr ⟨c, hc⟩), head_positioned hc]
    have hahead : ∀ q > p, ∀ j w, (q, w) ∈ (inputs.get j).list → (q, w) ∈ (setPosition inputs p).2.merge.iterators j := by
      intro q hq j w hw
      dsimp only [setPosition]
      split_ifs
      exacts [mem_positioned.mpr ⟨hw, hq.le⟩, hw]
    rw [if_pos hp]
    refine ⟨by simp [setPosition, hfirst, hp], hinside, ?_, ?_, nofun, ?_, nofun⟩
    · exact .on p h c hfirst hfirst (hall h c hc) fun q hq j w _ hw => hahead q hq j w hw
    · rintro _ ⟨⟩
      exact hahead
    · rintro _ ⟨⟩ -
      exact hall
  · have hfirst := firstWith_eq_none.mpr hp
    rw [if_neg hp]
    exact ⟨by simp [setPosition, hfirst, hp], hinside, .ended hfirst, nofun, fun _ => rfl, nofun, nofun⟩

lemma arrayCall_agree (s : ArrayState inputs) (o : Option P) (c : Call P) (hs : ArrayStanding emptyable s o) :
    Agree (ArrayStanding emptyable) (s.call emptyable c) (Union.call (positions inputs) (chunkAt emptyable inputs) o c) := by
  have hcurrent := hs.standing.current hs.inside
  cases c with
  | reset => exact .answer _ (arrayStanding_reset emptyable inputs)
  | next =>
    obtain ⟨rfl, hnone⟩ | ⟨p, v, rfl, -, -⟩ := hcurrent
    · simpa [ArrayState.call, MergeState.next, hnone] using .throws
    · obtain ⟨m, hnext, hs'⟩ := hs.next
      simpa [ArrayState.call, hnext] using .answer _ hs'
  | setPosition p =>
    obtain ⟨hfound, hset⟩ := arrayStanding_setPosition emptyable inputs p
    exact Union.agree_setPosition hfound hset
  | getItem =>
    rw [ArrayState.call, Union.call]
    rcases o with _ | p
    · obtain ⟨hcurr⟩ := hs.standing
      simpa [getChunk, hs.ended rfl, hcurr] using .throws
    · obtain ⟨chunks, s', hget, hchunk, hs'⟩ := hs.getChunk
      rw [hget, bind_some, hchunk]
      exact .answer _ hs'
  | getPosition | atEnd =>
    obtain ⟨rfl, hnone⟩ | ⟨p, v, rfl, hsome, -⟩ := hcurrent
    · simp [ArrayState.call, Union.call, hnone, Agree.throws, Agree.answer, hs]
    · simp [ArrayState.call, Union.call, hsome, Agree.answer, hs]

end ArrayIterator

/-- **The merge iterators implement the overlay**: a chunk iterator as long as the calls are careful. -/
theorem merge_overlay {P C V : Type*} [LinearOrder P] [LinearOrder C] :
    (∀ (emptyable : Bool) (inputs : List (Entries P (Entries C V))) (calls : List (Call P)),
      answers (ArrayState.call emptyable) (ArrayState.reset inputs) calls =
        answers (Union.call (positions inputs) (chunkAt emptyable inputs)) (positions inputs).head? calls) ∧
    ∀ (inputs : List (Entries C V)) (calls : List (Call C)), Admits chunkCall Careful (MergeState.reset inputs) calls →
      answers chunkCall (MergeState.reset inputs) calls =
        answers (Union.call (positions inputs) (valueAt inputs)) (positions inputs).head? calls := by
  constructor
  · intro emptyable inputs calls
    exact answers_eq_of_agree arrayCall_agree (arrayStanding_reset emptyable inputs) calls
  · intro inputs calls hcareful
    exact answers_eq_of_admits chunkCall_agree ⟨inside_reset inputs, standing_reset inputs⟩ hcareful

def twoInputs : List (Entries ℕ Bool) := [⟨[(1, true)], by decide⟩, ⟨[(2, false), (3, false)], by decide⟩]

/-- Go to the end, return to the cell 1 with `setPosition`, and go on: the cell 2 is lost. -/
theorem lostCell : answers chunkCall (MergeState.reset twoInputs) [.next, .next, .setPosition 1, .next, .getPosition] =
      some [.done, .done, .found true, .done, .position 3] ∧
    answers (Union.call (positions twoInputs) (valueAt twoInputs)) (positions twoInputs).head?
      [.next, .next, .setPosition 1, .next, .getPosition] = some [.done, .done, .found true, .done, .position 2] := by
  exact ⟨rfl, rfl⟩

theorem twoInputs_overlay : answers chunkCall (MergeState.reset twoInputs) [.setPosition 1, .next, .getPosition] =
      answers (Union.call (positions twoInputs) (valueAt twoInputs)) (positions twoInputs).head?
        [.setPosition 1, .next, .getPosition] := by
  refine (@merge_overlay ℕ ℕ Bool _ _).2 twoInputs _ ⟨?_, ?_⟩
  · exact fun _ _ _ _ _ _ _ _ hw => hw
  · exact fun _ _ => ⟨trivial, fun _ _ => ⟨trivial, fun _ _ => trivial⟩⟩

end SciDB.Query.Merge
