import SciDB.Lib.Cursor

/-!
# Several ordered lists as one

A position of any of the lists is a position of the union, and its value is that of the first list that has it. Moving on or
reading where there is no current element throws.
-/

namespace SciDB.Lib

open List

/-- Values at increasing positions. -/
structure Entries (P V : Type*) [LinearOrder P] where
  list : List (P × V)
  sorted : list.Pairwise fun a b => a.1 < b.1

namespace Entries

variable {P V : Type*} [LinearOrder P] {E : Entries P V} {p : P} {v w : V}

/-- The value at a position. -/
def lookup (E : Entries P V) (p : P) : Option V := (E.list.find? fun e => decide (e.1 = p)).map Prod.snd

lemma value_unique (hv : (p, v) ∈ E.list) (hw : (p, w) ∈ E.list) : v = w := by
  obtain ⟨i, hi, hvi⟩ := mem_iff_getElem.mp hv
  obtain ⟨j, hj, hwj⟩ := mem_iff_getElem.mp hw
  have hlt := pairwise_iff_getElem.mp E.sorted
  rcases Nat.lt_trichotomy i j with hij | rfl | hij
  · have := hlt i j hi hj hij
    rw [hvi, hwj] at this
    exact absurd this (lt_irrefl p)
  · rw [hvi] at hwj
    exact congrArg Prod.snd hwj
  · have := hlt j i hj hi hij
    rw [hvi, hwj] at this
    exact absurd this (lt_irrefl p)

lemma lookup_eq_some : E.lookup p = some v ↔ (p, v) ∈ E.list := by
  have hfound : ∀ e, E.list.find? (fun e => decide (e.1 = p)) = some e → e.1 = p ∧ e ∈ E.list := by
    intro e he
    exact ⟨by simpa using find?_some he, mem_of_find?_eq_some he⟩
  rw [lookup, Option.map_eq_some_iff]
  constructor
  · rintro ⟨⟨q, w⟩, he, rfl⟩
    obtain ⟨rfl, hmem⟩ := hfound _ he
    exact hmem
  · intro hmem
    rcases he : E.list.find? (fun e => decide (e.1 = p)) with _ | ⟨q, w⟩
    · exact absurd (find?_eq_none.mp he _ hmem) (by simp)
    · obtain ⟨hq, hmem'⟩ := hfound _ he
      subst hq
      exact ⟨(q, w), he, value_unique hmem' hmem⟩

lemma lookup_eq_none : E.lookup p = none ↔ ∀ v, (p, v) ∉ E.list := by
  rw [Option.eq_none_iff_forall_ne_some]
  exact forall_congr' fun v => not_congr lookup_eq_some

lemma dropWhile_eq_filter {l : List (P × V)} (hl : l.Pairwise fun a b => a.1 < b.1) {low : P → Bool}
    (hlow : ∀ a b, a < b → low b = true → low a = true) : l.dropWhile (fun e => low e.1) = l.filter fun e => !low e.1 := by
  induction l with
  | nil => rfl
  | cons e l ih =>
    obtain ⟨he, hl⟩ := pairwise_cons.mp hl
    by_cases hlowe : low e.1 = true
    · rw [dropWhile_cons, if_pos hlowe, ih hl, filter_cons_of_neg (by simp [hlowe])]
    · rw [dropWhile_cons, if_neg hlowe, eq_comm, filter_eq_self]
      intro f hf
      rw [Bool.not_eq_true', ← Bool.not_eq_true]
      rcases mem_cons.mp hf with rfl | hf
      · exact hlowe
      · exact fun hlowf => hlowe (hlow _ _ (he f hf) hlowf)

end Entries

namespace Union

variable {P V : Type*} [LinearOrder P] {inputs : List (Entries P V)} {p q : P} {v : V}

variable (inputs)

/-- The value of the first list. -/
def valueAt (p : P) : Option V := inputs.findSome? fun E => E.lookup p

/-- All positions, in increasing order. -/
def positions : List P :=
  ((inputs.flatMap fun E => E.list.map Prod.fst).dedup).insertionSort (· ≤ ·)

/-- The lists as one. -/
def union : List (P × V) :=
  (positions inputs).filterMap fun p => (valueAt inputs p).map (p, ·)

variable {inputs}

lemma mem_positions : p ∈ positions inputs ↔ ∃ E ∈ inputs, ∃ v, (p, v) ∈ E.list := by
  rw [positions, mem_insertionSort, mem_dedup, mem_flatMap]
  refine exists_congr fun E => and_congr_right fun _ => ?_
  rw [mem_map]
  exact ⟨fun ⟨⟨q, v⟩, hmem, hq⟩ => ⟨v, hq ▸ hmem⟩, fun ⟨v, hmem⟩ => ⟨(p, v), hmem, rfl⟩⟩

variable (inputs)

lemma positions_sorted : (positions inputs).Pairwise (· < ·) := by
  have hle : (positions inputs).Pairwise (· ≤ ·) := pairwise_insertionSort _ _
  have hne : (positions inputs).Nodup := (perm_insertionSort _ _).nodup_iff.mpr (nodup_dedup _)
  exact (hle.and hne).imp fun ⟨hle, hne⟩ => lt_of_le_of_ne hle hne

lemma eq_of_mem_iff {l l' : List P} (hl : l.Pairwise (· < ·)) (hl' : l'.Pairwise (· < ·)) (h : ∀ p, p ∈ l ↔ p ∈ l') : l = l' :=
  ((perm_ext_iff_of_nodup (hl.imp ne_of_lt) (hl'.imp ne_of_lt)).mpr h).eq_of_pairwise
    (fun _ _ _ _ hlt hlt' => absurd hlt' (not_lt_of_gt hlt)) hl hl'

lemma valueAt_filter (p : P) : valueAt (inputs.filter fun E => !E.list.isEmpty) p = valueAt inputs p := by
  induction inputs with
  | nil => rfl
  | cons E inputs ih =>
    rw [valueAt, valueAt] at *
    by_cases hE : E.list = []
    · have hnone : E.lookup p = none := Entries.lookup_eq_none.mpr fun v hv => by simp [hE] at hv
      rw [filter_cons_of_neg (by simp [hE]), findSome?_cons, hnone, ih]
    · rw [filter_cons_of_pos (by simpa using hE), findSome?_cons, findSome?_cons, ih]

lemma union_filter : union (inputs.filter fun E => !E.list.isEmpty) = union inputs := by
  have hpos : positions (inputs.filter fun E => !E.list.isEmpty) = positions inputs := by
    refine eq_of_mem_iff (positions_sorted _) (positions_sorted _) fun p => ?_
    rw [mem_positions, mem_positions]
    constructor
    · rintro ⟨E, hE, hp⟩
      exact ⟨E, (mem_filter.mp hE).1, hp⟩
    · rintro ⟨E, hE, v, hv⟩
      refine ⟨E, mem_filter.mpr ⟨hE, ?_⟩, v, hv⟩
      simpa using ne_nil_of_mem hv
  rw [union, union, hpos]
  simp only [valueAt_filter]

variable {inputs}

lemma union_singleton (E : Entries P V) : union [E] = E.list := by
  have hpos : positions [E] = E.list.map Prod.fst := by
    refine eq_of_mem_iff (positions_sorted _) (pairwise_map.mpr E.sorted) fun p => ?_
    rw [mem_positions]
    simp
  have hentry : ∀ e ∈ E.list, (valueAt [E] e.1).map (e.1, ·) = some e := by
    intro e he
    have hlookup : E.lookup e.1 = some e.2 := Entries.lookup_eq_some.mpr he
    rw [valueAt, findSome?_cons, hlookup]
    rfl
  rw [union, hpos, filterMap_map]
  exact (filterMap_congr hentry).trans filterMap_some

/-- The calls of an iterator. -/
inductive Call (P : Type*) where
  | reset
  | next
  | setPosition (p : P)
  | getItem
  | getPosition
  | atEnd

/-- What calls return. -/
inductive Answer (P W : Type*) where
  | done
  | found (hit : Bool)
  | item (w : W)
  | position (p : P)
  | ended (b : Bool)

lemma lawfulBEq : LawfulBEq P := inferInstance

-- named, so that the membership test below has no proof of its own
attribute [local instance] lawfulBEq

/-- The iterator at the position `o`, `none` behind the last one; the result `none` is an exception. -/
def call {W : Type*} (l : List P) (value : P → Option W) (o : Option P) : Call P → Option (Answer P W × Option P)
  | .reset => some (.done, l.head?)
  | .next => o.map fun p => (.done, l.find? (Cursor.isAfter p))
  | .setPosition p => if p ∈ l then some (.found true, some p) else some (.found false, none)
  | .getItem => (o.bind value).map fun w => (.item w, o)
  | .getPosition => o.map fun p => (.position p, o)
  | .atEnd => some (.ended o.isNone, o)

lemma agree_setPosition {σ W : Type*} {R : σ → Option P → Prop} {l : List P} {value : P → Option W} {o : Option P}
    {found : Bool} {s : σ} (hfound : found = decide (p ∈ l)) (hR : R s (if p ∈ l then some p else none)) :
    Agree R (some (.found found, s)) (call l value o (.setPosition p)) := by
  rw [call, hfound]
  split_ifs at hR ⊢ with hp
  · rw [decide_eq_true hp]
    exact .answer _ hR
  · rw [decide_eq_false hp]
    exact .answer _ hR

end Union

end SciDB.Lib
