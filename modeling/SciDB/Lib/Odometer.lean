import Mathlib

/-!
# Visiting positions in row-major order

A counter with several digits. A search that keeps the digit it carried into looks at few positions only (`candidates`), and
finds all if each row that has one begins with one (`RowsLed`).
-/

namespace SciDB.Lib

open List Option Bool

section After

variable {α : Type*} {xs u v : List α} {c f s : α} {own : α → Bool} {next : α → Option α}

lemma not_mem_of_nodup (h : (u ++ c :: v).Nodup) : c ∉ u := fun hc =>
  (nodup_append.mp h).2.2 c hc c mem_cons_self rfl

lemma exists_last (h : ∃ x ∈ xs, own x = true) : ∃ u c v, xs = u ++ c :: v ∧ own c = true ∧ ∀ x ∈ v, own x = false := by
  induction xs with
  | nil => simp at h
  | cons x xs ih =>
    by_cases hxs : ∃ y ∈ xs, own y = true
    · obtain ⟨u, c, v, rfl, hc, hv⟩ := ih hxs
      exact ⟨x :: u, c, v, rfl, hc, hv⟩
    · obtain ⟨y, hy, hown⟩ := h
      rcases mem_cons.mp hy with rfl | hy
      · exact ⟨[], y, xs, rfl, hown, fun z hz => not_eq_true _ ▸ fun hz' => hxs ⟨z, hz, hz'⟩⟩
      · exact absurd ⟨y, hy, hown⟩ hxs

inductive Visits (next : α → Option α) : α → List α → Prop
  | stop {a : α} : next a = none → Visits next a []
  | step {a b : α} {bs : List α} : next a = some b → Visits next b bs → Visits next a (b :: bs)

variable [DecidableEq α]

/-- What comes after an element. -/
def after (xs : List α) (c : α) : List α := if c ∈ xs then (xs.dropWhile (· ≠ c)).tail else xs

lemma after_of_not_mem (h : c ∉ xs) : after xs c = xs := if_neg h

lemma after_append (h : c ∉ u) : after (u ++ c :: v) c = v := by
  have hu : ∀ x ∈ u, decide (x ≠ c) = true := by
    intro x hx
    exact decide_eq_true fun hxc => h (hxc ▸ hx)
  rw [after, if_pos (by simp), dropWhile_append_of_pos hu, dropWhile_cons_of_neg (by simp), tail_cons]

lemma after_of_split (h : xs.Nodup) (hsplit : xs = u ++ c :: v) : after xs c = v := by
  rw [hsplit] at h ⊢
  exact after_append (not_mem_of_nodup h)

lemma exists_append_after (xs : List α) (c : α) : ∃ u, xs = u ++ after xs c := by
  unfold after
  split_ifs
  · obtain ⟨u, hu⟩ := (tail_suffix _).trans (dropWhile_suffix (l := xs) fun x => decide (x ≠ c))
    exact ⟨u, hu.symm⟩
  · exact ⟨[], rfl⟩

lemma after_of_after (h : xs.Nodup) (hsplit : after xs s = u ++ f :: v) : after xs f = v := by
  obtain ⟨w, hw⟩ := exists_append_after xs s
  rw [hsplit, ← append_assoc] at hw
  exact after_of_split h hw

open List

lemma agree_of_visits (h : xs.Nodup) (hv : Visits next s ((after xs s).filter own)) :
    next s = (after xs s).find? own ∧ ∀ p ∈ after xs s, own p = true → next p = (after xs p).find? own := by
  generalize hps : (after xs s).filter own = ps at hv
  induction hv with
  | stop hnext =>
    rw [filter_eq_nil_iff] at hps
    refine ⟨?_, fun p hp hown => absurd hown (hps p hp)⟩
    rwa [hnext, eq_comm, find?_eq_none]
  | @step a b bs hnext hrest ih =>
    have hfind : (after xs a).find? own = some b := by rw [← head?_filter, hps, head?_cons]
    obtain ⟨hb, u, v, hsplit, hu⟩ := find?_eq_some_iff_append.mp hfind
    have hafter := after_of_after h hsplit
    have hnone : u.filter own = [] := filter_eq_nil_iff.mpr fun x hx => by simpa using hu x hx
    have hbs : (after xs b).filter own = bs := by
      rw [hsplit, filter_append, hnone, nil_append, filter_cons_of_pos hb] at hps
      rw [hafter]
      exact (cons.inj hps).2
    obtain ⟨hagree, hagrees⟩ := ih hbs
    refine ⟨hnext.trans hfind.symm, fun p hp hown => ?_⟩
    rw [hsplit] at hp
    rcases mem_append.mp hp with hp | hp
    · exact absurd hown (by simpa using hu p hp)
    · rcases mem_cons.mp hp with rfl | hp
      · exact hagree
      · exact hagrees p (hafter ▸ hp) hown

lemma visits_of_agree (h : xs.Nodup) (hs : next s = (after xs s).find? own)
    (hagree : ∀ p ∈ xs, own p = true → next p = (after xs p).find? own) : Visits next s ((after xs s).filter own) := by
  induction hn : (after xs s).length using Nat.strongRecOn generalizing s with
  | ind n ih =>
    cases hfind : (after xs s).find? own with
    | none =>
      have hnil : (after xs s).filter own = [] := filter_eq_nil_iff.mpr (find?_eq_none.mp hfind)
      rw [hnil]
      exact .stop (hs.trans hfind)
    | some f =>
      obtain ⟨hf, u, v, hsplit, hu⟩ := find?_eq_some_iff_append.mp hfind
      have hafter := after_of_after h hsplit
      have hnone : u.filter own = [] := filter_eq_nil_iff.mpr fun x hx => by simpa using hu x hx
      have hmem : f ∈ xs := by
        obtain ⟨w, hw⟩ := exists_append_after xs s
        rw [hw, hsplit]
        simp
      rw [hsplit, filter_append, hnone, nil_append, filter_cons_of_pos hf, ← hafter]
      refine .step (hs.trans hfind) (ih _ ?_ (hagree f hmem hf) rfl)
      rw [hafter, ← hn, hsplit, length_append, length_cons]
      omega

lemma visits_filter_iff (h : xs.Nodup) (hs : s ∉ xs) :
    Visits next s (xs.filter own) ↔ next s = xs.find? own ∧ ∀ p ∈ xs, own p = true → next p = (after xs p).find? own := by
  have hall : after xs s = xs := after_of_not_mem hs
  constructor
  · intro hv
    rw [← hall] at hv
    simpa only [hall] using agree_of_visits h hv
  · rintro ⟨hfirst, hagree⟩
    have hv : Visits next s ((after xs s).filter own) := visits_of_agree h (hall.symm ▸ hfirst) hagree
    rwa [hall] at hv

end After

structure Axis (α : Type*) where
  first : α
  more : List α
  nodup : (first :: more).Nodup

variable {α : Type*}

/-- All values of a digit. -/
def Axis.digits (a : Axis α) : List α := a.first :: a.more

lemma Axis.nodup_digits (a : Axis α) : a.digits.Nodup := a.nodup

/-- The first position. -/
def firsts (dims : List (Axis α)) : List α := dims.map Axis.first

/-- All positions, in row-major order. -/
def positions : List (Axis α) → List (List α)
  | [] => [[]]
  | a :: dims => a.digits.flatMap fun c => (positions dims).map (c :: ·)

/-- Before the first position. -/
def Before : List (Axis α) → List α → Prop
  | [a], [c] => c ∉ a.digits
  | a :: b :: dims, c :: p => c = a.first ∧ Before (b :: dims) p
  | _, _ => False

/-- Rows begin with a position. -/
def RowsLed : List (Axis α) → (List α → Bool) → Prop
  | [], _ => True
  | a :: dims, own => (∀ c ∈ a.digits, RowsLed dims fun p => own (c :: p)) ∧
      ∀ c ∈ a.more, (∃ p ∈ positions dims, own (c :: p) = true) → own (c :: firsts dims) = true

def candidates [DecidableEq α] : List (Axis α) → List α → List (List α)
  | a :: dims, c :: p => (candidates dims p).map (c :: ·) ++ (after a.digits c).map (· :: firsts dims)
  | _, _ => []

section Positions

variable {a : Axis α} {dims : List (Axis α)} {own : List α → Bool} {c : α} {p : List α} {cs u v : List α}

lemma positions_cons_eq (dims : List (Axis α)) : ∃ t, positions dims = firsts dims :: t := by
  induction dims with
  | nil => exact ⟨[], rfl⟩
  | cons a dims ih =>
    obtain ⟨t, ht⟩ := ih
    refine ⟨t.map (a.first :: ·) ++ a.more.flatMap fun c => (positions dims).map (c :: ·), ?_⟩
    rw [positions, Axis.digits, flatMap_cons, ht, map_cons]
    rfl

lemma firsts_mem_positions (dims : List (Axis α)) : firsts dims ∈ positions dims := by
  obtain ⟨t, ht⟩ := positions_cons_eq dims
  simp [ht]

lemma mem_positions_cons : c :: p ∈ positions (a :: dims) ↔ c ∈ a.digits ∧ p ∈ positions dims := by
  simp [positions]

lemma exists_of_mem_positions (h : p ∈ positions (a :: dims)) : ∃ c q, p = c :: q ∧ c ∈ a.digits ∧ q ∈ positions dims := by
  obtain ⟨c, hc, hp⟩ := mem_flatMap.mp h
  obtain ⟨q, hq, rfl⟩ := mem_map.mp hp
  exact ⟨c, q, rfl, hc, hq⟩

lemma append_mem_positions {dims' : List (Axis α)} {q : List α} (hp : p ∈ positions dims) (hq : q ∈ positions dims') :
    p ++ q ∈ positions (dims ++ dims') := by
  induction dims generalizing p with
  | nil =>
    rwa [mem_singleton.mp hp]
  | cons a dims ih =>
    obtain ⟨c, p', rfl, hc, hp'⟩ := exists_of_mem_positions hp
    exact mem_positions_cons.mpr ⟨hc, ih hp'⟩

lemma nodup_positions (dims : List (Axis α)) : (positions dims).Nodup := by
  induction dims with
  | nil => exact nodup_singleton _
  | cons a dims ih =>
    refine nodup_flatMap.mpr ⟨fun c _ => ih.map fun p q h => (cons.inj h).2, ?_⟩
    refine a.nodup.imp fun {c d} hcd p hp hq => ?_
    obtain ⟨p', -, rfl⟩ := mem_map.mp hp
    obtain ⟨q', -, hq'⟩ := mem_map.mp hq
    exact hcd (cons.inj hq').1.symm

lemma not_mem_of_before (h : Before dims p) : p ∉ positions dims := by
  induction dims generalizing p with
  | nil => cases h
  | cons a dims ih =>
    cases dims with
    | nil =>
      match p, h with
      | [c], h => exact fun hc => h (mem_positions_cons.mp hc).1
    | cons b dims =>
      match p, h with
      | c :: q, h => exact fun hc => ih h.2 (mem_positions_cons.mp hc).2

lemma find?_flatMap (h : ∀ c ∈ cs, (∃ p ∈ positions dims, own (c :: p) = true) → own (c :: firsts dims) = true) :
    (cs.map (· :: firsts dims)).find? own = (cs.flatMap fun c => (positions dims).map (c :: ·)).find? own := by
  induction cs with
  | nil => rfl
  | cons c cs ih =>
    obtain ⟨t, ht⟩ := positions_cons_eq dims
    have hrest := ih fun d hd => h d (mem_cons_of_mem _ hd)
    rw [map_cons, flatMap_cons, find?_append, find?_cons]
    cases hown : own (c :: firsts dims) with
    | true => rw [ht, map_cons, find?_cons, hown, some_or]
    | false =>
      have hnone : ((positions dims).map (c :: ·)).find? own = none := by
        rw [find?_eq_none]
        intro x hx hx'
        obtain ⟨p, hp, rfl⟩ := mem_map.mp hx
        rw [h c mem_cons_self ⟨p, hp, hx'⟩] at hown
        cases hown
      rwa [hnone, none_or]

lemma before_or_mem_cons (hp : p ∈ positions (a :: dims) ∨ Before (a :: dims) p) :
    (∃ c, p = [c] ∧ dims = [] ∧ c ∉ a.digits) ∨ ∃ c q, p = c :: q ∧ c ∈ a.digits ∧
      (q ∈ positions dims ∨ c = a.first ∧ Before dims q) := by
  rcases hp with hp | hp
  · obtain ⟨c, q, rfl, hc, hq⟩ := exists_of_mem_positions hp
    exact .inr ⟨c, q, rfl, hc, .inl hq⟩
  · cases dims with
    | nil =>
      match p, hp with
      | [c], hp => exact .inl ⟨c, rfl, rfl, hp⟩
    | cons b dims =>
      match p, hp with
      | c :: q, hp => exact .inr ⟨c, q, rfl, hp.1 ▸ mem_cons_self, .inr hp⟩

lemma rowsLed_iff : RowsLed dims own ↔ ∀ p ∈ positions dims, own p = true → ∀ j : ℕ, p[j]? ≠ (firsts dims)[j]? →
    own (p.take (j + 1) ++ (firsts dims).drop (j + 1)) = true := by
  induction dims generalizing own with
  | nil =>
    refine ⟨fun _ p hp _ j hj => ?_, fun _ => trivial⟩
    rw [mem_singleton.mp hp] at hj
    exact absurd rfl hj
  | cons a dims ih =>
    rw [RowsLed]
    constructor
    · rintro ⟨hrows, hled⟩ p hp hown j hj
      obtain ⟨c, q, rfl, hc, hq⟩ := exists_of_mem_positions hp
      cases j with
      | zero =>
        have hne : c ≠ a.first := fun h => hj (by rw [h]; rfl)
        exact hled c ((mem_cons.mp hc).resolve_left hne) ⟨q, hq, hown⟩
      | succ j => exact ih.mp (hrows c hc) q hq hown j hj
    · intro h
      refine ⟨fun c hc => ih.mpr fun q hq hown j hj => ?_, fun c hc hrow => ?_⟩
      · exact h (c :: q) (mem_positions_cons.mpr ⟨hc, hq⟩) hown (j + 1) hj
      · obtain ⟨q, hq, hown⟩ := hrow
        have hne : c ≠ a.first := fun h => (nodup_cons.mp a.nodup).1 (h ▸ hc)
        refine h (c :: q) (mem_positions_cons.mpr ⟨mem_cons_of_mem _ hc, hq⟩) hown 0 fun h0 => hne ?_
        simpa [firsts] using h0

end Positions

section Search

variable [DecidableEq α] {a : Axis α} {dims : List (Axis α)} {own : List α → Bool} {c : α} {p : List α} {s : List α}

lemma after_first : after a.digits a.first = a.more := after_append not_mem_nil

lemma after_positions_cons (hc : c ∈ a.digits) (hp : p ∈ positions dims ∨ c = a.first ∧ p ∉ positions dims) :
    after (positions (a :: dims)) (c :: p) =
      (after (positions dims) p).map (c :: ·) ++ (after a.digits c).flatMap fun d => (positions dims).map (d :: ·) := by
  rcases hp with hp | ⟨rfl, hp⟩
  · obtain ⟨u, v, hdigits⟩ := append_of_mem hc
    obtain ⟨x, y, hpos⟩ := append_of_mem hp
    have hsplit : positions (a :: dims) = (u.flatMap fun d => (positions dims).map (d :: ·)) ++ x.map (c :: ·) ++
        (c :: p) :: (y.map (c :: ·) ++ v.flatMap fun d => (positions dims).map (d :: ·)) := by
      have hrow : (positions dims).map (c :: ·) = x.map (c :: ·) ++ (c :: p) :: y.map (c :: ·) := by
        rw [hpos, map_append, map_cons]
      rw [positions, hdigits, flatMap_append, flatMap_cons, hrow]
      simp
    rw [after_of_split a.nodup_digits hdigits, after_of_split (nodup_positions dims) hpos,
      after_of_split (nodup_positions (a :: dims)) hsplit]
  · rw [after_of_not_mem (fun h => hp (mem_positions_cons.mp h).2), after_of_not_mem hp, after_first]
    rfl

lemma mem_more_of_mem_after {d : α} (hc : c ∈ a.digits) (hd : d ∈ after a.digits c) : d ∈ a.more ∧ d ≠ c := by
  obtain ⟨u, v, hdigits⟩ := append_of_mem hc
  have hnodup := hdigits ▸ a.nodup_digits
  rw [after_of_split a.nodup_digits hdigits] at hd
  refine ⟨?_, ?_⟩
  · cases u with
    | nil => exact (cons.inj hdigits).2 ▸ hd
    | cons x u =>
      rw [(cons.inj hdigits).2]
      simp [hd]
  · rintro rfl
    exact (nodup_cons.mp (nodup_append.mp hnodup).2.1).1 hd

lemma find?_candidates (hled : RowsLed dims own) (hp : p ∈ positions dims ∨ Before dims p) :
    (candidates dims p).find? own = (after (positions dims) p).find? own := by
  induction dims generalizing p own with
  | nil =>
    rcases hp with hp | hp
    · rw [mem_singleton.mp hp]
      rfl
    · cases hp
  | cons a dims ih =>
    obtain ⟨hrows, hled⟩ := hled
    rcases before_or_mem_cons hp with ⟨c, rfl, rfl, hc⟩ | ⟨c, q, rfl, hc, hq⟩
    · have hall : after (positions [a]) [c] = positions [a] := after_of_not_mem fun h => hc (mem_positions_cons.mp h).1
      rw [hall, candidates, after_of_not_mem hc]
      refine find?_flatMap fun d _ h => ?_
      obtain ⟨p, hp, hown⟩ := h
      rwa [mem_singleton.mp hp] at hown
    · have hafter := after_positions_cons hc (hq.imp id fun h => ⟨h.1, not_mem_of_before h.2⟩)
      rw [hafter, candidates, find?_append, find?_append]
      congr 1
      · rw [find?_map, find?_map]
        exact congrArg _ (ih (hrows c hc) (hq.imp id And.right))
      · exact find?_flatMap fun d hd => hled d (mem_more_of_mem_after hc hd).1

lemma mem_candidates_cons {x : List α} (h : x ∈ candidates (a :: dims) (c :: p)) :
    (∃ q ∈ candidates dims p, x = c :: q) ∨ ∃ d ∈ after a.digits c, x = d :: firsts dims := by
  rcases mem_append.mp h with h | h
  · obtain ⟨q, hq, rfl⟩ := mem_map.mp h
    exact .inl ⟨q, hq, rfl⟩
  · obtain ⟨d, hd, rfl⟩ := mem_map.mp h
    exact .inr ⟨d, hd, rfl⟩

lemma mem_positions_of_mem_candidates {x : List α} (hp : p ∈ positions dims ∨ Before dims p)
    (hx : x ∈ candidates dims p) : x ∈ positions dims := by
  induction dims generalizing p x with
  | nil => simp [candidates] at hx
  | cons a dims ih =>
    have hdigits : ∀ c, ∀ d ∈ after a.digits c, d ∈ a.digits := by
      intro c d hd
      obtain ⟨u, hu⟩ := exists_append_after a.digits c
      rw [hu]
      exact mem_append_right _ hd
    rcases before_or_mem_cons hp with ⟨c, rfl, rfl, hc⟩ | ⟨c, q, rfl, hc, hq⟩ <;>
      rcases mem_candidates_cons hx with ⟨y, hy, rfl⟩ | ⟨d, hd, rfl⟩
    · simp [candidates] at hy
    · exact mem_positions_cons.mpr ⟨hdigits c d hd, firsts_mem_positions _⟩
    · exact mem_positions_cons.mpr ⟨hc, ih (hq.imp id And.right) hy⟩
    · exact mem_positions_cons.mpr ⟨hdigits c d hd, firsts_mem_positions _⟩

lemma candidates_before (h : Before dims p) : ∃ t, candidates dims p = firsts dims :: t := by
  induction dims generalizing p with
  | nil => cases h
  | cons a dims ih =>
    cases dims with
    | nil =>
      match p, h with
      | [c], h =>
        refine ⟨a.more.map (· :: []), ?_⟩
        rw [candidates, after_of_not_mem h]
        rfl
    | cons b dims =>
      match p, h with
      | c :: q, h =>
        obtain ⟨rfl, h⟩ := h
        obtain ⟨t, ht⟩ := ih h
        refine ⟨t.map (a.first :: ·) ++ (after a.digits a.first).map (· :: firsts (b :: dims)), ?_⟩
        rw [candidates, ht]
        rfl

lemma agree_row (hc : c ∈ a.digits) (hp : p ∈ positions dims ∨ c = a.first ∧ Before dims p)
    (h : (candidates (a :: dims) (c :: p)).find? own = (after (positions (a :: dims)) (c :: p)).find? own) :
    (candidates dims p).find? (fun q => own (c :: q)) = (after (positions dims) p).find? fun q => own (c :: q) := by
  have hmap : ∀ qs : List (List α), (qs.map (c :: ·)).find? own = (qs.find? fun q => own (c :: q)).map (c :: ·) :=
    fun qs => find?_map ..
  rw [after_positions_cons hc (hp.imp id fun h => ⟨h.1, not_mem_of_before h.2⟩), candidates, find?_append,
    find?_append, hmap, hmap] at h
  cases hx : (candidates dims p).find? (fun q => own (c :: q)) with
  | some x =>
    cases hy : (after (positions dims) p).find? (fun q => own (c :: q)) with
    | some y =>
      rw [hx, hy] at h
      exact congrArg some (cons.inj (some.inj h)).2
    | none =>
      rw [hx, hy] at h
      obtain ⟨d, hd, hmem⟩ := mem_flatMap.mp (mem_of_find?_eq_some h.symm)
      obtain ⟨q, -, hq⟩ := mem_map.mp hmem
      exact absurd (cons.inj hq).1 (mem_more_of_mem_after hc hd).2
  | none =>
    cases hy : (after (positions dims) p).find? (fun q => own (c :: q)) with
    | some y =>
      rw [hx, hy] at h
      obtain ⟨d, hd, hq⟩ := mem_map.mp (mem_of_find?_eq_some h)
      exact absurd (cons.inj hq).1 (mem_more_of_mem_after hc hd).2
    | none => rfl

lemma led_of_agree {z rest : List (List α)} {d : α} (hs : s = d :: p) (hd : d ≠ c)
    (hown : ∃ q ∈ positions dims, own (c :: q) = true) (hz : ∀ x ∈ z, own x = false)
    (hafter : after (positions (a :: dims)) s = z ++ ((positions dims).map (c :: ·) ++ rest))
    (h : (candidates (a :: dims) s).find? own = (after (positions (a :: dims)) s).find? own) : own (c :: firsts dims) = true := by
  have hnone : z.find? own = none := find?_eq_none.mpr fun x hx => by simp [hz x hx]
  obtain ⟨f, hf⟩ : ∃ f, ((positions dims).map (c :: ·)).find? own = some f := by
    obtain ⟨q, hq, hq'⟩ := hown
    exact isSome_iff_exists.mp (find?_isSome.mpr ⟨c :: q, mem_map_of_mem hq, hq'⟩)
  rw [hafter, find?_append, hnone, none_or, find?_append, hf, some_or] at h
  obtain ⟨q, -, rfl⟩ := mem_map.mp (mem_of_find?_eq_some hf)
  subst hs
  rcases mem_candidates_cons (mem_of_find?_eq_some h) with ⟨q', -, hq'⟩ | ⟨d', -, hq'⟩
  · exact absurd (cons.inj hq').1.symm hd
  · rw [← (cons.inj hq').2]
    exact find?_some hf

lemma rowsLed_of_agree (hs : Before dims s) (hfirst : (candidates dims s).find? own = (positions dims).find? own)
    (h : ∀ p ∈ positions dims, own p = true → (candidates dims p).find? own = (after (positions dims) p).find? own) :
    RowsLed dims own := by
  induction dims generalizing own s with
  | nil => trivial
  | cons a dims ih =>
    have hnot := not_mem_of_before hs
    rcases before_or_mem_cons (.inr hs) with ⟨c, rfl, rfl, hc⟩ | ⟨c, s, rfl, hc, hs'⟩
    · refine ⟨fun _ _ => trivial, fun d _ hd => ?_⟩
      obtain ⟨q, hq, hown⟩ := hd
      rwa [mem_singleton.mp hq] at hown
    · obtain ⟨rfl, hbefore⟩ := hs'.resolve_left fun h => hnot (mem_positions_cons.mpr ⟨hc, h⟩)
      have hall : after (positions (a :: dims)) (a.first :: s) = positions (a :: dims) := after_of_not_mem hnot
      have hled : ∀ d ∈ a.more, (∃ q ∈ positions dims, own (d :: q) = true) → own (d :: firsts dims) = true := by
        intro d hd hown
        obtain ⟨u, v, hmore⟩ := append_of_mem hd
        have hdigits : a.digits = (a.first :: u) ++ d :: v := by rw [Axis.digits, hmore, cons_append]
        have hnew : d ∉ a.first :: u := not_mem_of_nodup (hdigits ▸ a.nodup_digits)
        have hsplit : positions (a :: dims) = ((a.first :: u).flatMap fun d => (positions dims).map (d :: ·)) ++
            ((positions dims).map (d :: ·) ++ v.flatMap fun d => (positions dims).map (d :: ·)) := by
          rw [positions, hdigits, flatMap_append]
          rfl
        by_cases hearlier : ∃ x ∈ (a.first :: u).flatMap fun d => (positions dims).map (d :: ·), own x = true
        · -- the search goes on from the last own position before the row
          obtain ⟨x, y, z, hxyz, hy, hz⟩ := exists_last hearlier
          have hmem : y ∈ (a.first :: u).flatMap fun d => (positions dims).map (d :: ·) := by simp [hxyz]
          obtain ⟨d', hd', hrow⟩ := mem_flatMap.mp hmem
          obtain ⟨q, -, rfl⟩ := mem_map.mp hrow
          rw [hxyz, append_assoc, cons_append] at hsplit
          have hafter := after_of_split (nodup_positions (a :: dims)) hsplit
          exact led_of_agree rfl (fun hd => hnew (hd ▸ hd')) hown hz hafter (h _ (by simp [hsplit]) hy)
        · -- there is none, and the search has not begun
          refine led_of_agree rfl (fun hd => hnew (hd ▸ mem_cons_self)) hown (fun x hx => ?_) (hall.trans hsplit)
            (hfirst.trans (by rw [hall]))
          rw [← not_eq_true]
          exact fun hx' => hearlier ⟨x, hx, hx'⟩
      refine ⟨fun d hd => ih hbefore ?_ fun p hp hown =>
        agree_row hd (.inl hp) (h _ (mem_positions_cons.mpr ⟨hd, hp⟩) hown), hled⟩
      rcases mem_cons.mp hd with rfl | hd
      · have hrow := agree_row hc (.inr ⟨rfl, hbefore⟩) (hfirst.trans (by rw [hall]))
        rwa [after_of_not_mem (not_mem_of_before hbefore)] at hrow
      · cases hown : own (d :: firsts dims) with
        | true =>
          obtain ⟨t, ht⟩ := candidates_before hbefore
          obtain ⟨t', ht'⟩ := positions_cons_eq dims
          rw [ht, ht', find?_cons, find?_cons, hown]
        | false =>
          have hnone : ∀ q ∈ positions dims, ¬ own (d :: q) = true := fun q hq hq' =>
            false_ne_true (hown.symm.trans (hled d hd ⟨q, hq, hq'⟩))
          rw [find?_eq_none.mpr hnone, find?_eq_none.mpr fun q hq =>
            hnone q (mem_positions_of_mem_candidates (.inr hbefore) hq)]

/-- **The search visits its own positions in order exactly if each row but the first that has one begins with one.** -/
lemma visits_candidates_iff (hs : Before dims s) :
    Visits (fun p => (candidates dims p).find? own) s ((positions dims).filter own) ↔ RowsLed dims own := by
  rw [visits_filter_iff (nodup_positions dims) (not_mem_of_before hs)]
  constructor
  · rintro ⟨hfirst, h⟩
    exact rowsLed_of_agree hs hfirst h
  · intro hled
    refine ⟨?_, fun p hp _ => find?_candidates hled (.inl hp)⟩
    have hfind := find?_candidates hled (.inr hs)
    rwa [after_of_not_mem (not_mem_of_before hs)] at hfind

end Search

end SciDB.Lib
