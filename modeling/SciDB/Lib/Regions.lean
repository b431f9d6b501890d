import SciDB.Lib.Words

/-!
# Positions in boxes of a grid

Positions are lists of integers in lexicographic order. A region is a box of which only positions at certain steps count;
`nextIn` and `leastFrom` give the next one and the first one from a position on.
-/

namespace SciDB.Lib

open List

lemma cons_le_cons {x y : ℤ} {xs ys : List ℤ} : x :: xs ≤ y :: ys ↔ x < y ∨ x = y ∧ xs ≤ ys := by
  rw [← not_lt, cons_lt_cons_iff, not_or, not_and, not_lt]
  constructor
  · rintro ⟨hle, htail⟩
    rcases hle.lt_or_eq with hlt | rfl
    · exact .inl hlt
    · exact .inr ⟨rfl, not_lt.mp (htail rfl)⟩
  · rintro (hlt | ⟨rfl, hle⟩)
    · exact ⟨hlt.le, fun he => absurd he hlt.ne'⟩
    · exact ⟨le_rfl, fun _ => not_lt.mpr hle⟩

/-- What holds of all lists in a relation to a list holds of single elements, as the other places can be filled. -/
lemma forall_of_forall₂ {α β : Type} {R S : α → β → Prop} {l : List α} (hex : ∀ a ∈ l, ∃ b, R a b)
    (h : ∀ q, Forall₂ R l q → Forall₂ S l q) : ∀ a ∈ l, ∀ b, R a b → S a b := by
  have hfill : ∀ {l : List α}, (∀ a ∈ l, ∃ b, R a b) → ∃ q, Forall₂ R l q := by
    intro l
    induction l with
    | nil => exact fun _ => ⟨[], .nil⟩
    | cons a l ih =>
      intro hex
      obtain ⟨⟨b, hb⟩, hl⟩ := forall_mem_cons.mp hex
      obtain ⟨q, hq⟩ := ih hl
      exact ⟨b :: q, .cons hb hq⟩
  induction l with
  | nil => exact fun a ha => absurd ha not_mem_nil
  | cons a l ih =>
    obtain ⟨⟨b, hb⟩, hl⟩ := forall_mem_cons.mp hex
    obtain ⟨q, hq⟩ := hfill hl
    exact forall_mem_cons.mpr ⟨fun b' hb' => (forall₂_cons.mp (h (b' :: q) (.cons hb' hq))).1,
      ih hl fun q' hq' => (forall₂_cons.mp (h (b :: q') (.cons hb hq'))).2⟩

/-- One side of a region. -/
structure Side where
  low : ℤ
  high : ℤ
  step : ℤ
  low_le_high : low ≤ high
  step_pos : 0 < step

namespace Side

/-- A coordinate in the side. -/
def Mem (d : Side) (x : ℤ) : Prop := d.low ≤ x ∧ x ≤ d.high ∧ d.step ∣ x - d.low

/-- Some steps from the low end. -/
def OnGrid (d : Side) (x : ℤ) : Prop := d.step ∣ x - d.low

lemma mem_low (d : Side) : d.Mem d.low := ⟨le_rfl, d.low_le_high, by simp⟩

lemma OnGrid.add_step_le {d : Side} {x y : ℤ} (hx : d.OnGrid x) (hy : d.OnGrid y) (h : x < y) : x + d.step ≤ y := by
  have hdvd : d.step ∣ y - x := by
    have := Int.dvd_sub hy hx
    rwa [sub_sub_sub_cancel_right] at this
  have := Int.le_of_dvd (by omega) hdvd
  omega

lemma OnGrid.add_step {d : Side} {x : ℤ} (hx : d.OnGrid x) : d.OnGrid (x + d.step) := by
  unfold OnGrid at *
  rw [add_sub_right_comm]
  exact Int.dvd_add hx (Int.dvd_refl _)

/-- The side is within `int64`. -/
def InInt64 (d : Side) : Prop := -2 ^ 63 ≤ d.low ∧ d.high < 2 ^ 63 ∧ d.step < 2 ^ 63

/-- A step from any position of the side stays inside `int64`. -/
def Fits (d : Side) : Prop := -2 ^ 63 ≤ d.low ∧ ∀ x, d.Mem x → x + d.step < 2 ^ 63

lemma fits_of_high {d : Side} (hlow : -2 ^ 63 ≤ d.low) (hhigh : d.high + d.step < 2 ^ 63) : d.Fits := by
  refine ⟨hlow, fun x hx => ?_⟩
  have := hx.2.1
  omega

lemma Fits.int64_add_step {d : Side} {x : ℤ} (h : d.Fits) (hgrid : d.OnGrid x) (hlow : -2 ^ 63 ≤ x) (hhigh : x ≤ d.high) :
    int64 (x + d.step) = x + d.step := by
  have := d.step_pos
  refine int64_eq ⟨by omega, ?_⟩
  by_cases hx : d.low ≤ x
  · exact h.2 x ⟨hx, hhigh, hgrid⟩
  · have := hgrid.add_step_le d.mem_low.2.2 (not_le.mp hx)
    have := h.2 d.low d.mem_low
    omega

end Side

/-- A box with its grid. -/
abbrev Region := List Side

namespace Region

/-- A position of the region. -/
def Mem (r : Region) (p : List ℤ) : Prop := List.Forall₂ Side.Mem r p

/-- A position of the grid. -/
def OnGrid (r : Region) (p : List ℤ) : Prop := List.Forall₂ Side.OnGrid r p

/-- No step leaves `int64`. -/
def Fits (r : Region) : Prop := ∀ d ∈ r, d.Fits

/-- The first position. -/
def lows (r : Region) : List ℤ := r.map Side.low

/-- The last corner of the box. -/
def highs (r : Region) : List ℤ := r.map Side.high

lemma mem_cons {d : Side} {ds : Region} {p : List ℤ} : Mem (d :: ds) p ↔ ∃ x xs, p = x :: xs ∧ d.Mem x ∧ Mem ds xs := by
  constructor
  · intro h
    cases h with
    | cons hx hxs => exact ⟨_, _, rfl, hx, hxs⟩
  · rintro ⟨x, xs, rfl, hx, hxs⟩
    exact .cons hx hxs

lemma mem_lows : ∀ r : Region, Mem r r.lows
  | [] => .nil
  | d :: ds => .cons d.mem_low (mem_lows ds)

lemma fits_of_mem {r : Region} (hlow : ∀ d ∈ r, -2 ^ 63 ≤ d.low)
    (h : ∀ p, Mem r p → List.Forall₂ (fun d x => x + d.step < 2 ^ 63) r p) : Fits r :=
  fun d hd => ⟨hlow d hd, forall_of_forall₂ (fun d _ => ⟨_, d.mem_low⟩) h d hd⟩

lemma Fits.add_step_lt {r : Region} {p : List ℤ} (hfit : Fits r) (h : Mem r p) :
    List.Forall₂ (fun d x => x + d.step < 2 ^ 63) r p := by
  induction h with
  | nil => exact .nil
  | cons hx _ ih =>
    obtain ⟨hd, hds⟩ := forall_mem_cons.mp hfit
    exact .cons (hd.2 _ hx) (ih hds)

lemma lows_le : ∀ {r : Region} {p : List ℤ}, Mem r p → r.lows ≤ p
  | [], [], .nil => le_rfl
  | d :: ds, x :: xs, .cons hx hxs => by
    rw [lows, map_cons, cons_le_cons]
    rcases hx.1.lt_or_eq with hlt | heq
    · exact .inl hlt
    · exact .inr ⟨heq, lows_le hxs⟩

lemma le_highs : ∀ {r : Region} {p : List ℤ}, Mem r p → p ≤ r.highs
  | [], [], .nil => le_rfl
  | d :: ds, x :: xs, .cons hx hxs => by
    rw [highs, map_cons, cons_le_cons]
    rcases hx.2.1.lt_or_eq with hlt | heq
    · exact .inl hlt
    · exact .inr ⟨heq, le_highs hxs⟩

end Region

/-- The first of the positions that satisfy both conditions; `none` if there is none. -/
def LeastIn (M A : List ℤ → Prop) : Option (List ℤ) → Prop
  | some q => M q ∧ A q ∧ ∀ q', M q' → A q' → q ≤ q'
  | none => ∀ q', M q' → ¬A q'

namespace LeastIn

variable {M A B : List ℤ → Prop} {o o' : Option (List ℤ)} {p q : List ℤ}

lemma unique (h : LeastIn M A o) (h' : LeastIn M A o') : o = o' := by
  cases o with
  | none =>
    cases o' with
    | none => rfl
    | some q' => exact absurd h'.2.1 (h q' h'.1)
  | some q =>
    cases o' with
    | none => exact absurd h.2.1 (h' q h.1)
    | some q' => exact congrArg some (le_antisymm (h.2.2 q' h'.1 h'.2.1) (h'.2.2 q h.1 h.2.1))

lemma congr (h : LeastIn M A o) (hAB : ∀ q, M q → (A q ↔ B q)) : LeastIn M B o := by
  cases o with
  | none => exact fun q hq hb => h q hq ((hAB q hq).mpr hb)
  | some q => exact ⟨h.1, (hAB q h.1).mp h.2.1, fun q' hq' hb => h.2.2 q' hq' ((hAB q' hq').mpr hb)⟩

end LeastIn

namespace Region

lemma leastIn_step {d : Side} {ds : Region} {A : List ℤ → Prop} {x : ℤ} (hx : d.OnGrid x) (hlow : d.low ≤ x)
    (hA : ∀ y ys, d.Mem y → Mem ds ys → A (y :: ys) → x < y) (hA' : ∀ y ys, x < y → A (y :: ys)) :
    LeastIn (Mem (d :: ds)) A (if x + d.step ≤ d.high then some ((x + d.step) :: lows ds) else none) := by
  have hpos := d.step_pos
  split_ifs with hle
  · have hmem : d.Mem (x + d.step) := ⟨by omega, hle, hx.add_step⟩
    refine ⟨.cons hmem (mem_lows ds), hA' _ _ (by omega), fun q hq hAq => ?_⟩
    obtain ⟨y, ys, rfl, hy, hys⟩ := mem_cons.mp hq
    rw [cons_le_cons]
    rcases (hx.add_step_le hy.2.2 (hA y ys hy hys hAq)).lt_or_eq with hlt | heq
    · exact .inl hlt
    · exact .inr ⟨heq, lows_le hys⟩
  · intro q hq hAq
    obtain ⟨y, ys, rfl, hy, hys⟩ := mem_cons.mp hq
    exact hle ((hx.add_step_le hy.2.2 (hA y ys hy hys hAq)).trans hy.2.1)

/-- The next position. -/
def nextIn : Region → List ℤ → Option (List ℤ)
  | d :: ds, x :: xs =>
    match nextIn ds xs with
    | some xs' => some (x :: xs')
    | none => if x + d.step ≤ d.high then some ((x + d.step) :: lows ds) else none
  | _, _ => none

lemma nextIn_isLeast {r : Region} {p : List ℤ} (h : r.Mem p) : LeastIn r.Mem (p < ·) (r.nextIn p) := by
  induction h with
  | nil =>
    intro q hq
    cases hq
    exact lt_irrefl _
  | @cons d x ds xs hx hxs ih =>
    rw [nextIn]
    cases hnext : nextIn ds xs with
    | some xs' =>
      rw [hnext] at ih
      obtain ⟨hmem, hlt, hleast⟩ := ih
      refine ⟨.cons hx hmem, cons_lt_cons_iff.mpr (.inr ⟨rfl, hlt⟩), fun q hq hpq => ?_⟩
      obtain ⟨y, ys, rfl, -, hys⟩ := mem_cons.mp hq
      rw [cons_le_cons]
      rcases cons_lt_cons_iff.mp hpq with hlt | ⟨rfl, hlt⟩
      · exact .inl hlt
      · exact .inr ⟨rfl, hleast ys hys hlt⟩
    | none =>
      rw [hnext] at ih
      refine leastIn_step hx.2.2 hx.1 (fun y ys _ hys hpq => ?_) fun y ys hlt => cons_lt_cons_iff.mpr (.inl hlt)
      rcases cons_lt_cons_iff.mp hpq with hlt | ⟨rfl, hlt⟩
      · exact hlt
      · exact absurd hlt (ih ys hys)

def leastFrom : Region → List ℤ → Option (List ℤ)
  | d :: ds, x :: xs =>
    if x < d.low then some (lows (d :: ds))
    else if d.high < x then none
    else match leastFrom ds xs with
      | some xs' => some (x :: xs')
      | none => if x + d.step ≤ d.high then some ((x + d.step) :: lows ds) else none
  | [], [] => some []
  | _, _ => none

lemma leastFrom_isLeast {r : Region} {p : List ℤ} (h : r.OnGrid p) : LeastIn r.Mem (p ≤ ·) (r.leastFrom p) := by
  induction h with
  | nil => exact ⟨.nil, le_rfl, fun q _ h => h⟩
  | @cons d x ds xs hx hxs ih =>
    rw [leastFrom]
    by_cases hlow : x < d.low
    · rw [if_pos hlow]
      exact ⟨mem_lows _, cons_le_cons.mpr (.inl hlow), fun q hq _ => lows_le hq⟩
    rw [if_neg hlow]
    by_cases hhigh : d.high < x
    · rw [if_pos hhigh]
      intro q hq hpq
      obtain ⟨y, ys, rfl, hy, -⟩ := mem_cons.mp hq
      have := hy.2.1
      rcases cons_le_cons.mp hpq with hlt | ⟨rfl, -⟩
      · omega
      · omega
    rw [if_neg hhigh]
    have hmem : d.Mem x := ⟨by omega, by omega, hx⟩
    cases hfrom : leastFrom ds xs with
    | some xs' =>
      rw [hfrom] at ih
      obtain ⟨hin, hle, hleast⟩ := ih
      refine ⟨.cons hmem hin, cons_le_cons.mpr (.inr ⟨rfl, hle⟩), fun q hq hpq => ?_⟩
      obtain ⟨y, ys, rfl, -, hys⟩ := mem_cons.mp hq
      rw [cons_le_cons]
      rcases cons_le_cons.mp hpq with hlt | ⟨rfl, hle⟩
      · exact .inl hlt
      · exact .inr ⟨rfl, hleast ys hys hle⟩
    | none =>
      rw [hfrom] at ih
      refine leastIn_step hx hmem.1 (fun y ys _ hys hpq => ?_) fun y ys hlt => cons_le_cons.mpr (.inl hlt)
      rcases cons_le_cons.mp hpq with hlt | ⟨rfl, hle⟩
      · exact hlt
      · exact absurd hle (ih ys hys)

end Region

lemma remaining_induction {M : List ℤ → Prop} {motive : (List ℤ → Prop) → Prop} (hfin : {q | M q}.Finite)
    (step : ∀ A, (∀ c, M c → A c → motive fun q => A q ∧ c < q) → motive A) (A : List ℤ → Prop) : motive A := by
  obtain ⟨n, hn⟩ : ∃ n, {q | M q ∧ A q}.ncard = n := ⟨_, rfl⟩
  induction n using Nat.strong_induction_on generalizing A with
  | _ n ih =>
    refine step A fun c hc hA => ih _ ?_ _ rfl
    have hsub : {q | M q ∧ A q ∧ c < q} ⊂ {q | M q ∧ A q} :=
      ⟨fun q hq => ⟨hq.1, hq.2.1⟩, fun hall => lt_irrefl c (hall ⟨hc, hA⟩).2.2⟩
    exact hn ▸ Set.ncard_lt_ncard hsub (hfin.subset fun q hq => hq.1)

/-- What a loop comes to. -/
def visited {σ : Type} (now : σ → Option (List ℤ)) (next : σ → σ) : ℕ → σ → List (List ℤ)
  | 0, _ => []
  | fuel + 1, s =>
    match now s with
    | none => []
    | some c => c :: visited now next fuel (next s)

/-- The positions of a loop come in order, however long it runs. -/
def Increasing {σ : Type} (now : σ → Option (List ℤ)) (next : σ → σ) (s : σ) : Prop :=
  ∃ n, ∀ fuel ≥ n, (visited now next fuel s).Pairwise (· < ·)

lemma Increasing.next {σ : Type} {now : σ → Option (List ℤ)} {next : σ → σ} {s : σ} {c : List ℤ}
    (h : Increasing now next s) (hnow : now s = some c) :
    Increasing now next (next s) ∧ ∀ c', now (next s) = some c' → c < c' := by
  obtain ⟨n, hn⟩ := h
  have hcons (fuel : ℕ) : visited now next (fuel + 1) s = c :: visited now next fuel (next s) := by rw [visited, hnow]
  refine ⟨⟨n, fun fuel hf => ?_⟩, fun c' hc' => ?_⟩
  · have hsort := hn (fuel + 1) (by omega)
    rw [hcons] at hsort
    exact (pairwise_cons.mp hsort).2
  · have hsort := hn (n + 2) (by omega)
    rw [hcons, visited, hc'] at hsort
    exact (pairwise_cons.mp hsort).1 c' mem_cons_self

/-- **A loop that goes from each position to the next one comes to all of them, in order.** -/
lemma visited_spec {σ : Type} {now : σ → Option (List ℤ)} {next : σ → σ} {M A : List ℤ → Prop} {s : σ}
    {At : σ → (List ℤ → Prop) → Prop} (hfin : {q | M q}.Finite) (hleast : ∀ s A, At s A → LeastIn M A (now s))
    (hnext : ∀ s A c, At s A → now s = some c → At (next s) fun q => A q ∧ c < q) (h : At s A) :
    ∃ n, ∀ fuel ≥ n, (visited now next fuel s).Pairwise (· < ·) ∧ ∀ q, q ∈ visited now next fuel s ↔ M q ∧ A q := by
  induction A using remaining_induction hfin generalizing s with
  | step A ih =>
    have hs := hleast s A h
    cases hnow : now s with
    | none =>
      rw [hnow] at hs
      refine ⟨1, fun fuel hf => ?_⟩
      obtain ⟨fuel, rfl⟩ := Nat.exists_eq_add_of_le' hf
      rw [visited, hnow]
      exact ⟨.nil, fun q => iff_of_false not_mem_nil fun hq => hs q hq.1 hq.2⟩
    | some c =>
      rw [hnow] at hs
      obtain ⟨n, hn⟩ := ih c hs.1 hs.2.1 (hnext s A c h hnow)
      refine ⟨n + 1, fun fuel hf => ?_⟩
      obtain ⟨fuel, rfl⟩ := Nat.exists_eq_add_of_le' (Nat.le_of_add_left_le hf)
      obtain ⟨hsort, hmem⟩ := hn fuel (by omega)
      rw [visited, hnow]
      refine ⟨pairwise_cons.mpr ⟨fun q hq => ((hmem q).mp hq).2.2, hsort⟩, fun q => ?_⟩
      rw [mem_cons, hmem]
      constructor
      · rintro (rfl | hq)
        · exact ⟨hs.1, hs.2.1⟩
        · exact ⟨hq.1, hq.2.1⟩
      · intro hq
        rcases (hs.2.2 q hq.1 hq.2).eq_or_lt with heq | hlt
        · exact .inl heq.symm
        · exact .inr ⟨hq.1, hq.2, hlt⟩

lemma Region.finite_mem : ∀ r : Region, {q | r.Mem q}.Finite
  | [] => (Set.finite_singleton []).subset fun q hq => by cases hq; rfl
  | d :: ds => by
    refine (Set.Finite.image2 List.cons (Set.finite_Icc d.low d.high) (finite_mem ds)).subset fun q hq => ?_
    cases hq with
    | cons hx hxs => exact ⟨_, ⟨hx.1, hx.2.1⟩, _, hxs, rfl⟩

end SciDB.Lib
