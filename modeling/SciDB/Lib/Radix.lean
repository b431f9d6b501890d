import Mathlib

/-!
# Numbers with a radix for each digit

A digit has a first value and a radix. Digits are encoded as numbers below the product of the radices, one to one and in order.
-/

namespace SciDB.Lib

open List Int

/-- The first value and the radix of each digit, the most significant one first. -/
abbrev Radices := List (ℤ × ℤ)

namespace Radices

variable (sides : Radices)

/-- Each digit is one of its values. -/
def Mem (xs : List ℤ) : Prop := Forall₂ (fun s x => s.1 ≤ x ∧ x < s.1 + s.2) sides xs

/-- The number of numbers. -/
def volume : ℤ := (sides.map Prod.snd).prod

def encodeFrom (pos : ℤ) : Radices → List ℤ → ℤ
  | s :: sides, x :: xs => encodeFrom (pos * s.2 + (x - s.1)) sides xs
  | _, _ => pos

/-- The digits of a number. -/
def decode : Radices → ℤ → List ℤ × ℤ
  | [], pos => ([], pos)
  | s :: sides, pos =>
    let (xs, pos) := decode sides pos
    ((s.1 + pos.tmod s.2) :: xs, pos.tdiv s.2)

/-- The digit in place `i` of a number, counted from 0. -/
def digit (i : ℕ) (n : ℤ) : ℤ := n / volume (sides.drop (i + 1)) % (sides.getD i (0, 1)).2

/-- The points between corners. -/
def boxVolume (xs ys : List ℤ) : ℤ := (zipWith (fun x y => y - x + 1) xs ys).prod

/-- The lists that are between two others in every place. -/
noncomputable def cells : List ℤ → List ℤ → Finset (List ℤ)
  | x :: xs, y :: ys => (Finset.Icc x y ×ˢ cells xs ys).map ⟨fun p => p.1 :: p.2, fun p q h => by simpa [Prod.ext_iff] using h⟩
  | [], [] => {[]}
  | _, _ => ∅

variable {sides : Radices} {xs ys zs : List ℤ} {pos : ℤ}

lemma boxVolume_cons {x y : ℤ} : boxVolume (x :: xs) (y :: ys) = (y - x + 1) * boxVolume xs ys := prod_cons

lemma mem_cells : zs ∈ cells xs ys ↔ Forall₂ (· ≤ ·) xs zs ∧ Forall₂ (· ≤ ·) zs ys := by
  induction xs generalizing ys zs with
  | nil =>
    cases ys with
    | nil => simp [cells]
    | cons y ys =>
      rw [cells, forall₂_nil_left_iff]
      · refine iff_of_false (Finset.notMem_empty zs) ?_
        rintro ⟨rfl, h⟩
        cases h
      · nofun
      · nofun
  | cons x xs ih =>
    cases ys with
    | nil =>
      rw [cells, forall₂_nil_right_iff]
      · refine iff_of_false (Finset.notMem_empty zs) ?_
        rintro ⟨h, rfl⟩
        cases h
      · nofun
      · nofun
    | cons y ys =>
      cases zs with
      | nil => simp [cells]
      | cons z zs =>
        rw [cells, Finset.mem_map]
        simp only [Finset.mem_product, Finset.mem_Icc, ih, forall₂_cons]
        constructor
        · rintro ⟨⟨a, as⟩, ⟨⟨h₁, h₂⟩, h₃, h₄⟩, h⟩
          obtain ⟨rfl, rfl⟩ := cons.inj h
          exact ⟨⟨h₁, h₃⟩, h₂, h₄⟩
        · rintro ⟨⟨h₁, h₃⟩, h₂, h₄⟩
          exact ⟨(z, zs), ⟨⟨h₁, h₂⟩, h₃, h₄⟩, rfl⟩

lemma forall₂_le_trans (hxy : Forall₂ (· ≤ ·) xs ys) (hyz : Forall₂ (· ≤ ·) ys zs) : Forall₂ (· ≤ ·) xs zs := by
  induction hxy generalizing zs with
  | nil => exact hyz
  | cons hle _ ih =>
    obtain _ | ⟨hle', hyz⟩ := hyz
    exact .cons (hle.trans hle') (ih hyz)

lemma card_cells (h : Forall₂ (· ≤ ·) xs ys) : ((cells xs ys).card : ℤ) = boxVolume xs ys := by
  induction h with
  | nil => rfl
  | @cons x y xs ys hxy _ ih =>
    rw [cells, Finset.card_map, Finset.card_product, Int.card_Icc, boxVolume_cons, Nat.cast_mul, ih]
    congr 1
    omega

/-- A box has no more cells than one into which they go one to one. -/
lemma boxVolume_le_of_injOn {f : List ℤ → List ℤ} {xs' ys' : List ℤ} (hle : Forall₂ (· ≤ ·) xs ys)
    (hle' : Forall₂ (· ≤ ·) xs' ys') (hmaps : ∀ zs ∈ cells xs ys, f zs ∈ cells xs' ys') (hinj : Set.InjOn f (cells xs ys)) :
    boxVolume xs ys ≤ boxVolume xs' ys' := by
  rw [← card_cells hle, ← card_cells hle']
  exact_mod_cast Finset.card_le_card_of_injOn f hmaps hinj

lemma digit_cons (s : ℤ × ℤ) (i : ℕ) : digit (s :: sides) (i + 1) pos = digit sides i pos := rfl

lemma digit_congr {other : Radices} (h : sides.map Prod.snd = other.map Prod.snd) (i : ℕ) : digit sides i pos = digit other i pos := by
  have hradix (l : Radices) : (l.getD i (0, 1)).2 = (l.map Prod.snd).getD i 1 :=
    (getD_map l (0, 1) Prod.snd).symm
  rw [digit, digit, volume, volume, map_drop, map_drop, hradix, hradix, h]

lemma encodeFrom_eq (h : sides.length = xs.length) : encodeFrom pos sides xs = pos * sides.volume + encodeFrom 0 sides xs := by
  induction sides generalizing xs pos with
  | nil => simp [encodeFrom, volume]
  | cons s sides ih =>
    cases xs with
    | nil => cases h
    | cons x xs =>
      have hdigit := @ih xs (0 * s.2 + (x - s.1)) (Nat.succ.inj h)
      rw [encodeFrom, encodeFrom, ih (Nat.succ.inj h), hdigit]
      simp only [volume, map_cons, prod_cons]
      ring

lemma Mem.of_between (hx : sides.Mem xs) (hy : sides.Mem ys) (hlow : Forall₂ (· ≤ ·) xs zs)
    (hhigh : Forall₂ (· ≤ ·) zs ys) : sides.Mem zs := by
  induction hx generalizing ys zs with
  | nil =>
    cases hlow
    exact .nil
  | cons hx _ ih =>
    obtain _ | ⟨hxz, hxzs⟩ := hlow
    obtain _ | ⟨hzy, hzys⟩ := hhigh
    obtain _ | ⟨hy, hys⟩ := hy
    exact .cons ⟨by omega, by omega⟩ (ih hys hxzs hzys)

variable (hpos : ∀ s ∈ sides, 0 < s.2)

include hpos

lemma volume_pos : 0 < sides.volume := by
  refine prod_pos fun n hn => ?_
  obtain ⟨s, hs, rfl⟩ := mem_map.mp hn
  exact hpos s hs

lemma encodeFrom_lt (h : sides.Mem xs) : 0 ≤ encodeFrom 0 sides xs ∧ encodeFrom 0 sides xs < sides.volume := by
  induction h with
  | nil => exact ⟨le_rfl, one_pos⟩
  | @cons s x sides xs hx hxs ih =>
    obtain ⟨hs, hsides⟩ := forall_mem_cons.mp hpos
    obtain ⟨h0, hlt⟩ := ih hsides
    have hvol : volume (s :: sides) = s.2 * volume sides := by simp [volume]
    have hle := mul_le_mul_of_nonneg_right (show x - s.1 + 1 ≤ s.2 by omega) (volume_pos hsides).le
    have hmul := mul_nonneg (show 0 ≤ x - s.1 by omega) (volume_pos hsides).le
    rw [encodeFrom, encodeFrom_eq hxs.length_eq, zero_mul, zero_add, hvol]
    rw [add_one_mul] at hle
    omega

lemma le_encodeFrom (h : sides.Mem xs) (hnonneg : 0 ≤ pos) : pos ≤ encodeFrom pos sides xs := by
  rw [encodeFrom_eq h.length_eq]
  have := le_mul_of_one_le_right hnonneg (volume_pos hpos)
  have := encodeFrom_lt hpos h
  omega

lemma boxVolume_le (hx : sides.Mem xs) (hy : sides.Mem ys) (hle : Forall₂ (· ≤ ·) xs ys) :
    1 ≤ boxVolume xs ys ∧ boxVolume xs ys ≤ encodeFrom 0 sides ys - encodeFrom 0 sides xs + 1 := by
  induction hx generalizing ys with
  | nil =>
    cases hy
    simp [encodeFrom, boxVolume]
  | @cons s x sides xs hx hxs ih =>
    obtain _ | @⟨_, y, _, ys, hy, hys⟩ := hy
    obtain _ | ⟨hxy, hle⟩ := hle
    obtain ⟨-, hsides⟩ := forall_mem_cons.mp hpos
    obtain ⟨hone, hbox⟩ := ih hsides hys hle
    have hp := encodeFrom_lt hsides hxs
    have hq := encodeFrom_lt hsides hys
    have hmul := mul_le_mul_of_nonneg_left (hbox.trans (show _ ≤ volume sides by omega)) (show 0 ≤ y - x by omega)
    have hpos := mul_nonneg (show 0 ≤ y - x by omega) (zero_le_one.trans hone)
    rw [encodeFrom, encodeFrom, encodeFrom_eq hxs.length_eq, encodeFrom_eq hys.length_eq, boxVolume_cons, add_one_mul]
    have hring : (0 * s.2 + (y - s.1)) * volume sides = (0 * s.2 + (x - s.1)) * volume sides + (y - x) * volume sides := by
      ring
    exact ⟨by omega, by omega⟩

lemma decode_encodeFrom (h : sides.Mem xs) (hnonneg : 0 ≤ pos) : decode sides (encodeFrom pos sides xs) = (xs, pos) := by
  induction h generalizing pos with
  | nil => rfl
  | @cons s x sides xs hx hxs ih =>
    obtain ⟨hs, hsides⟩ := forall_mem_cons.mp hpos
    have hnum : 0 ≤ pos * s.2 + (x - s.1) := add_nonneg (mul_nonneg hnonneg hs.le) (by omega)
    have hlt : x - s.1 < s.2 := by omega
    rw [encodeFrom, decode, ih hsides hnum]
    dsimp only
    rw [tmod_eq_emod_of_nonneg hnum, tdiv_eq_ediv_of_nonneg hnum, add_comm (pos * s.2), add_mul_emod_self_right,
      add_mul_ediv_right _ _ hs.ne', emod_eq_of_lt (by omega) hlt, ediv_eq_zero_of_lt (by omega) hlt]
    simp

lemma encodeFrom_decode (hnonneg : 0 ≤ pos) : sides.Mem (decode sides pos).1 ∧
    0 ≤ (decode sides pos).2 ∧ encodeFrom (decode sides pos).2 sides (decode sides pos).1 = pos := by
  induction sides with
  | nil => exact ⟨.nil, hnonneg, rfl⟩
  | cons s sides ih =>
    obtain ⟨hs, hsides⟩ := forall_mem_cons.mp hpos
    obtain ⟨hmem, h0, heq⟩ := ih hsides
    rw [decode]
    generalize decode sides pos = result at hmem h0 heq ⊢
    obtain ⟨xs, left⟩ := result
    dsimp only at hmem h0 heq ⊢
    have hmod := emod_nonneg left hs.ne'
    have hlt := emod_lt_of_pos left hs
    rw [tmod_eq_emod_of_nonneg h0, tdiv_eq_ediv_of_nonneg h0, encodeFrom, add_sub_cancel_left, ediv_mul_add_emod]
    exact ⟨.cons ⟨by omega, by omega⟩ hmem, ediv_nonneg h0 hs.le, heq⟩

lemma decode_left (hnonneg : 0 ≤ pos) : (decode sides pos).2 = pos / volume sides := by
  induction sides with
  | nil => exact (Int.ediv_one pos).symm
  | cons s sides ih =>
    obtain ⟨hs, hsides⟩ := forall_mem_cons.mp hpos
    have hleft : 0 ≤ pos / volume sides := Int.ediv_nonneg hnonneg (volume_pos hsides).le
    have hvol : volume (s :: sides) = volume sides * s.2 := by simp [volume, mul_comm]
    rw [decode]
    dsimp only
    rw [ih hsides, tdiv_eq_ediv_of_nonneg hleft, Int.ediv_ediv_of_nonneg (volume_pos hsides).le, hvol]

/-- Decoded numbers are compared in every place as their digits are. -/
lemma decode_le_iff {pos' : ℤ} (hnonneg : 0 ≤ pos) (hnonneg' : 0 ≤ pos') :
    Forall₂ (· ≤ ·) (decode sides pos).1 (decode sides pos').1 ↔ ∀ i, digit sides i pos ≤ digit sides i pos' := by
  induction sides with
  | nil => simp [decode, digit, volume]
  | cons s sides ih =>
    obtain ⟨hs, hsides⟩ := forall_mem_cons.mp hpos
    have hvol := (volume_pos hsides).le
    rw [← Nat.and_forall_add_one]
    simp only [digit_cons]
    rw [← ih hsides, decode, decode]
    dsimp only
    rw [forall₂_cons, decode_left hsides hnonneg, decode_left hsides hnonneg', add_le_add_iff_left,
      tmod_eq_emod_of_nonneg (Int.ediv_nonneg hnonneg hvol), tmod_eq_emod_of_nonneg (Int.ediv_nonneg hnonneg' hvol)]
    rfl

lemma Mem.le_iff (hx : sides.Mem xs) (hy : sides.Mem ys) :
    Forall₂ (· ≤ ·) xs ys ↔ ∀ i, digit sides i (encodeFrom 0 sides xs) ≤ digit sides i (encodeFrom 0 sides ys) := by
  rw [← decode_le_iff hpos (encodeFrom_lt hpos hx).1 (encodeFrom_lt hpos hy).1, decode_encodeFrom hpos hx le_rfl,
    decode_encodeFrom hpos hy le_rfl]

lemma encodeFrom_lt_iff (hx : sides.Mem xs) (hy : sides.Mem ys) : encodeFrom 0 sides xs < encodeFrom 0 sides ys ↔ xs < ys := by
  induction hx generalizing ys with
  | nil =>
    cases hy
    exact iff_of_false (lt_irrefl _) (lt_irrefl _)
  | @cons s x sides xs hx hxs ih =>
    cases hy with
    | @cons _ y _ ys hy hys =>
      obtain ⟨hs, hsides⟩ := forall_mem_cons.mp hpos
      have hp := encodeFrom_lt hsides hxs
      have hq := encodeFrom_lt hsides hys
      rw [encodeFrom, encodeFrom, encodeFrom_eq hxs.length_eq, encodeFrom_eq hys.length_eq, cons_lt_cons_iff,
        ← ih hsides hys, zero_mul, zero_add, zero_add]
      rcases lt_trichotomy x y with hlt | rfl | hgt
      · have := mul_le_mul_of_nonneg_right (show x - s.1 + 1 ≤ y - s.1 by omega) (volume_pos hsides).le
        rw [add_one_mul] at this
        exact iff_of_true (by omega) (.inl hlt)
      · simp
      · have := mul_le_mul_of_nonneg_right (show y - s.1 + 1 ≤ x - s.1 by omega) (volume_pos hsides).le
        rw [add_one_mul] at this
        exact iff_of_false (by omega) (by omega)

end Radices

end SciDB.Lib
