import Mathlib

/-!
# Tilings by dyadic blocks

A block is dyadic when its size is a power of two and its offset a multiple of it. `Tiles L F A`: the blocks in use and those
that are free contain every point below `A` once. Each operation of a buddy system keeps a tiling, by counting (`cov`).
-/

namespace SciDB.Lib

open Finset

/-- `[off, off + size)`. -/
structure Block where
  off : ℕ
  size : ℕ
  deriving DecidableEq

namespace Block

instance : Membership ℕ Block := ⟨fun b x => b.off ≤ x ∧ x < b.off + b.size⟩

variable {b c : Block} {x : ℕ}

lemma mem_iff : x ∈ b ↔ b.off ≤ x ∧ x < b.off + b.size := Iff.rfl

instance (b : Block) (x : ℕ) : Decidable (x ∈ b) := decidable_of_iff _ mem_iff.symm

/-- A power of two, aligned. -/
def Dyadic (b : Block) : Prop := (∃ k, b.size = 2 ^ k) ∧ b.size ∣ b.off

lemma Dyadic.pos (h : b.Dyadic) : 0 < b.size := by
  obtain ⟨⟨k, hk⟩, -⟩ := h
  rw [hk]
  positivity

lemma Dyadic.off_mem (h : b.Dyadic) : b.off ∈ b := ⟨le_rfl, by have := h.pos; omega⟩

/-- `b` is part of `c`. -/
def Within (b c : Block) : Prop := c.off ≤ b.off ∧ b.off + b.size ≤ c.off + c.size

lemma Within.mem (h : b.Within c) (hx : x ∈ b) : x ∈ c := by
  obtain ⟨h1, h2⟩ := h
  obtain ⟨h3, h4⟩ := hx
  exact ⟨by omega, by omega⟩

lemma Within.trans {d : Block} (h : b.Within c) (h' : c.Within d) : b.Within d :=
  ⟨h'.1.trans h.1, h.2.trans h'.2⟩

lemma Within.eq (h : b.Within c) (hs : c.size ≤ b.size) : b = c := by
  obtain ⟨h1, h2⟩ := h
  obtain ⟨o, s⟩ := b
  obtain ⟨o', s'⟩ := c
  simp only [mk.injEq] at *
  omega

lemma mem_of_off_eq (hpos : 0 < c.size) (h : c.off = x - x % c.size) : x ∈ c := by
  have hlt := Nat.mod_lt x hpos
  exact ⟨by omega, by omega⟩

lemma Dyadic.size_dvd (hb : b.Dyadic) (hc : c.Dyadic) (h : b.size ≤ c.size) : b.size ∣ c.size := by
  obtain ⟨⟨k, hk⟩, -⟩ := hb
  obtain ⟨⟨l, hl⟩, -⟩ := hc
  rw [hk, hl] at h ⊢
  exact pow_dvd_pow 2 ((Nat.pow_le_pow_iff_right (by norm_num)).mp h)

lemma Dyadic.off_eq (hc : c.Dyadic) (hx : x ∈ c) : c.off = x - x % c.size := by
  obtain ⟨h1, h2⟩ := hx
  obtain ⟨q, hq⟩ := hc.2
  obtain ⟨d, rfl⟩ : ∃ d, x = c.off + d := ⟨x - c.off, by omega⟩
  have hmod : (c.off + d) % c.size = d := by
    rw [hq, Nat.mul_add_mod, Nat.mod_eq_of_lt (by omega)]
  rw [hmod]
  omega

lemma Dyadic.nested (hb : b.Dyadic) (hc : c.Dyadic) (h : b.size ≤ c.size) (hxb : x ∈ b) (hxc : x ∈ c) : b.Within c := by
  obtain ⟨q, hq⟩ := hb.size_dvd hc h
  obtain ⟨i, hi⟩ := hb.2
  obtain ⟨j, hj⟩ := hc.2
  obtain ⟨h1, h2⟩ := hxb
  obtain ⟨h3, h4⟩ := hxc
  have hcoff : c.off = b.size * (q * j) := by rw [hj, hq]; ring
  have hcend : c.off + c.size = b.size * (q * j + q) := by rw [hcoff, hq]; ring
  have hbend : b.off + b.size = b.size * (i + 1) := by rw [hi]; ring
  constructor
  · -- `c.off < b.off + b.size`, both multiples of `b.size`
    have hlt : b.size * (q * j) < b.size * (i + 1) := by rw [← hcoff, ← hbend]; omega
    have := Nat.lt_of_mul_lt_mul_left hlt
    rw [hcoff, hi]
    exact Nat.mul_le_mul_left _ (by omega)
  · have hlt : b.size * i < b.size * (q * j + q) := by rw [← hi, ← hcend]; omega
    have := Nat.lt_of_mul_lt_mul_left hlt
    rw [hcend, hbend]
    exact Nat.mul_le_mul_left _ (by omega)

/-- The other half of the parent. -/
def buddy (b : Block) : Block := ⟨if b.off % (b.size * 2) = 0 then b.off + b.size else b.off - b.size, b.size⟩

/-- A block and its buddy. -/
def parent (b : Block) : Block := ⟨min b.off b.buddy.off, b.size * 2⟩

section

variable (h : b.Dyadic)

include h

lemma Dyadic.half : (b.off % (b.size * 2) = 0 ∧ b.buddy.off = b.off + b.size ∧ b.parent.off = b.off) ∨
      (b.off % (b.size * 2) = b.size ∧ b.buddy.off + b.size = b.off ∧ b.parent.off = b.buddy.off) := by
  obtain ⟨q, hq⟩ := h.2
  have hpos := h.pos
  have hmod : b.off % (b.size * 2) = b.size * (q % 2) := by rw [hq, Nat.mul_mod_mul_left]
  rcases Nat.mod_two_eq_zero_or_one q with h2 | h2
  · left
    have hz : b.off % (b.size * 2) = 0 := by rw [hmod, h2, mul_zero]
    refine ⟨hz, ?_, ?_⟩
    · simp only [buddy, hz, if_true]
    · simp only [parent, buddy, hz, if_true]; omega
  · right
    have hz : b.off % (b.size * 2) = b.size := by rw [hmod, h2, mul_one]
    have hle : b.size ≤ b.off := by rw [← hz]; exact Nat.mod_le _ _
    have hne : b.off % (b.size * 2) ≠ 0 := by omega
    refine ⟨hz, ?_, ?_⟩ <;> simp only [buddy, parent, if_neg hne] <;> omega

lemma Dyadic.buddy : b.buddy.Dyadic := by
  refine ⟨h.1, ?_⟩
  rcases h.half with ⟨-, h1, -⟩ | ⟨-, h1, -⟩
  · rw [h1]
    exact Nat.dvd_add h.2 dvd_rfl
  · have := h.2
    rw [← h1] at this
    exact (Nat.dvd_add_left dvd_rfl).mp this

lemma Dyadic.parent : b.parent.Dyadic := by
  obtain ⟨k, hk⟩ := h.1
  refine ⟨⟨k + 1, by simp only [Block.parent, hk, pow_succ]⟩, ?_⟩
  rcases h.half with ⟨h1, -, h3⟩ | ⟨h1, h2, h3⟩
  · rw [h3]
    exact Nat.dvd_of_mod_eq_zero h1
  · rw [h3]
    have : b.buddy.off = b.off - b.off % (b.size * 2) := by omega
    rw [this]
    exact Nat.dvd_sub_mod b.off

lemma Dyadic.mem_parent (x : ℕ) :
    (if x ∈ b.parent then 1 else 0) = (if x ∈ b then 1 else 0) + if x ∈ b.buddy then 1 else 0 := by
  have hs : b.parent.size = b.size * 2 := rfl
  have hs' : b.buddy.size = b.size := rfl
  simp only [mem_iff, hs, hs']
  rcases h.half with ⟨-, h1, h2⟩ | ⟨-, h1, h2⟩ <;> rw [h2] <;> split_ifs <;> omega

lemma Dyadic.buddy_ne : b.buddy ≠ b := by
  intro heq
  have hpos := h.pos
  have hoff : b.buddy.off = b.off := by rw [heq]
  rcases h.half with ⟨-, h1, -⟩ | ⟨-, h1, -⟩ <;> omega

lemma Dyadic.within_parent : b.Within b.parent := by
  have hs : b.parent.size = b.size * 2 := rfl
  unfold Within
  rw [hs]
  rcases h.half with ⟨-, h1, h2⟩ | ⟨-, h1, h2⟩ <;> omega

lemma Dyadic.parent_end {A : ℕ} (hb : b.off + b.size ≤ A) (hbud : b.buddy.off + b.buddy.size ≤ A) :
    b.parent.off + b.parent.size ≤ A := by
  have hs : b.parent.size = b.size * 2 := rfl
  have hs' : b.buddy.size = b.size := rfl
  rw [hs]
  rcases h.half with ⟨-, h1, h2⟩ | ⟨-, h1, h2⟩ <;> omega

end

end Block

def cov (S : Finset Block) (x : ℕ) : ℕ := (S.filter fun b => x ∈ b).card

@[simp] lemma cov_empty (x : ℕ) : cov ∅ x = 0 := rfl

variable {S : Finset Block} {b : Block} {x : ℕ}

lemma cov_insert (h : b ∉ S) (x : ℕ) : cov (insert b S) x = cov S x + if x ∈ b then 1 else 0 := by
  unfold cov
  rw [filter_insert]
  split_ifs with hx
  · exact card_insert_of_notMem fun hb => h (mem_filter.mp hb).1
  · rfl

lemma cov_erase (h : b ∈ S) (x : ℕ) : cov (S.erase b) x + (if x ∈ b then 1 else 0) = cov S x := by
  rw [← cov_insert (notMem_erase b S), insert_erase h]

lemma cov_pos_iff : 0 < cov S x ↔ ∃ b ∈ S, x ∈ b := by
  unfold cov
  rw [card_pos]
  constructor
  · rintro ⟨b, hb⟩
    exact ⟨b, mem_filter.mp hb⟩
  · rintro ⟨b, hb⟩
    exact ⟨b, mem_filter.mpr hb⟩

lemma eq_of_cov_le_one (h : cov S x ≤ 1) {c : Block} (hb : b ∈ S) (hc : c ∈ S) (hxb : x ∈ b) (hxc : x ∈ c) : b = c :=
  card_le_one.mp h b (mem_filter.mpr ⟨hb, hxb⟩) c (mem_filter.mpr ⟨hc, hxc⟩)

/-- **A tiling**: the blocks are dyadic, and together contain every point below `A` once and no other. -/
structure Tiles (L F : Finset Block) (A : ℕ) : Prop where
  dyadicL : ∀ b ∈ L, b.Dyadic
  dyadicF : ∀ b ∈ F, b.Dyadic
  count : ∀ x, cov L x + cov F x = if x < A then 1 else 0

namespace Tiles

variable {L F : Finset Block} {A : ℕ} {b c : Block}

section

variable (h : Tiles L F A) {x : ℕ}

include h

lemma cov_le (x : ℕ) : cov L x + cov F x ≤ 1 := by
  rw [h.count x]
  split_ifs <;> omega

lemma separate (hb : b ∈ L) (hc : c ∈ F) (hxb : x ∈ b) (hxc : x ∈ c) : False := by
  have h1 : 0 < cov L x := cov_pos_iff.mpr ⟨b, hb, hxb⟩
  have h2 : 0 < cov F x := cov_pos_iff.mpr ⟨c, hc, hxc⟩
  have := h.cov_le x
  omega

lemma eqL (hb : b ∈ L) (hc : c ∈ L) (hxb : x ∈ b) (hxc : x ∈ c) : b = c :=
  eq_of_cov_le_one (by have := h.cov_le x; omega) hb hc hxb hxc

lemma eqF (hb : b ∈ F) (hc : c ∈ F) (hxb : x ∈ b) (hxc : x ∈ c) : b = c :=
  eq_of_cov_le_one (by have := h.cov_le x; omega) hb hc hxb hxc

lemma notMem_free (hb : b ∈ L) : b ∉ F := fun hF =>
  h.separate hb hF (h.dyadicL b hb).off_mem (h.dyadicL b hb).off_mem

lemma notMem_used (hb : b ∈ F) : b ∉ L := fun hL => h.notMem_free hL hb

lemma end_le (hb : b ∈ L ∨ b ∈ F) : b.off + b.size ≤ A := by
  have hd : b.Dyadic := hb.elim (h.dyadicL b) (h.dyadicF b)
  have hpos := hd.pos
  have hlast : b.off + b.size - 1 ∈ b := ⟨by omega, by omega⟩
  have hc : 0 < cov L (b.off + b.size - 1) + cov F (b.off + b.size - 1) := by
    rcases hb with hb | hb
    · have := cov_pos_iff.mpr ⟨b, hb, hlast⟩; omega
    · have := cov_pos_iff.mpr ⟨b, hb, hlast⟩; omega
  rw [h.count] at hc
  split_ifs at hc with hlt <;> omega

lemma exists_mem (hx : x < A) : ∃ b, (b ∈ L ∨ b ∈ F) ∧ x ∈ b := by
  have hc := h.count x
  rw [if_pos hx] at hc
  rcases Nat.eq_zero_or_pos (cov L x) with h0 | h0
  · obtain ⟨b, hb, hx⟩ := cov_pos_iff.mp (show 0 < cov F x by omega)
    exact ⟨b, .inr hb, hx⟩
  · obtain ⟨b, hb, hx⟩ := cov_pos_iff.mp h0
    exact ⟨b, .inl hb, hx⟩

lemma take (hb : b ∈ F) : Tiles (insert b L) (F.erase b) A where
  dyadicL := by
    intro c hc
    rcases mem_insert.mp hc with rfl | hc
    · exact h.dyadicF _ hb
    · exact h.dyadicL c hc
  dyadicF := fun c hc => h.dyadicF c (mem_of_mem_erase hc)
  count := by
    intro x
    have h1 := cov_insert (h.notMem_used hb) x
    have h2 := cov_erase hb x
    rw [← h.count x]
    omega

end

lemma give (h : Tiles (insert b L) F A) (hb : b ∉ L) : Tiles L (insert b F) A where
  dyadicL := fun c hc => h.dyadicL c (mem_insert_of_mem hc)
  dyadicF := by
    intro c hc
    rcases mem_insert.mp hc with rfl | hc
    · exact h.dyadicL _ (mem_insert_self _ _)
    · exact h.dyadicF c hc
  count := by
    intro x
    have h1 := cov_insert hb x
    have h2 := cov_insert (h.notMem_free (mem_insert_self b L)) x
    rw [← h.count x]
    omega

lemma notMem_of_parent (h : Tiles (insert b.parent L) F A) (hb : b.Dyadic) : b ∉ L := by
  intro hL
  have hp := h.eqL (mem_insert_of_mem hL) (mem_insert_self b.parent L) hb.off_mem (hb.within_parent.mem hb.off_mem)
  have hpos := hb.pos
  have hsize : b.size = b.size * 2 := congrArg Block.size hp
  omega

lemma split (h : Tiles (insert b.parent L) F A) (hp : b.parent ∉ L) (hb : b.Dyadic) :
    Tiles (insert b L) (insert b.buddy F) A where
  dyadicL := by
    intro c hc
    rcases mem_insert.mp hc with rfl | hc
    · exact hb
    · exact h.dyadicL c (mem_insert_of_mem hc)
  dyadicF := by
    intro c hc
    rcases mem_insert.mp hc with rfl | hc
    · exact hb.buddy
    · exact h.dyadicF c hc
  count := by
    intro x
    have hbF : b.buddy ∉ F := by
      intro hF
      have hx := hb.buddy.off_mem
      have hpar := hb.mem_parent b.buddy.off
      rw [if_pos hx] at hpar
      have hmem : b.buddy.off ∈ b.parent := by
        by_contra hno
        rw [if_neg hno] at hpar
        omega
      exact h.separate (mem_insert_self _ _) hF hmem hx
    have h1 := cov_insert (h.notMem_of_parent hb) x
    have h2 := cov_insert hbF x
    have h3 := cov_insert hp x
    have h4 := hb.mem_parent x
    have h5 := h.count x
    omega

lemma merge (h : Tiles (insert b L) F A) (hb : b ∉ L) (hF : b.buddy ∈ F) :
    Tiles (insert b.parent L) (F.erase b.buddy) A ∧ b.parent ∉ L := by
  have hd : b.Dyadic := h.dyadicL b (mem_insert_self b L)
  have hp : b.parent ∉ L := by
    intro hL
    have heq := h.eqL (mem_insert_of_mem hL) (mem_insert_self b L) (hd.within_parent.mem hd.off_mem) hd.off_mem
    exact hb (heq ▸ hL)
  refine ⟨⟨?_, fun c hc => h.dyadicF c (mem_of_mem_erase hc), ?_⟩, hp⟩
  · intro c hc
    rcases mem_insert.mp hc with rfl | hc
    · exact hd.parent
    · exact h.dyadicL c (mem_insert_of_mem hc)
  · intro x
    have h1 := cov_insert hb x
    have h2 := cov_erase hF x
    have h3 := cov_insert hp x
    have h4 := hd.mem_parent x
    have h5 := h.count x
    omega

lemma grow (h : Tiles L F A) (hA : ∃ k, A = 2 ^ k) : Tiles L (insert ⟨A, A⟩ F) (A * 2) where
  dyadicL := h.dyadicL
  dyadicF := by
    intro c hc
    rcases mem_insert.mp hc with rfl | hc
    · exact ⟨hA, dvd_rfl⟩
    · exact h.dyadicF c hc
  count := by
    intro x
    have hnew : (⟨A, A⟩ : Block) ∉ F := by
      intro hF
      have hend := h.end_le (.inr hF)
      have hpos := (h.dyadicF _ hF).pos
      simp only at hend hpos
      omega
    have h1 := cov_insert hnew x
    have h2 := h.count x
    simp only [Block.mem_iff] at h1
    split_ifs at h1 h2 ⊢ <;> omega

end Tiles

end SciDB.Lib
