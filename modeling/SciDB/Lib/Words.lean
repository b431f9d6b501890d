import Mathlib

/-!
# 64-bit words

Unsigned 64-bit arithmetic on natural numbers, signed 64-bit arithmetic on integers, and rounding up to a power of two by or-ing
a number with itself shifted right, which copies its highest bit into every lower position (`Smeared`).
-/

namespace SciDB.Lib

/-- The value that a `uint64` keeps of `n`. -/
def wrap (n : ℕ) : ℕ := n % 2 ^ 64

/-- `a - b` of two `uint64`. -/
def wsub (a b : ℕ) : ℕ := (a + 2 ^ 64 - b) % 2 ^ 64

lemma wrap_of_lt {n : ℕ} (h : n < 2 ^ 64) : wrap n = n := Nat.mod_eq_of_lt h

lemma wsub_of_le {a b : ℕ} (h : b ≤ a) (ha : a < 2 ^ 64) : wsub a b = a - b := by
  unfold wsub
  omega

/-- The value that an `int64` keeps of `x`. -/
def int64 (x : ℤ) : ℤ := x.bmod (2 ^ 64)

/-- `x` is the value of an `int64`. -/
def IsInt64 (x : ℤ) : Prop := -2 ^ 63 ≤ x ∧ x < 2 ^ 63

lemma int64_eq {x : ℤ} (h : IsInt64 x) : int64 x = x := by
  obtain ⟨hlow, hhigh⟩ := h
  exact Int.bmod_eq_of_le (by norm_num at *; omega) (by norm_num at *; omega)

lemma int64_wrap {x : ℤ} (h : 2 ^ 63 ≤ x) (h' : x < 2 ^ 64) : int64 x = x - 2 ^ 64 := by
  have hsub : int64 (x - 2 ^ 64) = int64 x := Int.sub_bmod_right x (2 ^ 64)
  rw [← hsub, int64_eq ⟨by omega, by omega⟩]

lemma int64_lt (x : ℤ) : int64 x < 2 ^ 63 := Int.bmod_lt (by norm_num)

/-- The bits of `s` are those of `r`, each copied into the `w - 1` positions below it. -/
def Smeared (w r s : ℕ) : Prop := ∀ i, s.testBit i = true ↔ ∃ j, i ≤ j ∧ j < i + w ∧ r.testBit j = true

lemma Smeared.refl (r : ℕ) : Smeared 1 r r := by
  intro i
  constructor
  · exact fun h => ⟨i, le_rfl, by omega, h⟩
  · rintro ⟨j, h1, h2, h⟩
    rwa [show i = j by omega]

lemma Smeared.double {w r s : ℕ} (h : Smeared w r s) : Smeared (w + w) r (s ||| s >>> w) := by
  intro i
  rw [Nat.testBit_or, Nat.testBit_shiftRight, Bool.or_eq_true, h i, h (w + i)]
  constructor
  · rintro (⟨j, h1, h2, hj⟩ | ⟨j, h1, h2, hj⟩)
    · exact ⟨j, h1, by omega, hj⟩
    · exact ⟨j, by omega, by omega, hj⟩
  · rintro ⟨j, h1, h2, hj⟩
    by_cases hlt : j < i + w
    · exact .inl ⟨j, h1, hlt, hj⟩
    · exact .inr ⟨j, by omega, by omega, hj⟩

lemma Smeared.eq_two_pow_sub_one {w r s : ℕ} (h : Smeared w r s) (hr : r < 2 ^ w) : s = 2 ^ Nat.clog 2 (r + 1) - 1 := by
  have hk : ∀ k, Nat.clog 2 (r + 1) ≤ k ↔ r < 2 ^ k := fun k => by
    rw [Nat.clog_le_iff_le_pow (by norm_num)]
    exact Nat.succ_le_iff
  refine Nat.eq_of_testBit_eq fun i => ?_
  rw [Nat.testBit_two_pow_sub_one, Bool.eq_iff_iff, h i, decide_eq_true_eq]
  constructor
  · rintro ⟨j, h1, -, hj⟩
    by_contra hlt
    have hbit := Nat.testBit_lt_two_pow ((hk j).mp (by omega))
    rw [hbit] at hj
    cases hj
  · intro hi
    -- the highest bit of `r` is at `clog - 1`
    obtain ⟨t, ht⟩ : ∃ t, Nat.clog 2 (r + 1) = t + 1 := ⟨Nat.clog 2 (r + 1) - 1, by omega⟩
    have hlo : 2 ^ t ≤ r := by
      by_contra hlt
      have := (hk t).mpr (by omega)
      omega
    have hhi : r < 2 ^ (t + 1) := (hk (t + 1)).mp ht.le
    have htw : t + 1 ≤ w := ht ▸ (hk w).mpr hr
    refine ⟨t, by omega, by omega, ?_⟩
    rw [Nat.testBit_eq_decide_div_mod_eq, decide_eq_true_eq]
    have hdiv : r / 2 ^ t = 1 := by
      rw [Nat.div_eq_iff (by positivity)]
      rw [pow_succ] at hhi
      omega
    rw [hdiv]

end SciDB.Lib
