import Mathlib

/-!
# Halving a range

A search loop that halves the range `[l, r)`. If `below` holds up to some boundary in the range and nowhere after it, the loop
finds the boundary.
-/

namespace SciDB.Lib

/-- The loop `while (l < r)`. -/
def bisect (below : Nat → Bool) : Nat → Nat → Nat → Nat
  | 0, _, r => r
  | fuel + 1, l, r =>
    if l < r then
      if below ((l + r) / 2) then bisect below fuel ((l + r) / 2 + 1) r else bisect below fuel l ((l + r) / 2)
    else r

/-- **The boundary is found**, if there are as many rounds as there are places. -/
lemma bisect_eq {below : Nat → Bool} {fuel l r k : Nat} (hfuel : r ≤ l + fuel) (hl : l ≤ k) (hr : k ≤ r)
    (hbelow : ∀ i, l ≤ i → i < k → below i = true) (habove : ∀ i, k ≤ i → i < r → below i = false) :
    bisect below fuel l r = k := by
  induction fuel generalizing l r with
  | zero =>
    rw [bisect]
    omega
  | succ fuel ih =>
    rw [bisect]
    by_cases hlt : l < r
    · rw [if_pos hlt]
      by_cases hk : (l + r) / 2 < k
      · rw [if_pos (hbelow _ (by omega) hk)]
        apply ih (by omega) hk hr
        · intro i hi
          exact hbelow i (by omega)
        · exact habove
      · rw [habove _ (by omega) (by omega)]
        apply ih (by omega) hl (by omega) hbelow
        intro i hi hir
        exact habove i hi (by omega)
    · rw [if_neg hlt]
      omega

lemma bisect_le {below : Nat → Bool} {fuel l r : Nat} : bisect below fuel l r ≤ r := by
  induction fuel generalizing l r with
  | zero => exact le_refl r
  | succ fuel ih =>
    rw [bisect]
    split
    · split
      · exact ih
      · have : bisect below fuel l ((l + r) / 2) ≤ (l + r) / 2 := ih
        omega
    · exact le_refl r

lemma below_bisect {below : Nat → Bool} {fuel l r : Nat} (h : bisect below fuel l r < r) :
    below (bisect below fuel l r) = false := by
  induction fuel generalizing l r with
  | zero => exact absurd h (lt_irrefl r)
  | succ fuel ih =>
    rw [bisect] at h ⊢
    by_cases hlt : l < r
    · rw [if_pos hlt] at h ⊢
      by_cases hm : below ((l + r) / 2) = true
      · rw [if_pos hm] at h ⊢
        exact ih h
      · rw [if_neg hm] at h ⊢
        by_cases hk : bisect below fuel l ((l + r) / 2) < (l + r) / 2
        · exact ih hk
        · have hle : bisect below fuel l ((l + r) / 2) ≤ (l + r) / 2 := bisect_le
          rw [le_antisymm hle (Nat.le_of_not_lt hk)]
          exact Bool.not_eq_true _ |>.mp hm
    · rw [if_neg hlt] at h
      exact absurd h (lt_irrefl r)

end SciDB.Lib
