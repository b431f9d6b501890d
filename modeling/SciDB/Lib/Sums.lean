import Mathlib

/-!
# Sums in which one term changes

When one term changes, the new sum and the old term are the old sum and the new term: without subtraction, so that it is good
for natural numbers.
-/

namespace SciDB.Lib

open List Finset Function

variable {ι M : Type*} [DecidableEq ι] [AddCommMonoid M]

lemma sum_exchange {S : Finset ι} {i : ι} (hi : i ∈ S) (f : ι → M) (v : M) :
    ∑ j ∈ S, update f i v j + f i = ∑ j ∈ S, f j + v := by
  rw [sum_update_of_mem hi, ← add_sum_erase S f hi, ← erase_eq, add_right_comm, add_comm v, add_right_comm]

lemma sum_comp_update [Fintype ι] {α : Type*} (f : α → M) (g : ι → α) (i : ι) (a : α) :
    ∑ j, f (update g i a j) + f (g i) = ∑ j, f (g j) + f a := by
  have h := sum_exchange (mem_univ i) (f ∘ g) (f a)
  rwa [← comp_update] at h

lemma sum_map_exchange {l : List ι} {i : ι} (hl : l.Nodup) (hi : i ∈ l) {f g : ι → M}
    (h : ∀ j, j ≠ i → f j = g j) : (l.map f).sum + g i = (l.map g).sum + f i := by
  have hrest : (l.erase i).map f = (l.erase i).map g := by
    apply map_congr_left
    intro j hj
    apply h
    rintro rfl
    exact hl.not_mem_erase hj
  rw [← sum_map_erase f hi, ← sum_map_erase g hi, hrest, add_right_comm, add_comm (f i), add_right_comm]

lemma flatten_set_perm {α : Type*} {ls : List (List α)} {i : ℕ} {l : List α} (h : ls[i]? = some l) (l' : List α) :
    ((ls.set i l').flatten ++ l).Perm (ls.flatten ++ l') := by
  induction ls generalizing i with
  | nil => exact nomatch h
  | cons k ls ih =>
    cases i with
    | zero =>
      cases h
      rw [set_cons_zero, flatten_cons, flatten_cons, append_assoc, append_assoc]
      exact (perm_append_comm.append_left l').trans (perm_append_comm_assoc l' l ls.flatten) |>.trans
        (perm_append_comm.append_left l)
    | succ i =>
      rw [set_cons_succ, flatten_cons, flatten_cons, append_assoc, append_assoc]
      exact (ih h).append_left k

end SciDB.Lib
