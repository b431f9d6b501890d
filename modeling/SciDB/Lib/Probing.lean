import Mathlib

/-!
# Linear probing

The first index that is not taken, from a start on and around the end of a table of `n` places. With `n` tries the search finds
a place if there is one.
-/

namespace SciDB.Lib

/-- One index after another. -/
def probe (n : ℕ) (taken : ℕ → Prop) [DecidablePred taken] : ℕ → ℕ → Option ℕ
  | 0, _ => none
  | tries + 1, i => if taken i then probe n taken tries ((i + 1) % n) else some i

variable {n : ℕ} {taken : ℕ → Prop} [DecidablePred taken] {tries i k : ℕ}

lemma of_probe_eq_some (hi : i < n) (h : probe n taken tries i = some k) : k < n ∧ ¬ taken k := by
  induction tries generalizing i with
  | zero => cases h
  | succ tries ih =>
    rw [probe] at h
    split_ifs at h with htaken
    · exact ih (Nat.mod_lt _ (i.zero_le.trans_lt hi)) h
    · cases h
      exact ⟨hi, htaken⟩

lemma exists_probe_of_lt {d : ℕ} (hd : d < tries) (hfree : ¬ taken ((i + d) % n)) (hi : i < n) :
    ∃ k, probe n taken tries i = some k := by
  induction tries generalizing i d with
  | zero => exact absurd hd (Nat.not_lt_zero d)
  | succ tries ih =>
    rw [probe]
    split_ifs with htaken
    · cases d with
      | zero =>
        rw [add_zero, Nat.mod_eq_of_lt hi] at hfree
        exact absurd htaken hfree
      | succ d =>
        refine @ih ((i + 1) % n) d (Nat.lt_of_succ_lt_succ hd) ?_ (Nat.mod_lt _ (i.zero_le.trans_lt hi))
        rwa [Nat.mod_add_mod, add_assoc, add_comm 1 d]
    · exact ⟨i, rfl⟩

/-- **If there is a free place, `n` tries find one**, wherever the search starts. -/
lemma exists_probe (hfree : ∃ j < n, ¬ taken j) (hi : i < n) : ∃ k, probe n taken n i = some k ∧ k < n ∧ ¬ taken k := by
  obtain ⟨j, hj, hfree⟩ := hfree
  have hpos : 0 < n := i.zero_le.trans_lt hi
  have hmod : (i + (n - i + j) % n) % n = j := by
    rw [Nat.add_mod_mod, ← add_assoc, Nat.add_sub_cancel' hi.le, Nat.add_mod_left, Nat.mod_eq_of_lt hj]
  obtain ⟨k, hk⟩ := @exists_probe_of_lt n taken _ n i ((n - i + j) % n) (Nat.mod_lt _ hpos) (hmod.symm ▸ hfree) hi
  exact ⟨k, hk, of_probe_eq_some hi hk⟩

end SciDB.Lib
