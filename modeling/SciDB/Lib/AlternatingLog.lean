import Mathlib

/-!
# Two alternating logs

Records go to the end of the current file; when it is full, the log starts over in the other file, and what that held is lost.
A file can also be started over with old records in it, which stay readable up to the first record written.
-/

namespace SciDB.Lib

open List

/-- The two files of a log. -/
structure AlternatingLog (α : Type*) where
  other : List α
  curr : List α
  fill : ℕ
  fill_le : fill ≤ curr.length

namespace AlternatingLog

variable {α : Type*} {cap : ℕ} {l : AlternatingLog α} {x y : α} {xs written : List α}

/-- All records a reader finds. -/
def readable (l : AlternatingLog α) : List α := l.other ++ l.curr

/-- Writes a record. -/
def push (cap : ℕ) (l : AlternatingLog α) (x : α) : AlternatingLog α :=
  if l.fill < cap then
    { other := l.other
      curr := l.curr.take l.fill ++ [x]
      fill := l.fill + 1
      fill_le := by rw [List.length_append, List.length_take, min_eq_left l.fill_le, List.length_singleton] }
  else { other := l.curr, curr := [x], fill := 1, fill_le := le_refl 1 }

def pushAll (cap : ℕ) (l : AlternatingLog α) (xs : List α) : AlternatingLog α := xs.foldl (push cap) l

/-- The place of the next record. -/
def next (cap : ℕ) (l : AlternatingLog α) : ℕ := if l.fill < cap then l.fill else 0

lemma mem_readable_push (h : y ∈ (l.push cap x).readable) : y = x ∨ y ∈ l.readable := by
  simp only [push, readable] at h ⊢
  split at h
  · rcases mem_append.mp h with h | h
    · exact .inr (mem_append_left _ h)
    · rcases mem_append.mp h with h | h
      · exact .inr (mem_append_right _ (mem_of_mem_take h))
      · exact .inl (mem_singleton.mp h)
  · rcases mem_append.mp h with h | h
    · exact .inr (mem_append_right _ h)
    · exact .inl (mem_singleton.mp h)

lemma mem_of_mem_readable_pushAll (h : y ∈ (l.pushAll cap xs).readable) : y ∈ xs ∨ y ∈ l.readable := by
  induction xs generalizing l with
  | nil => exact .inr h
  | cons x xs ih =>
    rcases ih h with hxs | hpush
    · exact .inl (mem_cons_of_mem x hxs)
    · rcases mem_readable_push hpush with rfl | hl
      · exact .inl mem_cons_self
      · exact .inr hl

/-- The files hold the end of the records in `written`. -/
def Holds (cap : ℕ) (written : List α) (l : AlternatingLog α) : Prop :=
  l.fill = l.curr.length ∧ 0 < l.fill ∧ l.fill ≤ max 1 cap ∧
    (l.curr = written ∨
      ∃ n lost, written = lost ++ l.other ++ l.curr ∧ l.other.length = max 1 cap ∧ lost.length = n * max 1 cap)

lemma Holds.push (h : Holds cap written l) : Holds cap (written ++ [x]) (l.push cap x) := by
  obtain ⟨hfill, hpos, hcap, hw⟩ := h
  by_cases hlt : l.fill < cap
  · have htake : l.curr.take l.fill = l.curr := by rw [hfill, take_length]
    rw [AlternatingLog.push, if_pos hlt]
    refine ⟨by simp [hfill], Nat.succ_pos _, le_max_of_le_right hlt, ?_⟩
    rcases hw with rfl | ⟨n, lost, rfl, hother, hlost⟩
    · exact .inl (congrArg (· ++ [x]) htake)
    · refine .inr ⟨n, lost, ?_, hother, hlost⟩
      simp only [htake, append_assoc]
  · rw [AlternatingLog.push, if_neg hlt]
    have hfull : l.curr.length = max 1 cap := by omega
    refine ⟨rfl, Nat.one_pos, le_max_left 1 cap, .inr ?_⟩
    rcases hw with rfl | ⟨n, lost, rfl, hother, hlost⟩
    · exact ⟨0, [], rfl, hfull, by simp⟩
    · refine ⟨n + 1, lost ++ l.other, rfl, hfull, ?_⟩
      rw [length_append, hlost, hother, Nat.succ_mul]

lemma holds_push_first : ∃ before : List α, before.length = l.next cap ∧ Holds cap (before ++ [x]) (l.push cap x) := by
  by_cases hlt : l.fill < cap
  · refine ⟨l.curr.take l.fill, ?_, ?_⟩
    · rw [next, if_pos hlt, length_take, min_eq_left l.fill_le]
    · rw [AlternatingLog.push, if_pos hlt]
      refine ⟨?_, Nat.succ_pos _, le_max_of_le_right hlt, .inl rfl⟩
      rw [length_append, length_take, min_eq_left l.fill_le, length_singleton]
  · refine ⟨[], by rw [next, if_neg hlt]; rfl, ?_⟩
    rw [AlternatingLog.push, if_neg hlt]
    exact ⟨rfl, Nat.one_pos, le_max_left 1 cap, .inl rfl⟩

lemma Holds.pushAll (h : Holds cap written l) : Holds cap (written ++ xs) (l.pushAll cap xs) := by
  induction xs generalizing l written with
  | nil => simpa [AlternatingLog.pushAll] using h
  | cons x xs ih =>
    rw [append_cons]
    exact ih h.push

lemma next_lt : l.next cap < max 1 cap := by
  rw [next]
  split <;> omega

lemma holds_pushAll :
    ∃ before : List α, before.length = l.next cap ∧ Holds cap (before ++ x :: xs) (l.pushAll cap (x :: xs)) := by
  obtain ⟨before, hlen, h⟩ := @holds_push_first _ cap l x
  refine ⟨before, hlen, ?_⟩
  rw [append_cons]
  exact h.pushAll

lemma mem_readable_pushAll (hlen : l.next cap + xs.length ≤ 2 * max 1 cap) (hy : y ∈ xs) : y ∈ (l.pushAll cap xs).readable := by
  cases xs with
  | nil => cases hy
  | cons x xs =>
    obtain ⟨before, hbefore, hfill, hpos, -, hw⟩ := @holds_pushAll _ cap l x xs
    rcases hw with hcurr | ⟨n, lost, hw, hother, hlost⟩
    · rw [readable, hcurr]
      exact mem_append_right _ (mem_append_right _ hy)
    · have hl := congrArg length hw
      simp only [length_append, hother, hlost, ← hfill, hbefore] at hl
      -- no full file was lost
      have hn : n = 0 := by
        by_contra hn
        have := Nat.le_mul_of_pos_left (max 1 cap) (pos_of_ne_zero hn)
        omega
      have hnil : lost = [] := by rw [← length_eq_zero_iff, hlost, hn, zero_mul]
      rw [hnil, nil_append] at hw
      rw [readable, ← hw]
      exact mem_append_right _ hy

lemma readable_pushAll_subset (hlen : 2 * max 1 cap < l.next cap + (x :: xs).length)
    (hy : y ∈ (l.pushAll cap (x :: xs)).readable) : y ∈ xs := by
  obtain ⟨before, hbefore, hfill, hpos, hle, hw⟩ := @holds_pushAll _ cap l x xs
  have hnext := @next_lt _ cap l
  rcases hw with hcurr | ⟨n, lost, hw, hother, hlost⟩
  · have hl := congrArg length hcurr
    rw [length_append, hbefore] at hl
    omega
  · have hl := congrArg length hw
    simp only [length_append, hother, hlost, ← hfill, hbefore] at hl
    have hn : n ≠ 0 := by
      rintro rfl
      omega
    have hlost' : (before ++ [x]).length ≤ lost.length := by
      have := Nat.le_mul_of_pos_left (max 1 cap) (pos_of_ne_zero hn)
      rw [length_append, length_singleton]
      omega
    rw [append_cons, append_assoc lost] at hw
    have hlp : lost <+: before ++ [x] ++ xs := by
      rw [hw]
      exact prefix_append _ _
    obtain ⟨more, rfl⟩ := prefix_of_prefix_length_le (prefix_append _ xs) hlp hlost'
    rw [append_assoc (before ++ [x]), append_cancel_left_eq] at hw
    rw [hw]
    exact mem_append_right _ hy

end AlternatingLog

end SciDB.Lib
