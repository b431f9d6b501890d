import Mathlib

/-!
# Ordered maps

`OrdMap α β` is a `std::map`: the list of its entries, with the proof that the keys increase. `assign` is `m[k] = v`,
`lowerBound k` is the entry `m.lower_bound(k)` points to, and `above k` are those from `m.upper_bound(k)` on.
-/

namespace SciDB.Lib

open List Option

universe u v

variable {α : Type u} {β : Type v}

/-- A `std::map`. -/
structure OrdMap (α : Type u) (β : Type v) [LT α] where
  entries : List (α × β)
  sorted : entries.Pairwise fun a b => a.1 < b.1

namespace OrdMap

instance [LT α] [DecidableEq α] [DecidableEq β] : DecidableEq (OrdMap α β) := fun m₁ m₂ =>
  decidable_of_iff (m₁.entries = m₂.entries) ⟨fun h => by cases m₁; cases m₂; cases h; rfl, fun h => by rw [h]⟩

variable [LinearOrder α]

/-- The map with no entry. -/
def empty : OrdMap α β := ⟨[], List.Pairwise.nil⟩

instance : Inhabited (OrdMap α β) := ⟨empty⟩

/-- `m.find(k)`. -/
def find? (m : OrdMap α β) (k : α) : Option β := (m.entries.find? fun e => e.1 = k).map Prod.snd

variable (m : OrdMap α β)

/-- `m[k] = v`. -/
def assign (k : α) (v : β) : OrdMap α β where
  entries := m.entries.filter (fun e => e.1 < k) ++ (k, v) :: m.entries.filter (fun e => k < e.1)
  sorted := by
    refine List.pairwise_append.mpr ⟨m.sorted.filter _, List.pairwise_cons.mpr ⟨?_, m.sorted.filter _⟩, ?_⟩
    · intro e he
      simpa using (List.mem_filter.mp he).2
    · intro a ha b hb
      have hak : a.1 < k := by simpa using (List.mem_filter.mp ha).2
      rcases List.mem_cons.mp hb with rfl | hb
      · exact hak
      · exact hak.trans (by simpa using (List.mem_filter.mp hb).2)

/-- `m.erase(k)`. -/
def erase (k : α) : OrdMap α β :=
  ⟨m.entries.filter (fun e => e.1 ≠ k), m.sorted.filter _⟩

/-- The first entry from `k` on. -/
def lowerBound (k : α) : Option (α × β) := m.entries.find? fun e => k ≤ e.1

/-- The entries above `k`. -/
def above (k : α) : List (α × β) := m.entries.filter fun e => k < e.1

/-- The greatest key. -/
def lastKey? : Option α := m.entries.getLast?.map Prod.fst

variable {m : OrdMap α β} {k : α} {v : β} {e : α × β}

lemma eq_of_mem {w : β} (hv : (k, v) ∈ m.entries) (hw : (k, w) ∈ m.entries) : v = w := by
  have hne : m.entries.Pairwise fun a b => a.1 ≠ b.1 := m.sorted.imp ne_of_lt
  have hsymm : Std.Symm fun a b : α × β => a.1 ≠ b.1 := ⟨fun _ _ h => h.symm⟩
  by_contra hvw
  exact hne.forall hv hw (fun h => hvw (Prod.mk.inj h).2) rfl

lemma find?_eq_some_iff : m.find? k = some v ↔ (k, v) ∈ m.entries := by
  unfold find?
  constructor
  · intro h
    obtain ⟨⟨k', v'⟩, he, rfl⟩ := map_eq_some_iff.mp h
    have hk : k' = k := by simpa using find?_some he
    exact hk ▸ mem_of_find?_eq_some he
  · intro h
    obtain ⟨⟨k', v'⟩, he⟩ : ∃ e, m.entries.find? (fun e => e.1 = k) = some e := by
      rw [← isSome_iff_exists, find?_isSome]
      exact ⟨(k, v), h, by simp⟩
    have hk : k' = k := by simpa using find?_some he
    subst hk
    rw [he, map_some, eq_of_mem (mem_of_find?_eq_some he) h]

lemma find?_eq_none_iff : m.find? k = none ↔ ∀ v, (k, v) ∉ m.entries := by
  constructor
  · intro h v hv
    rw [find?_eq_some_iff.mpr hv] at h
    cases h
  · intro h
    cases hf : m.find? k with
    | none => rfl
    | some v => exact absurd (find?_eq_some_iff.mp hf) (h v)

lemma ext_find {m₁ m₂ : OrdMap α β} (h : ∀ k, m₁.find? k = m₂.find? k) : m₁ = m₂ := by
  have hnd : ∀ m : OrdMap α β, m.entries.Nodup := fun m =>
    m.sorted.imp fun {a b} hlt heq => by rw [heq] at hlt; exact lt_irrefl _ hlt
  have hperm : m₁.entries.Perm m₂.entries := by
    refine (perm_ext_iff_of_nodup (hnd m₁) (hnd m₂)).mpr fun ⟨k, v⟩ => ?_
    rw [← find?_eq_some_iff, ← find?_eq_some_iff, h k]
  have heq : m₁.entries = m₂.entries :=
    hperm.eq_of_pairwise (fun a b _ _ hab hba => absurd (hab.trans hba) (lt_irrefl _)) m₁.sorted m₂.sorted
  cases m₁
  cases m₂
  cases heq
  rfl

@[simp] lemma entries_empty : (empty : OrdMap α β).entries = [] := rfl

@[simp] lemma find?_empty (k : α) : (empty : OrdMap α β).find? k = none := rfl

lemma mem_assign : e ∈ (m.assign k v).entries ↔ e = (k, v) ∨ e.1 ≠ k ∧ e ∈ m.entries := by
  simp only [assign, mem_append, mem_cons, mem_filter, decide_eq_true_eq]
  constructor
  · rintro (⟨he, hlt⟩ | rfl | ⟨he, hlt⟩)
    · exact .inr ⟨hlt.ne, he⟩
    · exact .inl rfl
    · exact .inr ⟨hlt.ne', he⟩
  · rintro (rfl | ⟨hne, he⟩)
    · exact .inr (.inl rfl)
    · rcases lt_or_gt_of_ne hne with hlt | hgt
      · exact .inl ⟨he, hlt⟩
      · exact .inr (.inr ⟨he, hgt⟩)

lemma mem_erase : e ∈ (m.erase k).entries ↔ e.1 ≠ k ∧ e ∈ m.entries := by
  simp only [erase, mem_filter, decide_eq_true_eq]
  exact and_comm

variable (m)

@[simp] lemma find?_assign_self (k : α) (v : β) : (m.assign k v).find? k = some v :=
  find?_eq_some_iff.mpr (mem_assign.mpr (.inl rfl))

lemma find?_assign_of_ne {k' : α} (v : β) (h : k' ≠ k) : (m.assign k v).find? k' = m.find? k' := by
  refine ext fun w => ?_
  rw [find?_eq_some_iff, find?_eq_some_iff, mem_assign]
  constructor
  · rintro (heq | ⟨-, he⟩)
    · exact absurd (Prod.mk.inj heq).1 h
    · exact he
  · exact fun he => .inr ⟨h, he⟩

lemma find?_assign (k k' : α) (v : β) : (m.assign k v).find? k' = if k' = k then some v else m.find? k' := by
  split_ifs with h
  · rw [h, find?_assign_self]
  · exact find?_assign_of_ne m v h

lemma find?_erase (k k' : α) : (m.erase k).find? k' = if k' = k then none else m.find? k' := by
  split_ifs with h
  · subst h
    exact find?_eq_none_iff.mpr fun v hv => (mem_erase.mp hv).1 rfl
  · refine ext fun w => ?_
    rw [find?_eq_some_iff, find?_eq_some_iff, mem_erase]
    exact ⟨fun he => he.2, fun he => ⟨h, he⟩⟩

variable {m}

lemma lowerBound_eq_none_iff : m.lowerBound k = none ↔ ∀ e ∈ m.entries, e.1 < k := by
  simp [lowerBound, find?_eq_none]

lemma find?_entries_eq_some_iff {p : α × β → Bool} :
    m.entries.find? p = some e ↔ e ∈ m.entries ∧ p e = true ∧ ∀ e' ∈ m.entries, p e' = true → e.1 ≤ e'.1 := by
  constructor
  · intro h
    obtain ⟨hp, as, bs, hm, has⟩ := find?_eq_some_iff_append.mp h
    refine ⟨mem_of_find?_eq_some h, hp, fun e' he' hp' => ?_⟩
    rw [hm, mem_append, mem_cons] at he'
    have hs := m.sorted
    rw [hm, pairwise_append, pairwise_cons] at hs
    rcases he' with he' | rfl | he'
    · have := has e' he'
      rw [hp'] at this
      cases this
    · exact le_rfl
    · exact (hs.2.1.1 e' he').le
  · rintro ⟨he, hp, hmin⟩
    obtain ⟨e0, he0⟩ : ∃ e0, m.entries.find? p = some e0 := by
      rw [← isSome_iff_exists, find?_isSome]
      exact ⟨e, he, hp⟩
    obtain ⟨hp0, as, bs, hm, has⟩ := find?_eq_some_iff_append.mp he0
    have hle : e.1 ≤ e0.1 := hmin e0 (mem_of_find?_eq_some he0) hp0
    rw [he0]
    have hs := m.sorted
    rw [hm, pairwise_append, pairwise_cons] at hs
    rw [hm, mem_append, mem_cons] at he
    rcases he with he | rfl | he
    · have := has e he
      rw [hp] at this
      cases this
    · rfl
    · exact absurd hle (not_le.mpr (hs.2.1.1 e he))

lemma lowerBound_eq_some_iff : m.lowerBound k = some e ↔ e ∈ m.entries ∧ k ≤ e.1 ∧ ∀ e' ∈ m.entries, k ≤ e'.1 → e.1 ≤ e'.1 := by
  unfold lowerBound
  rw [find?_entries_eq_some_iff]
  simp only [decide_eq_true_eq]

lemma mem_above : e ∈ m.above k ↔ e ∈ m.entries ∧ k < e.1 := by
  simp [above]

lemma lastKey?_eq_none_iff : m.lastKey? = none ↔ m.entries = [] := by
  simp [lastKey?]

lemma lastKey?_eq_some_iff : m.lastKey? = some k ↔ (∃ v, (k, v) ∈ m.entries) ∧ ∀ e ∈ m.entries, e.1 ≤ k := by
  unfold lastKey?
  constructor
  · intro h
    obtain ⟨⟨k', v⟩, hl, rfl⟩ := map_eq_some_iff.mp h
    obtain ⟨as, has⟩ := getLast?_eq_some_iff.mp hl
    refine ⟨⟨v, by rw [has]; simp⟩, fun e he => ?_⟩
    have hs := m.sorted
    rw [has, pairwise_append] at hs
    rw [has, mem_append, mem_singleton] at he
    rcases he with he | rfl
    · exact (hs.2.2 e he (k', v) (by simp)).le
    · exact le_rfl
  · rintro ⟨⟨v, hv⟩, hmax⟩
    cases hl : m.entries.getLast? with
    | none => rw [getLast?_eq_none_iff.mp hl] at hv; cases hv
    | some e =>
      obtain ⟨as, has⟩ := getLast?_eq_some_iff.mp hl
      have he : e.1 ≤ k := hmax e (by rw [has]; simp)
      have hs := m.sorted
      rw [has, pairwise_append] at hs
      rw [has, mem_append, mem_singleton] at hv
      rcases hv with hv | rfl
      · exact absurd (hs.2.2 _ hv e (by simp)) (not_lt.mpr he)
      · rfl

end OrdMap

end SciDB.Lib
