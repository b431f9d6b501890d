import Mathlib

/-!
# What survives the removal of old versions

When all versions before `oldest` are given up, an item is still needed if it is newer, or the newest one at its place that is
not (`Retained`).
-/

namespace SciDB.Lib

universe u v w

variable {ι : Type u} {π : Type v} {V : Type w} [LinearOrder V]

/-- The item is still needed. -/
def Retained (place : ι → π) (version : ι → V) (oldest : π → V) (S : Set ι) (i : ι) : Prop :=
  i ∈ S ∧ (oldest (place i) < version i ∨ ∀ j ∈ S, place j = place i → version j ≤ oldest (place i) → version j ≤ version i)

namespace Retained

variable {place : ι → π} {version : ι → V} {oldest : π → V} {S : Set ι} {i j k : ι}

lemma mem (h : Retained place version oldest S i) : i ∈ S := h.1

lemma max (h : Retained place version oldest S i) (hi : version i ≤ oldest (place i)) (hj : j ∈ S)
    (hp : place j = place i) (hv : version j ≤ oldest (place i)) : version j ≤ version i :=
  (h.2.resolve_left (not_lt.mpr hi)) j hj hp hv

lemma exists_of_le (hfin : S.Finite) (hj : j ∈ S) (hv : version j ≤ oldest (place j)) :
    ∃ i, Retained place version oldest S i ∧ place i = place j ∧ version i ≤ oldest (place j) := by
  have hfin' : {a ∈ S | place a = place j ∧ version a ≤ oldest (place j)}.Finite := hfin.subset fun a ha => ha.1
  obtain ⟨i, ⟨hi, hp, hvi⟩, hmax⟩ := Set.exists_max_image _ version hfin' ⟨j, hj, rfl, hv⟩
  refine ⟨i, ⟨hi, .inr fun a ha hpa hva => ?_⟩, hp, hvi⟩
  exact hmax a ⟨ha, hpa.trans hp, hp ▸ hva⟩

lemma of_retained_iff {older : π → V} (hfin : S.Finite) (hle : ∀ p, older p ≤ oldest p) :
    Retained place version oldest {i | Retained place version older S i} i ↔ Retained place version oldest S i := by
  constructor
  · refine fun h => ⟨h.mem.1, h.2.imp_right fun hmax j hj hp hv => ?_⟩
    by_cases hj' : older (place j) < version j
    · exact hmax j ⟨hj, .inl hj'⟩ hp hv
    · obtain ⟨k, hk, hpk, hvk⟩ := exists_of_le hfin hj (not_lt.mp hj')
      refine (hk.max (hpk ▸ hvk) hj hpk.symm (hpk ▸ not_lt.mp hj')).trans (hmax k hk (hpk.trans hp) ?_)
      exact hvk.trans (hp ▸ hle _)
  · refine fun h => ⟨⟨h.1, ?_⟩, h.2.imp_right fun hmax j hj => hmax j hj.1⟩
    exact h.2.imp (hle _).trans_lt fun hmax j hj hp hv => hmax j hj hp (hv.trans (hle _))

lemma of_insert (h : Retained place version oldest (insert k S) i) : i = k ∨ Retained place version oldest S i :=
  h.1.imp_right fun hi => ⟨hi, h.2.imp_right fun hmax j hj => hmax j (Set.mem_insert_of_mem k hj)⟩

lemma insert_of_le (h : Retained place version oldest S i)
    (hk : place k = place i → version i ≤ oldest (place i) → version k ≤ oldest (place i) → version k ≤ version i) :
    Retained place version oldest (insert k S) i := by
  refine ⟨Set.mem_insert_of_mem k h.1, (lt_or_ge (oldest (place i)) (version i)).imp_right fun hi j hj hp hv => ?_⟩
  rcases Set.mem_insert_iff.mp hj with rfl | hj
  · exact hk hp hi hv
  · exact h.max hi hj hp hv

lemma insert_newer (h : oldest (place k) < version k) :
    Retained place version oldest (insert k S) i ↔ i = k ∨ Retained place version oldest S i := by
  refine ⟨of_insert, ?_⟩
  rintro (rfl | hi)
  · exact ⟨Set.mem_insert _ _, .inl h⟩
  · refine hi.insert_of_le fun hp _ hv => ?_
    rw [← hp] at hv
    exact absurd hv (not_le.mpr h)

lemma insert_first (h : ∀ j ∈ S, place j = place k → oldest (place k) < version j) :
    Retained place version oldest (insert k S) i ↔ i = k ∨ Retained place version oldest S i := by
  refine ⟨of_insert, ?_⟩
  rintro (rfl | hi)
  · refine ⟨Set.mem_insert _ _, .inr fun j hj hp hv => ?_⟩
    rcases Set.mem_insert_iff.mp hj with rfl | hj
    · exact le_rfl
    · exact absurd hv (not_le.mpr (h j hj hp))
  · refine hi.insert_of_le fun hp hio _ => ?_
    exact absurd hio (not_le.mpr (hp ▸ h i hi.mem hp.symm))

lemma insert_over (hinj : ∀ a ∈ S, ∀ b ∈ S, place a = place b → version a = version b → a = b)
    (hj : Retained place version oldest S j) (hp : place j = place k) (hjk : version j < version k)
    (hk : version k ≤ oldest (place k)) :
    Retained place version oldest (insert k S) i ↔ i = k ∨ Retained place version oldest S i ∧ i ≠ j := by
  have hjo : version j ≤ oldest (place j) := hp ▸ hjk.le.trans hk
  constructor
  · refine fun h => h.of_insert.imp_right fun hi => ⟨hi, ?_⟩
    rintro rfl
    exact absurd (h.max hjo (Set.mem_insert _ _) hp.symm (hp ▸ hk)) (not_le.mpr hjk)
  · rintro (rfl | ⟨hi, hne⟩)
    · refine ⟨Set.mem_insert _ _, .inr fun a ha hpa hva => ?_⟩
      rcases Set.mem_insert_iff.mp ha with rfl | ha
      · exact le_rfl
      · exact (hj.max hjo ha (hpa.trans hp.symm) (hp ▸ hva)).trans hjk.le
    · refine hi.insert_of_le fun hki hio _ => ?_
      -- two retained items at the boundary of one place are one
      have hpij : place i = place j := hki.symm.trans hp.symm
      have h1 := hi.max hio hj.mem hpij.symm (hpij ▸ hjo)
      have h2 := hj.max hjo hi.mem hpij (hpij ▸ hio)
      exact absurd (hinj i hi.mem j hj.mem hpij (le_antisymm h2 h1)) hne

lemma insert_under (hj : j ∈ S) (hp : place j = place k) (hkj : version k < version j) (hjo : version j ≤ oldest (place j)) :
    Retained place version oldest (insert k S) i ↔ Retained place version oldest S i ∧ i ≠ k := by
  have hko : version k ≤ oldest (place k) := hkj.le.trans (hp ▸ hjo)
  constructor
  · intro h
    have hne : i ≠ k := by
      rintro rfl
      exact absurd (h.max hko (Set.mem_insert_of_mem _ hj) hp (hp ▸ hjo)) (not_le.mpr hkj)
    exact ⟨h.of_insert.resolve_left hne, hne⟩
  · rintro ⟨hi, -⟩
    refine hi.insert_of_le fun hki hio _ => ?_
    exact hkj.le.trans (hi.max hio hj (hp.trans hki) (by rw [← hki, ← hp]; exact hjo))

end Retained

end SciDB.Lib
