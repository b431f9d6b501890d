import SciDB.Smgr.ChunkMap

/-!
# Overlapping extents

The loop of `checkExtentsForOverlaps`: of the extents that hang together only the one that reaches furthest is kept. Left out:
what is logged.
-/

namespace SciDB.Smgr

open SciDB.Lib List

/-- `overlaps`, as a set. -/
def overlaps (extents : Extents) : Finset ℕ :=
  match extents.entries.map Prod.fst with
  | [] => ∅
  | ext :: exts => findOverlaps ext exts

/-- A part of a file: its end is an `off_t`, so that the sums of the loop, here of natural numbers, do not wrap. -/
def ChunkExtent.InFile (e : ChunkExtent) : Prop := 0 < e.2.2.1 ∧ e.2.1 + e.2.2.1 < 2 ^ 63

instance (e : ChunkExtent) : Decidable e.InFile := inferInstanceAs (Decidable (_ ∧ _))

/-- The extents have a byte of one datastore in common. -/
def ChunkExtent.Meets (a b : ChunkExtent) : Prop := a.1 = b.1 ∧ a.2.1 < b.2.1 + b.2.2.1 ∧ b.2.1 < a.2.1 + a.2.2.1

/-- An extent that meets another. -/
def Overlapping (l : List ChunkExtent) (h : ℕ) : Prop := ∃ e ∈ l, e.2.2.2 = h ∧ ∃ e' ∈ l, e' ≠ e ∧ e.Meets e'

variable {c e x : ChunkExtent} {l : List ChunkExtent} {h : ℕ}

lemma ChunkExtent.Meets.symm (hm : c.Meets e) : e.Meets c := ⟨hm.1.symm, hm.2.2, hm.2.1⟩

lemma ChunkExtent.offset_le (hlt : c < e) : c.1 < e.1 ∨ c.1 = e.1 ∧ c.2.1 ≤ e.2.1 := by
  rcases Prod.Lex.lt_iff.mp hlt with hlt | ⟨heq, hlt⟩
  · exact .inl hlt
  · exact .inr ⟨heq, (Prod.Lex.lt_iff.mp hlt).elim le_of_lt fun hlt => hlt.1.le⟩

lemma ChunkExtent.meets_iff (hlt : c < e) (hpos : 0 < e.2.2.1) : c.Meets e ↔ c.overlaps e = true := by
  have := offset_le hlt
  simp only [Meets, ChunkExtent.overlaps, decide_eq_true_eq]
  omega

lemma overlapping_cons (hx : ∀ e ∈ l, x < e) :
    Overlapping (x :: l) h ↔ (∃ e ∈ l, x.Meets e ∧ (h = x.2.2.2 ∨ h = e.2.2.2)) ∨ Overlapping l h := by
  constructor
  · rintro ⟨e, he, rfl, e', he', hne, hm⟩
    rcases mem_cons.mp he with rfl | hel <;> rcases mem_cons.mp he' with rfl | hel'
    · exact absurd rfl hne
    · exact .inl ⟨e', hel', hm, .inl rfl⟩
    · exact .inl ⟨e, hel, hm.symm, .inr rfl⟩
    · exact .inr ⟨e, hel, rfl, e', hel', hne, hm⟩
  · rintro (⟨e, he, hm, rfl | rfl⟩ | ⟨e, he, hh, e', he', hrest⟩)
    · exact ⟨x, mem_cons_self, rfl, e, mem_cons_of_mem _ he, (hx e he).ne', hm⟩
    · exact ⟨e, mem_cons_of_mem _ he, rfl, x, mem_cons_self, (hx e he).ne, hm.symm⟩
    · exact ⟨e, mem_cons_of_mem _ he, hh, e', mem_cons_of_mem _ he', hrest⟩

section Sorted

variable (hsort : (c :: e :: l).Pairwise (· < ·)) (hlen : ∀ x ∈ e :: l, 0 < x.2.2.1)
include hsort hlen

lemma overlapping_skip (hgap : ¬c.overlaps e = true) : Overlapping (c :: e :: l) h ↔ Overlapping (e :: l) h := by
  obtain ⟨hc, hsort⟩ := pairwise_cons.mp hsort
  refine (overlapping_cons hc).trans (or_iff_right ?_)
  rintro ⟨x, hx, hm, -⟩
  rw [ChunkExtent.meets_iff (hc x hx) (hlen x hx)] at hm
  rcases mem_cons.mp hx with rfl | hxl
  · exact hgap hm
  · have hex := ChunkExtent.offset_le ((pairwise_cons.mp hsort).1 x hxl)
    have hce := ChunkExtent.offset_le (hc e mem_cons_self)
    simp only [ChunkExtent.overlaps, decide_eq_true_eq] at hm hgap
    omega

lemma overlapping_join (hm : c.overlaps e = true) : Overlapping (c :: e :: l) h ↔ (h = c.2.2.2 ∨ h = e.2.2.2) ∨
      Overlapping ((if c.2.1 + c.2.2.1 < e.2.1 + e.2.2.1 then e else c) :: l) h := by
  obtain ⟨hc, hsort⟩ := pairwise_cons.mp hsort
  obtain ⟨he, -⟩ := pairwise_cons.mp hsort
  have hcl : ∀ x ∈ l, c < x := fun x hx => hc x (mem_cons_of_mem _ hx)
  have hme := (ChunkExtent.meets_iff (hc e mem_cons_self) (hlen e mem_cons_self)).mpr hm
  have hreach : ∀ x ∈ l, (c.Meets x ∨ e.Meets x ↔ (if c.2.1 + c.2.2.1 < e.2.1 + e.2.2.1 then e else c).Meets x) := by
    intro x hx
    have hpos := hlen x (mem_cons_of_mem _ hx)
    have hguid := hme.1
    split_ifs <;> simp only [ChunkExtent.meets_iff (hcl x hx) hpos, ChunkExtent.meets_iff (he x hx) hpos,
      ChunkExtent.overlaps, decide_eq_true_eq] <;> omega
  rw [overlapping_cons hc, overlapping_cons he, overlapping_cons (by split_ifs <;> assumption)]
  split_ifs at hreach ⊢ <;> grind

end Sorted

lemma mem_findOverlaps (hsort : (c :: l).Pairwise (· < ·)) (hlen : ∀ x ∈ l, 0 < x.2.2.1) :
    h ∈ findOverlaps c l ↔ Overlapping (c :: l) h := by
  induction l generalizing c with
  | nil =>
    rw [findOverlaps, overlapping_cons (by simp)]
    simp [Overlapping]
  | cons e l ih =>
    obtain ⟨hc, hsort'⟩ := pairwise_cons.mp hsort
    have hlen' := (forall_mem_cons.mp hlen).2
    rw [findOverlaps]
    by_cases hm : c.overlaps e = true
    · have hkeep : ((if c.2.1 + c.2.2.1 < e.2.1 + e.2.2.1 then e else c) :: l).Pairwise (· < ·) := by
        split_ifs
        · exact hsort'
        · exact hsort.sublist (by simp)
      rw [if_pos hm, Finset.mem_insert, Finset.mem_insert, ih hkeep hlen', overlapping_join hsort hlen hm, or_assoc]
    · rw [if_neg hm, ih hsort' hlen', overlapping_skip hsort hlen hm]

/-- **The loop finds exactly the extents that intersect another one of their datastore.** -/
theorem mem_overlaps_iff (extents : Extents) (hfile : ∀ e ∈ extents.entries.map Prod.fst, e.InFile) :
    (∀ h, h ∈ overlaps extents ↔ Overlapping (extents.entries.map Prod.fst) h) ∧
      ((extents.entries.map fun e => e.1.2.2.2).Nodup → ∀ e ∈ extents.entries.map Prod.fst,
        (e.2.2.2 ∈ overlaps extents ↔ ∃ e' ∈ extents.entries.map Prod.fst, e' ≠ e ∧ e.Meets e')) ∧
      ∀ cfg s, checkExtentsForOverlaps cfg extents s = if cfg.skipChunkmapIntegrityCheck then .ok s
        else if overlaps extents = ∅ then .ok s
        else if cfg.enableChunkmapRecovery then .ok ((overlaps extents).sort.foldl recoverOverlap s)
        else .error .databaseHeaderCorrupted := by
  have hall : ∀ h, h ∈ overlaps extents ↔ Overlapping (extents.entries.map Prod.fst) h := by
    intro h
    have hsort : (extents.entries.map Prod.fst).Pairwise (· < ·) := pairwise_map.mpr extents.sorted
    unfold overlaps
    generalize extents.entries.map Prod.fst = l at hsort hfile
    cases l with
    | nil => simp [Overlapping]
    | cons e l => exact mem_findOverlaps hsort fun x hx => (hfile x (mem_cons_of_mem e hx)).1
  refine ⟨hall, fun hnodup e he => (hall _).trans ⟨?_, fun hmeets => ⟨e, he, rfl, hmeets⟩⟩, fun _ _ => rfl⟩
  rintro ⟨e₁, he₁, hpos, hmeets⟩
  rw [← Function.comp_def (fun e : ChunkExtent => e.2.2.2) Prod.fst, ← map_map] at hnodup
  rwa [inj_on_of_nodup_map hnodup he₁ he hpos] at hmeets

theorem overlaps_chain : overlaps ⟨[(toLex (1, toLex (0, toLex (10, 7))), ()), (toLex (1, toLex (5, toLex (2, 8))), ()),
      (toLex (1, toLex (9, toLex (3, 9))), ()), (toLex (1, toLex (12, toLex (4, 6))), ())], by decide⟩ = {7, 8, 9} ∧
      7 ∈ overlaps ⟨[(toLex (1, toLex (0, toLex (10, 7))), ()), (toLex (1, toLex (5, toLex (2, 8))), ())], by decide⟩ :=
  ⟨by decide, ((mem_overlaps_iff _ (by decide)).1 7).mpr
    ⟨_, List.mem_cons_self, rfl, _, List.mem_cons_of_mem _ List.mem_cons_self, by decide, rfl, by decide, by decide⟩⟩

end SciDB.Smgr
