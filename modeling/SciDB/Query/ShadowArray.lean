import Mathlib

/-!
# The shadow array of a load

A chunk loader calls `countCell` at the beginning of a cell, `handleError` for the attributes that fail, and
`completeShadowArrayRow` at its end. Left out: what is loaded, and all chunks but one.
-/

namespace SciDB.Query

open List Function

/-- A conversion that fails. -/
structure Failure where
  attr : ℤ
  msg : String
  offset : ℤ

/-- A cell with its failures. -/
structure FailedCell (P : Type) where
  pos : P
  failures : List Failure

/-- The shadow array. -/
structure ShadowArray (P : Type) where
  nErrors : ℕ
  lastBadAttr : ℤ
  rowPos : Option P
  attrs : ℤ → P → Option (Option String)
  rowOffset : P → Option ℤ

namespace ShadowArray

variable {P : Type} [DecidableEq P]

/-- No row. -/
def init : ShadowArray P := ⟨0, -1, none, fun _ _ => none, fun _ => none⟩

/-- Writes an attribute. -/
def write (s : ShadowArray P) (j : ℤ) (pos : P) (value : Option String) : ShadowArray P :=
  { s with attrs := update s.attrs j (update (s.attrs j) pos (some value)) }

/-- Writes nulls. -/
def writeNulls (pos : P) (upTo : ℤ) : ℕ → ShadowArray P → ShadowArray P
  | 0, s => s
  | fuel + 1, s =>
    let s := { s with lastBadAttr := s.lastBadAttr + 1 }
    if s.lastBadAttr < upTo then writeNulls pos upTo fuel (s.write s.lastBadAttr pos none) else s

/-- Begins a row. -/
def startRow (pos : P) (offset : ℤ) (s : ShadowArray P) : ShadowArray P :=
  if s.lastBadAttr < 0 then { s with rowPos := some pos, rowOffset := update s.rowOffset pos (some offset) } else s

/-- A failure at `pos`. -/
def handleError (maxErrors : ℕ) (pos : P) (s : ShadowArray P) (f : Failure) : Except ℕ (ShadowArray P) :=
  if maxErrors < s.nErrors + 1 then .error s.nErrors
  else
    let s := startRow pos f.offset { s with nErrors := s.nErrors + 1 }
    .ok ((writeNulls pos f.attr (f.attr - s.lastBadAttr).toNat s).write f.attr pos (some f.msg))

/-- Writes the rest of a row. -/
def completeShadowArrayRow (nAttrs : ℕ) (s : ShadowArray P) : ShadowArray P :=
  match s.rowPos with
  | none => s
  | some pos => if 0 ≤ s.lastBadAttr then writeNulls pos nAttrs (nAttrs - s.lastBadAttr).toNat s else s

/-- What a cell does. -/
def loadCell (nAttrs maxErrors : ℕ) (s : ShadowArray P) (c : FailedCell P) : Except ℕ (ShadowArray P) :=
  (c.failures.foldlM (handleError maxErrors c.pos) { s with lastBadAttr := -1 }).map (completeShadowArrayRow nAttrs)

variable {s : ShadowArray P} {pos : P} {upTo : ℤ} {nAttrs maxErrors : ℕ} {f : Failure} {fs : List Failure}

lemma writeNulls_eq {fuel : ℕ} (hlt : s.lastBadAttr < upTo) (hfuel : fuel = (upTo - s.lastBadAttr).toNat) :
    writeNulls pos upTo fuel s = { s with
      lastBadAttr := upTo
      attrs := fun j p => if s.lastBadAttr < j ∧ j < upTo ∧ p = pos then some none else s.attrs j p } := by
  induction fuel generalizing s with
  | zero => omega
  | succ fuel ih =>
    rw [writeNulls]
    dsimp only
    split_ifs with h
    · rw [ih (by exact h) (by dsimp only [write]; omega)]
      simp only [write, mk.injEq, true_and, and_true]
      funext j p
      by_cases hj : j = s.lastBadAttr + 1
      · subst hj
        by_cases hp : p = pos <;> simp [hp, h]
      · have : s.lastBadAttr + 1 < j ↔ s.lastBadAttr < j := by omega
        simp [update_of_ne hj, this]
    · have hupTo : upTo = s.lastBadAttr + 1 := by omega
      have hnone : ∀ j p, ¬(s.lastBadAttr < j ∧ j < s.lastBadAttr + 1 ∧ p = pos) := fun j p hj => by omega
      simp only [hupTo, hnone, if_false]

lemma startRow_eq (pos : P) (offset : ℤ) (s : ShadowArray P) : startRow pos offset s = { s with
    rowPos := if s.lastBadAttr < 0 then some pos else s.rowPos
    rowOffset := if s.lastBadAttr < 0 then update s.rowOffset pos (some offset) else s.rowOffset } := by
  rw [startRow]
  split_ifs <;> rfl

/-- The row after some failures. -/
structure RowSoFar (s₀ : ShadowArray P) (pos : P) (done : List Failure) (s : ShadowArray P) : Prop where
  nErrors : s.nErrors = s₀.nErrors + done.length
  bad : (done = [] ∧ s.lastBadAttr = -1) ∨ ∃ f ∈ done, s.lastBadAttr = f.attr ∧ 0 ≤ s.lastBadAttr ∧ s.rowPos = some pos
  le : ∀ f ∈ done, f.attr ≤ s.lastBadAttr
  attrs : s.attrs = fun j p => if 0 ≤ j ∧ j ≤ s.lastBadAttr ∧ p = pos then
    some ((done.find? (·.attr = j)).map Failure.msg) else s₀.attrs j p
  rowOffset : s.rowOffset = done.head?.elim s₀.rowOffset fun f => update s₀.rowOffset pos (some f.offset)

variable {s₀ : ShadowArray P} {done : List Failure} {c : FailedCell P}

lemma find?_eq_none_of_lt {j : ℤ} (h : ∀ f ∈ done, f.attr < j) : done.find? (·.attr = j) = none :=
  find?_eq_none.mpr fun f hf => by simpa using (h f hf).ne

lemma RowSoFar.handleError (h : RowSoFar s₀ pos done s) (hlim : s.nErrors < maxErrors) (h0 : 0 ≤ f.attr)
    (hf : ∀ g ∈ done, g.attr < f.attr) : ∃ s', handleError maxErrors pos s f = .ok s' ∧ RowSoFar s₀ pos (done ++ [f]) s' := by
  have hlt : s.lastBadAttr < f.attr := by
    rcases h.bad with ⟨-, hbad⟩ | ⟨g, hg, hbad, -⟩
    · omega
    · exact hbad ▸ hf g hg
  rw [ShadowArray.handleError, if_neg (by omega), startRow_eq]
  dsimp only
  rw [writeNulls_eq (by exact hlt) (by rfl)]
  refine ⟨_, rfl, ?_, ?_, ?_, ?_, ?_⟩
  · simp [write, h.nErrors, add_assoc]
  · refine .inr ⟨f, by simp, rfl, h0, ?_⟩
    rcases h.bad with ⟨-, hbad⟩ | ⟨-, -, -, hbad, hpos⟩
    · simp [write, hbad]
    · simp [write, not_lt.mpr hbad, hpos]
  · exact forall_mem_append.mpr ⟨fun g hg => (hf g hg).le, by simp [write]⟩
  · funext j p
    have hbad : -1 ≤ s.lastBadAttr := h.bad.elim (fun h => h.2.ge) fun ⟨_, _, _, h, _⟩ => by omega
    dsimp only [write]
    rw [h.attrs, find?_append]
    by_cases hp : p = pos
    · by_cases hjf : j = f.attr
      · have hnone := find?_eq_none_of_lt hf
        simp [hp, hjf, hnone, h0]
      · by_cases hj : s.lastBadAttr < j
        · have hnone := find?_eq_none_of_lt fun g hg => (h.le g hg).trans_lt hj
          have h0j : 0 ≤ j := by omega
          have hle : j < f.attr ↔ j ≤ f.attr := by omega
          simp [hp, hj, hnone, h0j, hjf, Ne.symm hjf, not_le.mpr hj, hle]
        · have hle : j ≤ f.attr := by omega
          simp [hp, hj, not_lt.mp hj, hle, hjf, Ne.symm hjf]
    · by_cases hjf : j = f.attr <;> simp [hp, hjf]
  · dsimp only [write]
    rw [h.rowOffset]
    rcases h.bad with ⟨rfl, hbad⟩ | ⟨g, hg, -, hbad, -⟩
    · simp [hbad]
    · obtain ⟨g, gs, rfl⟩ := exists_cons_of_ne_nil (ne_nil_of_mem hg)
      simp [not_lt.mpr hbad]

lemma rowSoFar_failures (h0 : ∀ f ∈ fs, 0 ≤ f.attr) (hsorted : fs.Pairwise fun f g => f.attr < g.attr)
    (hlim : s₀.nErrors + fs.length ≤ maxErrors) :
    ∃ s, fs.foldlM (handleError maxErrors pos) { s₀ with lastBadAttr := -1 } = .ok s ∧ RowSoFar s₀ pos fs s := by
  induction fs using reverseRecOn with
  | nil =>
    refine ⟨_, rfl, rfl, .inl ⟨rfl, rfl⟩, by simp, ?_, rfl⟩
    funext j p
    rw [if_neg fun h => by dsimp only at h; omega]
  | append_singleton fs f ih =>
    rw [length_append, length_singleton] at hlim
    rw [pairwise_append] at hsorted
    obtain ⟨s, hs, hrow⟩ := ih (fun g hg => h0 g (mem_append_left _ hg)) hsorted.1 (by omega)
    have hleft : s.nErrors < maxErrors := by
      rw [hrow.nErrors]
      omega
    obtain ⟨s', hs', hrow'⟩ := hrow.handleError hleft (h0 f (by simp)) fun g hg => hsorted.2.2 g hg f (by simp)
    refine ⟨s', ?_, hrow'⟩
    rw [foldlM_append, hs]
    change (ShadowArray.handleError maxErrors pos s f).bind _ = _
    rw [hs']
    rfl

/-- What a cell leaves. -/
structure CellDone (nAttrs : ℕ) (s : ShadowArray P) (c : FailedCell P) (s' : ShadowArray P) : Prop where
  nErrors : s'.nErrors = s.nErrors + c.failures.length
  attrs : ∀ (j : ℤ) p, 0 ≤ j → j < nAttrs → s'.attrs j p = if c.failures ≠ [] ∧ p = c.pos then
    some ((c.failures.find? (·.attr = j)).map Failure.msg) else s.attrs j p
  rowOffset : s'.rowOffset = c.failures.head?.elim s.rowOffset fun f => update s.rowOffset c.pos (some f.offset)

section

variable (h : ∀ f ∈ c.failures, 0 ≤ f.attr ∧ f.attr < nAttrs) (hsorted : c.failures.Pairwise fun f g => f.attr < g.attr)

include h hsorted

lemma loadCell_done (hlim : s.nErrors + c.failures.length ≤ maxErrors) :
    ∃ s', loadCell nAttrs maxErrors s c = .ok s' ∧ CellDone nAttrs s c s' := by
  obtain ⟨s1, hs1, hrow⟩ := @rowSoFar_failures _ _ c.pos _ _ s (fun f hf => (h f hf).1) hsorted hlim
  refine ⟨completeShadowArrayRow nAttrs s1, by rw [loadCell, hs1]; rfl, ?_⟩
  rcases hrow.bad with ⟨hnil, hbad⟩ | ⟨f, hf, hbad, h0, hpos⟩
  · have heq : completeShadowArrayRow nAttrs s1 = s1 := by
      rw [completeShadowArrayRow]
      split
      · rfl
      · rw [hbad, if_neg (by omega)]
    rw [heq]
    refine ⟨hrow.nErrors, fun j p h0 _ => ?_, hrow.rowOffset⟩
    rw [hrow.attrs, hbad]
    dsimp only
    rw [if_neg (by omega), if_neg fun h => h.1 hnil]
  · have hlt : s1.lastBadAttr < nAttrs := hbad ▸ (h f hf).2
    rw [completeShadowArrayRow, hpos]
    dsimp only
    rw [if_pos h0, writeNulls_eq hlt rfl]
    refine ⟨hrow.nErrors, fun j p h0j hj => ?_, hrow.rowOffset⟩
    dsimp only
    rw [hrow.attrs]
    by_cases hp : p = c.pos
    · by_cases hle : s1.lastBadAttr < j
      · have hnone := find?_eq_none_of_lt fun g hg => (hrow.le g hg).trans_lt hle
        simp [hp, hle, hj, hnone, ne_nil_of_mem hf]
      · simp [hp, hle, not_lt.mp hle, h0j, ne_nil_of_mem hf]
    · simp [hp]

lemma loadCell_aborts (hle : s.nErrors ≤ maxErrors)
    (hlim : maxErrors < s.nErrors + c.failures.length) : loadCell nAttrs maxErrors s c = .error maxErrors := by
  obtain ⟨f, rest, hdrop⟩ := exists_cons_of_length_pos (l := c.failures.drop (maxErrors - s.nErrors)) (by rw [length_drop]; omega)
  have hsplit := take_append_drop (maxErrors - s.nErrors) c.failures
  obtain ⟨s1, hs1, hrow⟩ := @rowSoFar_failures _ _ c.pos maxErrors _ s (fun f hf => (h f (mem_of_mem_take hf)).1)
    (hsorted.sublist (take_sublist (maxErrors - s.nErrors) _)) (by rw [length_take]; omega)
  have hfull : s1.nErrors = maxErrors := by
    rw [hrow.nErrors, length_take]
    omega
  have hthrow : handleError maxErrors c.pos s1 f = .error maxErrors := by
    rw [handleError, hfull, if_pos (Nat.lt_succ_self _)]
  rw [loadCell, ← hsplit, hdrop, foldlM_append, hs1]
  change ((handleError maxErrors c.pos s1 f).bind _).map _ = _
  rw [hthrow]
  rfl

end

/-- The failed cell at a position. -/
def rowAt (cells : List (FailedCell P)) (p : P) : Option (FailedCell P) := cells.find? fun c => c.pos = p ∧ c.failures ≠ []

end ShadowArray

end SciDB.Query
