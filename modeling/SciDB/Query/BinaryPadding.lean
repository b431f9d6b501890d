import SciDB.Query.BinaryChunkLoader

/-!
# The buffer for the padding

`saveUsingTemplate` takes all padding from `padBuffer`, which is made for the columns to skip only.
-/

namespace SciDB.Query

open SciDB.Smgr SciDB.Smgr.TemplateParser List Except Option

variable {size n : ℕ} {heap : ℕ → UInt8} {c : TemplateColumn} {cols : List TemplateColumn} {v : BinaryValue} {cell : BinaryCell}

/-- Writes from `padBuffer`. -/
def valuePads (c : TemplateColumn) : BinaryValue → List ℕ
  | .null _ => if c.nullable then [fieldSize c] else []
  | .data bytes => if bytes.length < c.fixedSize then [c.fixedSize - bytes.length] else []

/-- Those for a cell. -/
def cellPads (size : ℕ) (heap : ℕ → UInt8) : List TemplateColumn → BinaryCell → List ℕ
  | [], _ => []
  | c :: cols, cell =>
    if c.skip then skipBytes c :: cellPads size heap cols cell
    else
      match cell with
      | [] => []
      | v :: cell => valuePads c v ++ if (writeValue size heap c v).isOk then cellPads size heap cols cell else []

/-- Those of `saveUsingTemplate`. -/
def savePads (heap : ℕ → UInt8) (cols : List TemplateColumn) : List BinaryCell → List ℕ
  | [] => []
  | cell :: cells => cellPads (padBufferSize cols) heap cols cell ++
    if (writeCell (padBufferSize cols) heap cols cell).isOk then savePads heap cols cells else []

/-- The value fits its type. -/
def HasType (c : TemplateColumn) : BinaryValue → Prop
  | .null _ => True
  | .data bytes => ∀ t ∈ c.types, t.2.byteSize ≠ 0 → bytes.length = t.2.byteSize

/-- The buffer is large enough for a column with nulls or with a type of a variable size. -/
def ColumnFits (size : ℕ) (c : TemplateColumn) : Prop :=
  (c.nullable = true ∨ ∀ t ∈ c.types, t.2.byteSize = 0) → c.fixedSize ≤ size

lemma valuePads_le (hfixed : FixedOk c) (hfour : 4 ≤ size) (hfits : ColumnFits size c) (hv : HasType c v) :
    ∀ n ∈ valuePads c v, n ≤ size := by
  cases v with
  | null r =>
    simp only [valuePads, fieldSize]
    intro n hn
    split_ifs at hn with hnull h0
    · rwa [mem_singleton.mp hn]
    · exact mem_singleton.mp hn ▸ hfits (.inl hnull)
    · cases hn
  | data d =>
    simp only [valuePads]
    split_ifs with hlt
    · have hle := hfits (.inr fun t ht => by_contra fun h0 => by have := hfixed t ht h0; have := hv t ht h0; omega)
      simp only [mem_singleton, forall_eq]
      omega
    · simp

lemma cellPads_le (hcols : ∀ c ∈ cols, FixedOk c) (hskips : ∀ c ∈ cols, c.skip = true → skipBytes c ≤ size)
    (hfour : 4 ≤ size) (hfits : ∀ c ∈ valueCols cols, ColumnFits size c) (hcell : List.Forall₂ HasType (valueCols cols) cell) :
    ∀ n ∈ cellPads size heap cols cell, n ≤ size := by
  induction cols generalizing cell with
  | nil => simp [cellPads]
  | cons c cols ih =>
    obtain ⟨hc, hcols⟩ := forall_mem_cons.mp hcols
    obtain ⟨hskip, hskips⟩ := forall_mem_cons.mp hskips
    rw [cellPads.eq_def]
    dsimp only
    by_cases hs : c.skip = true
    · rw [valueCols_cons_skip hs] at hfits hcell
      rw [if_pos hs, forall_mem_cons]
      exact ⟨hskip hs, ih hcols hskips hfits hcell⟩
    · rw [valueCols_cons_value hs] at hfits hcell
      obtain ⟨hfit, hfits⟩ := forall_mem_cons.mp hfits
      cases hcell with
      | cons hv hcell =>
        rw [if_neg hs, forall_mem_append]
        refine ⟨valuePads_le hc hfour hfit hv, ?_⟩
        split_ifs
        · exact ih hcols hskips hfits hcell
        · simp

/-- A value with much padding. -/
def paddedValue (c : TemplateColumn) : BinaryValue :=
  if c.nullable then .null 0 else .data (List.replicate ((c.types.map fun t => t.2.byteSize).getD 0) 0)

lemma hasType_paddedValue (c : TemplateColumn) : HasType c (paddedValue c) := by
  unfold paddedValue
  split_ifs <;> simp +contextual [HasType]

lemma canWrite_paddedValue (hok : FixedOk c) : CanWrite c (paddedValue c) := by
  unfold paddedValue
  split_ifs with hnull
  · exact hnull
  · cases htypes : c.types with
    | none => simp [CanWrite]
    | some t =>
      have hfixed := hok t htypes
      have hlt := t.2.byteSize_lt
      simp only [CanWrite, map_some, getD_some, length_replicate]
      omega

lemma columnFits_of_pads (h : ∀ n ∈ valuePads c (paddedValue c), n ≤ size) : ColumnFits size c := by
  unfold paddedValue at h
  intro hcase
  by_cases hnull : c.nullable = true
  · simp only [hnull, if_true, valuePads, mem_singleton, forall_eq, fieldSize] at h
    split_ifs at h <;> omega
  · have h0 : (c.types.map fun t => t.2.byteSize).getD 0 = 0 := by
      cases htypes : c.types with
      | none => rfl
      | some t => exact hcase.resolve_left hnull t htypes
    simp only [hnull, h0, valuePads, replicate_zero] at h
    by_contra hlt
    exact absurd (h c.fixedSize (by simp; omega)) hlt

lemma mem_cellPads_padded (hcols : ∀ c ∈ cols, FixedOk c) : ∀ c ∈ valueCols cols, ∀ n ∈ valuePads c (paddedValue c),
      n ∈ cellPads size heap cols ((valueCols cols).map paddedValue) := by
  induction cols with
  | nil => simp [valueCols]
  | cons c cols ih =>
    obtain ⟨hc, hcols⟩ := forall_mem_cons.mp hcols
    rw [cellPads.eq_def]
    dsimp only
    by_cases hs : c.skip = true
    · rw [valueCols_cons_skip hs, if_pos hs]
      exact fun c' hc' n hn => mem_cons_of_mem _ (ih hcols c' hc' n hn)
    · rw [valueCols_cons_value hs, if_neg hs, forall_mem_cons]
      have hwrite : writeValue size heap c (paddedValue c) = .ok _ := writeValue_ok_iff.mpr ⟨canWrite_paddedValue hc, rfl⟩
      simp only [map_cons, hwrite, isOk, mem_append]
      exact ⟨fun n hn => .inl hn, fun c' hc' n hn => .inr (ih hcols c' hc' n hn)⟩

/-- **No write goes beyond `padBuffer` if and only if each column fits in it.** -/
theorem savePads_le_iff {lib : TypeLibrary} {attrs : List (List Char)} {format : List Char} {templ : ExchangeTemplate}
    (hparse : parse lib attrs format = .ok templ) (hclear : templ.isOpaque = false) :
    (∀ heap cells, (∀ cell ∈ cells, List.Forall₂ HasType (valueCols templ.columns) cell) →
      ∀ n ∈ savePads heap templ.columns cells, n ≤ padBufferSize templ.columns ∧
        padding (padBufferSize templ.columns) heap n = List.replicate n 0) ↔
      ∀ c ∈ valueCols templ.columns, ColumnFits (padBufferSize templ.columns) c := by
  have hok : ∀ c ∈ templ.columns, FixedOk c := fun c hc => ((parse_columns hparse hclear).1 c hc).2
  constructor
  · intro h c hc
    refine columnFits_of_pads fun n hn => (h (fun _ => 0) [(valueCols templ.columns).map paddedValue] ?_ n ?_).1
    · rw [forall_mem_singleton, forall₂_map_right_iff, forall₂_same]
      exact fun c _ => hasType_paddedValue c
    · exact mem_append_left _ (mem_cellPads_padded hok c hc n hn)
  · intro hfits heap cells hcells
    suffices hle : ∀ n ∈ savePads heap templ.columns cells, n ≤ padBufferSize templ.columns from
      fun n hn => ⟨hle n hn, padding_eq (hle n hn)⟩
    induction cells with
    | nil => simp [savePads]
    | cons cell cells ih =>
      obtain ⟨hcell, hcells⟩ := forall_mem_cons.mp hcells
      rw [savePads, forall_mem_append]
      refine ⟨cellPads_le hok skipBytes_le_padBufferSize four_le_padBufferSize hfits hcell, ?_⟩
      split_ifs
      · exact ih hcells
      · simp

/-- `(string(20))`: 19 bytes of padding are taken from a buffer of 9. -/
theorem wideString_overreads : ∃ templ, parse smallTypes ["string".toList] "(string(20))".toList = .ok templ ∧
      savePads (fun _ => 1) templ.columns [[.data [0]]] = [19] ∧ padBufferSize templ.columns = 9 ∧
      saveUsingTemplate (fun _ => 1) templ.columns [[.data [0]]] = .ok (List.replicate 10 0 ++ List.replicate 10 1) :=
  ⟨⟨[⟨false, false, some (⟨"string".toList, 0, by decide⟩, ⟨"string".toList, 0, by decide⟩), 20⟩],
    false⟩, by decide +kernel, by decide, rfl, rfl⟩

/-- `(string(3))`: two bytes of padding are in the buffer. -/
theorem shortString_pads : ∃ templ, parse smallTypes ["string".toList] "(string(3))".toList = .ok templ ∧
    savePads (fun _ => 1) templ.columns [[.data [0]]] = [2] ∧
    ∀ heap cells, (∀ cell ∈ cells, List.Forall₂ HasType (valueCols templ.columns) cell) →
      ∀ n ∈ savePads heap templ.columns cells, n ≤ padBufferSize templ.columns ∧
        padding (padBufferSize templ.columns) heap n = List.replicate n 0 := by
  have hparse : parse smallTypes ["string".toList] "(string(3))".toList =
      .ok ⟨[⟨false, false, some (⟨"string".toList, 0, by decide⟩, ⟨"string".toList, 0, by decide⟩), 3⟩], false⟩ := by
    decide +kernel
  exact ⟨_, hparse, by decide, (savePads_le_iff hparse rfl).mpr (forall_mem_singleton.mpr fun _ => by decide)⟩

end SciDB.Query
