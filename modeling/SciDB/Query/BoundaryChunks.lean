import SciDB.Query.ChunkLoader

/-!
# Boundaries from chunks

`createFromChunkList` opens only chunks at the rim of the set, and `updateFromChunk` leaves a chunk that cannot change the box.
The cells of a chunk are those that its iterator gives, without overlap. The last position of a chunk is what
`MemChunk::initialize` has computed in `int64`: if the end of the chunk is behind the greatest `int64`, it is negative, and then
the chunk seems to be inside the box. Densities and the access to the array are left out.
-/

namespace SciDB.Query

open SciDB.Lib List OrderDual

variable {n : ℕ} {dims : Fin n → Dimension} {noTag : Bool}

def InsideChunk (dims : Fin n → Dimension) (pos x : Fin n → ℤ) : Prop :=
  ∀ i, pos i ≤ x i ∧ x i ≤ min (pos i + (dims i).chunkInterval - 1) (dims i).endMax

/-- A chunk with at least one cell that is not empty; without an empty tag, no cell is. -/
structure CellChunk (dims : Fin n → Dimension) (isNoEmptyTag : Bool) where
  firstPosition : Fin n → ℤ
  aligned : ∀ i, (dims i).chunkInterval ∣ firstPosition i - (dims i).startMin
  start_le : ∀ i, (dims i).startMin ≤ firstPosition i
  cells : List (Fin n → ℤ)
  inside : ∀ x ∈ cells, InsideChunk dims firstPosition x
  nonempty : cells ≠ []
  full : isNoEmptyTag → ∀ x, InsideChunk dims firstPosition x → x ∈ cells

/-- `getLastPosition`: the end of the chunk, and then clipped. -/
def CellChunk.lastPosition (c : CellChunk dims noTag) (i : Fin n) : ℤ :=
  min (int64 (c.firstPosition i + ((dims i).chunkInterval - 1))) (dims i).endMax

/-- The end of the chunk is an `int64`. -/
def CellChunk.Fits (c : CellChunk dims noTag) : Prop := ∀ i, c.firstPosition i + (dims i).chunkInterval ≤ 2 ^ 63

lemma CellChunk.lastPosition_eq {c : CellChunk dims noTag} {i : Fin n} (h : c.firstPosition i + (dims i).chunkInterval ≤ 2 ^ 63) :
    c.lastPosition i = min (c.firstPosition i + (dims i).chunkInterval - 1) (dims i).endMax := by
  have := c.start_le i
  have := (dims i).min_le
  have := (dims i).interval_pos
  rw [CellChunk.lastPosition, int64_eq ⟨by omega, by omega⟩, ← add_sub_assoc]

/-- Two corners. -/
@[ext]
structure CellBox (n : ℕ) where
  startCoords : Fin n → ℤ
  endCoords : Fin n → ℤ

namespace CellBox

/-- No cell. -/
def createEmpty : CellBox n := ⟨fun _ => 2 ^ 62 - 1, fun _ => -(2 ^ 62 - 1)⟩

/-- One cell is taken in. -/
def takeIn (low hi : Bool) (pos : Fin n → ℤ) (b : CellBox n) : CellBox n where
  startCoords j := if low ∧ pos j < b.startCoords j then pos j else b.startCoords j
  endCoords j := if hi ∧ b.endCoords j < pos j then pos j else b.endCoords j

/-- The loop over the cells. -/
def scan (first last : Fin n → ℤ) : List (Fin n → ℤ) → Bool → Bool → CellBox n → CellBox n
  | [], _, _, b => b
  | pos :: cells, low, hi, b =>
    if low || hi then
      let b' := takeIn low hi pos b
      let updated := decide (∃ j, (hi ∧ b.endCoords j < pos j) ∨ (low ∧ pos j < b.startCoords j))
      scan first last cells (low && !(updated && decide (∀ k, b'.startCoords k ≤ first k)))
        (hi && !(updated && decide (∀ k, last k ≤ b'.endCoords k))) b'
    else b

/-- A chunk is taken in. -/
def updateFromChunk (b : CellBox n) (c : CellChunk dims noTag) : CellBox n :=
  let first := c.firstPosition
  let last := c.lastPosition
  if noTag then
    ⟨fun i => if first i < b.startCoords i then first i else b.startCoords i,
      fun i => if b.endCoords i < last i then last i else b.endCoords i⟩
  else scan first last c.cells (decide (∃ i, first i < b.startCoords i)) (decide (∃ i, b.endCoords i < last i)) b

end CellBox

def extremes {α β : Type*} [LinearOrder β] (key : α → β) (init : β) (l : List α) : β × List α :=
  l.foldl (fun m c => if key c < m.1 then (key c, [c]) else if key c = m.1 then (m.1, m.2 ++ [c]) else m) (init, [])

/-- The chunks at the rim. -/
def chunksToExamine (chunks : List (CellChunk dims noTag)) : List (CellChunk dims noTag) :=
  if 1 < n then
    (finRange n).flatMap fun d => (extremes (fun c => c.firstPosition d) (2 ^ 62 - 1) chunks).2 ++
      (extremes (fun c => toDual (c.firstPosition d)) (toDual (-(2 ^ 62 - 1))) chunks).2
  else chunks.head?.toList ++ chunks.getLast?.toList

/-- The chunks are examined in the order in which `enumerate` gives the elements of a hash set. -/
def createFromChunkList (enumerate : List (CellChunk dims noTag) → List (CellChunk dims noTag))
    (chunks : List (CellChunk dims noTag)) : CellBox n :=
  if chunks.isEmpty then .createEmpty else (enumerate (chunksToExamine chunks)).foldl CellBox.updateFromChunk .createEmpty

namespace CellBox

def extend (b : CellBox n) (x : Fin n → ℤ) : CellBox n := ⟨b.startCoords ⊓ x, b.endCoords ⊔ x⟩

variable {b : CellBox n} {cells : List (Fin n → ℤ)} {first last : Fin n → ℤ}

lemma foldl_extend_eq_self (h : ∀ x ∈ cells, b.startCoords ≤ x ∧ x ≤ b.endCoords) : cells.foldl extend b = b := by
  induction cells with
  | nil => rfl
  | cons x cells ih =>
    obtain ⟨⟨hlow, hhigh⟩, hcells⟩ := forall_mem_cons.mp h
    rw [foldl_cons, extend, inf_eq_left.mpr hlow, sup_eq_left.mpr hhigh]
    exact ih hcells

lemma takeIn_eq {low hi : Bool} {pos : Fin n → ℤ} (hlow : low = false → b.startCoords ≤ pos)
    (hhi : hi = false → pos ≤ b.endCoords) : takeIn low hi pos b = b.extend pos := by
  refine CellBox.ext (funext fun j => ?_) (funext fun j => ?_)
  · change (if low ∧ pos j < b.startCoords j then pos j else b.startCoords j) = min (b.startCoords j) (pos j)
    split_ifs with h
    · exact (min_eq_right h.2.le).symm
    · refine (min_eq_left ?_).symm
      cases low with
      | true => exact not_lt.mp fun hlt => h ⟨rfl, hlt⟩
      | false => exact hlow rfl j
  · change (if hi ∧ b.endCoords j < pos j then pos j else b.endCoords j) = max (b.endCoords j) (pos j)
    split_ifs with h
    · exact (max_eq_right h.2.le).symm
    · refine (max_eq_left ?_).symm
      cases hi with
      | true => exact not_lt.mp fun hlt => h ⟨rfl, hlt⟩
      | false => exact hhi rfl j

/-- A flag is off only if nothing in the chunk can change its bound. -/
lemma scan_eq {low hi : Bool} (hcells : ∀ x ∈ cells, first ≤ x ∧ x ≤ last) (hlow : low = false → b.startCoords ≤ first)
    (hhi : hi = false → last ≤ b.endCoords) : scan first last cells low hi b = cells.foldl extend b := by
  induction cells generalizing low hi b with
  | nil => rfl
  | cons pos cells ih =>
    obtain ⟨⟨hfirst, hlast⟩, hrest⟩ := forall_mem_cons.mp hcells
    rw [scan]
    split
    · rw [takeIn_eq (fun h => (hlow h).trans hfirst) (fun h => hlast.trans (hhi h))]
      refine ih hrest (fun h => ?_) (fun h => ?_)
      · rcases Bool.and_eq_false_iff.mp h with h | h
        · exact inf_le_left.trans (hlow h)
        · exact of_decide_eq_true (p := ∀ k, _) (Bool.and_eq_true_iff.mp (Bool.not_inj (y := true) h)).2
      · rcases Bool.and_eq_false_iff.mp h with h | h
        · exact (hhi h).trans le_sup_left
        · exact of_decide_eq_true (p := ∀ k, _) (Bool.and_eq_true_iff.mp (Bool.not_inj (y := true) h)).2
    · rename_i hoff
      obtain ⟨rfl, rfl⟩ := Bool.or_eq_false_iff.mp (Bool.not_eq_true _ ▸ hoff)
      exact (foldl_extend_eq_self fun x hx => ⟨(hlow rfl).trans (hcells x hx).1, (hcells x hx).2.trans (hhi rfl)⟩).symm

lemma le_foldl_extend_iff {i : Fin n} {a : ℤ} :
    (a ≤ (cells.foldl extend b).startCoords i ↔ a ≤ b.startCoords i ∧ ∀ x ∈ cells, a ≤ x i) ∧
      ((cells.foldl extend b).endCoords i ≤ a ↔ b.endCoords i ≤ a ∧ ∀ x ∈ cells, x i ≤ a) := by
  induction cells generalizing b with
  | nil => simp
  | cons x cells ih => simp [ih, extend, and_assoc]

variable {c : CellChunk dims noTag}

lemma updateFromChunk_eq (hfit : c.Fits) : b.updateFromChunk c = c.cells.foldl extend b := by
  have hcells : ∀ x ∈ c.cells, c.firstPosition ≤ x ∧ x ≤ c.lastPosition := fun x hx =>
    ⟨fun i => (c.inside x hx i).1, fun i => (CellChunk.lastPosition_eq (hfit i)).symm ▸ (c.inside x hx i).2⟩
  rw [updateFromChunk]
  split
  · rename_i hfull
    obtain ⟨x, hx⟩ := exists_mem_of_ne_nil _ c.nonempty
    have hle : c.firstPosition ≤ c.lastPosition := (hcells x hx).1.trans (hcells x hx).2
    have hfirst := c.full hfull c.firstPosition fun i => ⟨le_rfl, CellChunk.lastPosition_eq (hfit i) ▸ hle i⟩
    have hlast := c.full hfull c.lastPosition fun i => ⟨hle i, (CellChunk.lastPosition_eq (hfit i)).le⟩
    have hmin i a : (∀ x ∈ c.cells, a ≤ x i) ↔ a ≤ c.firstPosition i :=
      ⟨fun h => h _ hfirst, fun h x hx => h.trans ((hcells x hx).1 i)⟩
    have hmax i a : (∀ x ∈ c.cells, x i ≤ a) ↔ c.lastPosition i ≤ a :=
      ⟨fun h => h _ hlast, fun h x hx => ((hcells x hx).2 i).trans h⟩
    refine CellBox.ext (funext fun i => eq_of_forall_le_iff fun a => ?_) (funext fun i => eq_of_forall_ge_iff fun a => ?_)
    · rw [le_foldl_extend_iff.1, hmin]
      dsimp only
      split_ifs <;> omega
    · rw [le_foldl_extend_iff.2, hmax]
      dsimp only
      split_ifs <;> omega
  · refine scan_eq hcells (fun h i => ?_) (fun h i => ?_)
    · exact not_lt.mp fun hlt => of_decide_eq_false h ⟨i, hlt⟩
    · exact not_lt.mp fun hlt => of_decide_eq_false h ⟨i, hlt⟩

lemma scan_endCoords {low hi : Bool} (i : Fin n) : b.endCoords i ≤ (scan first last cells low hi b).endCoords i ∧
    ((scan first last cells low hi b).endCoords i = b.endCoords i ∨
      hi = true ∧ ∃ x ∈ cells, (scan first last cells low hi b).endCoords i = x i) := by
  induction cells generalizing low hi b with
  | nil => exact ⟨le_rfl, .inl rfl⟩
  | cons pos cells ih =>
    rw [scan]
    split
    · obtain ⟨hle, hcase⟩ := @ih (takeIn low hi pos b) _ _
      have htake : (takeIn low hi pos b).endCoords i = if hi ∧ b.endCoords i < pos i then pos i else b.endCoords i := rfl
      refine ⟨hle.trans' (by rw [htake]; split_ifs <;> omega), ?_⟩
      rcases hcase with heq | ⟨hhi, x, hx, heq⟩
      · rw [heq, htake]
        split_ifs with hpos
        · exact .inr ⟨hpos.1, pos, mem_cons_self, rfl⟩
        · exact .inl rfl
      · exact .inr ⟨(Bool.and_eq_true_iff.mp hhi).1, x, mem_cons_of_mem _ hx, heq⟩
    · exact ⟨le_rfl, .inl rfl⟩

/-- In one dimension, or without an empty tag, a bound is moved only if the last position is behind it. -/
lemma updateFromChunk_endCoords (h : n = 1 ∨ noTag = true) (i : Fin n) : b.endCoords i ≤ (b.updateFromChunk c).endCoords i ∧
    ((b.updateFromChunk c).endCoords i = b.endCoords i ∨ b.endCoords i < c.lastPosition i ∧
      ((b.updateFromChunk c).endCoords i = c.lastPosition i ∨ ∃ x ∈ c.cells, (b.updateFromChunk c).endCoords i = x i)) := by
  rw [updateFromChunk]
  split
  · dsimp only
    split_ifs with hlt
    · exact ⟨hlt.le, .inr ⟨hlt, .inl rfl⟩⟩
    · exact ⟨le_rfl, .inl rfl⟩
  · rename_i htag
    obtain rfl := h.resolve_right htag
    obtain ⟨hle, hcase⟩ := @scan_endCoords 1 b c.cells c.firstPosition c.lastPosition
      (decide (∃ i, c.firstPosition i < b.startCoords i)) (decide (∃ i, b.endCoords i < c.lastPosition i)) i
    refine ⟨hle, hcase.imp_right fun ⟨hhi, hx⟩ => ?_⟩
    obtain ⟨j, hj⟩ := of_decide_eq_true hhi
    exact ⟨Subsingleton.elim j i ▸ hj, .inr hx⟩

end CellBox

section

variable {α β : Type*} [LinearOrder β] {key : α → β} {init : β} {l : List α}

lemma extremes_spec : (∀ c ∈ l, (extremes key init l).1 ≤ key c) ∧
    (∀ c, c ∈ (extremes key init l).2 ↔ c ∈ l ∧ key c = (extremes key init l).1) ∧
      ((extremes key init l).1 = init ∨ ∃ c ∈ l, key c = (extremes key init l).1) := by
  induction l using reverseRecOn with
  | nil => exact ⟨by simp, by simp [extremes], .inl rfl⟩
  | append_singleton l c ih =>
    have hstep : extremes key init (l ++ [c]) = if key c < (extremes key init l).1 then (key c, [c])
        else if key c = (extremes key init l).1 then ((extremes key init l).1, (extremes key init l).2 ++ [c])
        else extremes key init l := by rw [extremes, foldl_append]; rfl
    rw [hstep]
    obtain ⟨hle, hmem, hinit⟩ := ih
    split_ifs with hlt heq
    · exact ⟨by grind, by grind, .inr ⟨c, by simp, rfl⟩⟩
    · exact ⟨by grind, by grind, by grind⟩
    · exact ⟨by grind, by grind, by grind⟩

lemma extremes_rim (hinit : ∀ c ∈ l, key c ≤ init) {c : α} (hc : c ∈ l) :
    c ∈ (extremes key init l).2 ∨ ∃ e ∈ (extremes key init l).2, key e < key c := by
  obtain ⟨hle, hmem, hattained⟩ := @extremes_spec _ _ _ key init l
  rcases (hle c hc).eq_or_lt with heq | hlt
  · exact .inl ((hmem c).mpr ⟨hc, heq.symm⟩)
  · obtain ⟨e, he, heq⟩ := hattained.resolve_left fun h => (h ▸ hlt).not_ge (hinit c hc)
    exact .inr ⟨e, (hmem e).mpr ⟨he, heq⟩, heq ▸ hlt⟩

end

section

variable {chunks : List (CellChunk dims noTag)} {c : CellChunk dims noTag} {d : Fin n}

lemma CellChunk.range {x : Fin n → ℤ} (hx : x ∈ c.cells) (d : Fin n) :
    -(2 ^ 62 - 1) ≤ c.firstPosition d ∧ c.firstPosition d ≤ x d ∧ x d ≤ 2 ^ 62 - 1 := by
  have := c.inside x hx d
  have := c.start_le d
  have := (dims d).min_le
  have := (dims d).le_max
  omega

lemma CellChunk.firstPosition_range (c : CellChunk dims noTag) (d : Fin n) :
    -(2 ^ 62 - 1) ≤ c.firstPosition d ∧ c.firstPosition d ≤ 2 ^ 62 - 1 := by
  obtain ⟨x, hx⟩ := exists_mem_of_ne_nil _ c.nonempty
  exact ⟨(range hx d).1, (range hx d).2.1.trans (range hx d).2.2⟩

/-- The order of `CoordinatesLess`. -/
def Ordered (chunks : List (CellChunk dims noTag)) : Prop :=
  chunks.Pairwise fun c e => Pi.Lex (· < ·) (· < ·) c.firstPosition e.firstPosition

lemma mem_of_mem_chunksToExamine (h : c ∈ chunksToExamine chunks) : c ∈ chunks := by
  rw [chunksToExamine] at h
  split_ifs at h
  · obtain ⟨d, -, h⟩ := mem_flatMap.mp h
    rcases mem_append.mp h with h | h
    · exact ((extremes_spec.2.1 c).mp h).1
    · exact ((extremes_spec.2.1 c).mp h).1
  · rcases mem_append.mp h with h | h
    · exact mem_of_head? (Option.mem_toList.mp h)
    · exact mem_of_getLast? (Option.mem_toList.mp h)

/-- In each dimension, a chunk that is not examined lies between two that are. -/
lemma examined_or_between (hordered : Ordered chunks) (hc : c ∈ chunks) (d : Fin n) : c ∈ chunksToExamine chunks ∨
    (∃ e ∈ chunksToExamine chunks, e.firstPosition d < c.firstPosition d) ∧
      ∃ e ∈ chunksToExamine chunks, c.firstPosition d < e.firstPosition d := by
  rw [chunksToExamine]
  split_ifs with hn
  · rcases @extremes_rim _ _ _ (fun c : CellChunk dims noTag => c.firstPosition d) _ _
      (fun c _ => (c.firstPosition_range d).2) c hc with h | ⟨e, he, hlt⟩
    · exact .inl (mem_flatMap.mpr ⟨d, mem_finRange d, mem_append_left _ h⟩)
    · rcases @extremes_rim _ _ _ (fun c : CellChunk dims noTag => toDual (c.firstPosition d)) _ _
        (fun c _ => (c.firstPosition_range d).1) c hc with h | ⟨e', he', hlt'⟩
      · exact .inl (mem_flatMap.mpr ⟨d, mem_finRange d, mem_append_right _ h⟩)
      · exact .inr ⟨⟨e, mem_flatMap.mpr ⟨d, mem_finRange d, mem_append_left _ he⟩, hlt⟩,
          e', mem_flatMap.mpr ⟨d, mem_finRange d, mem_append_right _ he'⟩, hlt'⟩
  · have hless {c e : CellChunk dims noTag} (h : Pi.Lex (· < ·) (· < ·) c.firstPosition e.firstPosition) :
        c.firstPosition d < e.firstPosition d := by
      obtain ⟨i, -, hlt⟩ := h
      rwa [show i = d from Fin.ext (by omega)] at hlt
    obtain ⟨e, rest, rfl⟩ := exists_cons_of_ne_nil (ne_nil_of_mem hc)
    obtain ⟨pre, g, hg⟩ := (eq_nil_or_concat (e :: rest)).resolve_left (cons_ne_nil _ _)
    rw [concat_eq_append] at hg
    have hlast : (e :: rest).getLast? = some g := by rw [hg, getLast?_concat]
    rw [head?_cons, hlast]
    rcases mem_cons.mp hc with rfl | hrest
    · exact .inl (by simp)
    · have hbelow := hless ((pairwise_cons.mp hordered).1 c hrest)
      rw [hg] at hc
      rcases mem_append.mp hc with hpre | hc
      · have habove := hless ((pairwise_append.mp (hg ▸ hordered)).2.2 c hpre g (mem_singleton_self g))
        exact .inr ⟨⟨e, by simp, hbelow⟩, g, by simp, habove⟩
      · exact .inl (by simp [mem_singleton.mp hc])

lemma CellChunk.cell_lt {c e : CellChunk dims noTag} (h : c.firstPosition d < e.firstPosition d) {x y : Fin n → ℤ}
    (hx : x ∈ c.cells) (hy : y ∈ e.cells) : x d < y d := by
  have hdvd := dvd_sub (e.aligned d) (c.aligned d)
  rw [sub_sub_sub_cancel_right] at hdvd
  have := Int.le_of_dvd (sub_pos.mpr h) hdvd
  have := c.inside x hx d
  have := e.inside y hy d
  omega

lemma foldl_updateFromChunk (b : CellBox n) {order : List (CellChunk dims noTag)} (hfit : ∀ c ∈ order, c.Fits) :
    order.foldl CellBox.updateFromChunk b = (order.flatMap (·.cells)).foldl CellBox.extend b := by
  induction order generalizing b with
  | nil => rfl
  | cons c order ih =>
    obtain ⟨hc, horder⟩ := forall_mem_cons.mp hfit
    rw [foldl_cons, ih _ horder, flatMap_cons, foldl_append, CellBox.updateFromChunk_eq hc]

lemma foldl_endCoords_le (h : n = 1 ∨ noTag = true) {order : List (CellChunk dims noTag)} {bound : ℤ} (hbound : -(2 ^ 62 - 1) ≤ bound)
    (horder : ∀ c ∈ order, -2 ^ 62 < c.lastPosition d → c.lastPosition d ≤ bound ∧ ∀ x ∈ c.cells, x d ≤ bound) :
    (order.foldl CellBox.updateFromChunk .createEmpty).endCoords d ≤ bound := by
  suffices hall : ∀ b : CellBox n, -2 ^ 62 ≤ b.endCoords d → b.endCoords d ≤ bound →
      (order.foldl CellBox.updateFromChunk b).endCoords d ≤ bound from
    hall .createEmpty (show (-2 ^ 62 : ℤ) ≤ -(2 ^ 62 - 1) by norm_num) hbound
  induction order with
  | nil => exact fun b _ hb => hb
  | cons c order ih =>
    intro b hlow hb
    obtain ⟨hc, hrest⟩ := forall_mem_cons.mp horder
    obtain ⟨hle, hcase⟩ := CellBox.updateFromChunk_endCoords (b := b) (c := c) h d
    refine ih hrest _ (hlow.trans hle) ?_
    rcases hcase with heq | ⟨hlt, heq | ⟨x, hx, heq⟩⟩
    · rwa [heq]
    · rw [heq]
      exact (hc (hlow.trans_lt hlt)).1
    · rw [heq]
      exact (hc (hlow.trans_lt hlt)).2 x hx

lemma CellChunk.lastPosition_lt (h : 2 ^ 63 < c.firstPosition d + (dims d).chunkInterval) :
    c.lastPosition d < -2 ^ 62 := by
  have := c.firstPosition_range d
  have := (dims d).interval_lt
  rw [CellChunk.lastPosition, int64_wrap (by omega) (by omega)]
  omega

/-- Coordinates of the cells. -/
def coordinates (chunks : List (CellChunk dims noTag)) (d : Fin n) : Set ℤ := {z | ∃ c ∈ chunks, ∃ x ∈ c.cells, x d = z}

lemma forall_examined_iff {order : List (CellChunk dims noTag)} (horder : ∀ c, c ∈ order ↔ c ∈ chunksToExamine chunks)
    (hordered : Ordered chunks) (d : Fin n) (a : ℤ) :
    ((∀ x ∈ order.flatMap (·.cells), a ≤ x d) ↔ ∀ z ∈ coordinates chunks d, a ≤ z) ∧
      ((∀ x ∈ order.flatMap (·.cells), x d ≤ a) ↔ ∀ z ∈ coordinates chunks d, z ≤ a) := by
  have hcoord (x : Fin n → ℤ) (hx : x ∈ order.flatMap (·.cells)) : x d ∈ coordinates chunks d := by
    obtain ⟨c, hc, hx⟩ := mem_flatMap.mp hx
    exact ⟨c, mem_of_mem_chunksToExamine ((horder c).mp hc), x, hx, rfl⟩
  have hcell {e} (he : e ∈ chunksToExamine chunks) {y} (hy : y ∈ e.cells) : y ∈ order.flatMap (·.cells) :=
    mem_flatMap.mpr ⟨e, (horder e).mpr he, hy⟩
  refine ⟨⟨?_, fun h x hx => h _ (hcoord x hx)⟩, ⟨?_, fun h x hx => h _ (hcoord x hx)⟩⟩
  · rintro h _ ⟨c, hc, x, hx, rfl⟩
    rcases examined_or_between hordered hc d with hex | ⟨⟨e, he, hlt⟩, -⟩
    · exact h x (hcell hex hx)
    · obtain ⟨y, hy⟩ := exists_mem_of_ne_nil _ e.nonempty
      exact (h y (hcell he hy)).trans (CellChunk.cell_lt hlt hy hx).le
  · rintro h _ ⟨c, hc, x, hx, rfl⟩
    rcases examined_or_between hordered hc d with hex | ⟨-, e, he, hlt⟩
    · exact h x (hcell hex hx)
    · obtain ⟨y, hy⟩ := exists_mem_of_ne_nil _ e.nonempty
      exact (CellChunk.cell_lt hlt hx hy).le.trans (h y (hcell he hy))

/-- A box is that of the cells of the chunks: empty, or the least and the greatest coordinates. -/
def IsBoxOf (chunks : List (CellChunk dims noTag)) (b : CellBox n) : Prop :=
  (chunks = [] → b = .createEmpty) ∧
    (chunks ≠ [] → ∀ d, IsLeast (coordinates chunks d) (b.startCoords d) ∧ IsGreatest (coordinates chunks d) (b.endCoords d))

variable {enumerate : List (CellChunk dims noTag) → List (CellChunk dims noTag)}

lemma isBoxOf_createFromChunkList (henumerate : ∀ l c, c ∈ enumerate l ↔ c ∈ l) (hordered : Ordered chunks)
    (hfit : ∀ c ∈ chunks, c.Fits) : IsBoxOf chunks (createFromChunkList enumerate chunks) := by
  refine ⟨?_, fun hempty d => ?_⟩
  · rintro rfl
    rfl
  · obtain ⟨c, hc⟩ := exists_mem_of_ne_nil _ hempty
    obtain ⟨x, hx⟩ := exists_mem_of_ne_nil _ c.nonempty
    have hmem : x d ∈ coordinates chunks d := ⟨c, hc, x, hx, rfl⟩
    have hrange := CellChunk.range hx d
    rw [createFromChunkList, if_neg (by simpa using hempty), foldl_updateFromChunk _
      fun c hc => hfit c (mem_of_mem_chunksToExamine ((henumerate _ c).mp hc))]
    have hstart a := (@CellBox.le_foldl_extend_iff n .createEmpty _ d a).1.trans
      (and_congr_right fun _ => (forall_examined_iff (henumerate _) hordered d a).1)
    have hend a := (@CellBox.le_foldl_extend_iff n .createEmpty _ d a).2.trans
      (and_congr_right fun _ => (forall_examined_iff (henumerate _) hordered d a).2)
    generalize foldl CellBox.extend CellBox.createEmpty _ = b at hstart hend ⊢
    have hlow := ((hstart _).mp le_rfl).2
    have hhigh := ((hend _).mp le_rfl).2
    -- a bound that is not attained could be moved
    refine ⟨⟨by_contra fun hnot => ?_, fun z hz => hlow z hz⟩, ⟨by_contra fun hnot => ?_, fun z hz => hhigh z hz⟩⟩
    · have hall z (hz : z ∈ coordinates chunks d) : b.startCoords d + 1 ≤ z :=
        (hlow z hz).lt_of_ne fun h => hnot (h ▸ hz)
      exact absurd ((hstart _).mpr ⟨(hall _ hmem).trans hrange.2.2, hall⟩) (by omega)
    · have hall z (hz : z ∈ coordinates chunks d) : z ≤ b.endCoords d - 1 :=
        Int.le_sub_one_of_lt ((hhigh z hz).lt_of_ne fun h => hnot (h ▸ hz))
      exact absurd ((hend _).mpr ⟨(hrange.1.trans hrange.2.1).trans (hall _ hmem), hall⟩) (by omega)

lemma fits_of_isBoxOf (h : n = 1 ∨ noTag = true) (hbox : IsBoxOf chunks (createFromChunkList enumerate chunks)) (hc : c ∈ chunks) : c.Fits := by
  intro d
  by_contra hover
  obtain ⟨x, hx⟩ := exists_mem_of_ne_nil _ c.nonempty
  have hempty := ne_nil_of_mem hc
  have hmax := (hbox.2 hempty d).2.2 ⟨c, hc, x, hx, rfl⟩
  have hrange := CellChunk.range hx d
  have := (dims d).interval_lt
  -- chunks as far as `c` never move the bound, and the cells of the others are before it
  have hle := @foldl_endCoords_le n dims noTag d h (enumerate (chunksToExamine chunks)) (c.firstPosition d - 1) (by omega) (by
    intro e he hlast
    have hfit : ¬2 ^ 63 < e.firstPosition d + (dims d).chunkInterval := fun hlt => by
      have := CellChunk.lastPosition_lt hlt
      omega
    have hdvd := dvd_sub (c.aligned d) (e.aligned d)
    rw [sub_sub_sub_cancel_right] at hdvd
    have hbefore := Int.le_of_dvd (by omega) hdvd
    rw [CellChunk.lastPosition_eq (not_lt.mp hfit)]
    refine ⟨by omega, fun y hy => ?_⟩
    have := (e.inside y hy d).2
    omega)
  rw [createFromChunkList, if_neg (by simpa using hempty)] at hmax
  omega

/-- **Boundaries from chunks are exact**, in whatever order the chunks are examined, if the last positions are `int64`. If one is
not, a chunk is examined whose last position is computed before its first one; in one dimension, or without an empty tag, the
box is then wrong. -/
theorem createFromChunkList_exact (henumerate : ∀ l c, c ∈ enumerate l ↔ c ∈ l) (hordered : Ordered chunks) :
    ((∀ c ∈ chunks, c.Fits) → IsBoxOf chunks (createFromChunkList enumerate chunks)) ∧
    (n = 1 ∨ noTag = true → IsBoxOf chunks (createFromChunkList enumerate chunks) → ∀ c ∈ chunks, c.Fits) ∧
    ((∃ c ∈ chunks, ¬c.Fits) → ∃ c ∈ chunksToExamine chunks, ∃ d, c.lastPosition d < c.firstPosition d) := by
  refine ⟨isBoxOf_createFromChunkList henumerate hordered, fun h hbox _ hc => fits_of_isBoxOf h hbox hc, ?_⟩
  rintro ⟨c, hc, hfit⟩
  obtain ⟨d, hd⟩ := not_forall.mp hfit
  obtain ⟨e, he, hlt⟩ : ∃ e ∈ chunksToExamine chunks, 2 ^ 63 < e.firstPosition d + (dims d).chunkInterval := by
    rcases examined_or_between hordered hc d with hex | ⟨-, e, he, hlt⟩
    · exact ⟨c, hex, not_le.mp hd⟩
    · exact ⟨e, he, by omega⟩
  have := e.firstPosition_range d
  have := CellChunk.lastPosition_lt hlt
  exact ⟨e, he, d, by omega⟩

end

/-- Two dimensions from 0 to 9 with chunks of 5. -/
def squares (_ : Fin 2) : Dimension := ⟨⟨0, 9, 5⟩, by decide, by decide, by decide, by decide, by decide⟩

lemma insideChunk_pair {p q x y : ℤ} (h : p ≤ x ∧ x ≤ min (p + 5 - 1) 9) (h' : q ≤ y ∧ y ≤ min (q + 5 - 1) 9) :
    InsideChunk squares ![p, q] ![x, y] := Fin.forall_fin_two.mpr ⟨h, h'⟩

/-- A chunk in the upper row with two cells. -/
def upperChunk : CellChunk squares false where
  firstPosition := ![0, 0]
  aligned := by decide
  start_le := by decide
  cells := [![1, 4], ![3, 2]]
  inside := forall_mem_cons.mpr ⟨insideChunk_pair (by decide) (by decide),
    forall_mem_singleton.mpr (insideChunk_pair (by decide) (by decide))⟩
  nonempty := cons_ne_nil _ _
  full h := by cases h

/-- A chunk in the lower row with two cells. -/
def lowerChunk : CellChunk squares false where
  firstPosition := ![5, 5]
  aligned := by decide
  start_le := by decide
  cells := [![5, 8], ![7, 6]]
  inside := forall_mem_cons.mpr ⟨insideChunk_pair (by decide) (by decide),
    forall_mem_singleton.mpr (insideChunk_pair (by decide) (by decide))⟩
  nonempty := cons_ne_nil _ _
  full h := by cases h

theorem createFromChunkList_exact_squares : Ordered [upperChunk, lowerChunk] ∧
    ∀ d, IsLeast (coordinates [upperChunk, lowerChunk] d) ((createFromChunkList reverse [upperChunk, lowerChunk]).startCoords d) ∧
      IsGreatest (coordinates [upperChunk, lowerChunk] d) ((createFromChunkList reverse [upperChunk, lowerChunk]).endCoords d) := by
  have hordered : Ordered [upperChunk, lowerChunk] := pairwise_pair.mpr ⟨0, by simp, by decide⟩
  have hfit : ∀ c ∈ [upperChunk, lowerChunk], c.Fits := by
    simp only [CellChunk.Fits]
    exact forall_mem_cons.mpr ⟨by decide, forall_mem_singleton.mpr (by decide)⟩
  have hmem : ∀ (l : List (CellChunk squares false)) c, c ∈ reverse l ↔ c ∈ l := fun _ _ => mem_reverse
  exact ⟨hordered, ((createFromChunkList_exact hmem hordered).1 hfit).2 (cons_ne_nil _ _)⟩

/-- Cells 2 and 3 of a chunk of the greatest interval, which starts at 2. -/
def wideChunk : CellChunk (fun _ : Fin 1 => ⟨⟨2, 10, 2 ^ 63 - 1⟩, by decide, by decide, by decide, by decide, by decide⟩) false where
  firstPosition _ := 2
  aligned _ := by decide
  start_le _ := by decide
  cells := [fun _ => 2, fun _ => 3]
  inside := by
    unfold InsideChunk
    exact forall_mem_cons.mpr ⟨by decide, forall_mem_singleton.mpr (by decide)⟩
  nonempty := cons_ne_nil _ _
  full h := by cases h

/-- **The last position of the chunk overflows**: the upper bound is never set, and the box is empty. -/
theorem wideChunk_missed : (createFromChunkList id [wideChunk]).startCoords 0 = 2 ∧
    (createFromChunkList id [wideChunk]).endCoords 0 = -(2 ^ 62 - 1) ∧ (3 : ℤ) ∈ coordinates [wideChunk] 0 :=
  ⟨by decide +kernel, by decide +kernel, wideChunk, mem_singleton_self _, fun _ => 3, by simp [wideChunk], rfl⟩

end SciDB.Query
