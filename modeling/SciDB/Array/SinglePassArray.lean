import Mathlib

/-!
# Arrays that are read once, row by row

`SinglePassArray::nextChunk`. The first attribute that asks for the next row moves to it; rows of empty chunks are discarded.
A row is empty in all attributes or in none. Left out: the iterators and the mutex.
-/

namespace SciDB.Array

open List Finset

/-- The rows of the attributes. -/
structure SinglePassArray (n : ℕ) where
  currRow : ℕ
  rowIndex : Fin n → ℕ
  consumed : ℕ

namespace SinglePassArray

/-- What `nextChunk` gives. -/
inductive Got
  | chunk (row : ℕ)
  | eof
  | retry
  | failed
  deriving DecidableEq

inductive RowCall (n : ℕ)
  | getChunk (row currRow : ℕ)
  | moveNext (s : SinglePassArray n)

variable {n : ℕ}

/-- What `nextChunk` returns. -/
abbrev Out (n : ℕ) := Got × SinglePassArray n × List (RowCall n)

/-- The constructor. -/
def init (n : ℕ) : SinglePassArray n := ⟨0, fun _ => 0, n⟩

/-- The attribute takes its next row. -/
def take (s : SinglePassArray n) (a : Fin n) : SinglePassArray n :=
  { s with rowIndex := Function.update s.rowIndex a (s.rowIndex a + 1), consumed := s.consumed + 1 }

/-- A row has values. -/
def hasValues (rows : List Bool) (row : ℕ) : Bool := (rows[row - 1]?).getD false

def discard (rows : List Bool) (next : Fin n → SinglePassArray n → Out n) :
    List (Fin n) → SinglePassArray n → Bool × SinglePassArray n × List (RowCall n)
  | [], s => (true, s, [])
  | b :: bs, s =>
    match next b s with
    | (.chunk row, s, calls) =>
      if hasValues rows row then (false, s, calls)
      else
        let (ok, s, calls') := discard rows next bs s
        (ok, s, calls ++ calls')
    | (_, s, calls) => (false, s, calls)

/-- `nextChunk` of an attribute. -/
def nextChunk (enforce : Bool) (rows : List Bool) : ℕ → Fin n → SinglePassArray n → Out n
  | 0, _, s => (.failed, s, [])
  | fuel + 1, a, s =>
    let row := s.rowIndex a + 1
    if s.rowIndex a ≠ s.currRow then
      if s.currRow < s.rowIndex a ∨ enforce ∧ row ≠ s.currRow then (.failed, s, [])
      else (.chunk row, s.take a, [.getChunk row s.currRow])
    else if enforce ∧ s.consumed < n then (.retry, s, [])
    else if rows.length < row then (.eof, s, [.moveNext s])
    else
      let s' := take { s with currRow := row, consumed := 0 } a
      let calls := [.moveNext s, .getChunk row row]
      if hasValues rows row then (.chunk row, s', calls)
      else
        match discard rows (nextChunk enforce rows fuel) ((finRange n).filter (· ≠ a)) s' with
        | (false, s'', calls') => (.failed, s'', calls ++ calls')
        | (true, s'', calls') =>
          let (got, s₃, calls₃) := nextChunk enforce rows fuel a s''
          (got, s₃, calls ++ (calls' ++ calls₃))

/-- What a schedule of calls gives. -/
def run (enforce : Bool) (rows : List Bool) (schedule : List (Fin n)) :
    List (Fin n × Got) × SinglePassArray n × List (RowCall n) :=
  schedule.foldl (fun r a =>
    let (got, s, calls) := nextChunk enforce rows (rows.length + 2) a r.2.1
    (r.1 ++ [(a, got)], s, r.2.2 ++ calls)) ([], init n, [])

/-- What an attribute has got. -/
def gotBy (b : Fin n) (got : List (Fin n × Got)) : List Got := (got.filter fun g => g.1 = b ∧ g.2 ≠ .retry).map Prod.snd

/-- The row is the right one. -/
def RowCall.Ok : RowCall n → Prop
  | .getChunk row currRow => row = currRow
  | .moveNext s => ∀ b, s.rowIndex b = s.currRow

/-- An attribute that has consumed the current row asks for another one only when all have. -/
def Ready (s : SinglePassArray n) (a : Fin n) : Prop := s.rowIndex a = s.currRow → ∀ b, s.rowIndex b = s.currRow

/-- The rows with values. -/
def rowsUpTo (rows : List Bool) (k : ℕ) : List ℕ := (range' 1 k).filter (hasValues rows)

variable {enforce : Bool} {rows : List Bool} {a : Fin n} {r k fuel : ℕ} {S : Finset (Fin n)} {got : List Got}

lemma rowsUpTo_succ : rowsUpTo rows (k + 1) = rowsUpTo rows k ++ if hasValues rows (k + 1) then [k + 1] else [] := by
  rw [rowsUpTo, range'_concat, filter_append, one_mul, add_comm 1 k]
  cases h : hasValues rows (k + 1) <;> simp [rowsUpTo, h]

/-- The attributes in `S` have consumed row `r`, and the others the row before. -/
def atRow (r : ℕ) (S : Finset (Fin n)) : SinglePassArray n := ⟨r, fun b => if b ∈ S then r else r - 1, S.card⟩

lemma take_atRow (ha : a ∉ S) (hr : 0 < r) : (atRow r S).take a = atRow r (insert a S) := by
  rw [take, atRow, atRow, card_insert_of_notMem ha]
  congr 1
  funext b
  by_cases hb : b = a
  · subst hb
    simp [ha]
    omega
  · simp [hb]

lemma nextChunk_behind (ha : a ∉ S) (hr : 0 < r) : nextChunk enforce rows (fuel + 1) a (atRow r S) =
    (.chunk r, atRow r (insert a S), [.getChunk r r]) := by
  have hrow : (atRow r S).rowIndex a = r - 1 := if_neg ha
  have hcurr : (atRow r S).currRow = r := rfl
  rw [nextChunk]
  dsimp only
  rw [hrow, hcurr, take_atRow ha hr, Nat.sub_add_cancel hr, if_pos (by omega), if_neg (by omega)]

lemma discard_behind (hr : 0 < r) (hempty : hasValues rows r = false) {bs : List (Fin n)} (hbs : bs.Nodup)
    (hS : ∀ b ∈ bs, b ∉ S) : ∃ calls, (∀ c ∈ calls, RowCall.Ok c) ∧
      discard rows (nextChunk enforce rows (fuel + 1)) bs (atRow r S) = (true, atRow r (S ∪ bs.toFinset), calls) := by
  induction bs generalizing S with
  | nil => exact ⟨[], by simp, by simp [discard]⟩
  | cons b bs ih =>
    obtain ⟨hb, hbs⟩ := nodup_cons.mp hbs
    obtain ⟨calls, hok, heq⟩ := ih (S := insert b S) hbs fun c hc => by
      rw [mem_insert, not_or]
      exact ⟨fun h => hb (h ▸ hc), hS c (mem_cons_of_mem _ hc)⟩
    refine ⟨.getChunk r r :: calls, by simpa [RowCall.Ok] using hok, ?_⟩
    rw [discard, nextChunk_behind (hS b mem_cons_self) hr]
    simp [hempty, heq]

def Found (rows : List Bool) (a : Fin n) (r : ℕ) (out : Out n) : Prop :=
  (∀ c ∈ out.2.2, RowCall.Ok c) ∧
    ((∃ r', r ≤ r' ∧ r' < rows.length ∧ hasValues rows (r' + 1) = true ∧ rowsUpTo rows r' = rowsUpTo rows r ∧
        out.1 = .chunk (r' + 1) ∧ out.2.1 = atRow (r' + 1) {a}) ∨
      rowsUpTo rows rows.length = rowsUpTo rows r ∧ out.1 = .eof ∧ out.2.1 = atRow rows.length univ)

lemma take_next : take { (atRow r univ : SinglePassArray n) with currRow := r + 1, consumed := 0 } a = atRow (r + 1) {a} := by
  rw [take, atRow, atRow, card_singleton]
  congr 1
  funext b
  by_cases hb : b = a
  · subst hb
    simp
  · simp [hb]

lemma nextChunk_found (hr : r ≤ rows.length) (hfuel : rows.length - r + 2 ≤ fuel) :
    Found rows a r (nextChunk enforce rows fuel a (atRow r univ)) := by
  -- the fuel counts the rows that are left
  induction fuel generalizing r with
  | zero => omega
  | succ fuel ih =>
    have hrow : (atRow r univ).rowIndex a = r := if_pos (mem_univ a)
    have hcurr : (atRow r (univ : Finset (Fin n))).currRow = r := rfl
    have hcons : (atRow r (univ : Finset (Fin n))).consumed = n := card_fin n
    have hmove : RowCall.Ok (.moveNext (atRow r (univ : Finset (Fin n)))) := fun b => if_pos (mem_univ b)
    rw [nextChunk]
    dsimp only
    rw [hrow, hcurr, hcons, if_neg (not_not.mpr rfl), if_neg (fun h => lt_irrefl n h.2), take_next]
    split_ifs with hend hval
    · obtain rfl : r = rows.length := by omega
      exact ⟨by simpa using hmove, .inr ⟨rfl, rfl, rfl⟩⟩
    · exact ⟨by simpa [RowCall.Ok] using hmove, .inl ⟨r, le_rfl, by omega, hval, rfl, rfl, rfl⟩⟩
    · rw [Bool.not_eq_true] at hval
      obtain ⟨fuel, rfl⟩ : ∃ k, fuel = k + 1 := ⟨fuel - 1, by omega⟩
      obtain ⟨calls, hcalls, heq⟩ := @discard_behind n enforce rows (r + 1) fuel {a} (Nat.succ_pos r) hval _
        ((nodup_finRange n).filter (· ≠ a)) (by simp)
      have hall : ({a} ∪ ((finRange n).filter (· ≠ a)).toFinset : Finset (Fin n)) = univ := by
        ext b
        simp [em]
      rw [heq, hall]
      have hsame : rowsUpTo rows (r + 1) = rowsUpTo rows r := by simp [rowsUpTo_succ, hval]
      obtain ⟨hok, hfound⟩ := ih (r := r + 1) (by omega) (by omega)
      rw [hsame] at hfound
      refine ⟨?_, hfound.imp_left fun ⟨r', hle, hrest⟩ => ⟨r', by omega, hrest⟩⟩
      simp only [mem_append]
      rintro c (hc | hc | hc)
      · revert c
        simpa [RowCall.Ok] using hmove
      · exact hcalls c hc
      · exact hok c hc

/-- What attribute `b` has got when it has come to row `k`. -/
def Delivered (rows : List Bool) (k : ℕ) (got : List Got) : Prop :=
  ∃ m, got = (rowsUpTo rows k).map .chunk ++ replicate m .eof ∧ (m ≠ 0 → k = rows.length)

/-- A run so far. -/
def Inv (rows : List Bool) (out : List (Fin n × Got) × SinglePassArray n × List (RowCall n)) : Prop :=
  (∀ c ∈ out.2.2, RowCall.Ok c) ∧ ∃ r S, out.2.1 = atRow r S ∧ r ≤ rows.length ∧
    (S ≠ univ → 0 < r ∧ hasValues rows r = true) ∧ ∀ b, Delivered rows (if b ∈ S then r else r - 1) (gotBy b out.1)

lemma gotBy_append {got : List (Fin n × Got)} {g : Got} {b : Fin n} :
    gotBy b (got ++ [(a, g)]) = gotBy b got ++ if a = b ∧ g ≠ .retry then [g] else [] := by
  rw [gotBy, filter_append, map_append]
  by_cases h : a = b ∧ g ≠ .retry <;> simp [gotBy, h]

lemma Delivered.chunk (h : Delivered rows k got) (hk : k < rows.length) (hval : hasValues rows (k + 1) = true) :
    Delivered rows (k + 1) (got ++ [.chunk (k + 1)]) := by
  obtain ⟨m, rfl, hm⟩ := h
  obtain rfl : m = 0 := by
    by_contra h
    exact hk.ne (hm h)
  exact ⟨0, by simp [rowsUpTo_succ, hval], by simp⟩

lemma Delivered.eof (h : Delivered rows rows.length got) : Delivered rows rows.length (got ++ [.eof]) := by
  obtain ⟨m, rfl, -⟩ := h
  exact ⟨m + 1, by rw [replicate_succ', append_assoc], fun _ => rfl⟩

lemma Delivered.congr {k' : ℕ} (h : Delivered rows k got) (hsame : rowsUpTo rows k' = rowsUpTo rows k)
    (hk : k = rows.length → k' = rows.length) : Delivered rows k' got := by
  obtain ⟨m, rfl, hm⟩ := h
  exact ⟨m, by rw [hsame], fun h => hk (hm h)⟩

lemma Inv.step {got : List (Fin n × Got)} {s : SinglePassArray n} {calls : List (RowCall n)}
    (h : Inv rows (got, s, calls)) (hready : enforce = true ∨ s.Ready a) : let out := nextChunk enforce rows (rows.length + 2) a s
    Inv rows (got ++ [(a, out.1)], out.2.1, calls ++ out.2.2) := by
  obtain ⟨hok, r, S, rfl, hr, hS, hgot⟩ := h
  dsimp only at hok hgot ⊢
  by_cases hall : S = univ
  · subst hall
    obtain ⟨hok', hfound⟩ := @nextChunk_found n enforce rows a r (rows.length + 2) hr (by omega)
    refine ⟨forall_mem_append.mpr ⟨hok, hok'⟩, ?_⟩
    rcases hfound with ⟨r', hle, hlt, hval, hsame, hg, hs⟩ | ⟨hsame, hg, hs⟩
    · refine ⟨r' + 1, {a}, hs, hlt, fun _ => ⟨Nat.succ_pos _, hval⟩, fun b => ?_⟩
      have hb := (if_pos (mem_univ b) ▸ hgot b).congr hsame (by omega)
      rw [hg, gotBy_append]
      by_cases hab : b = a
      · simpa [hab] using (hab ▸ hb).chunk hlt hval
      · simpa [hab, Ne.symm hab] using hb
    · refine ⟨rows.length, univ, hs, le_rfl, fun h => absurd rfl h, fun b => ?_⟩
      have hb := (if_pos (mem_univ b) ▸ hgot b).congr hsame fun _ => rfl
      rw [hg, gotBy_append]
      by_cases hab : a = b
      · simpa [hab] using hb.eof
      · simpa [hab] using hb
  · obtain ⟨hpos, hval⟩ := hS hall
    by_cases ha : a ∈ S
    · -- it has to wait for the others
      have hrow : (atRow r S).rowIndex a = r := if_pos ha
      have hcurr : (atRow r S).currRow = r := rfl
      have hcard : (atRow r S).consumed < n := by
        have := card_lt_card (ssubset_univ_iff.mpr hall)
        rwa [card_fin] at this
      have henforce : enforce = true := by
        refine hready.resolve_right fun hready => hall (eq_univ_of_forall fun b => ?_)
        by_contra hb
        have : (if b ∈ S then r else r - 1) = r := hready hrow b
        rw [if_neg hb] at this
        omega
      have hnext : nextChunk enforce rows (rows.length + 2) a (atRow r S) = (.retry, atRow r S, []) := by
        rw [nextChunk]
        dsimp only
        rw [hrow, hcurr, if_neg (not_not.mpr rfl), if_pos ⟨henforce, hcard⟩]
      rw [hnext]
      refine ⟨by simpa using hok, r, S, rfl, hr, hS, fun b => ?_⟩
      simpa [gotBy_append] using hgot b
    · rw [nextChunk_behind ha hpos]
      refine ⟨forall_mem_append.mpr ⟨hok, by simp [RowCall.Ok]⟩, r, insert a S, rfl, hr, fun _ => ⟨hpos, hval⟩, fun b => ?_⟩
      rw [gotBy_append]
      by_cases hab : b = a
      · subst hab
        obtain ⟨k, rfl⟩ : ∃ k, r = k + 1 := ⟨r - 1, by omega⟩
        have hb := hgot b
        rw [if_neg ha] at hb
        simpa using hb.chunk hr hval
      · simpa [hab, Ne.symm hab] using hgot b

/-- **Each attribute gets the rows that have values, in order and each once.** -/
theorem nextChunk_rows (enforce : Bool) (rows : List Bool) (schedule : List (Fin n))
    (hready : enforce = true ∨ ∀ pre a post, schedule = pre ++ a :: post → (run enforce rows pre).2.1.Ready a) :
    (∀ b, ∃ k ≤ rows.length, ∃ m, gotBy b (run enforce rows schedule).1 = (rowsUpTo rows k).map .chunk ++ replicate m .eof ∧
        (m ≠ 0 → k = rows.length)) ∧ ∀ c ∈ (run enforce rows schedule).2.2, c.Ok := by
  have hinv : Inv rows (run enforce rows schedule) := by
    induction schedule using reverseRecOn with
    | nil =>
      refine ⟨by simp [run], 0, univ, ?_, Nat.zero_le _, fun h => absurd rfl h, fun b => ⟨0, ?_, by simp⟩⟩
      · simp [run, init, atRow]
      · simp [run, gotBy, rowsUpTo]
    | append_singleton schedule a ih =>
      have hrun := ih (hready.imp_right fun h pre b post heq => h pre b (post ++ [a]) (by simp [heq]))
      rw [run, foldl_concat]
      exact hrun.step (hready.imp_right fun h => h schedule a [] rfl)
  obtain ⟨hok, r, S, -, hr, -, hgot⟩ := hinv
  refine ⟨fun b => ?_, hok⟩
  obtain ⟨m, heq, hm⟩ := hgot b
  exact ⟨_, by split_ifs <;> omega, m, heq, hm⟩

theorem nextChunk_rows_three : ∃ k ≤ 3, ∃ m, gotBy 1 (run true [true, false, true] ([0, 0, 1, 0, 1, 1] : List (Fin 2))).1 =
      (rowsUpTo [true, false, true] k).map .chunk ++ replicate m .eof ∧ (m ≠ 0 → k = 3) :=
  (nextChunk_rows true [true, false, true] [0, 0, 1, 0, 1, 1] (.inl rfl)).1 1

/-- An attribute that asks again calls `moveNext`, although another one has not consumed the row. -/
theorem unenforced_movesEarly : let state (k : ℕ) := (run false [true] (replicate k (0 : Fin 2))).2.1
    (∀ k ≤ 2, ∀ b, (state k).currRow ≤ (state k).rowIndex b + 1) ∧
      ∃ s, .moveNext s ∈ (run false [true] (replicate 2 (0 : Fin 2))).2.2 ∧ s.rowIndex 1 ≠ s.currRow := by
  refine ⟨by decide, (run false [true] (replicate 1 (0 : Fin 2))).2.1, ?_, by decide⟩
  simp [run, nextChunk, take, init, hasValues]

end SinglePassArray

end SciDB.Array
