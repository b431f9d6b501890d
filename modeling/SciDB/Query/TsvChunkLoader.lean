import SciDB.Util.TsvParser

/-!
# Saving and loading tab-separated values

The TSV branch of `Value::Formatter::format` for strings, `parseNullField` and the part of `TsvChunkLoader::loadChunk` that
reads fields. The sum of `parseNullField` wraps around as an `int`.
-/

namespace SciDB.Query

open SciDB.Lib SciDB.Util SciDB.Util.TsvParser List Option

/-- A nullable string. -/
inductive TsvValue where
  | null (missingReason : ℤ)
  | string (s : List UInt8)
deriving DecidableEq, Repr

namespace TsvValue

/-- What a cell can hold: missing reasons from 0 to 127, and strings without zeros. -/
def Valid : TsvValue → Prop
  | .null missingReason => 0 ≤ missingReason ∧ missingReason ≤ 127
  | .string s => 0 ∉ s

instance : DecidablePred Valid
  | .null missingReason => inferInstanceAs (Decidable (0 ≤ missingReason ∧ missingReason ≤ 127))
  | .string s => inferInstanceAs (Decidable (0 ∉ s))

end TsvValue

/-- A number in decimal. -/
def decimal (n : ℕ) : List UInt8 := (Nat.toDigits 10 n).map byte

/-- A character, escaped. -/
def tsvChar (ch : UInt8) : List UInt8 :=
  if ch == byte '\t' then [byte '\\', byte 't']
  else if ch == byte '\n' then [byte '\\', byte 'n']
  else if ch == byte '\r' then [byte '\\', byte 'r']
  else if ch == byte '\\' then [byte '\\', byte '\\']
  else [ch]

def tsvEscaped : List UInt8 := [byte '\t', byte '\r', byte '\n', byte '\\']

def nullRepr : List UInt8 := [byte '\\', byte 'N']

/-- `Formatter::format` for TSV. -/
def formatTsv : TsvValue → List UInt8
  | .null missingReason => if missingReason == 0 then nullRepr else byte '?' :: decimal missingReason.toNat
  | .string s => if s.any (tsvEscaped.contains ·) then s.flatMap tsvChar else s

/-- A record, joined by tabs. -/
def tsvLine (vs : List TsvValue) : List UInt8 := List.intercalate [byte '\t'] (vs.map formatTsv)

def isdigit (c : UInt8) : Bool := decide (byte '0' ≤ c ∧ c ≤ byte '9')

/-- The sum of digits. -/
def digitSum (digits : List UInt8) : ℤ :=
  digits.foldl (fun sum c => (sum * 10 + c.toNat - 48).bmod (2 ^ 32)) 0

/-- The missing reason, if any. -/
def parseNullField (s : List UInt8) : Option ℤ :=
  if s == [byte '\\', byte 'N'] then some 0
  else
    match s with
    | c :: digits =>
      if c == byte '?' then
        if digits.isEmpty then some (-1)
        else if digits.all isdigit then
          if 127 < digitSum digits then none else some ((digitSum digits).bmod (2 ^ 8))
        else some (-1)
      else if s == [byte 'n', byte 'u', byte 'l', byte 'l'] then some 0
      else some (-1)
    | [] => some (-1)

/-- The value of a field. -/
def readField (s : List UInt8) : Option TsvValue :=
  (parseNullField s).map fun missingReason => if 0 ≤ missingReason then .null missingReason else .string s

/-- Loads a line. -/
def loadRecord (fuel : ℕ) : ℕ → TsvParser → Option (List (Option TsvValue) × TsvParser)
  | 0, p => some ([], p)
  | n + 1, p =>
    (getField fuel p).bind fun (rc, field, p) =>
      let v := if rc = .ok then readField (cString p.mem fuel field) else none
      (loadRecord fuel n p).map fun (vs, p) => (v :: vs, p)

/-- What the loader does not take for a string: `\N`, `null`, or a question mark and digits whose sum is not negative as a byte. -/
def NullNotation : TsvValue → Prop
  | .null _ => False
  | .string s => s = [byte '\\', byte 'N'] ∨ s = [byte 'n', byte 'u', byte 'l', byte 'l'] ∨
      ∃ digits, s = byte '?' :: digits ∧ digits ≠ [] ∧ (∀ d ∈ digits, isdigit d = true) ∧
        (127 < digitSum digits ∨ 0 ≤ (digitSum digits).bmod (2 ^ 8))

/-- The text without escapes. -/
def fieldText : TsvValue → List UInt8
  | .null missingReason => formatTsv (.null missingReason)
  | .string s => s

/-- It is loaded as a string. -/
def TakenAsString (s : List UInt8) : Prop := ∃ r, parseNullField s = some r ∧ r < 0

lemma readField_string_iff {s : List UInt8} : readField s = some (.string s) ↔ TakenAsString s := by
  rw [readField, TakenAsString]
  cases parseNullField s with
  | none => simp
  | some r =>
    by_cases hr : 0 ≤ r
    · simp [hr]
    · simp [hr, not_le.mp hr]

lemma takenAsString_digits {digits : List UInt8} :
    TakenAsString (byte '?' :: digits) ↔ ¬(digits ≠ [] ∧ (∀ d ∈ digits, isdigit d = true) ∧
      (127 < digitSum digits ∨ 0 ≤ (digitSum digits).bmod (2 ^ 8))) := by
  have hparse : parseNullField (byte '?' :: digits) = if digits.isEmpty then some (-1)
      else if digits.all isdigit then
        if 127 < digitSum digits then none else some ((digitSum digits).bmod (2 ^ 8))
      else some (-1) := by
    have hN : ¬((byte '?' :: digits) == [byte '\\', byte 'N']) = true := fun h => by cases eq_of_beq h
    rw [parseNullField, if_neg hN, if_pos (by rfl)]
  rw [TakenAsString, hparse]
  by_cases hempty : digits = []
  · simp [hempty]
  by_cases hdigits : digits.all isdigit = true
  · rw [if_neg (by simpa using hempty), if_pos hdigits]
    have hdigits' := all_eq_true.mp hdigits
    by_cases hbig : 127 < digitSum digits
    · rw [if_pos hbig]
      exact iff_of_false (fun ⟨_, hr, _⟩ => by cases hr) fun h => h ⟨hempty, hdigits', .inl hbig⟩
    · rw [if_neg hbig]
      constructor
      · rintro ⟨r, hr, hneg⟩ ⟨-, -, h⟩
        obtain rfl := some.inj hr
        exact h.elim hbig (not_le.mpr hneg)
      · intro h
        refine ⟨_, rfl, ?_⟩
        by_contra hnn
        exact h ⟨hempty, hdigits', .inr (not_lt.mp hnn)⟩
  · rw [if_neg (by simpa using hempty), if_neg hdigits]
    refine iff_of_true ⟨-1, rfl, by decide⟩ ?_
    exact fun h => hdigits (all_eq_true.mpr h.2.1)

lemma readField_string {s : List UInt8} : readField s = some (.string s) ↔ ¬NullNotation (.string s) := by
  rw [readField_string_iff, NullNotation, not_or, not_or]
  by_cases hN : s = [byte '\\', byte 'N']
  · subst hN
    refine iff_of_false ?_ fun h => h.1 rfl
    rintro ⟨r, hr, hneg⟩
    obtain rfl : 0 = r := some.inj hr
    omega
  cases s with
  | nil =>
    refine iff_of_true ⟨-1, rfl, by decide⟩ ⟨hN, nofun, ?_⟩
    rintro ⟨digits, h, -⟩
    cases h
  | cons c digits =>
    by_cases hc : c = byte '?'
    · subst hc
      rw [takenAsString_digits, not_iff_not.symm, not_not]
      constructor
      · rintro h ⟨-, -, hno⟩
        exact hno ⟨digits, rfl, h⟩
      · intro h
        by_contra hno
        refine h ⟨hN, nofun, ?_⟩
        rintro ⟨digits', heq, h'⟩
        cases heq
        exact hno h'
    · have hparse : parseNullField (c :: digits) =
          if (c :: digits) == [byte 'n', byte 'u', byte 'l', byte 'l'] then some 0 else some (-1) := by
        rw [parseNullField, if_neg (by simpa using hN), if_neg (by simpa using hc)]
      rw [TakenAsString, hparse]
      by_cases hnull : c :: digits = [byte 'n', byte 'u', byte 'l', byte 'l']
      · rw [if_pos (by simpa using hnull)]
        refine iff_of_false ?_ fun h => h.2.1 hnull
        rintro ⟨r, hr, hneg⟩
        obtain rfl : 0 = r := some.inj hr
        omega
      · rw [if_neg (by simpa using hnull)]
        refine iff_of_true ⟨-1, rfl, by decide⟩ ⟨hN, hnull, ?_⟩
        rintro ⟨digits', heq, -⟩
        exact hc (cons.inj heq).1

lemma readField_null {r : ℤ} (h : 0 ≤ r ∧ r ≤ 127) : readField (formatTsv (.null r)) = some (.null r) := by
  have hall : ∀ n : Fin 128, readField (formatTsv (.null (n.val : ℤ))) = some (.null (n.val : ℤ)) := by decide +kernel
  have := hall ⟨r.toNat, by omega⟩
  rwa [show ((r.toNat : ℕ) : ℤ) = r by omega] at this

lemma encodes_plain {s : List UInt8} (h : ∀ c ∈ s, c ≠ byte '\t' ∧ iseol c = false ∧ c ≠ byte '\\') :
    Encodes (byte '\t') s s := by
  induction s with
  | nil => exact .nil
  | cons c s ih =>
    obtain ⟨htab, heol, hesc⟩ := h c mem_cons_self
    exact .plain htab heol hesc (ih fun d hd => h d (mem_cons_of_mem _ hd))

lemma encodes_tsvChar {c : UInt8} (hc : c ≠ 0) : Encodes (byte '\t') (tsvChar c) [c] := by
  unfold tsvChar
  split_ifs with htab hnl hcr hesc
  · rw [eq_of_beq htab]
    exact .escape (by decide) (by decide) .nil
  · rw [eq_of_beq hnl]
    exact .escape (by decide) (by decide) .nil
  · rw [eq_of_beq hcr]
    exact .escape (by decide) (by decide) .nil
  · rw [eq_of_beq hesc]
    exact .escape (by decide) (by decide) .nil
  · have heol : iseol c = false := by
      rw [iseol, Bool.or_eq_false_iff, Bool.or_eq_false_iff]
      exact ⟨⟨by simpa using hnl, by simpa using hc⟩, by simpa using hcr⟩
    exact .plain (by simpa using htab) heol (by simpa using hesc) .nil

lemma encodes_string {s : List UInt8} (h : 0 ∉ s) : Encodes (byte '\t') (formatTsv (.string s)) s := by
  have hzero : ∀ c ∈ s, c ≠ 0 := fun c hc heq => h (heq ▸ hc)
  rw [formatTsv]
  split_ifs with hany
  · clear hany h
    induction s with
    | nil => exact .nil
    | cons c s ih =>
      have := (encodes_tsvChar (hzero c mem_cons_self)).append (ih fun d hd => hzero d (mem_cons_of_mem _ hd))
      rwa [← flatMap_cons] at this
  · refine encodes_plain fun c hc => ?_
    have hnot : tsvEscaped.contains c ≠ true := fun hcon => hany (any_eq_true.mpr ⟨c, hc, hcon⟩)
    simp only [tsvEscaped, contains_cons, contains_nil, Bool.or_false, ne_eq, Bool.or_eq_true, beq_iff_eq, not_or] at hnot
    refine ⟨hnot.1, ?_, hnot.2.2.2⟩
    rw [iseol, Bool.or_eq_false_iff, Bool.or_eq_false_iff]
    exact ⟨⟨by simpa using hnot.2.2.1, by simpa using hzero c hc⟩, by simpa using hnot.2.1⟩

lemma encodes_null {r : ℤ} (h : 0 ≤ r ∧ r ≤ 127) : Encodes (byte '\t') (formatTsv (.null r)) (formatTsv (.null r)) := by
  by_cases hr : r = 0
  · rw [hr]
    exact .escape (by decide) (by decide) .nil
  · have hall : ((range 127).all fun n => (formatTsv (.null ((n : ℤ) + 1))).all fun c =>
        c != byte '\t' && !iseol c && c != byte '\\') = true := by decide +kernel
    have hplain := all_eq_true.mp (all_eq_true.mp hall (r.toNat - 1) (mem_range.mpr (by omega)))
    rw [show ((r.toNat - 1 : ℕ) : ℤ) + 1 = r by omega] at hplain
    refine encodes_plain fun c hc => ?_
    have hc' := hplain c hc
    rw [Bool.and_eq_true, Bool.and_eq_true, bne_iff_ne, bne_iff_ne, Bool.not_eq_true'] at hc'
    exact ⟨hc'.1.1, hc'.1.2, hc'.2⟩

lemma encodes_formatTsv {v : TsvValue} (h : v.Valid) : Encodes (byte '\t') (formatTsv v) (fieldText v) := by
  cases v with
  | null r => exact encodes_null h
  | string s => exact encodes_string h

lemma fieldText_noZero {v : TsvValue} (h : v.Valid) : 0 ∉ fieldText v := by
  cases v with
  | null r =>
    have hall : ∀ n : Fin 128, 0 ∉ formatTsv (.null (n.val : ℤ)) := by decide +kernel
    have := hall ⟨r.toNat, by have := h.2; omega⟩
    rwa [show ((r.toNat : ℕ) : ℤ) = r by have := h.1; omega] at this
  | string s => exact h

lemma readField_fieldText {v : TsvValue} (h : v.Valid) : readField (fieldText v) = some v ↔ ¬NullNotation v := by
  cases v with
  | null r => exact iff_of_true (readField_null h) id
  | string s => exact readField_string

lemma tsvLine_cons {v w : TsvValue} {vs : List TsvValue} :
    tsvLine (v :: w :: vs) = formatTsv v ++ [byte '\t'] ++ tsvLine (w :: vs) := by
  simp [tsvLine, intercalate]

lemma tsvLine_single {v : TsvValue} : tsvLine [v] = formatTsv v := by
  simp [tsvLine, intercalate]

lemma loadRecord_succ {fuel n field : ℕ} {p p' : TsvParser} {text : List UInt8}
    (hget : getField fuel p = some (.ok, field, p')) (htext : cString p'.mem fuel field = text) :
    loadRecord fuel (n + 1) p = (loadRecord fuel n p').map fun r => (readField text :: r.1, r.2) := by
  rw [loadRecord, hget, bind_some]
  dsimp only
  rw [if_pos rfl, htext]

lemma loadRecord_line {fuel : ℕ} {v : TsvValue} {vs : List TsvValue} {p : TsvParser} {e : UInt8}
    (hvalid : ∀ w ∈ v :: vs, w.Valid) (he : iseol e = true) (htab : p.delim = byte '\t') (heol : p.eol = false)
    (hline : HoldsAt p.mem p.cursor (tsvLine (v :: vs) ++ [e])) (hfuel : (tsvLine (v :: vs)).length < fuel) :
    ∃ p', loadRecord fuel (vs.length + 1) p = some ((v :: vs).map fun w => readField (fieldText w), p') ∧ p'.eol = true := by
  induction vs generalizing v p with
  | nil =>
    have henc := encodes_formatTsv (hvalid v mem_cons_self)
    have hzero := fieldText_noZero (hvalid v mem_cons_self)
    rw [← htab] at henc
    rw [tsvLine_single] at hline hfuel
    have hde : e ≠ p.delim := by
      rintro rfl
      rw [htab] at he
      exact absurd he (by decide)
    obtain ⟨mem, hget, hholds⟩ := getField_eol (by rw [htab]; decide) henc he hde heol hline hfuel
    have hfield := cString_eq hholds hzero (lt_of_le_of_lt henc.length_le hfuel)
    rw [length_nil, loadRecord_succ hget hfield]
    exact ⟨_, rfl, rfl⟩
  | cons w vs ih =>
    have henc := encodes_formatTsv (hvalid v mem_cons_self)
    have hzero := fieldText_noZero (hvalid v mem_cons_self)
    rw [← htab] at henc
    rw [tsvLine_cons, ← htab] at hline hfuel
    rw [append_assoc, holdsAt_append] at hline
    rw [length_append, length_append, length_singleton] at hfuel
    obtain ⟨hfirst, hrest⟩ := hline
    have hfuel' : (formatTsv v).length < fuel := by omega
    obtain ⟨mem, hget, hholds, hkeep⟩ := getField_delim (by rw [htab]; decide) henc heol hfirst hfuel'
    have hfield := cString_eq hholds hzero (lt_of_le_of_lt henc.length_le hfuel')
    -- the rest of the line is where it was
    have hrest' : HoldsAt mem (p.cursor + (formatTsv v).length + 1) (tsvLine (w :: vs) ++ [e]) := by
      rw [length_append, length_singleton, ← add_assoc] at hrest
      exact hrest.congr fun i hi _ => hkeep i (by omega)
    obtain ⟨p', hload, hp'⟩ := @ih w { p with mem, cursor := p.cursor + (formatTsv v).length + 1 }
      (fun u hu => hvalid u (mem_cons_of_mem _ hu)) htab heol hrest' (by omega)
    rw [length_cons, loadRecord_succ hget hfield, hload]
    exact ⟨p', rfl, hp'⟩

/-- **Saving and loading.** A value comes back exactly if it is no string that looks like a null; the parser writes only where it
has read. -/
theorem tsv_roundTrip (vs : List TsvValue) (hvs : vs ≠ []) (hvalid : ∀ v ∈ vs, v.Valid) (mem : FileBytes) (cursor : ℕ)
    (e : UInt8) (he : iseol e = true) (hline : HoldsAt mem cursor (tsvLine vs ++ [e])) :
    (∀ fuel, (tsvLine vs).length < fuel → ∃ ds p, loadRecord fuel vs.length ⟨mem, cursor, false, byte '\t'⟩ = some (ds, p) ∧
      getField fuel p = some (.eol, p.cursor, p) ∧ List.Forall₂ (fun v d => d = some v ↔ ¬NullNotation v) vs ds) ∧
    ∀ delim mem cursor s, Reaches (pass delim) (fun _ _ => True) ⟨mem, cursor, cursor⟩ s →
      s.wp ≤ s.rp ∧ ∀ r, scanStep delim s = .inr r → r.scan.wp ≤ r.scan.rp := by
  constructor
  · intro fuel hfuel
    obtain ⟨v, vs, rfl⟩ := exists_cons_of_ne_nil hvs
    obtain ⟨p, hload, hp⟩ := @loadRecord_line fuel v vs ⟨mem, cursor, false, byte '\t'⟩ e hvalid he rfl rfl hline hfuel
    refine ⟨_, p, hload, by rw [getField, if_pos hp], ?_⟩
    rw [forall₂_map_right_iff, forall₂_same]
    exact fun w hw => readField_fieldText (hvalid w hw)
  · intro delim mem cursor s hs
    refine ⟨scan_pointers hs, fun r hr => ?_⟩
    have := scanStep_pointers delim (scan_pointers hs)
    rw [hr] at this
    exact this

theorem tabbed_roundTrip :
    ∃ ds p, loadRecord 10 2 ⟨fun i => (tsvLine [.string [byte 'a', byte '\t'], .null 5]).getD i (byte '\n'), 0, false, byte '\t'⟩ =
      some (ds, p) ∧ List.Forall₂ (fun v d => d = some v ↔ ¬NullNotation v) [.string [byte 'a', byte '\t'], .null 5] ds := by
  obtain ⟨ds, p, hload, -, hback⟩ := (tsv_roundTrip [.string [byte 'a', byte '\t'], .null 5] (by decide)
    (by decide) (fun i => (tsvLine [.string [byte 'a', byte '\t'], .null 5]).getD i (byte '\n')) 0 (byte '\n') (by decide)
    (by decide)).1 10 (by decide)
  exact ⟨ds, p, hload, hback⟩

/-- **`\N` is written as `\\N`, and read as a null**; `null` and `?5` are not escaped at all. -/
theorem backslashN_lost : formatTsv (.string [byte '\\', byte 'N']) = [byte '\\', byte '\\', byte 'N'] ∧
    (loadRecord 5 1 ⟨fun i => [byte '\\', byte '\\', byte 'N', byte '\n'].getD i 0, 0, false, byte '\t'⟩).map Prod.fst =
      some [some (.null 0)] ∧ readField (fieldText (.string [byte 'n', byte 'u', byte 'l', byte 'l'])) = some (.null 0) ∧
    readField (fieldText (.string [byte '?', byte '5'])) = some (.null 5) := by
  decide +kernel

end SciDB.Query
