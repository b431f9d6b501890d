import SciDB.Lib.Bytes
import SciDB.Lib.Runs

/-!
# Fields of a line of tab-separated values

A call of `getField` removes the escapes in place, closes the field by a zero, and leaves the cursor behind the delimiter. The
line stands in a memory, and the pointers are addresses.
-/

namespace SciDB.Util

open SciDB.Lib List Function Bool

/-- How a field ends. -/
inductive FieldResult where
  | ok
  | eol
  | err
deriving DecidableEq, Repr

/-- The line and the cursor. -/
structure TsvParser where
  mem : FileBytes
  cursor : ℕ
  eol : Bool
  delim : UInt8

namespace TsvParser

/-- The end of a line. -/
def iseol (ch : UInt8) : Bool := ch == byte '\n' || ch == 0 || ch == byte '\r'

/-- The pointers of `getField`. -/
structure Scan where
  mem : FileBytes
  rp : ℕ
  wp : ℕ

/-- `*wp++ = c`. -/
def Scan.put (s : Scan) (c : UInt8) : Scan := { s with mem := Function.update s.mem s.wp c, wp := s.wp + 1 }

/-- `*wp = '\0'`. -/
def Scan.close (s : Scan) : Scan := { s with mem := Function.update s.mem s.wp 0 }

def unescaped (ch : UInt8) : List UInt8 :=
  if ch == byte 'n' then [byte '\n']
  else if ch == byte 'r' then [byte '\r']
  else if ch == byte 't' then [byte '\t']
  else if ch == byte '\\' then [byte '\\']
  else if ch == byte 'N' then [byte '\\', byte 'N']
  else [ch]

/-- How the loop ends. -/
structure Stop where
  result : FieldResult
  scan : Scan
  cursor : ℕ
  eol : Bool

/-- One pass of the loop. -/
def scanStep (delim : UInt8) (s : Scan) : Scan ⊕ Stop :=
  let c := s.mem s.rp
  if c == delim then .inr ⟨.ok, { s.close with rp := s.rp + 1 }, s.rp + 1, false⟩
  else if iseol c then .inr ⟨.ok, s.close, s.rp, true⟩
  else if c == byte '\\' then
    let ch := s.mem (s.rp + 1)
    let s := { s with rp := s.rp + 2 }
    if ch == delim || iseol ch then .inr ⟨.err, (s.put (byte '\\')).close, s.rp, ch != delim⟩
    else .inl ((unescaped ch).foldl Scan.put s)
  else .inl ({ s with rp := s.rp + 1 }.put c)

/-- The loop, for a number of passes. -/
def scan (delim : UInt8) : ℕ → Scan → Option Stop
  | 0, _ => none
  | n + 1, s =>
    match scanStep delim s with
    | .inl s => scan delim n s
    | .inr r => some r

/-- `getField`: the result, the address of the field, and the parser then. -/
def getField (fuel : ℕ) (p : TsvParser) : Option (FieldResult × ℕ × TsvParser) :=
  if p.eol then some (.eol, p.cursor, p)
  else (scan p.delim fuel ⟨p.mem, p.cursor, p.cursor⟩).map fun r =>
    (r.result, p.cursor, { p with mem := r.scan.mem, cursor := r.cursor, eol := r.eol })

lemma foldl_put_rp (l : List UInt8) (s : Scan) : (l.foldl Scan.put s).rp = s.rp := by
  induction l generalizing s with
  | nil => rfl
  | cons c l ih => exact ih _

lemma foldl_put_wp (l : List UInt8) (s : Scan) : (l.foldl Scan.put s).wp = s.wp + l.length := by
  induction l generalizing s with
  | nil => rfl
  | cons c l ih =>
    rw [foldl_cons, ih, length_cons]
    change s.wp + 1 + l.length = _
    omega

lemma length_unescaped (ch : UInt8) : (unescaped ch).length ≤ 2 := by
  unfold unescaped
  split_ifs <;> simp

lemma scanStep_pointers (delim : UInt8) {s : Scan} (h : s.wp ≤ s.rp) : match scanStep delim s with
    | .inl s' => s'.wp ≤ s'.rp
    | .inr r => r.scan.wp ≤ r.scan.rp := by
  unfold scanStep
  by_cases hdelim : (s.mem s.rp == delim) = true
  · rw [if_pos hdelim]
    exact Nat.le_succ_of_le h
  rw [if_neg hdelim]
  by_cases heol : iseol (s.mem s.rp) = true
  · rwa [if_pos heol]
  rw [if_neg heol]
  by_cases hesc : (s.mem s.rp == byte '\\') = true
  · rw [if_pos hesc]
    by_cases herr : (s.mem (s.rp + 1) == delim || iseol (s.mem (s.rp + 1))) = true
    · rw [if_pos herr]
      change s.wp + 1 ≤ s.rp + 2
      omega
    · rw [if_neg herr]
      dsimp only
      have := length_unescaped (s.mem (s.rp + 1))
      rw [foldl_put_rp, foldl_put_wp]
      dsimp only
      omega
  · rw [if_neg hesc]
    change s.wp + 1 ≤ s.rp + 1
    omega

/-- A pass that goes on. -/
def pass (delim : UInt8) (s : Scan) (_ : Unit) : Option Scan :=
  match scanStep delim s with
  | .inl s' => some s'
  | .inr _ => none

lemma scan_pointers {delim : UInt8} {mem : FileBytes} {cursor : ℕ} {s : Scan}
    (h : Reaches (pass delim) (fun _ _ => True) ⟨mem, cursor, cursor⟩ s) : s.wp ≤ s.rp := by
  refine h.invariant (I := fun s => s.wp ≤ s.rp) (le_refl _) fun s s' _ hle _ hstep => ?_
  have hpointers := scanStep_pointers delim hle
  unfold pass at hstep
  split at hstep
  · next s1 heq =>
    cases hstep
    rwa [heq] at hpointers
  · cases hstep

/-- A text and its field. -/
inductive Encodes (delim : UInt8) : List UInt8 → List UInt8 → Prop where
  | nil : Encodes delim [] []
  | plain {c : UInt8} {text field : List UInt8} : c ≠ delim → iseol c = false → c ≠ byte '\\' → Encodes delim text field →
      Encodes delim (c :: text) (c :: field)
  | escape {ch : UInt8} {text field : List UInt8} : ch ≠ delim → iseol ch = false → Encodes delim text field →
      Encodes delim (byte '\\' :: ch :: text) (unescaped ch ++ field)

variable {delim : UInt8} {s : Scan} {text field : List UInt8} {p : TsvParser} {fuel : ℕ}

lemma Encodes.append {text' field' : List UInt8} (h : Encodes delim text field) (h' : Encodes delim text' field') :
    Encodes delim (text ++ text') (field ++ field') := by
  induction h with
  | nil => exact h'
  | plain hdelim heol hesc _ ih => exact .plain hdelim heol hesc ih
  | escape hdelim heol _ ih =>
    rw [append_assoc]
    exact .escape hdelim heol ih

lemma Encodes.length_le (h : Encodes delim text field) : field.length ≤ text.length := by
  induction h with
  | nil => exact le_refl _
  | plain _ _ _ _ ih => exact Nat.succ_le_succ ih
  | @escape ch _ _ _ _ _ ih =>
    have := length_unescaped ch
    rw [length_append, length_cons, length_cons]
    omega

lemma put_mem_of_ne {c : UInt8} {i : ℕ} (h : i ≠ s.wp) : (s.put c).mem i = s.mem i := update_of_ne h _ _

lemma foldl_put_mem (l : List UInt8) (s : Scan) : HoldsAt (l.foldl Scan.put s).mem s.wp l ∧
      ∀ i, i < s.wp ∨ s.wp + l.length ≤ i → (l.foldl Scan.put s).mem i = s.mem i := by
  induction l generalizing s with
  | nil => exact ⟨trivial, fun _ _ => rfl⟩
  | cons c l ih =>
    obtain ⟨hholds, hrest⟩ := ih (s.put c)
    change ∀ i, i < s.wp + 1 ∨ s.wp + 1 + l.length ≤ i → _ at hrest
    refine ⟨⟨?_, hholds⟩, fun i hi => ?_⟩
    · exact (hrest s.wp (.inl (Nat.lt_succ_self _))).trans (update_self _ _ _)
    · rw [length_cons] at hi
      exact (hrest i (by omega)).trans (put_mem_of_ne (by omega))

lemma scanStep_plain {c : UInt8} (hc : s.mem s.rp = c) (hdelim : c ≠ delim) (heol : iseol c = false)
    (hesc : c ≠ byte '\\') : scanStep delim s = .inl ([c].foldl Scan.put { s with rp := s.rp + 1 }) := by
  unfold scanStep
  rw [hc, if_neg (by simpa using hdelim), if_neg (by rw [heol]; exact false_ne_true), if_neg (by simpa using hesc)]
  rfl

lemma scanStep_escape {ch : UInt8} (hd : delim ≠ byte '\\') (hc : s.mem s.rp = byte '\\') (hch : s.mem (s.rp + 1) = ch)
    (hdelim : ch ≠ delim) (heol : iseol ch = false) :
    scanStep delim s = .inl ((unescaped ch).foldl Scan.put { s with rp := s.rp + 2 }) := by
  unfold scanStep
  dsimp only
  rw [hc, if_neg (by simpa using hd.symm), if_neg (by decide), if_pos (by decide), hch, heol, Bool.or_false,
    if_neg (by simpa using hdelim)]

/-- The loop over a text writes the field, and changes nothing before it or after the text. -/
def Reads (delim : UInt8) (text field : List UInt8) : Prop :=
  ∀ (s : Scan) (fuel : ℕ), s.wp ≤ s.rp → HoldsAt s.mem s.rp text → text.length < fuel →
    ∃ fuel' s', 0 < fuel' ∧ scan delim fuel s = scan delim fuel' s' ∧ s'.rp = s.rp + text.length ∧
      s'.wp = s.wp + field.length ∧ HoldsAt s'.mem s.wp field ∧
      ∀ i, i < s.wp ∨ s.rp + text.length ≤ i → s'.mem i = s.mem i

lemma Reads.token (token out : List UInt8) (htoken : 0 < token.length) (hout : out.length ≤ token.length)
    (hstep : ∀ s : Scan, HoldsAt s.mem s.rp token →
      scanStep delim s = .inl (out.foldl Scan.put { s with rp := s.rp + token.length }))
    (h : Reads delim text field) : Reads delim (token ++ text) (out ++ field) := by
  intro s fuel hle htext hfuel
  rw [length_append] at hfuel
  obtain ⟨hhead, htext⟩ := holdsAt_append.mp htext
  obtain ⟨hwrite, hkeep⟩ := foldl_put_mem out { s with rp := s.rp + token.length }
  have hrp := foldl_put_rp out { s with rp := s.rp + token.length }
  have hwp := foldl_put_wp out { s with rp := s.rp + token.length }
  have hscan := hstep s hhead
  generalize out.foldl Scan.put { s with rp := s.rp + token.length } = s1 at hwrite hkeep hrp hwp hscan
  dsimp only at hwrite hkeep hrp hwp
  obtain ⟨n, rfl⟩ := Nat.exists_eq_add_of_lt hfuel
  have htext1 : HoldsAt s1.mem s1.rp text := by
    rw [hrp]
    exact htext.congr fun i hi _ => hkeep i (by omega)
  obtain ⟨n', s', hn', heq, hrp', hwp', hholds, hrest⟩ := h s1 (token.length + text.length + n) (by omega) htext1 (by omega)
  refine ⟨n', s', hn', ?_, ?_, ?_, holdsAt_append.mpr ⟨?_, ?_⟩, fun i hi => ?_⟩
  · rwa [scan, hscan]
  · rw [hrp', hrp, length_append, add_assoc]
  · rw [hwp', hwp, length_append, add_assoc]
  · exact hwrite.congr fun i _ hi => hrest i (by omega)
  · rwa [← hwp]
  · rw [length_append] at hi
    exact (hrest i (by omega)).trans (hkeep i (by omega))

lemma Encodes.reads (hd : delim ≠ byte '\\') (h : Encodes delim text field) : Reads delim text field := by
  induction h with
  | nil => exact fun s fuel _ _ hfuel => ⟨fuel, s, hfuel, rfl, rfl, rfl, trivial, fun _ _ => rfl⟩
  | @plain c text field hdelim heol hesc _ ih =>
    exact Reads.token [c] [c] Nat.one_pos (le_refl _) (fun s hs => scanStep_plain hs.1 hdelim heol hesc) ih
  | @escape ch text field hdelim heol _ ih =>
    exact Reads.token [byte '\\', ch] _ Nat.two_pos (length_unescaped ch)
      (fun s hs => scanStep_escape hd hs.1 hs.2.1 hdelim heol) ih

lemma closed_field {s s' : Scan} (hholds : HoldsAt s'.mem s.wp field) (hwp : s'.wp = s.wp + field.length) :
    HoldsAt s'.close.mem s.wp (field ++ [0]) := by
  refine holdsAt_append.mpr ⟨hholds.congr fun i _ hi => update_of_ne (by omega) _ _, ?_, trivial⟩
  rw [← hwp]
  exact update_self _ _ _

section

variable (hd : p.delim ≠ byte '\\') (h : Encodes p.delim text field)

include hd h

/-- `getField` at a field that the byte `e` follows, where the loop stops. -/
lemma getField_at {e : UInt8} {stop : Scan → Stop} (heol : p.eol = false) (htext : HoldsAt p.mem p.cursor (text ++ [e]))
    (hfuel : text.length < fuel) (hstep : ∀ s : Scan, s.mem s.rp = e → scanStep p.delim s = .inr (stop s)) :
    ∃ s, s.rp = p.cursor + text.length ∧ HoldsAt s.close.mem p.cursor (field ++ [0]) ∧
      (∀ i, p.cursor + text.length < i → s.close.mem i = p.mem i) ∧ getField fuel p = some ((stop s).result, p.cursor,
        { p with mem := (stop s).scan.mem, cursor := (stop s).cursor, eol := (stop s).eol }) := by
  obtain ⟨htext, hend, -⟩ := holdsAt_append.mp htext
  obtain ⟨n, s, hn, hscan, hrp, hwp, hholds, hrest⟩ := h.reads hd ⟨p.mem, p.cursor, p.cursor⟩ fuel (le_refl _) htext hfuel
  dsimp only at hrp hwp hholds hrest
  obtain ⟨n, rfl⟩ := Nat.exists_eq_add_of_lt hn
  have hlen := h.length_le
  have hc : s.mem s.rp = e := by
    rw [hrp, hrest _ (.inr (le_refl _)), hend]
  refine ⟨s, hrp, closed_field (s := ⟨p.mem, p.cursor, p.cursor⟩) hholds hwp, fun i hi => ?_, ?_⟩
  · exact (update_of_ne (by omega) _ _).trans (hrest i (by omega))
  · rw [getField, heol, if_neg Bool.false_ne_true, hscan, scan, hstep s hc, Option.map_some]

lemma getField_delim
    (heol : p.eol = false) (htext : HoldsAt p.mem p.cursor (text ++ [p.delim])) (hfuel : text.length < fuel) :
    ∃ mem, getField fuel p = some (.ok, p.cursor, { p with mem, cursor := p.cursor + text.length + 1 }) ∧
      HoldsAt mem p.cursor (field ++ [0]) ∧ ∀ i, p.cursor + text.length < i → mem i = p.mem i := by
  obtain ⟨s, hrp, hholds, hrest, hget⟩ := getField_at hd h heol htext hfuel fun s hc => by
    unfold scanStep
    rw [hc, if_pos (beq_self_eq_true _)]
  exact ⟨s.close.mem, by rw [hget, hrp, ← heol], hholds, hrest⟩

lemma getField_eol {e : UInt8}
    (he : iseol e = true) (hde : e ≠ p.delim) (heol : p.eol = false) (htext : HoldsAt p.mem p.cursor (text ++ [e]))
    (hfuel : text.length < fuel) :
    ∃ mem, getField fuel p = some (.ok, p.cursor, { p with mem, cursor := p.cursor + text.length, eol := true }) ∧
      HoldsAt mem p.cursor (field ++ [0]) := by
  obtain ⟨s, hrp, hholds, -, hget⟩ := getField_at hd h heol htext hfuel fun s hc => by
    unfold scanStep
    rw [hc, if_neg (by simpa using hde), if_pos he]
  exact ⟨s.close.mem, by rw [hget, hrp], hholds⟩

end

end TsvParser

end SciDB.Util
