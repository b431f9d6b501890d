import SciDB.Lib.Bytes

/-!
# The scanner of the text format

`Scanner`, and what `Value::Formatter` writes. With double buffering `myGetc` returns a `char`: bytes from 128 on are negative.
The token is assembled in `stringBuf`, which is moved to `tmpValue` when it is full.
-/

namespace SciDB.Query

open SciDB.Lib List

inductive Token where
  | arrayBegin
  | arrayEnd
  | tupleBegin
  | tupleEnd
  | coordBegin
  | coordEnd
  | comma
  | semicolon
  | literal
  | multiply
  | eof
deriving DecidableEq, Repr

/-- The exceptions of `get`. -/
inductive ScanError where
  | inputError13
  | inputError14
deriving DecidableEq, Repr

/-- The scanner and its input. -/
structure Scanner where
  input : List UInt8
  useDoubleBuffering : Bool
  missingReason : ℤ
  lineNo : ℤ
  columnNo : ℤ
  pos : ℤ
  tmpValue : List UInt8
  stringBuf : List UInt8
deriving DecidableEq, Repr

abbrev code (c : Char) : ℤ := c.toNat

/-- `EOF`. -/
def eofCode : ℤ := -1

/-- `static_cast<char>`. -/
def toChar (ch : ℤ) : UInt8 := UInt8.ofNat (ch % 256).toNat

def isspaceCode (ch : ℤ) : Bool := ch == 32 || decide (9 ≤ ch ∧ ch ≤ 13)

def isdigitCode (ch : ℤ) : Bool := decide (code '0' ≤ ch ∧ ch ≤ code '9')

namespace Scanner

/-- The size of `tmpValue`. -/
def maxTempBufSize : ℕ := 100

variable (s : Scanner)

/-- The literal is a null. -/
def isNull : Bool := decide (0 ≤ s.missingReason)

def getValue : List UInt8 := s.tmpValue ++ s.stringBuf

/-- What `fgetc` returns. -/
def charOf (b : UInt8) : ℤ := if s.useDoubleBuffering && decide (128 ≤ b.toNat) then b.toNat - 256 else b.toNat

variable (ch : ℤ)

/-- The counters of `getChar`. -/
def counted : Scanner :=
  if ch = code '\n' then { s with pos := s.pos + 1, lineNo := s.lineNo + 1, columnNo := 0 }
  else { s with pos := s.pos + 1, columnNo := s.columnNo + 1 }

def taken (b : UInt8) (rest : List UInt8) : Scanner := { s.counted (s.charOf b) with input := rest }

def ended : Scanner := { s.counted eofCode with input := [] }

/-- Puts a character back. -/
def ungetChar : Scanner :=
  if ch = eofCode then s
  else if ch = code '\n' then { s with input := toChar ch :: s.input, pos := s.pos - 1, lineNo := s.lineNo - 1 }
  else { s with input := toChar ch :: s.input, pos := s.pos - 1, columnNo := s.columnNo - 1 }

def append : Scanner :=
  if s.stringBuf.length < maxTempBufSize then { s with stringBuf := s.stringBuf ++ [toChar ch] }
  else { s with tmpValue := s.tmpValue ++ s.stringBuf, stringBuf := [toChar ch] }

def appendEscaped : Scanner :=
  if ch = code 'n' then s.append (code '\n')
  else if ch = code 't' then s.append (code '\t')
  else if ch = code 'r' then s.append (code '\r')
  else s.append ch

/-- Before a token is assembled. -/
def cleared : Scanner := { s with tmpValue := [], stringBuf := [] }

/-- Skips white space. -/
def skipSpace : List UInt8 → Scanner → ℤ × Scanner
  | [], s => (eofCode, s.ended)
  | b :: rest, s =>
    let ch := s.charOf b
    if ch != eofCode && isspaceCode ch then skipSpace rest (s.taken b rest) else (ch, s.taken b rest)

def endsLiteral : Bool :=
  ch == code ',' || isspaceCode ch || ch == code '(' || ch == code ')' || ch == code ']' || ch == code '\x7d' ||
    ch == code '\x7b' || ch == code '[' || ch == code '*' || ch == eofCode

/-- A literal without quotes. -/
def commonLoop : List UInt8 → ℤ → Scanner → ℤ × Scanner
  | [], ch, s =>
    if isdigitCode ch then (eofCode, (s.append ch).ended)
    else if ch = code '\\' then (eofCode, s.ended)
    else if endsLiteral ch then (ch, s)
    else (eofCode, (s.append ch).ended)
  | b :: rest, ch, s =>
    if isdigitCode ch then commonLoop rest (s.charOf b) ((s.append ch).taken b rest)
    else if ch = code '\\' then
      let ch := s.charOf b
      let s := s.taken b rest
      if ch = eofCode then (ch, s)
      else
        match rest with
        | [] => (eofCode, (s.appendEscaped ch).ended)
        | c :: rest => commonLoop rest (s.charOf c) ((s.appendEscaped ch).taken c rest)
    else if endsLiteral ch then (ch, s)
    else commonLoop rest (s.charOf b) ((s.append ch).taken b rest)

/-- A literal without quotes. -/
def commonCase (s : Scanner) : Except ScanError (Token × Scanner) :=
  let (ch, s) := commonLoop s.input ch s.cleared
  if s.getValue.isEmpty then .error .inputError14
  else
    let s := s.ungetChar ch
    let isNullText := s.tmpValue.isEmpty && s.stringBuf == [byte 'n', byte 'u', byte 'l', byte 'l']
    .ok (.literal, { s with missingReason := if isNullText then 0 else -1 })

/-- The escapes inside quotes. -/
def escaped : ℤ :=
  if ch = code 'n' then code '\n'
  else if ch = code 'r' then code '\r'
  else if ch = code 'f' then 12
  else if ch = code 't' then code '\t'
  else if ch = code '0' then 0
  else ch

def quotedLoop (quote : ℤ) : List UInt8 → Scanner → Except ScanError (Token × Scanner)
  | [], _ => .error .inputError13
  | b :: rest, s =>
    let ch := s.charOf b
    let s := s.taken b rest
    if ch = code '\\' then
      match rest with
      | [] => .error .inputError13
      | c :: rest =>
        let ch := escaped (s.charOf c)
        let s := s.taken c rest
        if ch = eofCode then .error .inputError13 else quotedLoop quote rest (s.append ch)
    else if ch = quote then .ok (.literal, { s with missingReason := -1 })
    else if ch = eofCode then .error .inputError13
    else quotedLoop quote rest (s.append ch)

/-- The loop of a missing reason; the character after it. The reason is an `int`. -/
def missingLoop : List UInt8 → Scanner → ℤ × Scanner
  | [], s => (eofCode, s.ended)
  | b :: rest, s =>
    let ch := s.charOf b
    let s := s.taken b rest
    if isdigitCode ch then
      missingLoop rest { s with missingReason := (s.missingReason * 10 + ch - code '0').bmod (2 ^ 32) }
    else (ch, s)

/-- `get`: the next token. -/
def get : Except ScanError (Token × Scanner) :=
  let (ch, s) := skipSpace s.input s
  if isdigitCode ch then commonCase ch s
  else if ch = code ',' then .ok (.comma, s)
  else if ch = code '(' then .ok (.tupleBegin, s)
  else if ch = code ')' then .ok (.tupleEnd, s)
  else if ch = code '\'' ∨ ch = code '"' then quotedLoop ch s.input s.cleared
  else if ch = code '\x7b' then .ok (.coordBegin, s)
  else if ch = code '\x7d' then .ok (.coordEnd, s)
  else if ch = code '*' then .ok (.multiply, s)
  else if ch = code '[' then .ok (.arrayBegin, s)
  else if ch = code ']' then .ok (.arrayEnd, s)
  else if ch = code ';' then .ok (.semicolon, s)
  else if ch = code '?' then
    let (ch, s) := missingLoop s.input { s.cleared with missingReason := 0 }
    .ok (.literal, s.ungetChar ch)
  else if ch = eofCode then .ok (.eof, s)
  else commonCase ch s

end Scanner

def quotedChar (quote c : UInt8) : List UInt8 :=
  if c == quote then [byte '\\', c]
  else if c == byte '\\' then [byte '\\', byte '\\']
  else [c]

/-- A string in quotes. -/
def quoteCstr (quote : UInt8) (s : List UInt8) : List UInt8 := [quote] ++ s.flatMap (quotedChar quote) ++ [quote]

/-- A character, escaped. -/
def charText (ch : UInt8) : List UInt8 :=
  if ch == 0 then [byte '\\', byte '0']
  else if ch == byte '\n' then [byte '\\', byte 'n']
  else if ch == byte '\r' then [byte '\\', byte 'r']
  else if ch == byte '\t' then [byte '\\', byte 't']
  else if ch == 12 then [byte '\\', byte 'f']
  else if ch == byte '\'' || ch == byte '\\' then [byte '\\', ch]
  else [ch]

/-- A character in quotes. -/
def formatChar (ch : UInt8) : List UInt8 := [byte '\''] ++ charText ch ++ [byte '\'']

/-- `StringToValue` for `TID_STRING`. -/
def stringOf (value : List UInt8) : List UInt8 := value.takeWhile (· != 0)

/-- `StringToValue` for `TID_CHAR`. -/
def charOfString (value : List UInt8) : UInt8 := value.headD 0

namespace Scanner

variable {s : Scanner} {quote b c x : UInt8} {ch : ℤ} {text value rest : List UInt8}

lemma toChar_charOf : toChar (s.charOf b) = b := by
  have hb := b.toNat_lt
  apply UInt8.toNat_inj.mp
  rw [toChar, charOf]
  split_ifs <;> simp <;> omega

lemma charOf_eq_code (hx : x.toNat < 128) : s.charOf b = x.toNat ↔ b = x := by
  have hb := b.toNat_lt
  rw [charOf, ← UInt8.toNat_inj]
  split_ifs with hneg
  · have := of_decide_eq_true (Bool.and_eq_true_iff.mp hneg).2
    omega
  · omega

lemma charOf_self (hx : x.toNat < 128) : s.charOf x = x.toNat := (charOf_eq_code hx).mpr rfl

lemma charOf_eq_eof : s.charOf b = eofCode ↔ s.useDoubleBuffering = true ∧ b = 255 := by
  rw [charOf, eofCode, ← UInt8.toNat_inj]
  change _ ↔ _ ∧ b.toNat = 255
  by_cases hneg : (s.useDoubleBuffering && decide (128 ≤ b.toNat)) = true
  · obtain ⟨hdouble, hge⟩ := Bool.and_eq_true_iff.mp hneg
    rw [if_pos hneg]
    exact ⟨fun h => ⟨hdouble, by omega⟩, fun h => by omega⟩
  · rw [if_neg hneg]
    constructor
    · intro h
      exact absurd h (by omega)
    · rintro ⟨hdouble, h⟩
      exact absurd (Bool.and_eq_true_iff.mpr ⟨hdouble, decide_eq_true (by omega)⟩) hneg

@[simp] lemma useDoubleBuffering_counted : (s.counted ch).useDoubleBuffering = s.useDoubleBuffering := by
  unfold counted
  split_ifs <;> rfl

@[simp] lemma useDoubleBuffering_taken : (s.taken b rest).useDoubleBuffering = s.useDoubleBuffering :=
  useDoubleBuffering_counted

@[simp] lemma useDoubleBuffering_append : (s.append ch).useDoubleBuffering = s.useDoubleBuffering := by
  unfold append
  split_ifs <;> rfl

@[simp] lemma charOf_taken : (s.taken b rest).charOf c = s.charOf c := by
  rw [charOf, useDoubleBuffering_taken, charOf]

@[simp] lemma getValue_taken : (s.taken b rest).getValue = s.getValue := by
  unfold taken counted getValue
  split_ifs <;> rfl

@[simp] lemma getValue_append : (s.append ch).getValue = s.getValue ++ [toChar ch] := by
  unfold append getValue
  split_ifs
  · simp
  · rfl

inductive Writes (quote : UInt8) : List UInt8 → List UInt8 → Prop where
  | nil : Writes quote [] []
  | plain {c : UInt8} {text value : List UInt8} : c ≠ quote → c ≠ byte '\\' → Writes quote text value →
      Writes quote (c :: text) (c :: value)
  | escape {x c : UInt8} {text value : List UInt8} : x.toNat < 128 → c.toNat < 128 → escaped x.toNat = c.toNat →
      Writes quote text value → Writes quote (byte '\\' :: x :: text) (c :: value)

lemma Writes.one {x c : UInt8} (h : x.toNat < 128 ∧ c.toNat < 128 ∧ escaped x.toNat = c.toNat) :
    Writes quote [byte '\\', x] [c] := .escape h.1 h.2.1 h.2.2 .nil

lemma Writes.append {text' value' : List UInt8} (h : Writes quote text value) (h' : Writes quote text' value') :
    Writes quote (text ++ text') (value ++ value') := by
  induction h with
  | nil => exact h'
  | plain hq hesc _ ih => exact .plain hq hesc ih
  | escape hx hc hesc _ ih => exact .escape hx hc hesc ih

def Scans (value rest : List UInt8) (s : Scanner) (r : Except ScanError (Token × Scanner)) : Prop :=
  if s.useDoubleBuffering = true ∧ 255 ∈ value then r = .error .inputError13
  else ∃ s', r = .ok (.literal, s') ∧ s'.missingReason = -1 ∧ s'.getValue = s.getValue ++ value ∧ s'.input = rest

lemma Scans.cons {r : Except ScanError (Token × Scanner)} {t : Scanner}
    (h : Scans value rest (t.append ch) r) (hch : toChar ch = c) (hnot : ¬(s.useDoubleBuffering = true ∧ c = 255))
    (hdouble : t.useDoubleBuffering = s.useDoubleBuffering) (hvalue : t.getValue = s.getValue) : Scans (c :: value) rest s r := by
  unfold Scans at h ⊢
  rw [useDoubleBuffering_append, hdouble, getValue_append, hvalue, hch] at h
  by_cases heof : s.useDoubleBuffering = true ∧ 255 ∈ value
  · rw [if_pos heof] at h
    rwa [if_pos ⟨heof.1, mem_cons_of_mem _ heof.2⟩]
  · rw [if_neg heof] at h
    rw [if_neg]
    · obtain ⟨s', hr, hnull, hval, hin⟩ := h
      exact ⟨s', hr, hnull, by rw [hval, append_assoc]; rfl, hin⟩
    · rintro ⟨hd, hmem⟩
      rcases mem_cons.mp hmem with heq | hmem
      · exact hnot ⟨hd, heq.symm⟩
      · exact heof ⟨hd, hmem⟩

lemma quotedLoop_plain (h : s.charOf b ≠ code '\\') : quotedLoop ch (b :: rest) s =
      if s.charOf b = ch then .ok (.literal, { s.taken b rest with missingReason := -1 })
      else if s.charOf b = eofCode then .error .inputError13
      else quotedLoop ch rest ((s.taken b rest).append (s.charOf b)) := by
  rw [quotedLoop.eq_def]
  exact if_neg h

lemma quotedLoop_escape : quotedLoop ch (byte '\\' :: c :: rest) s = if escaped (s.charOf c) = eofCode then .error .inputError13
      else quotedLoop ch rest (((s.taken (byte '\\') (c :: rest)).taken c rest).append (escaped (s.charOf c))) := by
  rw [quotedLoop.eq_def]
  dsimp only
  rw [charOf_self (by decide), if_pos (by decide), charOf_taken]

lemma quotedLoop_scans (hquote : quote.toNat < 128) (hne : quote ≠ byte '\\') (h : Writes quote text value) :
    Scans value rest s (quotedLoop quote.toNat (text ++ quote :: rest) s) := by
  have hesc : (code '\\') = (byte '\\').toNat := rfl
  induction h generalizing s with
  | nil =>
    -- the closing quote
    rw [nil_append, quotedLoop_plain, if_pos (charOf_self hquote), Scans, if_neg (by simp)]
    · refine ⟨_, rfl, rfl, ?_, rfl⟩
      rw [append_nil]
      exact @getValue_taken s quote rest
    · rwa [hesc, ne_eq, charOf_eq_code (by decide)]
  | @plain c text value hq hbs _ ih =>
    have hbs' : s.charOf c ≠ code '\\' := by
      rwa [hesc, ne_eq, charOf_eq_code (by decide)]
    rw [cons_append, quotedLoop_plain hbs', if_neg (by rw [charOf_eq_code hquote]; exact hq)]
    by_cases heof : s.charOf c = eofCode
    · rw [if_pos heof]
      obtain ⟨hdouble, rfl⟩ := charOf_eq_eof.mp heof
      rw [Scans, if_pos ⟨hdouble, mem_cons_self⟩]
    · rw [if_neg heof]
      exact ih.cons toChar_charOf (mt charOf_eq_eof.mpr heof) useDoubleBuffering_taken getValue_taken
  | @escape x c text value hx hc hxc _ ih =>
    rw [cons_append, cons_append, quotedLoop_escape, charOf_self hx, hxc, if_neg (by unfold eofCode; omega)]
    have hcast : toChar (c.toNat : ℤ) = c := by
      rw [← charOf_self (s := s) hc, toChar_charOf]
    refine ih.cons hcast ?_ (useDoubleBuffering_taken.trans useDoubleBuffering_taken) (getValue_taken.trans getValue_taken)
    rintro ⟨-, rfl⟩
    exact absurd hc (by decide)

lemma get_quoted (hq : quote = byte '\'' ∨ quote = byte '"') (h : Writes quote text value)
    (hs : s.input = [quote] ++ text ++ [quote] ++ rest) : Scans value rest { s with tmpValue := [], stringBuf := [] } s.get := by
  have hquote : quote.toNat < 128 := by rcases hq with rfl | rfl <;> decide
  have hne : quote ≠ byte '\\' := by rcases hq with rfl | rfl <;> decide
  have hget : s.get = quotedLoop quote.toNat (text ++ quote :: rest) (s.taken quote (text ++ quote :: rest)).cleared := by
    rw [get, hs, append_assoc, append_assoc, singleton_append, skipSpace]
    rw [charOf_self hquote]
    rcases hq with rfl | rfl <;> rfl
  rw [hget]
  have hscans := @quotedLoop_scans (s.taken quote (text ++ quote :: rest)).cleared quote text value rest hquote hne h
  unfold Scans at hscans ⊢
  have hdouble : (s.taken quote (text ++ quote :: rest)).cleared.useDoubleBuffering = s.useDoubleBuffering :=
    @useDoubleBuffering_taken s quote (text ++ quote :: rest)
  rwa [hdouble] at hscans

end Scanner

lemma writes_quotedChar {quote c : UInt8} (hq : quote = byte '\'' ∨ quote = byte '"') :
    Scanner.Writes quote (quotedChar quote c) [c] := by
  unfold quotedChar
  split_ifs with hquote hbs
  · rw [eq_of_beq hquote]
    rcases hq with rfl | rfl <;> exact .one (by decide)
  · rw [eq_of_beq hbs]
    exact .one (by decide)
  · exact .plain (by simpa using hquote) (by simpa using hbs) .nil

lemma writes_flatMap {quote : UInt8} (hq : quote = byte '\'' ∨ quote = byte '"') (value : List UInt8) :
    Scanner.Writes quote (value.flatMap (quotedChar quote)) value := by
  induction value with
  | nil => exact .nil
  | cons c value ih => exact (writes_quotedChar hq).append ih

lemma writes_charText (c : UInt8) : Scanner.Writes (byte '\'') (charText c) [c] := by
  unfold charText
  split_ifs with h0 hn hr ht hf hbs
  · rw [eq_of_beq h0]
    exact .one (by decide)
  · rw [eq_of_beq hn]
    exact .one (by decide)
  · rw [eq_of_beq hr]
    exact .one (by decide)
  · rw [eq_of_beq ht]
    exact .one (by decide)
  · rw [eq_of_beq hf]
    exact .one (by decide)
  · rcases Bool.or_eq_true_iff.mp hbs with hbs | hbs
    · rw [eq_of_beq hbs]
      exact .one (by decide)
    · rw [eq_of_beq hbs]
      exact .one (by decide)
  · rw [Bool.or_eq_true, not_or] at hbs
    exact .plain (by simpa using hbs.1) (by simpa using hbs.2) .nil

/-- One literal, and the rest. -/
def GivesLiteral (s : Scanner) (rest : List UInt8) (P : List UInt8 → Prop) : Prop :=
  ∃ s', s.get = .ok (.literal, s') ∧ s'.isNull = false ∧ P s'.getValue ∧ s'.input = rest

lemma givesLiteral_iff {s : Scanner} {quote : UInt8} {text value rest : List UInt8} {P : List UInt8 → Prop}
    (hq : quote = byte '\'' ∨ quote = byte '"') (h : Scanner.Writes quote text value)
    (hs : s.input = [quote] ++ text ++ [quote] ++ rest) (hP : P value) :
    GivesLiteral s rest P ↔ ¬(s.useDoubleBuffering = true ∧ 255 ∈ value) := by
  have hscans := Scanner.get_quoted hq h hs
  rw [Scanner.Scans] at hscans
  by_cases heof : s.useDoubleBuffering = true ∧ 255 ∈ value
  · rw [if_pos heof] at hscans
    refine iff_of_false ?_ (not_not.mpr heof)
    rintro ⟨s', hget, -⟩
    cases hscans.symm.trans hget
  · rw [if_neg heof] at hscans
    obtain ⟨s', hget, hnull, hvalue, hrest⟩ := hscans
    refine iff_of_true ⟨s', hget, ?_, ?_, hrest⟩ heof
    · rw [Scanner.isNull, hnull]
      decide
    · rwa [hvalue]

/-- **Literals come back** exactly unless byte 255 is in it and the input is double buffered. -/
theorem literal_roundTrip (s : Scanner) (rest : List UInt8) :
    (∀ quote value, quote = byte '\'' ∨ quote = byte '"' → 0 ∉ value → s.input = quoteCstr quote value ++ rest →
      (GivesLiteral s rest (fun v => stringOf v = value) ↔ ¬(s.useDoubleBuffering = true ∧ 255 ∈ value))) ∧
    ∀ c, s.input = formatChar c ++ rest →
      (GivesLiteral s rest (fun v => charOfString v = c) ↔ ¬(s.useDoubleBuffering = true ∧ c = 255)) := by
  constructor
  · intro quote value hq hzero hs
    refine givesLiteral_iff hq (writes_flatMap hq value) hs ?_
    refine takeWhile_eq_self_iff.mpr fun b hb => ?_
    rw [bne_iff_ne]
    rintro rfl
    exact hzero hb
  · intro c hs
    have := givesLiteral_iff (.inl rfl) (writes_charText c) hs (P := fun v => charOfString v = c) rfl
    rwa [mem_singleton, eq_comm (a := (255 : UInt8))] at this

/-- A scanner before some bytes. -/
def scannerOf (useDoubleBuffering : Bool) (input : List UInt8) : Scanner :=
  { input, useDoubleBuffering, missingReason := 0, lineNo := 0, columnNo := 0, pos := 0, tmpValue := [], stringBuf := [] }

theorem twoBytes_roundTrip : GivesLiteral (scannerOf true (quoteCstr (byte '\'') [byte '\'', 254] ++ [byte ','])) [byte ',']
      (fun v => stringOf v = [byte '\'', 254]) ∧
    GivesLiteral (scannerOf false (formatChar 255 ++ [byte ','])) [byte ','] (fun v => charOfString v = 255) :=
  ⟨((literal_roundTrip _ _).1 (byte '\'') [byte '\'', 254] (.inl rfl) (by decide) rfl).mpr (by decide),
    ((literal_roundTrip _ _).2 255 rfl).mpr (by decide)⟩

/-- **With double buffering, byte 255 in a string is an end of file in the middle of a literal.** -/
theorem byte255_eof : (scannerOf true (quoteCstr (byte '\'') [255] ++ [byte ','])).get = .error .inputError13 ∧
    (scannerOf true (formatChar 255 ++ [byte ','])).get = .error .inputError13 := by
  decide +kernel

end SciDB.Query
