import SciDB.Lib.Outcome

/-!
# Templates of binary formats

`TemplateScanner` and `TemplateParser::parse`, for templates such as `(int64, skip(4), string null)`. The library of types is
a parameter. Left out: converters.
-/

namespace SciDB.Smgr

open SciDB.Lib List

/-- The size of a type. -/
structure BinaryType where
  typeId : List Char
  byteSize : ℕ
  byteSize_lt : byteSize < 2 ^ 32
deriving DecidableEq

namespace BinaryType

/-- It has no fixed size. -/
def variableSize (t : BinaryType) : Bool := t.byteSize == 0

end BinaryType

/-- The tokens of a format. -/
inductive TemplateToken where
  | eof
  | ident (s : List Char)
  | lpar
  | rpar
  | comma
  | number (n : ℤ)
deriving DecidableEq, Repr

/-- The exceptions of `parse`. -/
inductive TemplateError where
  | parseError (position : ℕ)
  | attributesMismatch
  | fixedSizeType (typeId : List Char)
  | unknownType (typeId : List Char)
deriving DecidableEq, Repr

/-- What is left, and where. -/
structure TemplateScanner where
  rest : List Char
  pos : ℕ

namespace TemplateScanner

/-- White space. -/
def isBlank (c : Char) : Bool := c == ' ' || decide (9 ≤ c.toNat ∧ c.toNat ≤ 13)

/-- Go on by some characters. -/
def advance (s : TemplateScanner) (n : ℕ) : TemplateScanner := ⟨s.rest.drop n, s.pos + n⟩

def numberOf (digits : List Char) : ℤ := digits.foldl (fun n c => (n * 10 + c.toNat - 48).bmod (2 ^ 32)) 0

/-- The next token. -/
def get (s : TemplateScanner) : Except TemplateError (TemplateToken × TemplateScanner) :=
  let s := s.advance (s.rest.takeWhile isBlank).length
  match s.rest with
  | [] => .ok (.eof, s)
  | c :: cs =>
    if c = '(' then .ok (.lpar, s.advance 1)
    else if c = ')' then .ok (.rpar, s.advance 1)
    else if c = ',' then .ok (.comma, s.advance 1)
    else if c.isDigit then
      let digits := c :: cs.takeWhile Char.isDigit
      .ok (.number (numberOf digits), s.advance digits.length)
    else if c.isAlpha then
      let ident := c :: cs.takeWhile fun c => c.isAlphanum || c == '_'
      .ok (.ident ident, s.advance ident.length)
    else .error (.parseError s.pos)

end TemplateScanner

/-- `ExchangeTemplate::Column`. -/
structure TemplateColumn where
  skip : Bool
  nullable : Bool
  types : Option (BinaryType × BinaryType)
  fixedSize : ℕ
deriving DecidableEq

/-- A parsed format. -/
structure ExchangeTemplate where
  columns : List TemplateColumn
  isOpaque : Bool
deriving DecidableEq

namespace TemplateParser

open TemplateScanner

/-- The type library. -/
abbrev TypeLibrary := List Char → Option BinaryType

variable (lib : TypeLibrary)

/-- Looks up a type. -/
def getType (typeId : List Char) : Except TemplateError BinaryType :=
  match lib typeId with
  | some t => .ok t
  | none => .error (.unknownType typeId)

def sameIdent (ident : List Char) (word : List Char) : Bool := ident.map Char.toLower == word

/-- `skip`, or the type of the next attribute; with the number of attributes that have a column. -/
def columnType (attrs : List (List Char)) (nAttrs : ℕ) (ident : List Char) :
    Except TemplateError (Option (BinaryType × BinaryType) × ℕ) :=
  if sameIdent ident ['s', 'k', 'i', 'p'] then .ok (none, nAttrs)
  else
    match attrs[nAttrs]? with
    | none => .error .attributesMismatch
    | some attr =>
      (getType lib ident).bind fun externalType =>
        (getType lib attr).map fun internalType => (some (internalType, externalType), nAttrs + 1)

/-- The size in parentheses. -/
def columnSize (types : Option (BinaryType × BinaryType)) (tkn : TemplateToken) (s : TemplateScanner) :
    Except TemplateError (ℕ × TemplateToken × TemplateScanner) :=
  if tkn = .lpar then
    s.get.bind fun (tkn, s) =>
      match tkn with
      | .number n =>
        match types with
        | some (_, externalType) =>
          if externalType.variableSize then sizeOf n s else .error (.fixedSizeType externalType.typeId)
        | none => sizeOf n s
      | _ => .error (.parseError s.pos)
  else
    .ok (match types with
      | some (_, externalType) => externalType.byteSize
      | none => 0, tkn, s)
where
  sizeOf (n : ℤ) (s : TemplateScanner) : Except TemplateError (ℕ × TemplateToken × TemplateScanner) :=
    if n ≤ 0 then .error (.parseError s.pos)
    else
      s.get.bind fun (tkn, s) =>
        if tkn = .rpar then s.get.map fun (tkn, s) => (n.toNat, tkn, s) else .error (.parseError s.pos)

def columnNull (tkn : TemplateToken) (s : TemplateScanner) : Except TemplateError (Bool × TemplateToken × TemplateScanner) :=
  match tkn with
  | .ident ident =>
    if sameIdent ident ['n', 'u', 'l', 'l'] then s.get.map fun (tkn, s) => (true, tkn, s)
    else .error (.parseError s.pos)
  | _ => .ok (false, tkn, s)

/-- One pass of the loop. -/
def parseColumn (attrs : List (List Char)) (nAttrs : ℕ) (s : TemplateScanner) :
    Except TemplateError (TemplateColumn × ℕ × TemplateToken × TemplateScanner) :=
  s.get.bind fun (tkn, s) =>
    match tkn with
    | .ident ident =>
      (columnType lib attrs nAttrs ident).bind fun (types, nAttrs) =>
        s.get.bind fun (tkn, s) =>
          (columnSize types tkn s).bind fun (fixedSize, tkn, s) =>
            (columnNull tkn s).map fun (nullable, tkn, s) =>
              ({ skip := types.isNone, nullable, types, fixedSize }, nAttrs, tkn, s)
    | _ => .error (.parseError s.pos)

/-! The loop over the columns ends, since each column takes up characters. -/

variable {s s' : TemplateScanner} {tkn tkn' : TemplateToken} {α β : Type} {x : Except TemplateError α} {b : β}
  {types : Option (BinaryType × BinaryType)} {n nAttrs : ℕ} {lib : TypeLibrary} {attrs : List (List Char)}
  {c : TemplateColumn}

lemma get_length_le (h : s.get = .ok (tkn, s')) : s'.rest.length ≤ s.rest.length := by
  have hadv : ∀ (s : TemplateScanner) n, (s.advance n).rest.length ≤ s.rest.length := fun s n => by
    rw [advance, length_drop]
    omega
  unfold TemplateScanner.get at h
  dsimp only at h
  refine le_trans ?_ (hadv s (s.rest.takeWhile isBlank).length)
  generalize s.advance (s.rest.takeWhile isBlank).length = s1 at h
  split at h
  · cases h
    exact le_refl _
  · split_ifs at h <;> cases h <;> exact hadv _ _

lemma get_length_lt {ident : List Char} (h : s.get = .ok (.ident ident, s')) : s'.rest.length < s.rest.length := by
  unfold TemplateScanner.get at h
  dsimp only at h
  have hadv : (s.advance (s.rest.takeWhile isBlank).length).rest.length ≤ s.rest.length := by
    rw [advance, length_drop]
    omega
  refine lt_of_lt_of_le ?_ hadv
  generalize s.advance (s.rest.takeWhile isBlank).length = s1 at h
  split at h
  · cases h
  · next c cs hrest =>
    split_ifs at h <;> cases h
    rw [advance, length_drop, hrest, length_cons, length_cons]
    omega

lemma columnSize_ok (h : columnSize types tkn s = .ok (n, tkn', s')) :
    (∃ m s1 s2, s.get = .ok (.number m, s1) ∧ (∀ t ∈ types, t.2.variableSize) ∧ s1.get = .ok (.rpar, s2) ∧
      s2.get = .ok (tkn', s') ∧ n = m.toNat) ∨ s' = s ∧ n = types.elim 0 (·.2.byteSize) := by
  have hsize : ∀ {m s}, columnSize.sizeOf m s = .ok (n, tkn', s') →
      ∃ s2, s.get = .ok (.rpar, s2) ∧ s2.get = .ok (tkn', s') ∧ n = m.toNat := by
    intro m s h
    unfold columnSize.sizeOf at h
    split_ifs at h
    obtain ⟨⟨tkn1, s1⟩, hget, h⟩ := bind_eq_ok.mp h
    dsimp only at h
    split_ifs at h with hpar
    obtain ⟨⟨tkn2, s2⟩, hget', h⟩ := map_eq_ok.mp h
    cases h
    exact ⟨s1, hpar ▸ hget, hget', rfl⟩
  unfold columnSize at h
  split_ifs at h with hpar
  · obtain ⟨⟨tkn1, s1⟩, hget, h⟩ := bind_eq_ok.mp h
    dsimp only at h
    split at h
    · split at h
      · split_ifs at h with hvar
        obtain ⟨s2, h⟩ := hsize h
        exact .inl ⟨_, s1, s2, hget, by simpa using hvar, h⟩
      · obtain ⟨s2, h⟩ := hsize h
        exact .inl ⟨_, s1, s2, hget, nofun, h⟩
    · cases h
  · cases h
    exact .inr ⟨rfl, by cases types <;> rfl⟩

lemma columnSize_length_le (h : columnSize types tkn s = .ok (n, tkn', s')) : s'.rest.length ≤ s.rest.length := by
  obtain ⟨m, s1, s2, hget, -, hget1, hget2, -⟩ | ⟨rfl, -⟩ := columnSize_ok h
  · exact le_trans (get_length_le hget2) (le_trans (get_length_le hget1) (get_length_le hget))
  · exact le_refl _

lemma columnNull_length_le {nullable : Bool} (h : columnNull tkn s = .ok (nullable, tkn', s')) :
    s'.rest.length ≤ s.rest.length := by
  unfold columnNull at h
  split at h
  · split_ifs at h
    obtain ⟨⟨tkn1, s1⟩, hget, h⟩ := map_eq_ok.mp h
    cases h
    exact get_length_le hget
  · cases h
    exact le_refl _

lemma parseColumn_ok (h : parseColumn lib attrs nAttrs s = .ok (c, n, tkn, s')) :
    ∃ ident s1 types tkn2 s2 fixedSize tkn3 s3 nullable, s.get = .ok (.ident ident, s1) ∧
      columnType lib attrs nAttrs ident = .ok (types, n) ∧ s1.get = .ok (tkn2, s2) ∧
      columnSize types tkn2 s2 = .ok (fixedSize, tkn3, s3) ∧ columnNull tkn3 s3 = .ok (nullable, tkn, s') ∧
      c = { skip := types.isNone, nullable, types, fixedSize } := by
  unfold parseColumn at h
  obtain ⟨⟨tkn1, s1⟩, hget, h⟩ := bind_eq_ok.mp h
  dsimp only at h
  split at h
  · next ident =>
    obtain ⟨⟨types, n'⟩, htype, h⟩ := bind_eq_ok.mp h
    obtain ⟨⟨tkn2, s2⟩, hget', h⟩ := bind_eq_ok.mp h
    obtain ⟨⟨fixedSize, tkn3, s3⟩, hsize, h⟩ := bind_eq_ok.mp h
    obtain ⟨⟨nullable, tkn4, s4⟩, hnull, h⟩ := map_eq_ok.mp h
    cases h
    exact ⟨ident, s1, types, tkn2, s2, fixedSize, tkn3, s3, nullable, hget, htype, hget', hsize, hnull, rfl⟩
  · cases h

lemma parseColumn_length_lt (h : parseColumn lib attrs nAttrs s = .ok (c, n, tkn, s')) : s'.rest.length < s.rest.length := by
  obtain ⟨ident, s1, types, tkn2, s2, fixedSize, tkn3, s3, nullable, hget, -, hget', hsize, hnull, -⟩ := parseColumn_ok h
  have h1 := get_length_lt hget
  have h2 := get_length_le hget'
  have h3 := columnSize_length_le hsize
  have h4 := columnNull_length_le hnull
  omega

/-- The loop over the columns. -/
def parseColumns (lib : TypeLibrary) (attrs : List (List Char)) (nAttrs : ℕ) (s : TemplateScanner) :
    Except TemplateError (List TemplateColumn × ℕ × TemplateToken × TemplateScanner) :=
  match _hcolumn : parseColumn lib attrs nAttrs s with
  | .error e => .error e
  | .ok (c, nAttrs, tkn, s') =>
    if tkn = .comma then (parseColumns lib attrs nAttrs s').map fun (cs, r) => (c :: cs, r)
    else .ok ([c], nAttrs, tkn, s')
termination_by s.rest.length
decreasing_by exact parseColumn_length_lt (by assumption)

/-- `TemplateParser::parse`, with the types of the attributes but for the empty bitmap. -/
def parse (lib : TypeLibrary) (attrs : List (List Char)) (format : List Char) : Except TemplateError ExchangeTemplate :=
  (TemplateScanner.get ⟨format, 0⟩).bind fun (tkn, s) =>
    match tkn with
    | .ident ident =>
      if sameIdent ident ['o', 'p', 'a', 'q', 'u', 'e'] then
        s.get.bind fun (tkn, s) => if tkn = .eof then .ok ⟨[], true⟩ else .error (.parseError s.pos)
      else .error (.parseError s.pos)
    | .lpar =>
      (parseColumns lib attrs 0 s).bind fun (columns, nAttrs, tkn, s) =>
        if tkn = .rpar then
          if nAttrs = attrs.length then
            s.get.bind fun (tkn, s) => if tkn = .eof then .ok ⟨columns, false⟩ else .error (.parseError s.pos)
          else .error .attributesMismatch
        else .error (.parseError s.pos)
    | _ => .error (.parseError s.pos)

lemma numberOf_lt (digits : List Char) : numberOf digits < 2 ^ 32 := by
  have hbmod : ∀ m : ℤ, m.bmod (2 ^ 32) < 2 ^ 32 := fun m => by
    have := @Int.bmod_lt m (2 ^ 32) (by decide)
    omega
  rw [numberOf]
  rcases eq_nil_or_concat digits with rfl | ⟨ds, d, rfl⟩
  · decide
  · rw [concat_eq_append, foldl_append]
    exact hbmod _

lemma get_number_lt {n : ℤ} (h : s.get = .ok (.number n, s')) : n < 2 ^ 32 := by
  unfold TemplateScanner.get at h
  dsimp only at h
  split at h
  · cases h
  · split_ifs at h <;> cases h
    exact numberOf_lt _

lemma columnSize_lt (h : columnSize types tkn s = .ok (n, tkn', s')) : n < 2 ^ 32 := by
  obtain ⟨m, s1, s2, hget, -, -, -, rfl⟩ | ⟨-, rfl⟩ := columnSize_ok h
  · have := get_number_lt hget
    omega
  · cases types with
    | none => decide
    | some p => exact p.2.byteSize_lt

lemma columnSize_fixed {t : BinaryType × BinaryType} (h : columnSize types tkn s = .ok (n, tkn', s')) (ht : types = some t)
    (hfixed : t.2.byteSize ≠ 0) : n = t.2.byteSize := by
  subst ht
  obtain ⟨m, s1, s2, -, hvar, -⟩ | ⟨-, rfl⟩ := columnSize_ok h
  · exact absurd (by simpa [BinaryType.variableSize] using hvar) hfixed
  · rfl

structure ColumnOk (c : TemplateColumn) : Prop where
  skip_iff : c.skip = c.types.isNone
  fixedSize_lt : c.fixedSize < 2 ^ 32

/-- A fixed size is the type's. -/
def FixedOk (c : TemplateColumn) : Prop := ∀ t ∈ c.types, t.2.byteSize ≠ 0 → c.fixedSize = t.2.byteSize

/-- The columns of attributes. -/
def valueColumns (columns : List TemplateColumn) : ℕ := columns.countP fun c => !c.skip

lemma parseColumn_spec (h : parseColumn lib attrs nAttrs s = .ok (c, n, tkn, s')) :
    (ColumnOk c ∧ FixedOk c) ∧ n = nAttrs + valueColumns [c] := by
  obtain ⟨ident, s1, types, tkn2, s2, fixedSize, tkn3, s3, nullable, -, htype, -, hsize, -, rfl⟩ := parseColumn_ok h
  refine ⟨⟨⟨rfl, columnSize_lt hsize⟩, fun _ => columnSize_fixed hsize⟩, ?_⟩
  unfold columnType at htype
  split_ifs at htype
  · cases htype
    rfl
  · split at htype
    · cases htype
    · obtain ⟨t, -, htype⟩ := bind_eq_ok.mp htype
      obtain ⟨t', -, htype⟩ := map_eq_ok.mp htype
      cases htype
      rfl

lemma parseColumns_spec {cs : List TemplateColumn} (h : parseColumns lib attrs nAttrs s = .ok (cs, n, tkn, s')) :
    (∀ c ∈ cs, ColumnOk c ∧ FixedOk c) ∧ n = nAttrs + valueColumns cs := by
  induction hlen : s.rest.length using Nat.strongRecOn generalizing nAttrs s cs with
  | _ len ih =>
    rw [parseColumns] at h
    split at h
    · cases h
    · next c n1 tkn1 s1 hcolumn =>
      obtain ⟨hok, hn1⟩ := parseColumn_spec hcolumn
      split_ifs at h
      · obtain ⟨⟨cs', r⟩, hcs, h⟩ := map_eq_ok.mp h
        cases h
        obtain ⟨hcs', hn⟩ := ih _ (hlen ▸ parseColumn_length_lt hcolumn) hcs rfl
        refine ⟨fun c' hc' => (mem_cons.mp hc').elim (fun heq => heq ▸ hok) (hcs' c'), ?_⟩
        rw [hn, hn1, valueColumns, valueColumns, valueColumns, countP_cons, countP_cons, countP_nil]
        omega
      · cases h
        exact ⟨fun c' hc' => mem_singleton.mp hc' ▸ hok, hn1⟩

/-- **An accepted template has one column for each attribute**, and besides only columns to skip. -/
lemma parse_columns {format : List Char} {templ : ExchangeTemplate} (h : parse lib attrs format = .ok templ)
    (hclear : templ.isOpaque = false) :
    (∀ c ∈ templ.columns, ColumnOk c ∧ FixedOk c) ∧ valueColumns templ.columns = attrs.length := by
  unfold parse at h
  obtain ⟨⟨tkn, s⟩, -, h⟩ := bind_eq_ok.mp h
  dsimp only at h
  split at h
  · split_ifs at h
    obtain ⟨⟨tkn1, s1⟩, -, h⟩ := bind_eq_ok.mp h
    split_ifs at h
    cases h
    cases hclear
  · obtain ⟨⟨cs, n, tkn1, s1⟩, hcs, h⟩ := bind_eq_ok.mp h
    split_ifs at h with htkn hn
    obtain ⟨⟨tkn2, s2⟩, -, h⟩ := bind_eq_ok.mp h
    split_ifs at h
    cases h
    obtain ⟨hok, hcount⟩ := parseColumns_spec hcs
    exact ⟨hok, by dsimp only; omega⟩
  · cases h

end TemplateParser

end SciDB.Smgr
