import SciDB.Lib.OrdMap

/-!
# Storage addresses

The key of the chunk map. Addresses of one attribute and position stand together, newest version first, so that `lower_bound`
finds what a version sees. `operatorLt` compares sizes of the coordinate lists first.
-/

namespace SciDB.Smgr

open SciDB.Lib

/-- `ArrayID`: a versioned array. -/
abbrev ArrayID := ℕ

/-- An unversioned array. -/
abbrev ArrayUAID := ℕ

/-- Attribute, coordinates, version. -/
@[ext]
structure StorageAddress where
  attId : ℕ
  coords : List ℤ
  arrId : ArrayID
deriving DecidableEq, Repr

namespace StorageAddress

/-- The loop of `operator<`. -/
def coordsLt : List ℤ → List ℤ → Bool → Bool
  | x :: xs, y :: ys, rest => if x ≠ y then x < y else coordsLt xs ys rest
  | _, _, rest => rest

/-- `operator<`. -/
def operatorLt (a b : StorageAddress) : Bool :=
  if a.attId ≠ b.attId then a.attId < b.attId
  else if a.coords.length ≠ b.coords.length then a.coords.length < b.coords.length
  else coordsLt a.coords b.coords
    -- reverse ordering to keep most-recent versions at the front of the map
    (if a.arrId ≠ b.arrId then a.arrId > b.arrId else false)

/-- Equal up to the version. -/
def sameBaseAddr (a b : StorageAddress) : Prop := a.attId = b.attId ∧ a.coords = b.coords

instance (a b : StorageAddress) : Decidable (a.sameBaseAddr b) := inferInstanceAs (Decidable (_ ∧ _))

def withVersion (a : StorageAddress) (v : ArrayID) : StorageAddress := { a with arrId := v }

def key (a : StorageAddress) : ℕ ×ₗ ℕ ×ₗ List ℤ ×ₗ ℕᵒᵈ :=
  toLex (a.attId, toLex (a.coords.length, toLex (a.coords, OrderDual.toDual a.arrId)))

lemma key_injective : Function.Injective key := by
  intro a b h
  simp only [key, EmbeddingLike.apply_eq_iff_eq, Prod.mk.injEq] at h
  exact StorageAddress.ext h.1 h.2.2.1 h.2.2.2

instance : LinearOrder StorageAddress := LinearOrder.lift' key key_injective

lemma lt_iff {a b : StorageAddress} : a < b ↔ a.attId < b.attId ∨ a.attId = b.attId ∧ (a.coords.length < b.coords.length ∨
      a.coords.length = b.coords.length ∧ (a.coords < b.coords ∨ a.coords = b.coords ∧ b.arrId < a.arrId)) := by
  show key a < key b ↔ _
  simp only [key, Prod.Lex.toLex_lt_toLex, OrderDual.toDual_lt_toDual]

lemma coordsLt_iff (rest : Bool) : ∀ {xs ys : List ℤ}, xs.length = ys.length →
    (coordsLt xs ys rest = true ↔ xs < ys ∨ xs = ys ∧ rest = true)
  | [], [], _ => by simp [coordsLt]
  | x :: xs, y :: ys, h => by
    have ih := @coordsLt_iff rest xs ys (by simpa using h)
    rw [coordsLt, List.cons_lt_cons_iff]
    by_cases hxy : x = y
    · simp [hxy, ih]
    · simp [hxy]

/-- **`operator<` is the strict part of a linear order.** -/
theorem lt_iff_operatorLt {a b : StorageAddress} : a < b ↔ a.operatorLt b = true := by
  rw [lt_iff, operatorLt]
  by_cases hatt : a.attId = b.attId
  · by_cases hlen : a.coords.length = b.coords.length
    · have hrest : (if a.arrId ≠ b.arrId then decide (a.arrId > b.arrId) else false) = true ↔ b.arrId < a.arrId := by
        by_cases harr : a.arrId = b.arrId
        · simp [harr]
        · simp [harr]
      rw [if_neg (not_not.mpr hatt), if_neg (not_not.mpr hlen), coordsLt_iff _ hlen, hrest]
      simp [hatt, hlen]
    · simp [hatt, hlen]
  · simp [hatt]

lemma sameBaseAddr.symm {a b : StorageAddress} (h : a.sameBaseAddr b) : b.sameBaseAddr a := ⟨h.1.symm, h.2.symm⟩

lemma sameBaseAddr.trans {a b c : StorageAddress} (h : a.sameBaseAddr b) (h' : b.sameBaseAddr c) : a.sameBaseAddr c :=
  ⟨h.1.trans h'.1, h.2.trans h'.2⟩

lemma le_iff_of_sameBaseAddr {a b : StorageAddress} (h : a.sameBaseAddr b) : a ≤ b ↔ b.arrId ≤ a.arrId := by
  rw [← not_lt, lt_iff, h.1, h.2]
  simp

lemma sameBaseAddr_of_between {a b c : StorageAddress} (hac : a.sameBaseAddr c) (hab : a ≤ b) (hbc : b ≤ c) :
    a.sameBaseAddr b := by
  rw [← not_lt, lt_iff] at hab hbc
  rw [← hac.1, ← hac.2] at hbc
  have hatt : a.attId = b.attId := by omega
  have hlen : a.coords.length = b.coords.length := by
    by_contra hne
    rcases Nat.lt_or_gt_of_ne hne with hlt | hlt
    · exact hbc (.inr ⟨hatt, .inl hlt⟩)
    · exact hab (.inr ⟨hatt.symm, .inl hlt⟩)
  refine ⟨hatt, le_antisymm ?_ ?_⟩
  · exact not_lt.mp fun hlt => hab (.inr ⟨hatt.symm, .inr ⟨hlen.symm, .inl hlt⟩⟩)
  · exact not_lt.mp fun hlt => hbc (.inr ⟨hatt, .inr ⟨hlen, .inl hlt⟩⟩)

variable {β : Type*} {m : OrdMap StorageAddress β} {a : StorageAddress}

/-- `lower_bound(a)`, unless it points to another place than `a`. -/
def visible? (m : OrdMap StorageAddress β) (a : StorageAddress) : Option (StorageAddress × β) :=
  match m.lowerBound a with
  | some e => if e.1.coords ≠ a.coords ∨ e.1.attId ≠ a.attId then none else some e
  | none => none

/-- **A version sees the newest entry that is not newer than it.** -/
lemma visible?_eq_some_iff {e : StorageAddress × β} :
    visible? m a = some e ↔ e ∈ m.entries ∧ a.sameBaseAddr e.1 ∧ e.1.arrId ≤ a.arrId ∧
      ∀ e' ∈ m.entries, a.sameBaseAddr e'.1 → e'.1.arrId ≤ a.arrId → e'.1.arrId ≤ e.1.arrId := by
  constructor
  · intro h
    unfold visible? at h
    cases hl : m.lowerBound a with
    | none => rw [hl] at h; cases h
    | some e0 =>
      rw [hl] at h
      simp only at h
      split_ifs at h with hbase
      cases h
      push Not at hbase
      have hsame : a.sameBaseAddr e.1 := ⟨hbase.2.symm, hbase.1.symm⟩
      obtain ⟨hmem, hle, hleast⟩ := OrdMap.lowerBound_eq_some_iff.mp hl
      refine ⟨hmem, hsame, (le_iff_of_sameBaseAddr hsame).mp hle, fun e' he' hs hv => ?_⟩
      have hlow := hleast e' he' ((le_iff_of_sameBaseAddr hs).mpr hv)
      exact (le_iff_of_sameBaseAddr (hsame.symm.trans hs)).mp hlow
  · rintro ⟨hmem, hsame, hv, hmax⟩
    have hle : a ≤ e.1 := (le_iff_of_sameBaseAddr hsame).mpr hv
    have hl : m.lowerBound a = some e := by
      refine OrdMap.lowerBound_eq_some_iff.mpr ⟨hmem, hle, fun e' he' hle' => ?_⟩
      rcases le_total e.1 e'.1 with h | h
      · exact h
      · -- an entry between the two is one of the same place, and so not newer
        have hs := sameBaseAddr_of_between hsame hle' h
        refine (le_iff_of_sameBaseAddr (hsame.symm.trans hs)).mpr ?_
        exact hmax e' he' hs ((le_iff_of_sameBaseAddr hs).mp hle')
    unfold visible?
    rw [hl]
    simp only
    rw [if_neg]
    push Not
    exact ⟨hsame.2.symm, hsame.1.symm⟩

lemma visible?_eq_none_iff : visible? m a = none ↔ ∀ e ∈ m.entries, a.sameBaseAddr e.1 → a.arrId < e.1.arrId := by
  constructor
  · intro h e he hs
    by_contra hv
    -- the least address not below `a` is then one of the place
    have hle : a ≤ e.1 := (le_iff_of_sameBaseAddr hs).mpr (not_lt.mp hv)
    cases hl : m.lowerBound a with
    | none => exact absurd (OrdMap.lowerBound_eq_none_iff.mp hl e he) (not_lt.mpr hle)
    | some e0 =>
      obtain ⟨-, hle0, hleast⟩ := OrdMap.lowerBound_eq_some_iff.mp hl
      have hs0 := sameBaseAddr_of_between hs hle0 (hleast e he hle)
      unfold visible? at h
      rw [hl] at h
      simp only at h
      rw [if_neg (by push Not; exact ⟨hs0.2.symm, hs0.1.symm⟩)] at h
      cases h
  · intro h
    cases hv : visible? m a with
    | none => rfl
    | some e =>
      obtain ⟨hmem, hsame, hle, -⟩ := visible?_eq_some_iff.mp hv
      exact absurd (h e hmem hsame) (not_lt.mpr hle)

end StorageAddress

end SciDB.Smgr
