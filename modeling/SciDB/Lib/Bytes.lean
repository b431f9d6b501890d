import Mathlib

/-!
# Bytes

Numbers as bytes, the least significant one first, and byte ranges of a file or a memory: `load` reads a range, `store` writes
one.
-/

namespace SciDB.Lib

open List

def encodeLE : ℕ → ℕ → List UInt8
  | 0, _ => []
  | w + 1, n => UInt8.ofNat n :: encodeLE w (n / 256)

def decodeLE : List UInt8 → ℕ
  | [] => 0
  | b :: bs => b.toNat + 256 * decodeLE bs

@[simp] lemma length_encodeLE (w n : ℕ) : (encodeLE w n).length = w := by
  induction w generalizing n with
  | zero => rfl
  | succ w ih => simp [encodeLE, ih]

lemma decodeLE_encodeLE {w n : ℕ} (h : n < 256 ^ w) : decodeLE (encodeLE w n) = n := by
  induction w generalizing n with
  | zero => simp_all [encodeLE, decodeLE]
  | succ w ih =>
    have hdiv : n / 256 < 256 ^ w := Nat.div_lt_of_lt_mul (by rwa [pow_succ'] at h)
    rw [encodeLE, decodeLE, ih hdiv, UInt8.toNat_ofNat']
    exact Nat.mod_add_div n 256

lemma encodeLE_decodeLE (bs : List UInt8) : encodeLE bs.length (decodeLE bs) = bs := by
  induction bs with
  | nil => rfl
  | cons b bs ih =>
    have hb : b.toNat < 256 := b.toNat_lt
    have hfirst : UInt8.ofNat (b.toNat + 256 * decodeLE bs) = b := by
      apply UInt8.toNat_inj.mp
      rw [UInt8.toNat_ofNat']
      omega
    have hrest : (b.toNat + 256 * decodeLE bs) / 256 = decodeLE bs := by omega
    rw [length_cons, decodeLE, encodeLE, hfirst, hrest, ih]

/-- A byte for every offset. -/
abbrev FileBytes := ℕ → UInt8

/-- The `n` bytes at an offset. -/
def load (f : FileBytes) (off n : ℕ) : List UInt8 := (List.range n).map fun i => f (off + i)

/-- Bytes are written. -/
def store (f : FileBytes) (off : ℕ) (bs : List UInt8) : FileBytes :=
  fun x => if off ≤ x then (bs[x - off]?).getD (f x) else f x

variable {f g : FileBytes} {off off' m n : ℕ} {bs : List UInt8}

@[simp] lemma length_load : (load f off n).length = n := by simp [load]

lemma load_congr (h : ∀ i < n, f (off + i) = g (off + i)) : load f off n = load g off n := by
  apply map_congr_left
  intro i hi
  exact h i (mem_range.mp hi)

lemma load_add : load f off (m + n) = load f off m ++ load f (off + m) n := by
  simp [load, range_add, add_assoc]

lemma load_store : load (store f off bs) off bs.length = bs := by
  apply ext_getElem
  · simp
  · intro i hi hi'
    simp [load, store, hi']

lemma load_store_of_disjoint (h : off' + n ≤ off ∨ off + bs.length ≤ off') : load (store f off bs) off' n = load f off' n := by
  apply load_congr
  intro i hi
  simp only [store]
  split_ifs with hle
  · have hlen : bs.length ≤ off' + i - off := by omega
    simp [hlen]
  · rfl

/-- The byte of an ASCII character. -/
abbrev byte (c : Char) : UInt8 := c.toUInt8

/-- The bytes stand at the address. -/
def HoldsAt (f : FileBytes) : ℕ → List UInt8 → Prop
  | _, [] => True
  | a, b :: bs => f a = b ∧ HoldsAt f (a + 1) bs

instance decidableHoldsAt (f : FileBytes) : ∀ a bs, Decidable (HoldsAt f a bs)
  | _, [] => .isTrue trivial
  | a, b :: bs =>
    have := decidableHoldsAt f (a + 1) bs
    inferInstanceAs (Decidable (f a = b ∧ HoldsAt f (a + 1) bs))

def cString (f : FileBytes) : ℕ → ℕ → List UInt8
  | 0, _ => []
  | n + 1, a => if f a = 0 then [] else f a :: cString f n (a + 1)

lemma HoldsAt.congr {a : ℕ} (h : HoldsAt f a bs) (hfg : ∀ i, a ≤ i → i < a + bs.length → g i = f i) : HoldsAt g a bs := by
  induction bs generalizing a with
  | nil => exact trivial
  | cons b bs ih =>
    rw [length_cons] at hfg
    exact ⟨(hfg a (le_refl a) (by omega)).trans h.1, ih h.2 fun i hi hlt => hfg i (by omega) (by omega)⟩

lemma holdsAt_append {a : ℕ} {bs cs : List UInt8} : HoldsAt f a (bs ++ cs) ↔ HoldsAt f a bs ∧ HoldsAt f (a + bs.length) cs := by
  induction bs generalizing a with
  | nil => simp [HoldsAt]
  | cons b bs ih =>
    rw [cons_append, HoldsAt, HoldsAt, ih, length_cons, and_assoc, show a + 1 + bs.length = a + (bs.length + 1) by omega]

lemma cString_eq {a n : ℕ} (h : HoldsAt f a (bs ++ [0])) (hbs : 0 ∉ bs) (hn : bs.length < n) : cString f n a = bs := by
  induction bs generalizing a n with
  | nil =>
    obtain ⟨n, rfl⟩ := Nat.exists_eq_add_of_lt hn
    rw [cString, if_pos h.1]
  | cons b bs ih =>
    obtain ⟨n, rfl⟩ := Nat.exists_eq_add_of_lt hn
    have hb : f a ≠ 0 := fun hzero => hbs (h.1 ▸ hzero ▸ mem_cons_self)
    rw [cString, if_neg hb, ih h.2 (fun hmem => hbs (mem_cons_of_mem _ hmem)) (by rw [length_cons]; omega), h.1]

end SciDB.Lib
