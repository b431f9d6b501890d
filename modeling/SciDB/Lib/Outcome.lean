import Mathlib

/-!
# Computations that may fail

What holds of the result of a computation if it has one, and of its error if it fails.
-/

namespace SciDB.Lib

universe u

variable {ε : Type*} {α β : Type u} {x : Except ε α} {post post' : α → Prop} {fail fail' : ε → Prop} {a : α} {f : α → Except ε β}

def Outcome (x : Except ε α) (post : α → Prop) (fail : ε → Prop) : Prop :=
  match x with
  | .ok a => post a
  | .error e => fail e

lemma Outcome.ok (h : post a) : Outcome (.ok a) post fail := h

section

variable (h : Outcome x post fail)

include h

lemma Outcome.of_ok (hx : x = .ok a) : post a := by
  subst hx
  exact h

lemma Outcome.of_error {e : ε} (hx : x = .error e) : fail e := by
  subst hx
  exact h

lemma Outcome.imp (hpost : ∀ a, post a → post' a) (hfail : ∀ e, fail e → fail' e) : Outcome x post' fail' := by
  cases x with
  | ok a => exact hpost a h
  | error e => exact hfail e h

lemma Outcome.bind {post' : β → Prop} (hf : ∀ a, post a → Outcome (f a) post' fail) : Outcome (x >>= f) post' fail := by
  cases x with
  | ok a => exact hf a h
  | error e => exact h

end

lemma Outcome.bind_ok {post' : β → Prop} (hx : x = .ok a) (hf : Outcome (f a) post' fail) : Outcome (x >>= f) post' fail := by
  subst hx
  exact hf

variable {b : β}

lemma bind_eq_ok : x.bind f = .ok b ↔ ∃ a, x = .ok a ∧ f a = .ok b := by
  cases x <;> simp [Except.bind]

lemma map_eq_ok {f : α → β} : x.map f = .ok b ↔ ∃ a, x = .ok a ∧ f a = b := by
  cases x <;> simp [Except.map]

end SciDB.Lib
