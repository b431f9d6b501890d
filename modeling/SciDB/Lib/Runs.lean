import Mathlib

/-!
# Runs of a state machine

A machine is a function `step`, `none` if an action cannot happen. What every admitted action keeps holds in all states that
are reached. Two objects whose calls give answers answer alike if some relation of their states is kept by every call.
-/

namespace SciDB.Lib

open List Option

universe u v

variable {σ : Type u} {α : Type v}

/-- The states that runs from `start` come to, when every action is admitted by `ok`. -/
inductive Reaches (step : σ → α → Option σ) (ok : σ → α → Prop) (start : σ) : σ → Prop where
  | start : Reaches step ok start start
  | step {s s' : σ} {a : α} : Reaches step ok start s → ok s a → step s a = some s' → Reaches step ok start s'

/-- Take actions, in order. -/
def runActions (step : σ → α → Option σ) : σ → List α → Option σ
  | s, [] => some s
  | s, a :: as => (step s a).bind fun s' => runActions step s' as

namespace Reaches

variable {step : σ → α → Option σ} {ok : σ → α → Prop} {start s s' : σ}

/-- **What every admitted action keeps holds in every state that is reached.** -/
lemma invariant {I : σ → Prop} (h : Reaches step ok start s) (hstart : I start)
    (hstep : ∀ s s' a, I s → ok s a → step s a = some s' → I s') : I s := by
  induction h with
  | start => exact hstart
  | step _ hok hs ih => exact hstep _ _ _ ih hok hs

lemma run {as : List α} (h : Reaches step ok start s) (hok : ∀ a ∈ as, ∀ s, ok s a)
    (hrun : runActions step s as = some s') : Reaches step ok start s' := by
  induction as generalizing s with
  | nil =>
    cases hrun
    exact h
  | cons a as ih =>
    obtain ⟨s1, hs1, hrun⟩ := bind_eq_some_iff.mp hrun
    exact ih (h.step (hok a mem_cons_self s) hs1) (fun b hb => hok b (mem_cons_of_mem a hb)) hrun

end Reaches

variable {as : List α} {s : σ} {call : σ → α → Option (β × σ)} {call' : τ → α → Option (β × τ)}
  {R : σ → τ → Prop} {t : τ} {ok : σ → α → Prop}

lemma length_le_of_ranked {step : σ → α → Option σ} {R : Nat → σ → Prop} {n : Nat} {s' : σ}
    (hstep : ∀ n s s', ∀ a ∈ as, R n s → step s a = some s' → ∃ m < n, R m s') (h : R n s)
    (hrun : runActions step s as = some s') : as.length ≤ n := by
  induction as generalizing n s with
  | nil => exact Nat.zero_le _
  | cons a as ih =>
    obtain ⟨s1, hs1, hrun⟩ := bind_eq_some_iff.mp hrun
    obtain ⟨m, hm, h1⟩ := hstep n s s1 a mem_cons_self h hs1
    have hrest := ih (fun n s s' b hb => hstep n s s' b (mem_cons_of_mem a hb)) h1 hrun
    rw [length_cons]
    omega

universe w x

variable {β : Type w} {τ : Type x}

/-- The answers to calls. -/
def answers (call : σ → α → Option (β × σ)) : σ → List α → Option (List β)
  | _, [] => some []
  | s, a :: as => (call s a).bind fun r => (answers call r.2 as).map (r.1 :: ·)

/-- Both throw, or they agree. -/
inductive Agree (R : σ → τ → Prop) : Option (β × σ) → Option (β × τ) → Prop where
  | throws : Agree R none none
  | answer {s : σ} {t : τ} (b : β) : R s t → Agree R (some (b, s)) (some (b, t))

/-- **Simulation.** If every call agrees, the answers are the same. -/
lemma answers_eq_of_agree (hcall : ∀ s t a, R s t → Agree R (call s a) (call' t a)) (hR : R s t) (as : List α) :
    answers call s as = answers call' t as := by
  induction as generalizing s t with
  | nil => rfl
  | cons a as ih =>
    rw [answers, answers]
    generalize hr : call s a = r
    generalize hr' : call' t a = r'
    have hagree : Agree R r r' := hr ▸ hr' ▸ hcall s t a hR
    cases hagree with
    | throws => rfl
    | answer b hst => rw [bind_some, bind_some, ih hst]

/-- All calls are admitted. -/
def Admits (call : σ → α → Option (β × σ)) (ok : σ → α → Prop) : σ → List α → Prop
  | _, [] => True
  | s, a :: as => ok s a ∧ ∀ r, call s a = some r → Admits call ok r.2 as

lemma admits_of_forall (h : ∀ s a, ok s a) (s : σ) (as : List α) : Admits call ok s as := by
  induction as generalizing s with
  | nil => trivial
  | cons a as ih => exact ⟨h s a, fun r _ => ih r.2⟩

lemma answers_eq_of_admits (hcall : ∀ s t a, R s t → ok s a → Agree R (call s a) (call' t a)) (hR : R s t)
    (has : Admits call ok s as) : answers call s as = answers call' t as := by
  induction as generalizing s t with
  | nil => rfl
  | cons a as ih =>
    obtain ⟨hok, hrest⟩ := has
    rw [answers, answers]
    have hagree := hcall s t a hR hok
    generalize call s a = r at hagree hrest
    generalize call' t a = r' at hagree
    cases hagree with
    | throws => rfl
    | answer b hst => rw [bind_some, bind_some, ih hst (hrest _ rfl)]

end SciDB.Lib
