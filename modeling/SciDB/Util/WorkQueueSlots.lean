import SciDB.Util.WorkQueueEvents

/-!
# Slots and items

Every token holds the slots that are given back when it goes, and is one stage of the way of an item. No event makes
one of them twice (`accounted_of_reaches`).
-/

namespace SciDB.Util

open SciDB.Lib List Multiset

variable {Q : Type}

namespace Token

/-- The slots that a token holds. -/
def slots : Token Q → List (Slot Q)
  | .overflow _ _ fromQueue => fromQueue.toList
  | .job queue item | .op (.pushJob queue item) | .op (.run queue item) => [⟨queue, item.id⟩]
  | .op (.release slot) | .record _ slot => [slot]
  | _ => []

/-- Not spawned yet. -/
def waits : Token Q → List (Slot Q)
  | .waiting queue item | .overflow queue item _ => [⟨queue, item.id⟩]
  | _ => []

/-- Spawned, but not started. -/
def pending : Token Q → List (Slot Q)
  | .job queue item | .op (.pushJob queue item) => [⟨queue, item.id⟩]
  | _ => []

end Token

/-- What tokens have. -/
def collect {β : Type} (f : Token Q → List β) (ts : Multiset (Token Q)) : Multiset β := ts.bind fun t => f t

section Collect

variable {β : Type} (f : Token Q → List β)

@[simp]
lemma collect_zero : collect f 0 = 0 := zero_bind _

@[simp]
lemma collect_add (ts us : Multiset (Token Q)) : collect f (ts + us) = collect f ts + collect f us :=
  add_bind ts us _

@[simp]
lemma collect_singleton (t : Token Q) : collect f {t} = f t := singleton_bind t _

@[simp]
lemma collect_cons (t : Token Q) (ts : Multiset (Token Q)) : collect f (t ::ₘ ts) = f t + collect f ts :=
  cons_bind t ts _

@[simp]
lemma collect_coe (ts : List (Token Q)) : collect f ts = (ts.flatMap f : List β) := coe_bind ts f

lemma mem_collect {ts : Multiset (Token Q)} {b : β} : b ∈ collect f ts ↔ ∃ t ∈ ts, b ∈ f t := by
  simp [collect, mem_bind]

end Collect

@[simp]
lemma flatMap_none {α β : Type} (l : List α) : (l.flatMap fun _ => ([] : List β)) = [] :=
  flatMap_eq_nil_iff.mpr fun _ _ => rfl

@[simp]
lemma flatMap_toList {α β : Type} (l : List (α × Option β)) :
    (l.flatMap fun entry => entry.2.toList) = (l.map Prod.snd).filterMap id := by
  induction l with
  | nil => rfl
  | cons entry l ih =>
    rw [List.flatMap_cons, ih, List.map_cons]
    rcases entry.2 with _ | b <;> rfl

namespace Event

lemma slots_balance (e : Event Q) : collect Token.slots e.removed + e.spawned = collect Token.slots e.added + e.givenBack := by
  cases e with
  | enqueue queue item keep => cases keep <;> simp [removed, added, spawned, givenBack, Token.slots]
  | _ => simp [removed, added, spawned, givenBack, Token.slots, opTokens, flatMap_map, ← map_eq_flatMap]

lemma waits_balance (e : Event Q) : collect Token.waits e.removed + e.accepted = collect Token.waits e.added + e.spawned := by
  cases e with
  | enqueue queue item keep => cases keep <;> simp [removed, added, spawned, accepted, Token.waits]
  | _ => simp [removed, added, spawned, accepted, Token.waits, opTokens, flatMap_map, ← map_eq_flatMap]

lemma pending_balance (e : Event Q) :
    collect Token.pending e.removed + e.spawned = collect Token.pending e.added + e.started := by
  cases e with
  | enqueue queue item keep => cases keep <;> simp [removed, added, spawned, started, Token.pending]
  | _ => simp [removed, added, spawned, started, Token.pending, opTokens, flatMap_map, ← map_eq_flatMap]

end Event

namespace WorkQueues

variable [Fintype Q]

lemma tokens_init (isStarted : Bool) : (init isStarted : WorkQueues Q).tokens = 0 := by
  simp [tokens, init, WorkQueue.tokens]

variable [DecidableEq Q]

structure Accounted (lim : Limits Q) (s : WorkQueues Q) : Prop where
  slots : collect Token.slots s.tokens + s.givenBack = s.spawned
  waits : collect Token.waits s.tokens + s.spawned = s.accepted
  pending : collect Token.pending s.tokens + s.started = s.spawned
  nodup : s.accepted.Nodup
  fresh : ∀ slot ∈ s.accepted, slot.item < s.nextItem
  outstanding : ∀ q, (s.queues q).outstanding + s.givenBack.countP (·.queue = q) = s.spawned.countP (·.queue = q)
  bound : ∀ q, (s.queues q).outstanding ≤ lim.maxOutstanding q

variable {lim : Limits Q} {s s' : WorkQueues Q} {e : Event Q}

lemma accounted_init (isStarted : Bool) : (init isStarted : WorkQueues Q).Accounted lim := by
  refine ⟨?_, ?_, ?_, nodup_nil, nofun, fun _ => rfl, fun q => Int.natCast_nonneg _⟩ <;> rw [tokens_init] <;> rfl

lemma collect_step {β : Type} (f : Token Q → List β) (h : e.Happens lim s s') :
    collect f s'.tokens + collect f e.removed = collect f s.tokens + collect f e.added := by
  rw [← collect_add, ← collect_add, h.tokens]

lemma accepted_cases (h : e.Happens lim s s') : e.accepted = [] ∨ ∃ q, e.accepted = [⟨q, s.nextItem⟩] := by
  have hpossible := h.possible
  cases e with
  | enqueue queue item keep =>
    rw [show item = _ from hpossible]
    exact .inr ⟨queue, rfl⟩
  | share queue item => exact .inr ⟨queue, by rw [Event.accepted, hpossible.1]⟩
  | fork queue work toQueue item | again queue work item | pushBack queue work item
  | pushBackSerialized queue work item =>
    rw [hpossible.2]
    exact .inr ⟨_, rfl⟩
  | overflow queue work toQueue item | moveOn queue work toQueue item | moveOnFull queue work toQueue item =>
    rw [hpossible.2.1]
    exact .inr ⟨_, rfl⟩
  | _ => exact .inl rfl

lemma bound_step (h : e.Happens lim s s') (hbound : ∀ q, (s.queues q).outstanding ≤ lim.maxOutstanding q) (q : Q) :
    (s'.queues q).outstanding ≤ lim.maxOutstanding q := by
  have houtstanding := h.outstanding q
  have hpossible := h.possible
  cases e with
  | spawn queue moved found =>
    rw [Event.spawned, countP_queue] at houtstanding
    have hroom := hpossible (hbound queue)
    have hq := hbound q
    split_ifs at houtstanding with heq
    · rw [heq] at houtstanding ⊢
      simp only [Event.givenBack, countP_nil] at houtstanding
      omega
    · simp only [Event.givenBack, countP_nil] at houtstanding
      omega
  | _ =>
    have hq := hbound q
    simp only [Event.spawned, countP_nil] at houtstanding
    omega

lemma collect_balance {β : Type} {f : Token Q → List β} {new old : List β} (he : e.Happens lim s s')
    (hbalance : collect f e.removed + new = collect f e.added + old) : collect f s'.tokens + old = collect f s.tokens + new := by
  apply add_right_cancel (b := collect f e.removed)
  calc collect f s'.tokens + old + collect f e.removed = collect f s'.tokens + collect f e.removed + old := by abel
    _ = collect f s.tokens + (collect f e.added + old) := by rw [collect_step f he]; abel
    _ = collect f s.tokens + new + collect f e.removed := by rw [← hbalance]; abel

lemma balance_step {f : Token Q → List (Slot Q)} {first last first' last' : List (Slot Q)} (he : e.Happens lim s s')
    (hbalance : collect f e.removed + first' = collect f e.added + last') (h : collect f s.tokens + last = first) :
    collect f s'.tokens + (last ++ last' : List (Slot Q)) = (first ++ first' : List (Slot Q)) := by
  rw [← coe_add, ← coe_add, ← h, add_left_comm, collect_balance he hbalance]
  abel

lemma Accounted.step (h : s.Accounted lim) (he : e.Happens lim s s') : s'.Accounted lim := by
  refine ⟨?_, ?_, ?_, ?_, ?_, ?_, bound_step he h.bound⟩
  · rw [he.givenBack, he.spawned]
    exact balance_step he e.slots_balance h.slots
  · rw [he.accepted, he.spawned]
    exact balance_step he e.waits_balance h.waits
  · rw [he.started, he.spawned]
    exact balance_step he e.pending_balance h.pending
  · rw [he.accepted]
    rcases accepted_cases he with hnone | ⟨q, hone⟩
    · rw [hnone, append_nil]
      exact h.nodup
    · rw [hone]
      refine h.nodup.append (List.nodup_singleton _) fun slot hslot hnew => ?_
      have hlt := h.fresh slot hslot
      rw [List.mem_singleton.mp hnew] at hlt
      exact absurd hlt (lt_irrefl _)
  · rw [he.accepted, he.nextItem]
    intro slot hslot
    rcases accepted_cases he with hnone | ⟨q, hone⟩
    · rw [hnone, append_nil] at hslot
      exact Nat.lt_add_right _ (h.fresh slot hslot)
    · rw [hone] at hslot ⊢
      rcases mem_append.mp hslot with hslot | hslot
      · exact Nat.lt_add_right _ (h.fresh slot hslot)
      · rw [List.mem_singleton.mp hslot]
        exact Nat.lt_succ_self _
  · intro q
    have houtstanding := he.outstanding q
    have hold := h.outstanding q
    rw [he.givenBack, he.spawned, countP_append, countP_append]
    push_cast
    omega

lemma accounted_of_reaches {ok : WorkQueues Q → Action Q → Prop} {isStarted : Bool}
    (h : Reaches (step lim) ok (init isStarted) s) : s.Accounted lim := by
  refine h.invariant (accounted_init isStarted) fun s s' a hs _ hstep => ?_
  obtain ⟨e, he, _⟩ := step_happens hstep
  exact hs.step he

end WorkQueues

end SciDB.Util
