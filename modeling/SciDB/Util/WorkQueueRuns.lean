import SciDB.Util.WorkQueueBalance

/-!
# Every item is executed once

An item may wait for a slot that is held for one that waits itself. If items only move forward in some order of the queues, all
have been executed when all is at rest.
-/

namespace SciDB.Util

open SciDB.Lib List Function Option Finset Multiset

variable {Q : Type} {sCtx : ℕ} {rank : Q → ℕ}

namespace Token

/-- The contexts of a token. -/
def refs (t : Token Q) : List ℕ := t.sCtx.toList

/-- The items of a token. -/
def items : Token Q → List (Q × WorkItem Q)
  | .waiting queue item | .overflow queue item _ | .job queue item | .op (.pushJob queue item)
  | .op (.run queue item) => [(queue, item)]
  | _ => []

end Token

namespace Event

def newRefs : Event Q → List ℕ
  | .leave sCtx => [sCtx]
  | .enqueue _ item keep => item.sCtx :: if keep then [item.sCtx] else []
  | .share _ item | .again _ _ item | .pushBackSerialized _ _ item | .moveOn _ _ _ item
  | .moveOnFull _ _ _ item => [item.sCtx]
  | .fork _ _ _ item | .pushBack _ _ item | .overflow _ _ _ item => [item.sCtx, item.sCtx]
  | _ => []

/-- The reference that goes. -/
def oldRefs : Event Q → List ℕ
  | .drop sCtx | .destroy sCtx _ => [sCtx]
  | _ => []

/-- The new item. -/
def newItems : Event Q → List (Q × WorkItem Q)
  | .enqueue queue item _ | .share queue item | .fork _ _ queue item | .again queue _ item | .pushBack queue _ item
  | .pushBackSerialized queue _ item | .overflow _ _ queue item | .moveOn _ _ queue item
  | .moveOnFull _ _ queue item => [(queue, item)]
  | _ => []

/-- The item whose code ends. -/
def oldItems : Event Q → List (Q × WorkItem Q)
  | .finish queue work | .pushBack queue work _ | .pushBackSerialized queue work _ | .overflow queue work _ _
  | .moveOn queue work _ _ | .moveOnFull queue work _ _ => [(queue, work)]
  | _ => []

open Token

lemma refs_balance (e : Event Q) : collect Token.refs e.removed + e.newRefs = collect Token.refs e.added + e.oldRefs := by
  cases e with
  | enqueue queue item keep =>
    cases keep <;> simp [removed, added, newRefs, oldRefs, refs, sCtx, QueueOp.sCtx, ← cons_coe]
  | pushBack | pushBackSerialized | overflow | moveOn | moveOnFull =>
    simp only [removed, added, newRefs, oldRefs, collect_add, collect_singleton, opTokens_cons, opTokens_nil,
      refs, sCtx, QueueOp.sCtx, Option.toList, ← cons_coe, ← singleton_add, coe_nil,
      add_zero]
    abel
  | _ =>
    simp [removed, added, newRefs, oldRefs, refs, sCtx, QueueOp.sCtx, opTokens, flatMap_map, ← map_eq_flatMap, ← cons_coe]

lemma items_balance (e : Event Q) : collect Token.items e.removed + e.newItems = collect Token.items e.added + e.oldItems := by
  cases e with
  | enqueue queue item keep => cases keep <;> simp [removed, added, newItems, oldItems, items]
  | pushBack | pushBackSerialized | overflow | moveOn | moveOnFull =>
    simp only [removed, added, newItems, oldItems, collect_add, collect_singleton, opTokens_cons,
      opTokens_nil, items, Multiset.coe_singleton, coe_nil, add_zero]
    abel
  | _ => simp [removed, added, newItems, oldItems, items, opTokens, flatMap_map, ← map_eq_flatMap]

end Event

namespace WorkQueues

variable [Fintype Q] [DecidableEq Q] {lim : Limits Q} {s s' : WorkQueues Q} {e : Event Q} {t : Token Q}

section

variable (h : e.Happens lim s s')

include h

lemma mem_after (ht : t ∈ s'.tokens) : t ∈ s.tokens ∨ t ∈ e.added := by
  have hmem : t ∈ s'.tokens + e.removed := mem_add.mpr (.inl ht)
  rw [h.tokens] at hmem
  exact mem_add.mp hmem

/-- What holds of contexts. -/
structure ContextsOk (s : WorkQueues Q) : Prop where
  referred : ∀ sCtx slot, .record sCtx slot ∈ s.tokens → sCtx ∈ collect Token.refs s.tokens
  fresh : ∀ sCtx ∈ collect Token.refs s.tokens, sCtx < s.nextItem

lemma refs_step (sCtx : ℕ) :
    sCtx ∈ collect Token.refs s'.tokens ∨ sCtx ∈ e.oldRefs ↔ sCtx ∈ collect Token.refs s.tokens ∨ sCtx ∈ e.newRefs := by
  have hbalance := collect_balance h e.refs_balance
  rw [← mem_coe (l := e.oldRefs), ← mem_coe (l := e.newRefs), ← mem_add, ← mem_add, hbalance]

lemma newRefs_cases (hnew : sCtx ∈ e.newRefs) :
    sCtx ∈ collect Token.refs s.tokens ∨ sCtx = s.nextItem ∧ s'.nextItem = s.nextItem + 1 := by
  have hnext := h.nextItem
  have hpossible := h.possible
  have hrefers : (∃ t ∈ s.tokens, t.sCtx = some sCtx) → sCtx ∈ collect Token.refs s.tokens := by
    rintro ⟨t, ht, hsCtx⟩
    exact (mem_collect _).mpr ⟨t, ht, by rw [Token.refs, hsCtx]; exact List.mem_singleton_self sCtx⟩
  cases e with
  | leave c =>
    rw [List.mem_singleton.mp hnew] at hrefers ⊢
    exact .inl (hrefers hpossible)
  | share queue item =>
    rw [List.mem_singleton.mp hnew] at hrefers ⊢
    exact .inl (hrefers hpossible.2.2)
  | enqueue queue item keep =>
    refine .inr ⟨?_, hnext⟩
    rw [show item = _ from hpossible] at hnew
    cases keep <;> simpa [Event.newRefs] using hnew
  | fork queue work toQueue item | pushBack queue work item =>
    refine .inr ⟨?_, hnext⟩
    rw [hpossible.2] at hnew
    simpa [Event.newRefs, successor] using hnew
  | overflow queue work toQueue item =>
    refine .inr ⟨?_, hnext⟩
    rw [hpossible.2.1] at hnew
    simpa [Event.newRefs, successor] using hnew
  | again queue work item | pushBackSerialized queue work item =>
    rw [List.mem_singleton.mp hnew, hpossible.2] at hrefers ⊢
    exact .inl (hrefers ⟨_, hpossible.1, rfl⟩)
  | moveOn queue work toQueue item | moveOnFull queue work toQueue item =>
    rw [List.mem_singleton.mp hnew, hpossible.2.1] at hrefers ⊢
    exact .inl (hrefers ⟨_, hpossible.1, rfl⟩)
  | _ => exact absurd hnew not_mem_nil

lemma record_cases {slot : Slot Q} (hrecord : .record sCtx slot ∈ s'.tokens) :
    .record sCtx slot ∈ s.tokens ∨ ∃ queue work toQueue item, sCtx = work.sCtx ∧ slot = ⟨queue, work.id⟩ ∧
      (e = .moveOn queue work toQueue item ∨ e = .moveOnFull queue work toQueue item) := by
  refine (mem_after h hrecord).imp_right fun hadded => ?_
  cases e with
  | moveOn queue work toQueue item =>
    have hslot : sCtx = work.sCtx ∧ slot = ⟨queue, work.id⟩ := by simpa [Event.added] using hadded
    exact ⟨queue, work, toQueue, item, hslot.1, hslot.2, .inl rfl⟩
  | moveOnFull queue work toQueue item =>
    have hslot : sCtx = work.sCtx ∧ slot = ⟨queue, work.id⟩ := by simpa [Event.added] using hadded
    exact ⟨queue, work, toQueue, item, hslot.1, hslot.2, .inr rfl⟩
  | enqueue queue item keep => cases keep <;> simp [Event.added] at hadded
  | spawn | destroy => simp [Event.added, opTokens] at hadded
  | _ => simp [Event.added] at hadded

end

lemma ContextsOk.step (h : s.ContextsOk) (he : e.Happens lim s s') : s'.ContextsOk := by
  refine ⟨fun sCtx slot hrecord => ?_, fun sCtx hsCtx => ?_⟩
  · rcases record_cases he hrecord with hold | ⟨queue, work, toQueue, item, rfl, _, he' | he'⟩
    · have hrefs := (refs_step he sCtx).mpr (.inl (h.referred sCtx slot hold))
      refine hrefs.elim id fun hdropped => ?_
      have hpossible := he.possible
      -- The reference that is dropped is not the last one, as the entry is still there.
      cases e with
      | drop c =>
        rw [List.mem_singleton.mp hdropped]
        obtain ⟨t, ht, hsCtx⟩ := hpossible
        exact (mem_collect _).mpr ⟨t, ht, by rw [Token.refs, hsCtx]; exact List.mem_singleton_self c⟩
      | destroy c slots =>
        rw [List.mem_singleton.mp hdropped] at hrecord
        exact absurd rfl ((hpossible _ hrecord).2 slot)
      | _ => exact absurd hdropped not_mem_nil
    all_goals
      obtain rfl := he'
      have hrefs := (refs_step he work.sCtx).mpr (.inr (by rw [he.possible.2.1]; exact List.mem_singleton_self _))
      exact hrefs.resolve_right not_mem_nil
  · have hle : s.nextItem ≤ s'.nextItem := by
      rw [he.nextItem]
      exact Nat.le_add_right _ _
    rcases (refs_step he sCtx).mp (.inl hsCtx) with hold | hnew
    · exact (h.fresh sCtx hold).trans_le hle
    · rcases newRefs_cases he hnew with hold | ⟨rfl, hnext⟩
      · exact (h.fresh sCtx hold).trans_le hle
      · omega

/-- All items. -/
def items (s : WorkQueues Q) : Multiset (Q × WorkItem Q) := collect Token.items s.tokens

/-- Items move to queues of a higher rank or the same queue. -/
def Forward (rank : Q → ℕ) (s : WorkQueues Q) (a : Action Q) : Prop :=
  match a.made s with
  | some (.running queue _, .reEnqueue toQueue) => toQueue = queue ∨ rank queue < rank toQueue
  | some (.running queue work, .reEnqueueSerialized toQueue) =>
    toQueue = queue ∨ rank queue < rank toQueue ∧
      ∀ other ∈ s.items.erase (queue, work), other.2.sCtx = work.sCtx → rank queue < rank other.1
  | some (caller, .enqueueReserved toQueue true) =>
    ∀ r ∈ s.queuesToRelease, caller.sCtx = some r.1 → rank r.2.queue < rank toQueue
  | _ => True

/-- Slots are in lower queues. -/
structure Ranked (rank : Q → ℕ) (s : WorkQueues Q) : Prop where
  overflow : ∀ queue item slot, .overflow queue item (some slot) ∈ s.tokens → rank slot.queue < rank queue
  record : ∀ sCtx slot, .record sCtx slot ∈ s.tokens → ∀ i ∈ s.items, i.2.sCtx = sCtx → rank slot.queue < rank i.1

lemma items_step (h : e.Happens lim s s') : s'.items + e.oldItems = s.items + e.newItems :=
  collect_balance h e.items_balance

omit [DecidableEq Q] in
lemma run_mem_items {queue : Q} {work : WorkItem Q} (h : .op (.run queue work) ∈ s.tokens) : (queue, work) ∈ s.items :=
  (mem_collect _).mpr ⟨_, h, List.mem_singleton_self _⟩

lemma items_moved (h : e.Happens lim s s') {queue toQueue : Q} {work item : WorkItem Q}
    (hwork : .op (.run queue work) ∈ s.tokens) (hold : e.oldItems = [(queue, work)])
    (hnew : e.newItems = [(toQueue, item)]) : s'.items = s.items.erase (queue, work) + {(toQueue, item)} := by
  have hstep := items_step h
  rw [hold, hnew, ← cons_erase (run_mem_items hwork)] at hstep
  apply add_right_cancel (b := {(queue, work)})
  rw [show s'.items + {(queue, work)} = _ from hstep, ← singleton_add]
  exact (add_assoc _ _ _).trans (add_comm _ _)

lemma overflow_cases (h : e.Happens lim s s') {queue : Q} {item : WorkItem Q} {slot : Slot Q}
    (hmem : .overflow queue item (some slot) ∈ s'.tokens) :
    .overflow queue item (some slot) ∈ s.tokens ∨ ∃ work, e = .overflow slot.queue work queue item := by
  refine (mem_after h hmem).imp_right fun hadded => ?_
  cases e with
  | overflow fromQueue work toQueue item' =>
    have heq : queue = toQueue ∧ item = item' ∧ slot = ⟨fromQueue, work.id⟩ := by simpa [Event.added] using hadded
    obtain ⟨rfl, rfl, rfl⟩ := heq
    exact ⟨work, rfl⟩
  | enqueue queue item keep => cases keep <;> simp [Event.added] at hadded
  | spawn | destroy => simp [Event.added, opTokens] at hadded
  | _ => simp [Event.added] at hadded

lemma newItems_cases {made : Option (Caller Q × Call Q)} (h : e.Happens lim s s') (hcause : e.CausedBy lim s made)
    {i : Q × WorkItem Q} (hnew : i ∈ e.newItems) : i.2.sCtx = s.nextItem ∨
      (∃ caller, made = some (caller, .enqueueReserved i.1 true) ∧ caller.sCtx = some i.2.sCtx) ∨
      ∃ queue work, made = some (.running queue work, .reEnqueueSerialized i.1) ∧
        .op (.run queue work) ∈ s.tokens ∧ i.2.sCtx = work.sCtx := by
  have hpossible := h.possible
  cases e with
  | enqueue queue item keep =>
    rw [List.mem_singleton.mp hnew, show item = _ from hpossible]
    exact .inl rfl
  | share queue item =>
    rw [List.mem_singleton.mp hnew]
    exact .inr (.inl hcause)
  | fork queue work toQueue item | pushBack queue work item =>
    rw [List.mem_singleton.mp hnew, hpossible.2]
    exact .inl rfl
  | overflow queue work toQueue item =>
    rw [List.mem_singleton.mp hnew, hpossible.2.1]
    exact .inl rfl
  | again queue work item =>
    rw [List.mem_singleton.mp hnew, hpossible.2]
    exact .inr (.inr ⟨queue, work, hcause, hpossible.1, rfl⟩)
  | pushBackSerialized queue work item =>
    rw [List.mem_singleton.mp hnew, hpossible.2]
    exact .inr (.inr ⟨queue, work, hcause.1, hpossible.1, rfl⟩)
  | moveOn queue work toQueue item | moveOnFull queue work toQueue item =>
    rw [List.mem_singleton.mp hnew, hpossible.2.1]
    exact .inr (.inr ⟨queue, work, hcause, hpossible.1, rfl⟩)
  | _ => exact absurd hnew not_mem_nil

lemma Ranked.step {a : Action Q} (h : s.Ranked rank) (hctx : s.ContextsOk) (he : e.Happens lim s s')
    (hcause : e.CausedBy lim s (a.made s)) (hok : Forward rank s a) : s'.Ranked rank := by
  refine ⟨fun queue item slot hmem => ?_, fun sCtx slot hmem i hi hsCtx => ?_⟩
  · rcases overflow_cases he hmem with hold | ⟨work, rfl⟩
    · exact h.overflow queue item slot hold
    · rw [Forward, show a.made s = _ from hcause] at hok
      exact hok.resolve_left he.possible.2.2
  · rcases record_cases he hmem with hold | ⟨queue, work, toQueue, item, rfl, rfl, he'⟩
    · have hi' : i ∈ s.items ∨ i ∈ e.newItems := by
        rw [← mem_coe (l := e.newItems), ← mem_add, ← items_step he]
        exact mem_add.mpr (.inl hi)
      rcases hi' with hi | hnew
      · exact h.record sCtx slot hold i hi hsCtx
      · subst hsCtx
        rcases newItems_cases he hcause hnew with hfresh | ⟨caller, hmade, hcaller⟩ | ⟨queue, work, hmade, hrun, hwork⟩
        · have hlt := hctx.fresh _ (hctx.referred _ slot hold)
          omega
        · have hok' : ∀ r ∈ s.queuesToRelease, caller.sCtx = some r.1 → rank r.2.queue < rank i.1 := by
            rw [Forward, hmade] at hok
            cases caller <;> exact hok
          exact hok' _ (mem_tokens_record.mp hold) hcaller
        · have hlt := h.record _ slot hold _ (run_mem_items hrun) hwork.symm
          rw [Forward, hmade] at hok
          rcases hok with heq | ⟨hrank, _⟩
          · rwa [heq]
          · exact hlt.trans hrank
    · -- The slot of an item that moves on is held for all items with its context, which are in queues that come behind.
      have hrun : .op (.run queue work) ∈ s.tokens ∧ toQueue ≠ queue ∧
          a.made s = some (.running queue work, .reEnqueueSerialized toQueue) ∧
          s'.items = s.items.erase (queue, work) + {(toQueue, item)} := by
        rcases he' with rfl | rfl
        · exact ⟨he.possible.1, he.possible.2.2, hcause, items_moved he he.possible.1 rfl rfl⟩
        · exact ⟨he.possible.1, he.possible.2.2, hcause, items_moved he he.possible.1 rfl rfl⟩
      obtain ⟨_, hne, hmade, hitems⟩ := hrun
      rw [Forward, hmade] at hok
      obtain ⟨hrank, hothers⟩ := hok.resolve_left hne
      rw [hitems] at hi
      rcases mem_add.mp hi with hother | hnew
      · exact hothers i hother hsCtx
      · rwa [Multiset.mem_singleton.mp hnew]

end WorkQueues

/-- A bound on the number of steps that a token can lead to, if no call is made. -/
def Token.weight : Token Q → ℕ
  | .overflow _ _ _ => 10
  | .waiting _ _ => 7
  | .op (.pushJob _ _) => 6
  | .job _ _ => 5
  | .op (.run _ _) => 4
  | .record _ _ => 3
  | .op (.release _) | .op (.hold _) => 2
  | .op (.spawn _) | .op (.drop _) => 1

namespace WorkQueues

/-- Steps without calls. -/
def Action.isFree : Action Q → Bool
  | .exec _ | .start _ => true
  | _ => false

/-- A bound on the steps. -/
def weight [Fintype Q] (s : WorkQueues Q) : ℕ := (s.tokens.map Token.weight).sum

lemma weight_added_lt {lim : Limits Q} {s : WorkQueues Q} {e : Event Q} (hcause : e.CausedBy lim s none) :
    (e.added.map Token.weight).sum < (e.removed.map Token.weight).sum := by
  cases e with
  | spawn queue moved found =>
    have hle := length_filterMap_le id (moved.map Prod.snd)
    simp [Event.added, Event.removed, opTokens, Token.weight, comp_def] at hle ⊢
    omega
  | destroy sCtx slots =>
    simp [Event.added, Event.removed, opTokens, Token.weight, comp_def]
    omega
  | release | pushJob | finish | unhold | drop | start => simp [Event.added, Event.removed, Token.weight]
  | share =>
    obtain ⟨caller, hmade, _⟩ := hcause
    cases hmade
  | pushBack | pushBackSerialized => cases hcause.1
  | _ => cases hcause

variable [Fintype Q] [DecidableEq Q] {lim : Limits Q} {s s' : WorkQueues Q} {e : Event Q}

lemma weight_lt_of_step {a : Action Q} (ha : a.isFree = true) (h : step lim s a = some s') : s'.weight < s.weight := by
  obtain ⟨e, he, hcause⟩ := step_happens h
  have hmade : a.made s = none := by
    cases a with
    | exec | start => rfl
    | _ => exact nomatch ha
  rw [hmade] at hcause
  have hlt := weight_added_lt hcause
  have htokens := congrArg (fun ts : Multiset (Token Q) => (ts.map Token.weight).sum) he.tokens
  simp only [map_add, sum_add] at htokens
  rw [weight, weight]
  omega

/-- Nothing is to be done. -/
structure AtRest (lim : Limits Q) (s : WorkQueues Q) : Prop where
  stuck : ∀ a : Action Q, a.isFree = true → step lim s a = none
  isStarted : ∀ q, (s.queues q).isStarted = true
  reserved : ∀ q, (s.queues q).reserved = 0

section

variable (h : s.AtRest lim)

include h

lemma AtRest.threads : ∀ ops ∈ s.threads, ops = [] := by
  intro ops hops
  obtain ⟨i, hi⟩ := mem_iff_getElem?.mp hops
  have hstuck := h.stuck (.exec i) rfl
  rw [step, hi] at hstuck
  cases ops with
  | nil => rfl
  | cons o ops => cases hstuck

lemma AtRest.jobs : s.jobs = [] := by
  have hstuck := h.stuck (.start 0) rfl
  rw [step, map_eq_none_iff, getElem?_eq_none_iff] at hstuck
  exact length_eq_zero_iff.mp (Nat.le_zero.mp hstuck)

lemma AtRest.token_cases {t : Token Q} (ht : t ∈ s.tokens) : (∃ q, ∃ item ∈ (s.queues q).workQueue, t = .waiting q item) ∨
      (∃ q, ∃ entry ∈ (s.queues q).overflowQueue, t = .overflow q entry.1 entry.2) ∨ ∃ sCtx slot, t = .record sCtx slot := by
  have hops : s.threads.flatten = [] := flatten_eq_nil_iff.mpr h.threads
  rw [tokens, h.jobs, hops] at ht
  simp only [Multiset.mem_add, mem_sum, WorkQueue.tokens, Multiset.mem_coe, List.mem_map, opTokens_nil,
    notMem_zero, map_nil, not_mem_nil, or_false, mem_univ, true_and] at ht
  rcases ht with ⟨q, ⟨item, hitem, rfl⟩ | ⟨entry, hentry, rfl⟩⟩ | ⟨r, _, rfl⟩
  · exact .inl ⟨q, item, hitem, rfl⟩
  · exact .inr (.inl ⟨q, entry, hentry, rfl⟩)
  · exact .inr (.inr ⟨r.1, r.2, rfl⟩)

lemma AtRest.not_spawnDue (q : Q) : ¬ s.SpawnDue q := by
  rintro ⟨ops, hops, hspawn⟩
  rw [h.threads ops hops] at hspawn
  exact not_mem_nil hspawn

lemma AtRest.waits (href : sCtx ∈ collect Token.refs s.tokens) :
    ∃ i ∈ s.items, i.2.sCtx = sCtx ∧ ((s.queues i.1).workQueue ≠ [] ∨ (s.queues i.1).overflowQueue ≠ []) := by
  obtain ⟨t, ht, hsCtx⟩ := (mem_collect _).mp href
  rcases h.token_cases ht with ⟨q, item, hitem, rfl⟩ | ⟨q, entry, hentry, rfl⟩ | ⟨c, slot, rfl⟩
  · refine ⟨(q, item), (mem_collect _).mpr ⟨_, ht, List.mem_singleton_self _⟩, ?_, .inl (ne_nil_of_mem hitem)⟩
    exact (List.mem_singleton.mp hsCtx).symm
  · refine ⟨(q, entry.1), (mem_collect _).mpr ⟨_, ht, List.mem_singleton_self _⟩, ?_, .inr (ne_nil_of_mem hentry)⟩
    exact (List.mem_singleton.mp hsCtx).symm
  · exact absurd hsCtx not_mem_nil

end

lemma Accounted.outstanding_eq_countP (h : s.Accounted lim) (q : Q) :
    (s.queues q).outstanding = (collect Token.slots s.tokens).countP (·.queue = q) := by
  have hslots := congrArg (Multiset.countP (·.queue = q)) h.slots
  rw [countP_add, coe_countP, coe_countP] at hslots
  have houtstanding := h.outstanding q
  omega

/-- **Nothing waits at rest**: take a queue of the highest rank. -/
lemma AtRest.queues_empty (h : s.AtRest lim) (hlim : ∀ q, 0 < lim.maxOutstanding q ∧ 0 < lim.maxSize q)
    (haccounted : s.Accounted lim) (hbalanced : s.AllBalanced lim) (hctx : s.ContextsOk) (hranked : s.Ranked rank) (q : Q) :
    (s.queues q).workQueue = [] ∧ (s.queues q).overflowQueue = [] := by
  by_contra hq
  let waiting := univ.filter fun q => (s.queues q).workQueue ≠ [] ∨ (s.queues q).overflowQueue ≠ []
  obtain ⟨top, htop, hmax⟩ : ∃ top ∈ waiting, ∀ q ∈ waiting, rank q ≤ rank top :=
    waiting.exists_max_image rank ⟨q, by simp only [waiting, Finset.mem_filter, mem_univ, true_and]; tauto⟩
  have hbehind : ∀ q, (s.queues q).workQueue ≠ [] ∨ (s.queues q).overflowQueue ≠ [] → ¬ rank top < rank q :=
    fun q hq => not_lt.mpr (hmax q (Finset.mem_filter.mpr ⟨mem_univ q, hq⟩))
  obtain ⟨hwork, hoverflow⟩ := hbalanced top (h.isStarted top) (h.not_spawnDue top)
  have houtstanding : 0 < (s.queues top).outstanding := by
    obtain ⟨hmost, hroom⟩ := hlim top
    rw [WorkQueue.size, h.reserved top] at hoverflow
    by_cases hempty : (s.queues top).workQueue = []
    · have hsize := hoverflow ((Finset.mem_filter.mp htop).2.resolve_left fun hne => hne hempty)
      rw [hempty, length_nil] at hsize
      omega
    · have := hwork hempty
      omega
  rw [haccounted.outstanding_eq_countP, Int.natCast_pos, countP_pos] at houtstanding
  obtain ⟨slot, hslot, rfl⟩ := houtstanding
  obtain ⟨t, ht, hslot⟩ := (mem_collect _).mp hslot
  rcases h.token_cases ht with ⟨q, item, hitem, rfl⟩ | ⟨q, entry, hentry, rfl⟩ | ⟨sCtx, slot', rfl⟩
  · exact absurd hslot not_mem_nil
  · have hfrom : entry.2 = some slot := mem_toList.mp hslot
    rw [hfrom] at ht
    exact hbehind q (.inr (ne_nil_of_mem hentry)) (hranked.overflow q _ slot ht)
  · rw [← List.mem_singleton.mp hslot] at ht
    obtain ⟨i, hi, hsCtx, hwaits⟩ := h.waits (hctx.referred sCtx slot ht)
    exact hbehind i.1 hwaits (hranked.record sCtx slot ht i hi hsCtx)

lemma AtRest.tokens_eq_zero (h : s.AtRest lim) (hctx : s.ContextsOk)
    (hempty : ∀ q, (s.queues q).workQueue = [] ∧ (s.queues q).overflowQueue = []) : s.tokens = 0 := by
  apply eq_zero_of_forall_notMem
  intro t ht
  rcases h.token_cases ht with ⟨q, item, hitem, _⟩ | ⟨q, entry, hentry, _⟩ | ⟨sCtx, slot, rfl⟩
  · rw [(hempty q).1] at hitem
    exact not_mem_nil hitem
  · rw [(hempty q).2] at hentry
    exact not_mem_nil hentry
  · obtain ⟨i, _, _, hwaits⟩ := h.waits (hctx.referred sCtx slot ht)
    exact hwaits.elim (absurd (hempty i.1).1) (absurd (hempty i.1).2)

namespace Accounted

variable (h : s.Accounted lim)

include h

lemma spawned_le : (s.spawned : Multiset (Slot Q)) ≤ s.accepted := by
  rw [← h.waits]
  exact le_add_left _ _

lemma started_le : (s.started : Multiset (Slot Q)) ≤ s.spawned := by
  rw [← h.pending]
  exact le_add_left _ _

lemma givenBack_le : (s.givenBack : Multiset (Slot Q)) ≤ s.spawned := by
  rw [← h.slots]
  exact le_add_left _ _

lemma spawned_nodup : (s.spawned : Multiset (Slot Q)).Nodup := nodup_of_le h.spawned_le h.nodup

lemma outstanding_eq (q : Q) :
    (s.queues q).outstanding = (s.spawned.filter fun slot => slot.queue = q ∧ slot ∉ s.givenBack).length := by
  have hdisjoint : ∀ slot ∈ collect Token.slots s.tokens, slot ∉ s.givenBack := by
    have hnodup := h.spawned_nodup
    rw [← h.slots, nodup_add] at hnodup
    exact fun slot hslot hgiven => disjoint_left.mp hnodup.2.2 hslot (mem_coe.mpr hgiven)
  rw [h.outstanding_eq_countP, ← countP_eq_length_filter, ← coe_countP, ← h.slots, countP_add]
  have hheld : (collect Token.slots s.tokens).countP (fun slot => slot.queue = q ∧ slot ∉ s.givenBack) =
      (collect Token.slots s.tokens).countP (·.queue = q) :=
    countP_congr rfl fun slot hslot => propext ⟨And.left, fun hq => ⟨hq, hdisjoint slot hslot⟩⟩
  have hgiven : (s.givenBack : Multiset (Slot Q)).countP (fun slot => slot.queue = q ∧ slot ∉ s.givenBack) = 0 :=
    countP_eq_zero.mpr fun slot hslot hnot => hnot.2 hslot
  rw [hheld, hgiven, add_zero]

lemma logs_perm (htokens : s.tokens = 0) : s.started.Perm s.accepted ∧ s.givenBack.Perm s.spawned := by
  have hslots := h.slots
  have hwaits := h.waits
  have hpending := h.pending
  rw [htokens, collect_zero, zero_add] at hslots hwaits hpending
  exact ⟨(coe_eq_coe.mp hpending).trans (coe_eq_coe.mp hwaits), coe_eq_coe.mp hslots⟩

end Accounted

/-- **Every item is executed once.** `_outstanding` is the number of slots not given back, and no item is started twice. At
rest each item that was accepted was started. -/
theorem accounts_of_reaches {isStarted : Bool} {rank : Q → ℕ}
    (h : Reaches (step lim) (fun s a => Wakes lim s a ∧ Forward rank s a) (init isStarted) s) :
    (∀ q, (s.queues q).outstanding = (s.spawned.filter fun slot => slot.queue = q ∧ slot ∉ s.givenBack).length ∧
        0 ≤ (s.queues q).outstanding ∧ (s.queues q).outstanding ≤ lim.maxOutstanding q) ∧
      (s.givenBack.Nodup ∧ s.givenBack ⊆ s.spawned) ∧ (s.started.Nodup ∧ s.started ⊆ s.accepted) ∧
      (∃ bound, ∀ as : List (Action Q), (∀ a ∈ as, a.isFree = true) → ∀ s', runActions (step lim) s as = some s' →
        as.length ≤ bound) ∧ ((∀ q, 0 < lim.maxOutstanding q ∧ 0 < lim.maxSize q) → s.AtRest lim →
        ∀ slot ∈ s.accepted, s.started.count slot = 1 ∧ s.givenBack.count slot = 1) := by
  have haccounted := accounted_of_reaches h
  obtain ⟨hbalanced, hctx, hranked⟩ : s.AllBalanced lim ∧ s.ContextsOk ∧ s.Ranked rank := by
    refine h.invariant (I := fun s => s.AllBalanced lim ∧ s.ContextsOk ∧ s.Ranked rank) ⟨?_, ?_, ?_⟩ ?_
    · exact fun _ _ _ => ⟨fun hne => absurd rfl hne, fun hne => absurd rfl hne⟩
    · constructor <;> simp [tokens_init]
    · constructor <;> simp [tokens_init]
    · rintro s s' a ⟨hbalanced, hctx, hranked⟩ ⟨hwakes, hforward⟩ hs
      obtain ⟨e, he, hcause⟩ := step_happens hs
      exact ⟨hbalanced.step hwakes hs, hctx.step he, hranked.step hctx he hcause hforward⟩
  refine ⟨fun q => ⟨haccounted.outstanding_eq q, ?_, haccounted.bound q⟩, ⟨?_, ?_⟩, ⟨?_, ?_⟩, ?_, ?_⟩
  · rw [haccounted.outstanding_eq_countP]
    exact Int.natCast_nonneg _
  · exact coe_nodup.mp (nodup_of_le haccounted.givenBack_le haccounted.spawned_nodup)
  · exact coe_subset.mp (subset_of_le haccounted.givenBack_le)
  · exact coe_nodup.mp (nodup_of_le haccounted.started_le haccounted.spawned_nodup)
  · exact coe_subset.mp (subset_of_le (haccounted.started_le.trans haccounted.spawned_le))
  · refine ⟨s.weight, fun as has s' hrun => length_le_of_ranked (R := fun n s => s.weight = n) ?_ rfl hrun⟩
    rintro _ s s' a ha rfl hs
    exact ⟨s'.weight, weight_lt_of_step (has a ha) hs, rfl⟩
  · intro hlim hrest slot hslot
    have hempty := hrest.queues_empty hlim haccounted hbalanced hctx hranked
    obtain ⟨hstarted, hgiven⟩ := haccounted.logs_perm (hrest.tokens_eq_zero hctx hempty)
    have hspawned : s.spawned.Perm s.accepted := by
      have hwaits := haccounted.waits
      rw [hrest.tokens_eq_zero hctx hempty, collect_zero, zero_add] at hwaits
      exact coe_eq_coe.mp hwaits
    rw [hstarted.count_eq, (hgiven.trans hspawned).count_eq]
    exact ⟨count_eq_one_of_mem haccounted.nodup hslot, count_eq_one_of_mem haccounted.nodup hslot⟩

theorem oneItem_accounts : let lim : Limits Unit := ⟨fun _ => 1, fun _ => 1⟩
    ∃ s, Reaches (step lim) (fun s a => Wakes lim s a ∧ Forward (fun _ => 0) s a) (init true) s ∧
      s.accepted = [⟨(), 0⟩] ∧ s.started.count ⟨(), 0⟩ = 1 ∧ s.givenBack.count ⟨(), 0⟩ = 1 := by
  intro lim
  have hrun : (runActions (step lim) (init true)
      [.outside (.enqueue ()), .exec 0, .exec 0, .start 0, .exec 1, .exec 1, .exec 1, .exec 1]).map
        (fun s => (s.accepted, s.threads, s.jobs.length, (s.queues ()).isStarted, (s.queues ()).reserved)) =
      some ([⟨(), 0⟩], [[], []], 0, true, 0) := by
    decide +kernel
  obtain ⟨s, hs, heq⟩ := map_eq_some_iff.mp hrun
  simp only [Prod.mk.injEq, length_eq_zero_iff] at heq
  obtain ⟨haccepted, hthreads, hjobs, hstarted, hreserved⟩ := heq
  have hreaches : Reaches (step lim) (fun s a => Wakes lim s a ∧ Forward (fun _ => 0) s a) (init true) s :=
    Reaches.start.run (by simp [Wakes, Forward, Action.made]) hs
  refine ⟨s, hreaches, haccepted, (accounts_of_reaches hreaches).2.2.2.2 (fun _ => ⟨Nat.one_pos, Nat.one_pos⟩)
    ⟨?_, fun _ => hstarted, fun _ => hreserved⟩ _ (by rw [haccepted]; exact List.mem_singleton_self _)⟩
  intro a ha
  cases a with
  | exec i =>
    rw [step, hthreads]
    rcases i with _ | _ | i <;> rfl
  | start j =>
    rw [step, hjobs]
    rfl
  | _ => cases ha

end WorkQueues

/-- It was accepted, it is not started, and nothing is left to do. -/
theorem selfPushBack_never : let lim : Limits Unit := ⟨fun _ => 1, fun _ => 1⟩
    (runActions (WorkQueues.step lim) (.init true)
      [.outside (.enqueue ()), .exec 0, .exec 0, .start 0, .call 1 (.reEnqueue ()), .exec 1, .exec 1]).map
        (fun s => (s.accepted, s.started, s.threads.flatten.length, s.jobs.length)) =
      some ([⟨(), 0⟩, ⟨(), 1⟩], [⟨(), 0⟩], 0, 0) := by
  decide +kernel

end SciDB.Util
