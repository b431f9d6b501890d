import SciDB.Util.WorkQueue

/-!
# What happens in work queues

A state is a multiset of tokens: an item in a queue, an operation of a thread, a queue that a context has to release. A step
takes some away and puts others there (`step_happens`).
-/

namespace SciDB.Util

open SciDB.Lib List Function Option Finset Multiset

variable {Q : Type} {work : WorkItem Q}

/-- Something that is there. -/
inductive Token (Q : Type) where
  | waiting (queue : Q) (item : WorkItem Q)
  | overflow (queue : Q) (item : WorkItem Q) (fromQueue : Option (Slot Q))
  | job (queue : Q) (item : WorkItem Q)
  | op (o : QueueOp Q)
  | record (sCtx : ℕ) (slot : Slot Q)
deriving DecidableEq

def Token.sCtx : Token Q → Option ℕ
  | .waiting _ item | .overflow _ item _ | .job _ item => some item.sCtx
  | .op o => o.sCtx
  | .record _ _ => none

/-- The tokens of a queue. -/
def WorkQueue.tokens (queue : Q) (wq : WorkQueue Q) : Multiset (Token Q) :=
  (wq.workQueue.map (Token.waiting queue) : Multiset (Token Q)) +
    (wq.overflowQueue.map fun entry => Token.overflow queue entry.1 entry.2 : Multiset (Token Q))

/-- The tokens of operations. -/
def opTokens (ops : List (QueueOp Q)) : Multiset (Token Q) := ops.map Token.op

@[simp]
lemma opTokens_nil : opTokens ([] : List (QueueOp Q)) = 0 := rfl

@[simp]
lemma opTokens_cons (o : QueueOp Q) (ops : List (QueueOp Q)) : opTokens (o :: ops) = {Token.op o} + opTokens ops := rfl

@[simp]
lemma opTokens_append (ops ops' : List (QueueOp Q)) : opTokens (ops ++ ops') = opTokens ops + opTokens ops' := by
  rw [opTokens, map_append, ← coe_add]
  rfl

namespace WorkQueues

variable [Fintype Q]

/-- All tokens. -/
def tokens (s : WorkQueues Q) : Multiset (Token Q) :=
  ∑ q, (s.queues q).tokens q + (s.jobs.map fun job => Token.job job.1 job.2 : Multiset (Token Q)) +
    opTokens s.threads.flatten + (s.queuesToRelease.map fun r => Token.record r.1 r.2 : Multiset (Token Q))

variable {s s₁ : WorkQueues Q} {o : QueueOp Q} {sCtx : ℕ} {ts here : Multiset (Token Q)}

lemma mem_tokens_op : Token.op o ∈ s.tokens ↔ ∃ ops ∈ s.threads, o ∈ ops := by
  simp [tokens, opTokens, WorkQueue.tokens, mem_sum]

lemma mem_tokens_record {slot : Slot Q} : Token.record sCtx slot ∈ s.tokens ↔ (sCtx, slot) ∈ s.queuesToRelease := by
  simp [tokens, opTokens, WorkQueue.tokens, mem_sum]

variable {s : WorkQueues Q} {i : ℕ} {ops : List (QueueOp Q)}

lemma tokens_setThread (h : s.threads[i]? = some ops) (ops' : List (QueueOp Q)) :
    (s.setThread i ops').tokens + opTokens ops = s.tokens + opTokens ops' := by
  have hperm := flatten_set_perm h ops'
  have hops : opTokens (s.threads.set i ops').flatten + opTokens ops = opTokens s.threads.flatten + opTokens ops' := by
    rw [← opTokens_append, ← opTokens_append]
    exact coe_eq_coe.mpr (hperm.map _)
  rw [tokens, setThread, tokens]
  rw [add_right_comm, add_assoc _ _ (opTokens ops), hops]
  abel

lemma tokens_addThread (s : WorkQueues Q) (ops : List (QueueOp Q)) :
    WorkQueues.tokens { s with threads := s.threads ++ [ops] } = s.tokens + opTokens ops := by
  rw [tokens, tokens]
  rw [flatten_append, flatten_singleton, opTokens_append]
  abel

lemma tokens_addJob (s : WorkQueues Q) (queue : Q) (item : WorkItem Q) :
    WorkQueues.tokens { s with jobs := s.jobs ++ [(queue, item)] } = s.tokens + {.job queue item} := by
  rw [tokens, tokens]
  rw [map_append, ← Multiset.coe_add, List.map_singleton, Multiset.coe_singleton]
  abel

lemma tokens_recorded {s' : WorkQueues Q} {queue : Q} (h : s'.tokens = s.tokens + ts) :
    (s'.recorded queue work).tokens = s.tokens + (ts + {.record work.sCtx ⟨queue, work.id⟩}) := by
  rw [← add_assoc, ← h, recorded, tokens, tokens]
  rw [map_append, ← Multiset.coe_add, List.map_singleton, Multiset.coe_singleton]
  abel

open Token

lemma tokens_clear (s : WorkQueues Q) (sCtx : ℕ) :
    WorkQueues.tokens { s with queuesToRelease := s.queuesToRelease.filter (·.1 ≠ sCtx) } +
      (((s.queuesToRelease.filter (·.1 = sCtx)).reverse.map Prod.snd).map (Token.record sCtx) : Multiset (Token Q)) =
      s.tokens := by
  have hrecords : (((s.queuesToRelease.filter (·.1 = sCtx)).reverse.map Prod.snd).map (record sCtx) : Multiset (Token Q)) =
      ((s.queuesToRelease.filter (·.1 = sCtx)).map fun r => record r.1 r.2 : Multiset (Token Q)) := by
    rw [List.map_map, map_reverse, coe_reverse]
    congr 1
    apply map_congr_left
    intro r hr
    have hctx := of_decide_eq_true (mem_filter.mp hr).2
    rw [comp_apply, hctx]
  have hall : ((s.queuesToRelease.filter (·.1 ≠ sCtx)).map fun r => record r.1 r.2 : Multiset (Token Q)) +
      ((s.queuesToRelease.filter (·.1 = sCtx)).map fun r => record r.1 r.2 : Multiset (Token Q)) =
      (s.queuesToRelease.map fun r => record r.1 r.2 : Multiset (Token Q)) := by
    rw [add_comm, coe_add, ← map_append, coe_eq_coe]
    apply List.Perm.map
    have hperm := filter_append_perm (fun r : ℕ × Slot Q => decide (r.1 = sCtx)) s.queuesToRelease
    simpa using hperm
  rw [hrecords, tokens, tokens]
  rw [add_assoc, hall]

lemma useCount_eq (s : WorkQueues Q) (sCtx : ℕ) : s.useCount sCtx = s.tokens.countP (·.sCtx = some sCtx) := by
  have hqueue : ∀ q, ((s.queues q).tokens q).countP (·.sCtx = some sCtx) =
      (s.queues q).workQueue.countP (·.sCtx == sCtx) + (s.queues q).overflowQueue.countP (·.1.sCtx == sCtx) := by
    intro q
    rw [WorkQueue.tokens, countP_add, coe_countP, coe_countP, List.countP_map, List.countP_map]
    congr 1 <;> exact countP_congr (by simp [Token.sCtx])
  have hsum : (∑ q, (s.queues q).tokens q).countP (·.sCtx = some sCtx) =
      ∑ q, ((s.queues q).tokens q).countP (·.sCtx = some sCtx) :=
    map_sum (countPAddMonoidHom _) _ _
  rw [tokens, useCount, countP_add, countP_add, countP_add, hsum,
    sum_congr rfl fun q _ => hqueue q, coe_countP, opTokens, coe_countP, coe_countP,
    List.countP_map, List.countP_map, List.countP_map]
  have hjobs : List.countP ((fun t : Token Q => decide (t.sCtx = some sCtx)) ∘ fun job => Token.job job.1 job.2) s.jobs =
      s.jobs.countP (·.2.sCtx == sCtx) := countP_congr (by simp [Token.sCtx])
  have hops : List.countP ((fun t : Token Q => decide (t.sCtx = some sCtx)) ∘ op) s.threads.flatten =
      s.threads.flatten.countP (·.sCtx == some sCtx) := countP_congr fun o _ => by
        rw [comp_apply, beq_iff_eq]
        exact decide_eq_true_iff
  have hrecords : List.countP ((fun t : Token Q => decide (t.sCtx = some sCtx)) ∘ fun r => record r.1 r.2)
      s.queuesToRelease = 0 := countP_eq_zero.mpr (by simp [Token.sCtx])
  rw [hjobs, hops, hrecords]
  rfl

lemma useCount_eq_zero_iff : s.useCount sCtx = 0 ↔ ∀ t ∈ s.tokens, t.sCtx ≠ some sCtx := by
  rw [useCount_eq, Multiset.countP_eq_zero]

lemma tokens_pop (h : s.threads[i]? = some (o :: ops)) : s.tokens = (s.setThread i ops).tokens + {Token.op o} := by
  apply add_right_cancel (b := opTokens ops)
  rw [← tokens_setThread h ops, opTokens_cons]
  abel

lemma tokens_push (h : s.threads[i]? = some ops) (ops' : List (QueueOp Q)) :
    (s.setThread i (ops' ++ ops)).tokens = s.tokens + opTokens ops' := by
  apply add_right_cancel (b := opTokens ops)
  rw [tokens_setThread h, opTokens_append, add_assoc]

lemma tokens_exec {away : Multiset (Token Q)} (ops' : List (QueueOp Q)) (h : s.threads[i]? = some (o :: ops))
    (hthreads : s₁.threads = (s.setThread i ops).threads) (hstored : s₁.tokens + away = (s.setThread i ops).tokens + here) :
    (s₁.setThread i (ops' ++ ops)).tokens + (opTokens [o] + away) = s.tokens + (here + opTokens ops') := by
  have hpopped : s₁.threads[i]? = some ops := by
    rw [hthreads]
    exact getElem?_set_self (List.getElem?_eq_some_iff.mp h).1
  rw [tokens_push hpopped, tokens_pop h, opTokens_cons, opTokens_nil, add_zero]
  calc s₁.tokens + opTokens ops' + ({op o} + away) = s₁.tokens + away + {op o} + opTokens ops' := by abel
    _ = (s.setThread i ops).tokens + {op o} + (here + opTokens ops') := by rw [hstored]; abel

lemma tokens_exec_add (ops' : List (QueueOp Q)) (h : s.threads[i]? = some (o :: ops))
    (hthreads : s₁.threads = (s.setThread i ops).threads) (hstored : s₁.tokens = (s.setThread i ops).tokens + here) :
    (s₁.setThread i (ops' ++ ops)).tokens + opTokens [o] = s.tokens + (here + opTokens ops') := by
  have hexec := tokens_exec ops' h hthreads (show s₁.tokens + 0 = _ from (add_zero _).trans hstored)
  rwa [add_zero] at hexec

variable [DecidableEq Q]

lemma tokens_setQueue (s : WorkQueues Q) (q : Q) (wq : WorkQueue Q) :
    (s.setQueue q wq).tokens + (s.queues q).tokens q = s.tokens + wq.tokens q := by
  have hsum : ∑ j, (update s.queues q wq j).tokens j + (s.queues q).tokens q =
      ∑ j, (s.queues j).tokens j + wq.tokens q := by
    rw [← sum_exchange (mem_univ q) (fun j => (s.queues j).tokens j)]
    congr 1
    exact sum_congr rfl fun j _ => apply_update (fun j wq => WorkQueue.tokens j wq) s.queues q wq j
  rw [tokens, setQueue, tokens]
  rw [add_right_comm, add_right_comm _ _ ((s.queues q).tokens q), add_right_comm _ _ ((s.queues q).tokens q), hsum]
  abel

lemma tokens_setQueue_of {q : Q} {wq : WorkQueue Q} (h : wq.tokens q = (s.queues q).tokens q + ts) :
    (s.setQueue q wq).tokens = s.tokens + ts := by
  apply add_right_cancel (b := (s.queues q).tokens q)
  rw [tokens_setQueue, h]
  abel

end WorkQueues

/-- What happens in a step. An item `work` of `queue` runs; `item` is new. -/
inductive Event (Q : Type) where
  | quiet
  | wake (queue : Q)
  | leave (sCtx : ℕ)
  | enqueue (queue : Q) (item : WorkItem Q) (keep : Bool)
  | share (queue : Q) (item : WorkItem Q)
  /-- `reEnqueue`, and there is room. -/
  | fork (queue : Q) (work : WorkItem Q) (toQueue : Q) (item : WorkItem Q)
  /-- `reEnqueueSerialized` to the same queue, and there is room. -/
  | again (queue : Q) (work item : WorkItem Q)
  /-- `reEnqueue` to the same queue, which is full. -/
  | pushBack (queue : Q) (work item : WorkItem Q)
  /-- `reEnqueueSerialized` to the same queue, which is full. -/
  | pushBackSerialized (queue : Q) (work item : WorkItem Q)
  /-- `reEnqueue` to another queue, which is full. -/
  | overflow (queue : Q) (work : WorkItem Q) (toQueue : Q) (item : WorkItem Q)
  /-- `reEnqueueSerialized` to another queue, and there is room. -/
  | moveOn (queue : Q) (work : WorkItem Q) (toQueue : Q) (item : WorkItem Q)
  /-- `reEnqueueSerialized` to another queue, which is full. -/
  | moveOnFull (queue : Q) (work : WorkItem Q) (toQueue : Q) (item : WorkItem Q)
  | spawn (queue : Q) (moved : List (WorkItem Q × Option (Slot Q))) (found : List (WorkItem Q))
  | release (slot : Slot Q)
  | pushJob (queue : Q) (item : WorkItem Q)
  | finish (queue : Q) (item : WorkItem Q)
  | unhold (sCtx : ℕ)
  | drop (sCtx : ℕ)
  | destroy (sCtx : ℕ) (slots : List (Slot Q))
  | start (queue : Q) (item : WorkItem Q)

namespace Event

def removed : Event Q → Multiset (Token Q)
  | .pushBack queue work _ | .pushBackSerialized queue work _ | .overflow queue work _ _ | .moveOn queue work _ _
  | .moveOnFull queue work _ _ | .finish queue work => opTokens [.run queue work]
  | .spawn queue moved found =>
    opTokens [.spawn queue] + ((moved.map fun entry => Token.overflow queue entry.1 entry.2 : Multiset (Token Q)) +
      (found.map (Token.waiting queue) : Multiset (Token Q)))
  | .release slot => opTokens [.release slot]
  | .pushJob queue item => opTokens [.pushJob queue item]
  | .unhold sCtx => opTokens [.hold sCtx]
  | .drop sCtx => opTokens [.drop sCtx]
  | .destroy sCtx slots => opTokens [.drop sCtx] + (slots.map (Token.record sCtx) : Multiset (Token Q))
  | .start queue item => {.job queue item}
  | _ => 0

def added : Event Q → Multiset (Token Q)
  | .quiet => 0
  | .wake queue => opTokens [.spawn queue]
  | .leave sCtx => opTokens [.hold sCtx]
  | .enqueue queue item keep =>
    {.waiting queue item} + opTokens (.spawn queue :: if keep then [.drop item.sCtx] else [])
  | .share queue item => {.waiting queue item} + opTokens [.spawn queue]
  | .fork _ _ toQueue item => {.waiting toQueue item} + opTokens [.spawn toQueue, .drop item.sCtx]
  | .again queue _ item => {.waiting queue item} + opTokens [.spawn queue]
  | .pushBack queue work item => {.waiting queue item} + opTokens [.drop item.sCtx, .drop work.sCtx]
  | .pushBackSerialized queue work item => {.waiting queue item} + opTokens [.drop work.sCtx]
  | .overflow queue work toQueue item =>
    {.overflow toQueue item (some ⟨queue, work.id⟩)} + opTokens [.drop item.sCtx, .drop work.sCtx]
  | .moveOn queue work toQueue item =>
    {.waiting toQueue item} + {.record work.sCtx ⟨queue, work.id⟩} + opTokens [.spawn toQueue, .drop work.sCtx]
  | .moveOnFull queue work toQueue item =>
    {.overflow toQueue item none} + {.record work.sCtx ⟨queue, work.id⟩} + opTokens [.drop work.sCtx]
  | .spawn queue moved found =>
    (moved.map fun entry => Token.waiting queue entry.1 : Multiset (Token Q)) +
      opTokens (((moved.map Prod.snd).filterMap id).map .release ++ found.map (.pushJob queue))
  | .release slot => opTokens [.spawn slot.queue]
  | .pushJob queue item => {.job queue item}
  | .finish queue item => opTokens [.drop item.sCtx, .release ⟨queue, item.id⟩]
  | .unhold sCtx => opTokens [.drop sCtx]
  | .drop _ => 0
  | .destroy _ slots => opTokens (slots.map .release)
  | .start queue item => opTokens [.run queue item]

/-- The item that is accepted. -/
def accepted : Event Q → List (Slot Q)
  | .enqueue queue item _ | .share queue item | .fork _ _ queue item | .again queue _ item | .pushBack queue _ item
  | .pushBackSerialized queue _ item | .overflow _ _ queue item | .moveOn _ _ queue item
  | .moveOnFull _ _ queue item => [⟨queue, item.id⟩]
  | _ => []

/-- The items that are spawned. -/
def spawned : Event Q → List (Slot Q)
  | .spawn queue _ found => found.map fun item => ⟨queue, item.id⟩
  | _ => []

/-- The item that is started. -/
def started : Event Q → List (Slot Q)
  | .start queue item => [⟨queue, item.id⟩]
  | _ => []

/-- The slot that is given back. -/
def givenBack : Event Q → List (Slot Q)
  | .pushBack queue work _ | .pushBackSerialized queue work _ => [⟨queue, work.id⟩]
  | .release slot => [slot]
  | _ => []

variable [Fintype Q]

/-- What is known of an event. -/
def Possible (lim : Limits Q) (s s' : WorkQueues Q) : Event Q → Prop
  | .leave sCtx => ∃ t ∈ s.tokens, t.sCtx = some sCtx
  | .enqueue _ item _ => item = ⟨s.nextItem, s.nextItem, []⟩
  | .share _ item => item.id = s.nextItem ∧ item.trail = [] ∧ ∃ t ∈ s.tokens, t.sCtx = some item.sCtx
  | .fork queue work _ item | .pushBack queue work item =>
    Token.op (.run queue work) ∈ s.tokens ∧ item = s.successor queue work s.nextItem
  | .again queue work item | .pushBackSerialized queue work item =>
    Token.op (.run queue work) ∈ s.tokens ∧ item = s.successor queue work work.sCtx
  | .overflow queue work toQueue item =>
    Token.op (.run queue work) ∈ s.tokens ∧ item = s.successor queue work s.nextItem ∧ toQueue ≠ queue
  | .moveOn queue work toQueue item | .moveOnFull queue work toQueue item =>
    Token.op (.run queue work) ∈ s.tokens ∧ item = s.successor queue work work.sCtx ∧ toQueue ≠ queue
  | .spawn queue _ found =>
    (s.queues queue).outstanding ≤ lim.maxOutstanding queue →
      (s.queues queue).outstanding + found.length ≤ lim.maxOutstanding queue
  | .drop sCtx => ∃ t ∈ s'.tokens, t.sCtx = some sCtx
  | .destroy sCtx _ => ∀ t ∈ s'.tokens, t.sCtx ≠ some sCtx ∧ ∀ slot, t ≠ .record sCtx slot
  | _ => True

def CausedBy (lim : Limits Q) (s : WorkQueues Q) (made : Option (Caller Q × Call Q)) : Event Q → Prop
  | .share queue item => ∃ caller, made = some (caller, .enqueueReserved queue true) ∧ caller.sCtx = some item.sCtx
  | .fork queue work toQueue _ | .overflow queue work toQueue _ => made = some (.running queue work, .reEnqueue toQueue)
  | .again queue work _ => made = some (.running queue work, .reEnqueueSerialized queue)
  | .pushBack queue work _ =>
    made = some (.running queue work, .reEnqueue queue) ∧ lim.maxSize queue ≤ (s.queues queue).size
  | .pushBackSerialized queue work _ =>
    made = some (.running queue work, .reEnqueueSerialized queue) ∧ lim.maxSize queue ≤ (s.queues queue).size
  | .moveOn queue work toQueue _ | .moveOnFull queue work toQueue _ =>
    made = some (.running queue work, .reEnqueueSerialized toQueue)
  | .quiet | .wake _ | .leave _ | .enqueue _ _ _ => made.isSome = true
  | _ => True

/-- An event happens in a step from `s` to `s'`. -/
structure Happens [DecidableEq Q] (lim : Limits Q) (s s' : WorkQueues Q) (e : Event Q) : Prop where
  tokens : s'.tokens + e.removed = s.tokens + e.added
  accepted : s'.accepted = s.accepted ++ e.accepted
  spawned : s'.spawned = s.spawned ++ e.spawned
  started : s'.started = s.started ++ e.started
  givenBack : s'.givenBack = s.givenBack ++ e.givenBack
  nextItem : s'.nextItem = s.nextItem + e.accepted.length
  outstanding : ∀ q, (s'.queues q).outstanding + e.givenBack.countP (·.queue = q) =
    (s.queues q).outstanding + e.spawned.countP (·.queue = q)
  possible : e.Possible lim s s'

variable {lim : Limits Q} {s s' : WorkQueues Q} {e : Event Q}

lemma Happens.accepts [DecidableEq Q] (he : e.spawned = [] ∧ e.started = [])
    (htokens : s'.tokens + e.removed = s.tokens + e.added)
    (hlogs : s'.accepted = s.accepted ++ e.accepted ∧ s'.spawned = s.spawned ∧ s'.started = s.started ∧
      s'.givenBack = s.givenBack ++ e.givenBack ∧ s'.nextItem = s.nextItem + e.accepted.length)
    (hqueues : ∀ q, (s'.queues q).outstanding + e.givenBack.countP (·.queue = q) = (s.queues q).outstanding)
    (hpossible : e.Possible lim s s') : e.Happens lim s s' := by
  obtain ⟨hp, ht⟩ := he
  obtain ⟨ha, hlp, hlt, hg, hn⟩ := hlogs
  refine ⟨htokens, ha, ?_, ?_, hg, hn, fun q => ?_, hpossible⟩
  · rw [hp, hlp, append_nil]
  · rw [ht, hlt, append_nil]
  · rw [hqueues, hp]
    exact (add_zero _).symm

lemma Happens.silent [DecidableEq Q] (he : e.accepted = [] ∧ e.spawned = [] ∧ e.started = [] ∧ e.givenBack = [])
    (htokens : s'.tokens + e.removed = s.tokens + e.added)
    (hlogs : s'.accepted = s.accepted ∧ s'.spawned = s.spawned ∧ s'.started = s.started ∧
      s'.givenBack = s.givenBack ∧ s'.nextItem = s.nextItem)
    (hqueues : ∀ q, (s'.queues q).outstanding = (s.queues q).outstanding) (hpossible : e.Possible lim s s') :
    e.Happens lim s s' := by
  obtain ⟨ha, hp, ht, hg⟩ := he
  exact .accepts ⟨hp, ht⟩ htokens (by simpa [ha, hg] using hlogs) (by simpa [hg] using hqueues) hpossible

end Event

namespace WorkQueue

variable {queue : Q} {wq : WorkQueue Q}

variable {wq' : WorkQueue Q} {item : WorkItem Q}

lemma tokens_congr (hwork : wq'.workQueue = wq.workQueue) (hoverflow : wq'.overflowQueue = wq.overflowQueue) :
    wq'.tokens queue = wq.tokens queue + 0 := by
  rw [tokens, tokens, hwork, hoverflow, add_zero]

lemma tokens_waiting (hwork : wq'.workQueue = wq.workQueue ++ [item]) (hoverflow : wq'.overflowQueue = wq.overflowQueue) :
    wq'.tokens queue = wq.tokens queue + {.waiting queue item} := by
  rw [tokens, tokens, hwork, hoverflow, map_append, ← coe_add]
  exact add_right_comm _ _ _

lemma tokens_overflow {fromQueue : Option (Slot Q)} (hwork : wq'.workQueue = wq.workQueue)
    (hoverflow : wq'.overflowQueue = wq.overflowQueue ++ [(item, fromQueue)]) :
    wq'.tokens queue = wq.tokens queue + {.overflow queue item fromQueue} := by
  rw [tokens, tokens, hwork, hoverflow, map_append, ← coe_add]
  exact (add_assoc _ _ _).symm

end WorkQueue

namespace WorkQueues

lemma countP_queue [DecidableEq Q] (queue q : Q) (items : List (WorkItem Q)) :
    (items.map fun item => (⟨queue, item.id⟩ : Slot Q)).countP (·.queue = q) = if q = queue then items.length else 0 := by
  rw [List.countP_map]
  split_ifs with hq
  · rw [countP_eq_length]
    simp [hq]
  · rw [countP_eq_zero]
    simp [Ne.symm hq]

variable {s : WorkQueues Q} {queue : Q} {wq : WorkQueue Q} {i : ℕ} {o : QueueOp Q} {ts : Multiset (Token Q)}
  {e : Event Q} {c : Call Q}

lemma outstanding_setQueue [DecidableEq Q] (h : wq.outstanding = (s.queues queue).outstanding) (q : Q) :
    ((s.setQueue queue wq).queues q).outstanding = (s.queues q).outstanding := by
  by_cases hq : q = queue
  · rw [hq, setQueue_self, h]
  · rw [setQueue_of_ne s hq]

lemma outstanding_giveBack [DecidableEq Q] {id : ℕ} (h : wq.outstanding = (s.queues queue).outstanding - 1) (q : Q) :
    ((s.setQueue queue wq).queues q).outstanding + [(⟨queue, id⟩ : Slot Q)].countP (·.queue = q) = (s.queues q).outstanding := by
  by_cases hq : q = queue
  · rw [hq, setQueue_self, h]
    simp
  · rw [setQueue_of_ne s hq]
    simp [Ne.symm hq]

variable [Fintype Q] [DecidableEq Q] {lim : Limits Q} {s s' : WorkQueues Q}

lemma tokens_spawn {moved rest : List (WorkItem Q × Option (Slot Q))} {found waiting : List (WorkItem Q)}
    {outstanding : ℤ} (hoverflow : (s.queues queue).overflowQueue = moved ++ rest)
    (hwork : (s.queues queue).workQueue ++ moved.map Prod.fst = found ++ waiting) : (s.setQueue queue { s.queues queue with
        workQueue := waiting, overflowQueue := rest, outstanding := outstanding }).tokens +
      ((moved.map fun entry => Token.overflow queue entry.1 entry.2 : Multiset (Token Q)) +
        (found.map (Token.waiting queue) : Multiset (Token Q))) =
      s.tokens + (moved.map fun entry => Token.waiting queue entry.1 : Multiset (Token Q)) := by
  have hset := s.tokens_setQueue queue { s.queues queue with
    workQueue := waiting, overflowQueue := rest, outstanding := outstanding }
  have hitems : ((s.queues queue).workQueue.map (Token.waiting queue) : Multiset (Token Q)) +
      (moved.map fun entry => Token.waiting queue entry.1 : Multiset (Token Q)) =
      (found.map (Token.waiting queue) : Multiset (Token Q)) + (waiting.map (Token.waiting queue) : Multiset (Token Q)) := by
    have hmap := congrArg (List.map (Token.waiting queue)) hwork
    rw [map_append, map_append, List.map_map] at hmap
    rw [coe_add, coe_add, ← hmap]
    rfl
  rw [WorkQueue.tokens, WorkQueue.tokens, hoverflow, map_append, ← coe_add] at hset
  generalize (s.setQueue queue _).tokens = after at hset ⊢
  generalize ((s.queues queue).workQueue.map (Token.waiting queue) : Multiset (Token Q)) = work at hset hitems
  generalize (rest.map fun entry => Token.overflow queue entry.1 entry.2 : Multiset (Token Q)) = r at hset
  generalize (moved.map fun entry => Token.overflow queue entry.1 entry.2 : Multiset (Token Q)) = m at hset ⊢
  generalize (moved.map fun entry => Token.waiting queue entry.1 : Multiset (Token Q)) = m' at hitems ⊢
  generalize (found.map (Token.waiting queue) : Multiset (Token Q)) = f at hitems ⊢
  generalize (waiting.map (Token.waiting queue) : Multiset (Token Q)) = w at hset hitems
  apply add_right_cancel (b := work + r)
  calc after + (m + f) + (work + r) = after + (work + (m + r)) + f := by abel
    _ = s.tokens + (f + w) + r := by rw [hset]; abel
    _ = s.tokens + m' + (work + r) := by rw [← hitems]; abel

lemma exec_happens {ops : List (QueueOp Q)} (h : s.threads[i]? = some (o :: ops)) : let r := (s.setThread i ops).exec lim o
    ∃ e : Event Q, e.Happens lim s (r.1.setThread i (r.2 ++ ops)) ∧ e.CausedBy lim s none := by
  intro r
  have hpopped : (s.setThread i ops).threads[i]? = some ops := getElem?_set_self (List.getElem?_eq_some_iff.mp h).1
  cases o with
  | spawn queue =>
    obtain ⟨moved, rest, found, waiting, hoverflow, hwork, hspawn, hle, _⟩ :=
      (s.queues queue).spawn_spec (lim.maxOutstanding queue) (lim.maxSize queue)
    have hr : r = ({ (s.setThread i ops).setQueue queue { s.queues queue with
          workQueue := waiting, overflowQueue := rest,
          outstanding := (s.queues queue).outstanding + found.length } with
        spawned := s.spawned ++ found.map fun item => ⟨queue, item.id⟩ },
      ((moved.map Prod.snd).filterMap id).map .release ++ found.map (.pushJob queue)) := by
      simp only [r, exec, setThread, hspawn]
    rw [hr]
    refine ⟨.spawn queue moved found, ⟨?_, (append_nil _).symm, rfl, (append_nil _).symm,
      (append_nil _).symm, rfl, ?_, hle⟩, trivial⟩
    · exact tokens_exec _ h (by rfl) (tokens_spawn (by exact hoverflow) (by exact hwork))
    · intro q
      rw [Event.spawned, countP_queue]
      by_cases hq : q = queue
      · simp [setThread, setQueue, hq, Event.givenBack]
      · simp [setThread, setQueue, hq, Event.givenBack]
  | release slot =>
    refine ⟨.release slot, ⟨?_, (append_nil _).symm, (append_nil _).symm, (append_nil _).symm, rfl, rfl, ?_, trivial⟩, trivial⟩
    · have hexec := tokens_exec_add [.spawn slot.queue] h (show r.1.threads = _ from rfl)
        (tokens_setQueue_of (WorkQueue.tokens_congr rfl rfl))
      rwa [zero_add] at hexec
    · intro q
      by_cases hq : q = slot.queue
      · simp [r, exec, giveBack, setThread, setQueue, hq, Event.givenBack, Event.spawned]
      · simp [r, exec, giveBack, setThread, setQueue, hq, Ne.symm hq, Event.givenBack, Event.spawned]
  | pushJob queue item =>
    refine ⟨.pushJob queue item, .silent ⟨rfl, rfl, rfl, rfl⟩ ?_ ⟨rfl, rfl, rfl, rfl, rfl⟩ (fun _ => rfl) trivial, trivial⟩
    have hexec := tokens_exec_add [] h (show r.1.threads = _ from rfl) (tokens_addJob _ queue item)
    rwa [opTokens_nil, add_zero] at hexec
  | run queue item =>
    refine ⟨.finish queue item, .silent ⟨rfl, rfl, rfl, rfl⟩ ?_ ⟨rfl, rfl, rfl, rfl, rfl⟩ (fun _ => rfl) trivial, trivial⟩
    have hexec := tokens_exec_add r.2 h rfl (add_zero _).symm
    rwa [zero_add] at hexec
  | hold sCtx =>
    refine ⟨.unhold sCtx, .silent ⟨rfl, rfl, rfl, rfl⟩ ?_ ⟨rfl, rfl, rfl, rfl, rfl⟩ (fun _ => rfl) trivial, trivial⟩
    have hexec := tokens_exec_add r.2 h rfl (add_zero _).symm
    rwa [zero_add] at hexec
  | drop sCtx =>
    by_cases huse : (s.setThread i ops).useCount sCtx = 0
    · obtain ⟨slots, hslots⟩ : ∃ slots, (s.queuesToRelease.filter (·.1 = sCtx)).reverse.map Prod.snd = slots := ⟨_, rfl⟩
      have hr : r = ({ s.setThread i ops with queuesToRelease := s.queuesToRelease.filter (·.1 ≠ sCtx) },
          slots.map .release) := by
        simp only [r, exec, if_pos huse, ← hslots, List.map_map]
        rfl
      have hclear := tokens_clear (s.setThread i ops) sCtx
      rw [show (s.setThread i ops).queuesToRelease = s.queuesToRelease from rfl, hslots] at hclear
      have hexec := tokens_exec (slots.map .release) h (by rfl) (hclear.trans (add_zero _).symm)
      rw [hr]
      refine ⟨.destroy sCtx slots, .silent ⟨rfl, rfl, rfl, rfl⟩ hexec ⟨rfl, rfl, rfl, rfl, rfl⟩ (fun _ => rfl) ?_, trivial⟩
      intro t ht
      refine ⟨fun ht' => ?_, fun slot hrecord => ?_⟩
      · have hafter := tokens_push (s := { s.setThread i ops with
          queuesToRelease := s.queuesToRelease.filter (·.1 ≠ sCtx) }) hpopped (slots.map .release)
        rcases mem_add.mp (hafter ▸ ht) with ht | ht
        · have hmem : t ∈ (s.setThread i ops).tokens := by
            rw [← hclear]
            exact mem_add.mpr (.inl ht)
          exact useCount_eq_zero_iff.mp huse t hmem ht'
        · obtain ⟨o, ho, rfl⟩ := mem_map.mp (mem_coe.mp ht)
          obtain ⟨slot, _, rfl⟩ := mem_map.mp ho
          cases ht'
      · rw [hrecord, mem_tokens_record] at ht
        simpa using (mem_filter.mp ht).2
    · have hr : r = (s.setThread i ops, []) := by simp only [r, exec, if_neg huse]
      have hexec := tokens_exec_add [] h (by rfl) (add_zero (s.setThread i ops).tokens).symm
      rw [hr]
      refine ⟨.drop sCtx, .silent ⟨rfl, rfl, rfl, rfl⟩ hexec ⟨rfl, rfl, rfl, rfl, rfl⟩ (fun _ => rfl) ?_, trivial⟩
      have hafter := tokens_push hpopped []
      rw [opTokens_nil, add_zero] at hafter
      rw [Event.Possible, hafter]
      rw [useCount_eq_zero_iff] at huse
      push Not at huse
      exact huse

structure Made (caller : Caller Q) (s₁ : WorkQueues Q) (ops : List (QueueOp Q)) (s' : WorkQueues Q) : Prop where
  tokens : s'.tokens + opTokens caller.ops = s₁.tokens + opTokens ops
  queues : s'.queues = s₁.queues
  logs : s'.accepted = s₁.accepted ∧ s'.spawned = s₁.spawned ∧ s'.started = s₁.started ∧
    s'.givenBack = s₁.givenBack ∧ s'.nextItem = s₁.nextItem

variable {caller : Caller Q} {s₁ : WorkQueues Q} {ops : List (QueueOp Q)} {ops' : List (QueueOp Q)}

omit [DecidableEq Q] in
lemma Made.tokens_eq (h : Made caller s₁ (ops ++ caller.ops) s') (hs1 : s₁.tokens = s.tokens + ts) :
    s'.tokens = s.tokens + (ts + opTokens ops) := by
  apply add_right_cancel (b := opTokens caller.ops)
  rw [h.tokens, hs1, opTokens_append]
  abel

lemma Made.quiet (h : Made caller (s.setQueue queue wq) caller.ops s') (hwork : wq.workQueue = (s.queues queue).workQueue)
    (hoverflow : wq.overflowQueue = (s.queues queue).overflowQueue)
    (houtstanding : wq.outstanding = (s.queues queue).outstanding) : Event.quiet.Happens lim s s' := by
  refine .silent ⟨rfl, rfl, rfl, rfl⟩ ?_ h.logs (fun q => ?_) trivial
  · rw [Made.tokens_eq (show Made caller _ ([] ++ caller.ops) s' from h)
      (tokens_setQueue_of (WorkQueue.tokens_congr hwork hoverflow))]
    simp [Event.removed, Event.added]
  · rw [h.queues, outstanding_setQueue houtstanding]

lemma Made.nothing (h : Made caller s caller.ops s') : Event.quiet.Happens lim s s' := by
  refine .silent ⟨rfl, rfl, rfl, rfl⟩ ?_ h.logs (fun q => by rw [h.queues]) trivial
  rw [Made.tokens_eq (show Made caller s ([] ++ caller.ops) s' from h) (add_zero s.tokens).symm]
  simp [Event.removed, Event.added]

lemma Made.accepts {item : WorkItem Q} (h : Made caller ((s.setQueue queue wq).accept queue) (ops ++ caller.ops) s')
    (he : e.accepted = [⟨queue, s.nextItem⟩] ∧ e.spawned = [] ∧ e.started = []) (hgiven : e.givenBack = [])
    (hremoved : e.removed = 0) (hadded : e.added = {.waiting queue item} + opTokens ops)
    (hwork : wq.workQueue = (s.queues queue).workQueue ++ [item]) (hoverflow : wq.overflowQueue = (s.queues queue).overflowQueue)
    (houtstanding : wq.outstanding = (s.queues queue).outstanding) (hpossible : e.Possible lim s s') : e.Happens lim s s' := by
  refine .accepts he.2 ?_ ?_ ?_ hpossible
  · rw [hremoved, add_zero, hadded]
    exact h.tokens_eq (tokens_setQueue_of (WorkQueue.tokens_waiting hwork hoverflow))
  · rw [hgiven, append_nil, he.1]
    exact h.logs
  · intro q
    rw [hgiven, h.queues]
    exact (add_zero _).trans (outstanding_setQueue houtstanding q)

lemma Made.moves {fromQueue : Q} (h : Made (.running fromQueue work) s₁ ops s')
    (he : e.spawned = [] ∧ e.started = []) (hremoved : e.removed = opTokens [.run fromQueue work]) (hadded : e.added = ts + opTokens ops)
    (hs1 : s₁.tokens = s.tokens + ts) (hlogs : s₁.accepted = s.accepted ++ e.accepted ∧ s₁.spawned = s.spawned ∧ s₁.started = s.started ∧
      s₁.givenBack = s.givenBack ++ e.givenBack ∧ s₁.nextItem = s.nextItem + e.accepted.length)
    (hqueues : ∀ q, (s₁.queues q).outstanding + e.givenBack.countP (·.queue = q) = (s.queues q).outstanding)
    (hpossible : e.Possible lim s s') : e.Happens lim s s' := by
  refine .accepts he ?_ ?_ ?_ hpossible
  · rw [hremoved, hadded, ← add_assoc, ← hs1]
    exact h.tokens
  · obtain ⟨ha, hp, ht, hg, hn⟩ := h.logs
    rwa [ha, hp, ht, hg, hn]
  · rwa [h.queues]

omit [DecidableEq Q] in
lemma caller_refers {sCtx : ℕ} (hcaller : ∀ o ∈ caller.ops, Token.op o ∈ s.tokens) (h : caller.sCtx = some sCtx) :
    ∃ t ∈ s.tokens, t.sCtx = some sCtx := by
  cases caller with
  | outside => exact nomatch h
  | holder c => exact ⟨_, hcaller _ mem_cons_self, h⟩
  | running queue item => exact ⟨_, hcaller _ mem_cons_self, h⟩

lemma Called.happens (h : Called lim s caller c s₁ ops) (hcaller : ∀ o ∈ caller.ops, Token.op o ∈ s.tokens)
    (hmade : Made caller s₁ ops s') : ∃ e : Event Q, e.Happens lim s s' ∧ e.CausedBy lim s (some (caller, c)) := by
  cases h with
  | nothing => exact ⟨.quiet, hmade.nothing, rfl⟩
  | reserved | unreserved | stopped => exact ⟨.quiet, hmade.quiet rfl rfl rfl, rfl⟩
  | started caller queue =>
    refine ⟨.wake queue, .silent ⟨rfl, rfl, rfl, rfl⟩ ?_ hmade.logs (fun q => ?_) trivial, rfl⟩
    · rw [Made.tokens_eq (show Made _ _ ([.spawn queue] ++ caller.ops) s' from hmade)
        (tokens_setQueue_of (WorkQueue.tokens_congr rfl rfl)), zero_add]
      exact add_zero _
    · rw [hmade.queues]
      exact outstanding_setQueue (by rfl) q
  | left caller sCtx hsCtx =>
    refine ⟨.leave sCtx, .silent ⟨rfl, rfl, rfl, rfl⟩ ?_ hmade.logs (fun q => ?_) (caller_refers hcaller hsCtx), rfl⟩
    · rw [Made.tokens_eq (show Made _ _ ([] ++ caller.ops) s' from hmade) (tokens_addThread s _), opTokens_nil, add_zero]
      exact add_zero _
    · rw [hmade.queues]
  | enqueued caller queue =>
    exact ⟨.enqueue queue ⟨s.nextItem, s.nextItem, []⟩ false,
      Made.accepts (show Made _ _ ([.spawn queue] ++ caller.ops) s' from hmade) ⟨rfl, rfl, rfl⟩ rfl rfl rfl rfl rfl rfl rfl, rfl⟩
  | enqueuedReserved caller queue =>
    exact ⟨.enqueue queue ⟨s.nextItem, s.nextItem, []⟩ true,
      Made.accepts (show Made _ _ ([.spawn queue, .drop s.nextItem] ++ caller.ops) s' from hmade)
        ⟨rfl, rfl, rfl⟩ rfl rfl rfl rfl rfl rfl rfl, rfl⟩
  | shared caller queue sCtx hsCtx =>
    exact ⟨.share queue ⟨s.nextItem, sCtx, []⟩,
      Made.accepts (show Made _ _ ([.spawn queue] ++ caller.ops) s' from hmade)
        ⟨rfl, rfl, rfl⟩ rfl rfl rfl rfl rfl rfl ⟨rfl, rfl, caller_refers hcaller hsCtx⟩, caller, rfl, hsCtx⟩
  | forked queue work toQueue =>
    exact ⟨.fork queue work toQueue (s.successor queue work s.nextItem),
      Made.accepts (show Made _ _ ([.spawn toQueue, .drop s.nextItem] ++ [.run queue work]) s' from hmade)
        ⟨rfl, rfl, rfl⟩ rfl rfl rfl rfl rfl rfl ⟨hcaller _ mem_cons_self, rfl⟩, rfl⟩
  | again queue work =>
    exact ⟨.again queue work (s.successor queue work work.sCtx),
      Made.accepts (show Made _ _ ([.spawn queue] ++ [.run queue work]) s' from hmade)
        ⟨rfl, rfl, rfl⟩ rfl rfl rfl rfl rfl rfl ⟨hcaller _ mem_cons_self, rfl⟩, rfl⟩
  | pushedBack queue work hfull =>
    exact ⟨.pushBack queue work (s.successor queue work s.nextItem), hmade.moves ⟨rfl, rfl⟩ rfl rfl
      (tokens_setQueue_of (WorkQueue.tokens_waiting rfl rfl)) ⟨rfl, rfl, rfl, rfl, rfl⟩ (outstanding_giveBack rfl)
      ⟨hcaller _ mem_cons_self, rfl⟩, rfl, hfull⟩
  | pushedBackSerialized queue work hfull =>
    exact ⟨.pushBackSerialized queue work (s.successor queue work work.sCtx), hmade.moves ⟨rfl, rfl⟩ rfl rfl
      (tokens_setQueue_of (WorkQueue.tokens_waiting rfl rfl)) ⟨rfl, rfl, rfl, rfl, rfl⟩ (outstanding_giveBack rfl)
      ⟨hcaller _ mem_cons_self, rfl⟩, rfl, hfull⟩
  | overflowed queue work toQueue hne hfull =>
    refine ⟨.overflow queue work toQueue (s.successor queue work s.nextItem), hmade.moves ⟨rfl, rfl⟩ rfl rfl
      (tokens_setQueue_of (WorkQueue.tokens_overflow rfl rfl)) ⟨rfl, rfl, rfl, (append_nil _).symm, rfl⟩
      (fun q => ?_) ⟨hcaller _ mem_cons_self, rfl, hne⟩, rfl⟩
    exact (add_zero _).trans (outstanding_setQueue (by rfl) q)
  | movedOn queue work toQueue hne =>
    refine ⟨.moveOn queue work toQueue (s.successor queue work work.sCtx), hmade.moves ⟨rfl, rfl⟩ rfl rfl
      (tokens_recorded (tokens_setQueue_of (WorkQueue.tokens_waiting rfl rfl)))
      ⟨rfl, rfl, rfl, (append_nil _).symm, rfl⟩ (fun q => ?_) ⟨hcaller _ mem_cons_self, rfl, hne⟩, rfl⟩
    exact (add_zero _).trans (outstanding_setQueue (by rfl) q)
  | movedOnFull queue work toQueue hne hfull =>
    refine ⟨.moveOnFull queue work toQueue (s.successor queue work work.sCtx), hmade.moves ⟨rfl, rfl⟩ rfl rfl
      (tokens_recorded (tokens_setQueue_of (WorkQueue.tokens_overflow rfl rfl)))
      ⟨rfl, rfl, rfl, (append_nil _).symm, rfl⟩ (fun q => ?_) ⟨hcaller _ mem_cons_self, rfl, hne⟩, rfl⟩
    exact (add_zero _).trans (outstanding_setQueue (by rfl) q)

section

variable (hops : caller.ops = [o]) (h : s.threads[i]? = some (o :: ops')) (hcall : s.call lim caller c = some (s₁, ops))

include hops h hcall

lemma made_of_thread : Made caller s₁ ops (s₁.setThread i (ops ++ ops')) := by
  refine ⟨?_, rfl, rfl, rfl, rfl, rfl, rfl⟩
  obtain ⟨threads, hthreads⟩ := (called_of_call hcall).threads
  have hthread : s₁.threads[i]? = some (o :: ops') := by
    rw [← hthreads, getElem?_append_left (List.getElem?_eq_some_iff.mp h).1, h]
  apply add_right_cancel (b := opTokens ops')
  rw [hops, add_assoc, ← opTokens_append, singleton_append, tokens_setThread hthread, opTokens_append, add_assoc]

lemma happens_of_thread :
    ∃ e : Event Q, e.Happens lim s (s₁.setThread i (ops ++ ops')) ∧ e.CausedBy lim s (some (caller, c)) := by
  refine (called_of_call hcall).happens (fun o' ho => ?_) (made_of_thread hops h hcall)
  rw [hops] at ho
  rw [List.mem_singleton.mp ho, mem_tokens_op]
  exact ⟨_, mem_of_getElem? h, mem_cons_self⟩

end

lemma step_happens {a : Action Q} (h : step lim s a = some s') :
    ∃ e : Event Q, e.Happens lim s s' ∧ e.CausedBy lim s (a.made s) := by
  cases a with
  | outside c =>
    obtain ⟨⟨s₁, ops⟩, hcall, rfl⟩ := map_eq_some_iff.mp h
    refine (called_of_call hcall).happens nofun ⟨?_, rfl, rfl, rfl, rfl, rfl, rfl⟩
    exact (add_zero _).trans (tokens_addThread s₁ ops)
  | call i c =>
    rw [step] at h
    split at h
    case h_3 => exact nomatch h
    case h_1 queue item ops hthread =>
      obtain ⟨⟨s₁, ops'⟩, hcall, rfl⟩ := map_eq_some_iff.mp h
      rw [Action.made, hthread]
      exact happens_of_thread rfl hthread hcall
    case h_2 sCtx ops hthread =>
      obtain ⟨⟨s₁, ops'⟩, hcall, rfl⟩ := map_eq_some_iff.mp h
      rw [Action.made, hthread]
      exact happens_of_thread rfl hthread hcall
  | exec i =>
    rw [step] at h
    split at h
    · cases h
      exact exec_happens (by assumption)
    · exact nomatch h
  | start j =>
    obtain ⟨⟨queue, item⟩, hjob, rfl⟩ := map_eq_some_iff.mp h
    refine ⟨.start queue item, ⟨?_, (append_nil _).symm, (append_nil _).symm, rfl, (append_nil _).symm, rfl,
      fun q => rfl, trivial⟩, trivial⟩
    have hjobs : (s.jobs.map fun job => Token.job job.1 job.2 : Multiset (Token Q)) =
        {.job queue item} + ((s.jobs.eraseIdx j).map fun job => Token.job job.1 job.2 : Multiset (Token Q)) := by
      obtain ⟨hj, hget⟩ := List.getElem?_eq_some_iff.mp hjob
      have hperm := getElem_cons_eraseIdx_perm hj
      rw [hget] at hperm
      exact (coe_eq_coe.mpr (hperm.map _)).symm
    refine (congrArg (· + _) (tokens_addThread { s with jobs := s.jobs.eraseIdx j } [.run queue item])).trans ?_
    rw [tokens, tokens, hjobs, Event.removed, Event.added]
    abel

end WorkQueues

end SciDB.Util
