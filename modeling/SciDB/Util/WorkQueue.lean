import SciDB.Lib.Runs
import SciDB.Lib.Sums

/-!
# Work queues

A queue hands its items over to a job queue, at most `_maxOutstanding` at a time. An item that runs may move on to another
queue; its slot is given back when that has room (`_overflowQueue`), or when the serialization context is destroyed. A call is
cut where it takes or drops a lock: a thread is the list of the operations it has still to do. A context lives as long as
something refers to it. `trail` is where an item was. Left out: the end of queues.
-/

namespace SciDB.Util

open List Option

variable {Q : Type}

/-- A place of a spawned item. -/
structure Slot (Q : Type) where
  queue : Q
  item : ℕ
deriving DecidableEq, Repr

/-- An `InternalWorkItem`. -/
structure WorkItem (Q : Type) where
  id : ℕ
  sCtx : ℕ
  /-- The items that have moved on to this one, the last one first. -/
  trail : List (Slot Q)
deriving DecidableEq, Repr

/-- A `WorkQueue`. -/
structure WorkQueue (Q : Type) where
  workQueue : List (WorkItem Q)
  overflowQueue : List (WorkItem Q × Option (Slot Q))
  outstanding : ℤ
  reserved : ℕ
  isStarted : Bool
deriving DecidableEq, Repr

/-- The limits of the queues. -/
structure Limits (Q : Type) where
  maxOutstanding : Q → ℕ
  maxSize : Q → ℕ

namespace WorkQueue

variable (maxOutstanding maxSize : ℕ) (wq : WorkQueue Q) (item : WorkItem Q)

def size : ℤ := wq.outstanding + wq.reserved + wq.workQueue.length

/-- `enqueue`, if there is room. -/
def enqueue : Option (WorkQueue Q) :=
  if maxSize < wq.size + 1 then none else some { wq with workQueue := wq.workQueue ++ [item] }

def reserve : Option (WorkQueue Q) :=
  if maxSize < wq.size + 1 then none else some { wq with reserved := wq.reserved + 1 }

/-- `reserve(fromQueue)`. -/
def reserveFrom (isSameQueue : Bool) : Option (WorkQueue Q) :=
  if wq.size + 1 ≤ maxSize then some { wq with reserved := wq.reserved + 1 }
  else if isSameQueue then some { wq with reserved := wq.reserved + 1 }
  else none

/-- `unreserve`, if reserved. -/
def unreserve : Option (WorkQueue Q) :=
  if wq.reserved ≤ 0 then none else some { wq with reserved := wq.reserved - 1 }

def enqueueReserved : Option (WorkQueue Q) :=
  if wq.reserved ≤ 0 then none
  else some { wq with workQueue := wq.workQueue ++ [item], reserved := wq.reserved - 1 }

/-- `reEnqueueInternal`, and whether it throws a `PushBackException`. -/
def reEnqueueInternal (fromQueue : Option (Slot Q)) (isSameQueue : Bool) : WorkQueue Q × Bool :=
  if wq.size + 1 ≤ maxSize then ({ wq with workQueue := wq.workQueue ++ [item] }, false)
  else if isSameQueue then
    ({ wq with workQueue := wq.workQueue ++ [item], outstanding := wq.outstanding - 1 }, true)
  else ({ wq with overflowQueue := wq.overflowQueue ++ [(item, fromQueue)] }, true)

/-- The first loop of `spawn`, with the rest of `_overflowQueue`: the queues to be released. -/
def transferOverflow : WorkQueue Q → List (WorkItem Q × Option (Slot Q)) → WorkQueue Q × List (Option (Slot Q))
  | wq, [] => ({ wq with overflowQueue := [] }, [])
  | wq, entry :: entries =>
    if wq.size < maxSize then
      let r := transferOverflow { wq with workQueue := wq.workQueue ++ [entry.1] } entries
      (r.1, entry.2 :: r.2)
    else ({ wq with overflowQueue := entry :: entries }, [])

/-- The second loop of `spawn`, with the rest of `_workQueue`: the items to be spawned. -/
def findItems : WorkQueue Q → List (WorkItem Q) → WorkQueue Q × List (WorkItem Q)
  | wq, [] => ({ wq with workQueue := [] }, [])
  | wq, item :: items =>
    if wq.outstanding < maxOutstanding then
      let r := findItems { wq with outstanding := wq.outstanding + 1 } items
      (r.1, item :: r.2)
    else ({ wq with workQueue := item :: items }, [])

def spawn : WorkQueue Q × List (Option (Slot Q)) × List (WorkItem Q) :=
  if wq.isStarted then
    let t := wq.transferOverflow maxSize wq.overflowQueue
    let f := t.1.findItems maxOutstanding t.1.workQueue
    (f.1, t.2, f.2)
  else (wq, [], [])

/-- Nothing waits that could go on. -/
def Balanced : Prop :=
  (wq.workQueue ≠ [] → maxOutstanding ≤ wq.outstanding) ∧ (wq.overflowQueue ≠ [] → maxSize ≤ wq.size)

lemma reEnqueueInternal_cases (fromQueue : Option (Slot Q)) (isSameQueue : Bool) : wq.size + 1 ≤ maxSize ∧
        wq.reEnqueueInternal maxSize item fromQueue isSameQueue = ({ wq with workQueue := wq.workQueue ++ [item] }, false) ∨
      (maxSize ≤ wq.size ∧ isSameQueue = true) ∧ wq.reEnqueueInternal maxSize item fromQueue isSameQueue =
          ({ wq with workQueue := wq.workQueue ++ [item], outstanding := wq.outstanding - 1 }, true) ∨
      (maxSize ≤ wq.size ∧ isSameQueue = false) ∧ wq.reEnqueueInternal maxSize item fromQueue isSameQueue =
          ({ wq with overflowQueue := wq.overflowQueue ++ [(item, fromQueue)] }, true) := by
  rw [reEnqueueInternal]
  split_ifs with hroom hsame
  · exact .inl ⟨hroom, rfl⟩
  · exact .inr (.inl ⟨⟨by omega, hsame⟩, rfl⟩)
  · exact .inr (.inr ⟨⟨by omega, Bool.eq_false_iff.mpr hsame⟩, rfl⟩)

lemma transferOverflow_spec (entries : List (WorkItem Q × Option (Slot Q))) : ∃ moved rest, entries = moved ++ rest ∧
      wq.transferOverflow maxSize entries =
        ({ wq with workQueue := wq.workQueue ++ moved.map Prod.fst, overflowQueue := rest }, moved.map Prod.snd) ∧
      (rest ≠ [] → maxSize ≤ wq.size + moved.length) := by
  induction entries generalizing wq with
  | nil => exact ⟨[], [], rfl, by simp [transferOverflow], fun h => absurd rfl h⟩
  | cons entry entries ih =>
    by_cases hsize : wq.size < maxSize
    · obtain ⟨moved, rest, rfl, htransfer, hfull⟩ := ih { wq with workQueue := wq.workQueue ++ [entry.1] }
      refine ⟨entry :: moved, rest, rfl, ?_, fun hrest => ?_⟩
      · rw [transferOverflow, if_pos hsize, htransfer]
        simp
      · have := hfull hrest
        simp only [size, length_append, length_cons, length_nil] at this ⊢
        omega
    · refine ⟨[], entry :: entries, rfl, ?_, fun _ => ?_⟩
      · rw [transferOverflow, if_neg hsize]
        simp
      · simpa using hsize

lemma findItems_spec (items : List (WorkItem Q)) : ∃ found waiting, items = found ++ waiting ∧
      wq.findItems maxOutstanding items =
        ({ wq with workQueue := waiting, outstanding := wq.outstanding + found.length }, found) ∧
      (waiting ≠ [] → maxOutstanding ≤ wq.outstanding + found.length) ∧
      (wq.outstanding ≤ maxOutstanding → wq.outstanding + found.length ≤ maxOutstanding) := by
  induction items generalizing wq with
  | nil => exact ⟨[], [], rfl, by simp [findItems], fun h => absurd rfl h, by simp⟩
  | cons item items ih =>
    by_cases hroom : wq.outstanding < maxOutstanding
    · obtain ⟨found, waiting, rfl, hfind, hfull, hle⟩ := ih { wq with outstanding := wq.outstanding + 1 }
      refine ⟨item :: found, waiting, rfl, ?_, fun hwaiting => ?_, fun _ => ?_⟩
      · rw [findItems, if_pos hroom, hfind, length_cons]
        dsimp only
        congr 2
        push_cast
        omega
      · have := hfull hwaiting
        simp only [length_cons] at this ⊢
        omega
      · have := hle (Int.add_one_le_of_lt hroom)
        simp only [length_cons] at this ⊢
        omega
    · refine ⟨[], item :: items, rfl, ?_, fun _ => ?_, fun h => ?_⟩
      · rw [findItems, if_neg hroom]
        simp
      · simpa using hroom
      · simpa using h

lemma spawn_spec : ∃ moved rest found waiting, wq.overflowQueue = moved ++ rest ∧
      wq.workQueue ++ moved.map Prod.fst = found ++ waiting ∧ wq.spawn maxOutstanding maxSize = ({ wq with
            workQueue := waiting, overflowQueue := rest, outstanding := wq.outstanding + found.length },
          moved.map Prod.snd, found) ∧ (wq.outstanding ≤ maxOutstanding → wq.outstanding + found.length ≤ maxOutstanding) ∧
      (wq.isStarted = true → (wq.spawn maxOutstanding maxSize).1.Balanced maxOutstanding maxSize) := by
  by_cases hstarted : wq.isStarted = true
  · obtain ⟨moved, rest, hoverflow, htransfer, hfull⟩ := wq.transferOverflow_spec maxSize wq.overflowQueue
    obtain ⟨found, waiting, hwork, hfind, hall, hle⟩ :=
      findItems_spec maxOutstanding { wq with workQueue := _, overflowQueue := rest } (wq.workQueue ++ moved.map Prod.fst)
    have hspawn : wq.spawn maxOutstanding maxSize =
        ({ wq with workQueue := waiting, overflowQueue := rest, outstanding := wq.outstanding + found.length },
          moved.map Prod.snd, found) := by
      rw [spawn, if_pos hstarted, htransfer]
      dsimp only
      rw [hfind]
    refine ⟨moved, rest, found, waiting, hoverflow, hwork, hspawn, hle, fun _ => ?_⟩
    rw [hspawn]
    refine ⟨hall, fun hrest => ?_⟩
    have hsize := hfull hrest
    have hlength := congrArg length hwork
    simp only [size, length_append, length_map] at hsize hlength ⊢
    omega
  · have hspawn : wq.spawn maxOutstanding maxSize = (wq, [], []) := if_neg hstarted
    exact ⟨[], wq.overflowQueue, [], wq.workQueue, rfl, by simp, by simp [hspawn], by simp, fun h => absurd h hstarted⟩

end WorkQueue

/-- An operation to be done. -/
inductive QueueOp (Q : Type) where
  | spawn (queue : Q)
  | release (slot : Slot Q)
  | pushJob (queue : Q) (item : WorkItem Q)
  | run (queue : Q) (item : WorkItem Q)
  | hold (sCtx : ℕ)
  | drop (sCtx : ℕ)
deriving DecidableEq, Repr

/-- The context of an operation. -/
def QueueOp.sCtx : QueueOp Q → Option ℕ
  | .pushJob _ item | .run _ item => some item.sCtx
  | .hold sCtx | .drop sCtx => some sCtx
  | _ => none

/-- The code that makes a call. -/
inductive Caller (Q : Type) where
  | outside
  | holder (sCtx : ℕ)
  | running (queue : Q) (item : WorkItem Q)
deriving DecidableEq, Repr

/-- What goes on after a call. -/
def Caller.ops : Caller Q → List (QueueOp Q)
  | .outside => []
  | .holder sCtx => [.hold sCtx]
  | .running queue item => [.run queue item]

/-- The context of a caller. -/
def Caller.sCtx : Caller Q → Option ℕ
  | .outside => none
  | .holder sCtx => some sCtx
  | .running _ item => some item.sCtx

/-- A call. -/
inductive Call (Q : Type) where
  | enqueue (toQueue : Q)
  | reserve (toQueue : Q)
  | reserveFrom (toQueue : Q)
  | unreserve (toQueue : Q)
  | enqueueReserved (toQueue : Q) (shared : Bool)
  | reEnqueue (toQueue : Q)
  | reEnqueueSerialized (toQueue : Q)
  | start (queue : Q)
  | stop (queue : Q)
  | leave
deriving DecidableEq, Repr

structure WorkQueues (Q : Type) where
  queues : Q → WorkQueue Q
  queuesToRelease : List (ℕ × Slot Q)
  jobs : List (Q × WorkItem Q)
  threads : List (List (QueueOp Q))
  nextItem : ℕ
  accepted : List (Slot Q)
  spawned : List (Slot Q)
  started : List (Slot Q)
  givenBack : List (Slot Q)

namespace WorkQueues

/-- There is nothing in the queues. -/
def init (isStarted : Bool) : WorkQueues Q where
  queues _ := { workQueue := [], overflowQueue := [], outstanding := 0, reserved := 0, isStarted := isStarted }
  queuesToRelease := []
  jobs := []
  threads := []
  nextItem := 0
  accepted := []
  spawned := []
  started := []
  givenBack := []

variable [DecidableEq Q] (lim : Limits Q) (s : WorkQueues Q)

variable (queue : Q)

/-- A queue changes. -/
def setQueue (wq : WorkQueue Q) : WorkQueues Q := { s with queues := Function.update s.queues queue wq }

@[simp]
lemma setQueue_self (wq : WorkQueue Q) : (s.setQueue queue wq).queues queue = wq := by
  simp [setQueue]

lemma setQueue_of_ne {queue q : Q} (h : q ≠ queue) (wq : WorkQueue Q) : (s.setQueue queue wq).queues q = s.queues q := by
  simp [setQueue, h]

def setThread (i : ℕ) (ops : List (QueueOp Q)) : WorkQueues Q := { s with threads := s.threads.set i ops }

/-- A new item is accepted. -/
def accept : WorkQueues Q :=
  { s with nextItem := s.nextItem + 1, accepted := s.accepted ++ [⟨queue, s.nextItem⟩] }

/-- A slot is given back. -/
def giveBack (slot : Slot Q) : WorkQueues Q := { s with givenBack := s.givenBack ++ [slot] }

/-- References to a context. -/
def useCount [Fintype Q] (sCtx : ℕ) : ℕ :=
  ∑ q, ((s.queues q).workQueue.countP (·.sCtx == sCtx) + (s.queues q).overflowQueue.countP (·.1.sCtx == sCtx)) +
    s.jobs.countP (·.2.sCtx == sCtx) + s.threads.flatten.countP (·.sCtx == some sCtx)

/-- `reEnqueue` by an item. -/
def reEnqueue (fromQueue : Q) (work : WorkItem Q) (toQueue : Q) : WorkQueues Q × List (QueueOp Q) :=
  let sCtx := s.nextItem
  let item : WorkItem Q := ⟨s.nextItem, sCtx, ⟨fromQueue, work.id⟩ :: work.trail⟩
  let isSameQueue := decide (toQueue = fromQueue)
  let r := (s.queues toQueue).reEnqueueInternal (lim.maxSize toQueue) item (some ⟨fromQueue, work.id⟩) isSameQueue
  let s' := (s.setQueue toQueue r.1).accept toQueue
  if r.2 then
    -- A `PushBackException`; `sCtx` goes, and the item with its own context.
    (if isSameQueue then s'.giveBack ⟨fromQueue, work.id⟩ else s', [.drop sCtx, .drop work.sCtx])
  else (s', [.spawn toQueue, .drop sCtx, .run fromQueue work])

def reEnqueueSerialized (fromQueue : Q) (work : WorkItem Q) (toQueue : Q) : WorkQueues Q × List (QueueOp Q) :=
  let item : WorkItem Q := ⟨s.nextItem, work.sCtx, ⟨fromQueue, work.id⟩ :: work.trail⟩
  let isSameQueue := decide (toQueue = fromQueue)
  let r := (s.queues toQueue).reEnqueueInternal (lim.maxSize toQueue) item none isSameQueue
  let s' := (s.setQueue toQueue r.1).accept toQueue
  if isSameQueue then
    if r.2 then (s'.giveBack ⟨fromQueue, work.id⟩, [.drop work.sCtx])
    else (s', [.spawn toQueue, .run fromQueue work])
  else
    -- The context records the queue, and a `PushBackException` is thrown in any case.
    let s' := { s' with queuesToRelease := s'.queuesToRelease ++ [(work.sCtx, ⟨fromQueue, work.id⟩)] }
    (s', if r.2 then [.drop work.sCtx] else [.spawn toQueue, .drop work.sCtx])

/-- Up to the point where it drops the lock; `none` for a call that the interface does not allow. -/
def call (caller : Caller Q) : Call Q → Option (WorkQueues Q × List (QueueOp Q))
  | .enqueue toQueue =>
    match (s.queues toQueue).enqueue (lim.maxSize toQueue) ⟨s.nextItem, s.nextItem, []⟩ with
    | none => some (s, caller.ops)
    | some wq => some ((s.setQueue toQueue wq).accept toQueue, .spawn toQueue :: caller.ops)
  | .reserve toQueue =>
    match (s.queues toQueue).reserve (lim.maxSize toQueue) with
    | none => some (s, caller.ops)
    | some wq => some (s.setQueue toQueue wq, caller.ops)
  | .reserveFrom toQueue =>
    match caller with
    | .running fromQueue _ =>
      match (s.queues toQueue).reserveFrom (lim.maxSize toQueue) (decide (toQueue = fromQueue)) with
      | none => some (s, caller.ops)
      | some wq => some (s.setQueue toQueue wq, caller.ops)
    | _ => none
  | .unreserve toQueue => (s.queues toQueue).unreserve.map fun wq => (s.setQueue toQueue wq, caller.ops)
  | .enqueueReserved toQueue shared =>
    match shared, caller.sCtx with
    | false, _ => ((s.queues toQueue).enqueueReserved ⟨s.nextItem, s.nextItem, []⟩).map fun wq =>
        ((s.setQueue toQueue wq).accept toQueue, .spawn toQueue :: .drop s.nextItem :: caller.ops)
    | true, some sCtx => ((s.queues toQueue).enqueueReserved ⟨s.nextItem, sCtx, []⟩).map fun wq =>
        ((s.setQueue toQueue wq).accept toQueue, .spawn toQueue :: caller.ops)
    | true, none => none
  | .reEnqueue toQueue =>
    match caller with
    | .running fromQueue work => some (s.reEnqueue lim fromQueue work toQueue)
    | _ => none
  | .reEnqueueSerialized toQueue =>
    match caller with
    | .running fromQueue work => some (s.reEnqueueSerialized lim fromQueue work toQueue)
    | _ => none
  | .start queue => some (s.setQueue queue { s.queues queue with isStarted := true }, .spawn queue :: caller.ops)
  | .stop queue => some (s.setQueue queue { s.queues queue with isStarted := false }, caller.ops)
  | .leave => caller.sCtx.map fun sCtx => ({ s with threads := s.threads ++ [[.hold sCtx]] }, caller.ops)

/-- The next operation of a thread, and the operations that come in its place. -/
def exec [Fintype Q] : QueueOp Q → WorkQueues Q × List (QueueOp Q)
  | .spawn queue =>
    let r := (s.queues queue).spawn (lim.maxOutstanding queue) (lim.maxSize queue)
    ({ s.setQueue queue r.1 with spawned := s.spawned ++ r.2.2.map fun item => ⟨queue, item.id⟩ },
      (r.2.1.filterMap id).map .release ++ r.2.2.map (.pushJob queue))
  | .release slot =>
    let wq := s.queues slot.queue
    ((s.setQueue slot.queue { wq with outstanding := wq.outstanding - 1 }).giveBack slot, [.spawn slot.queue])
  | .pushJob queue item => ({ s with jobs := s.jobs ++ [(queue, item)] }, [])
  -- The code returns or throws: `cleanupWorkItem(true)`.
  | .run queue item => (s, [.drop item.sCtx, .release ⟨queue, item.id⟩])
  | .hold sCtx => (s, [.drop sCtx])
  | .drop sCtx =>
    if s.useCount sCtx = 0 then
      -- `~SerializationCtx`.
      ({ s with queuesToRelease := s.queuesToRelease.filter (·.1 ≠ sCtx) },
        ((s.queuesToRelease.filter (·.1 = sCtx)).reverse.map fun r => .release r.2))
    else (s, [])

/-- A step. -/
inductive Action (Q : Type) where
  | outside (c : Call Q)
  | call (i : ℕ) (c : Call Q)
  | exec (i : ℕ)
  | start (j : ℕ)
deriving DecidableEq, Repr

/-- The call of a step. -/
def Action.made (s : WorkQueues Q) : Action Q → Option (Caller Q × Call Q)
  | .outside c => some (.outside, c)
  | .call i c =>
    match s.threads[i]? with
    | some (.run queue item :: _) => some (.running queue item, c)
    | some (.hold sCtx :: _) => some (.holder sCtx, c)
    | _ => none
  | _ => none

/-- What a step does. -/
def step [Fintype Q] : WorkQueues Q → Action Q → Option (WorkQueues Q)
  | s, .outside c => (s.call lim .outside c).map fun r => { r.1 with threads := r.1.threads ++ [r.2] }
  | s, .call i c =>
    match s.threads[i]? with
    | some (.run queue item :: ops) => (s.call lim (.running queue item) c).map fun r => r.1.setThread i (r.2 ++ ops)
    | some (.hold sCtx :: ops) => (s.call lim (.holder sCtx) c).map fun r => r.1.setThread i (r.2 ++ ops)
    | _ => none
  | s, .exec i =>
    match s.threads[i]? with
    | some (op :: ops) =>
      let r := (s.setThread i ops).exec lim op
      some (r.1.setThread i (r.2 ++ ops))
    | _ => none
  | s, .start j => s.jobs[j]?.map fun job =>
      { s with
        jobs := s.jobs.eraseIdx j
        started := s.started ++ [⟨job.1, job.2.id⟩]
        threads := s.threads ++ [[.run job.1 job.2]] }

/-- The item that `work` becomes when it moves on from `queue`, with this context. -/
def successor (work : WorkItem Q) (sCtx : ℕ) : WorkItem Q :=
  ⟨s.nextItem, sCtx, ⟨queue, work.id⟩ :: work.trail⟩

/-- An item is put on a queue. -/
def pushed (item : WorkItem Q) : WorkQueues Q :=
  (s.setQueue queue { s.queues queue with workQueue := (s.queues queue).workQueue ++ [item] }).accept queue

/-- An item overflows. -/
def overflowed (item : WorkItem Q) (fromQueue : Option (Slot Q)) : WorkQueues Q :=
  (s.setQueue queue
    { s.queues queue with overflowQueue := (s.queues queue).overflowQueue ++ [(item, fromQueue)] }).accept queue

/-- An item is put back. -/
def pushedBack (work item : WorkItem Q) : WorkQueues Q :=
  ((s.setQueue queue { s.queues queue with
      workQueue := (s.queues queue).workQueue ++ [item]
      outstanding := (s.queues queue).outstanding - 1 }).accept queue).giveBack ⟨queue, work.id⟩

/-- A context records a queue. -/
def recorded (work : WorkItem Q) : WorkQueues Q :=
  { s with queuesToRelease := s.queuesToRelease ++ [(work.sCtx, ⟨queue, work.id⟩)] }

/-- What can come of a call. -/
inductive Called : Caller Q → Call Q → WorkQueues Q → List (QueueOp Q) → Prop where
  | nothing (caller : Caller Q) (c : Call Q) : Called caller c s caller.ops
  | reserved (caller : Caller Q) (c : Call Q) (queue : Q) :
      Called caller c (s.setQueue queue { s.queues queue with reserved := (s.queues queue).reserved + 1 }) caller.ops
  | unreserved (caller : Caller Q) (queue : Q) (h : 0 < (s.queues queue).reserved) :
      Called caller (.unreserve queue)
        (s.setQueue queue { s.queues queue with reserved := (s.queues queue).reserved - 1 }) caller.ops
  | started (caller : Caller Q) (queue : Q) :
      Called caller (.start queue) (s.setQueue queue { s.queues queue with isStarted := true }) (.spawn queue :: caller.ops)
  | stopped (caller : Caller Q) (queue : Q) :
      Called caller (.stop queue) (s.setQueue queue { s.queues queue with isStarted := false }) caller.ops
  | left (caller : Caller Q) (sCtx : ℕ) (h : caller.sCtx = some sCtx) :
      Called caller .leave { s with threads := s.threads ++ [[.hold sCtx]] } caller.ops
  | enqueued (caller : Caller Q) (queue : Q) :
      Called caller (.enqueue queue) (s.pushed queue ⟨s.nextItem, s.nextItem, []⟩) (.spawn queue :: caller.ops)
  | enqueuedReserved (caller : Caller Q) (queue : Q) :
      Called caller (.enqueueReserved queue false) ((s.setQueue queue { s.queues queue with
          workQueue := (s.queues queue).workQueue ++ [⟨s.nextItem, s.nextItem, []⟩]
          reserved := (s.queues queue).reserved - 1 }).accept queue)
        (.spawn queue :: .drop s.nextItem :: caller.ops)
  | shared (caller : Caller Q) (queue : Q) (sCtx : ℕ) (h : caller.sCtx = some sCtx) :
      Called caller (.enqueueReserved queue true) ((s.setQueue queue { s.queues queue with
          workQueue := (s.queues queue).workQueue ++ [⟨s.nextItem, sCtx, []⟩]
          reserved := (s.queues queue).reserved - 1 }).accept queue)
        (.spawn queue :: caller.ops)
  | forked (queue : Q) (work : WorkItem Q) (toQueue : Q) :
      Called (.running queue work) (.reEnqueue toQueue) (s.pushed toQueue (s.successor queue work s.nextItem))
        [.spawn toQueue, .drop s.nextItem, .run queue work]
  | again (queue : Q) (work : WorkItem Q) :
      Called (.running queue work) (.reEnqueueSerialized queue) (s.pushed queue (s.successor queue work work.sCtx))
        [.spawn queue, .run queue work]
  | pushedBack (queue : Q) (work : WorkItem Q) (hfull : lim.maxSize queue ≤ (s.queues queue).size) :
      Called (.running queue work) (.reEnqueue queue) (s.pushedBack queue work (s.successor queue work s.nextItem))
        [.drop s.nextItem, .drop work.sCtx]
  | pushedBackSerialized (queue : Q) (work : WorkItem Q) (hfull : lim.maxSize queue ≤ (s.queues queue).size) :
      Called (.running queue work) (.reEnqueueSerialized queue)
        (s.pushedBack queue work (s.successor queue work work.sCtx)) [.drop work.sCtx]
  | overflowed (queue : Q) (work : WorkItem Q) (toQueue : Q) (hne : toQueue ≠ queue)
      (hfull : lim.maxSize toQueue ≤ (s.queues toQueue).size) :
      Called (.running queue work) (.reEnqueue toQueue)
        (s.overflowed toQueue (s.successor queue work s.nextItem) (some ⟨queue, work.id⟩))
        [.drop s.nextItem, .drop work.sCtx]
  | movedOn (queue : Q) (work : WorkItem Q) (toQueue : Q) (hne : toQueue ≠ queue) :
      Called (.running queue work) (.reEnqueueSerialized toQueue)
        ((s.pushed toQueue (s.successor queue work work.sCtx)).recorded queue work) [.spawn toQueue, .drop work.sCtx]
  | movedOnFull (queue : Q) (work : WorkItem Q) (toQueue : Q) (hne : toQueue ≠ queue)
      (hfull : lim.maxSize toQueue ≤ (s.queues toQueue).size) :
      Called (.running queue work) (.reEnqueueSerialized toQueue)
        ((s.overflowed toQueue (s.successor queue work work.sCtx) none).recorded queue work) [.drop work.sCtx]

lemma reEnqueue_called (queue : Q) (work : WorkItem Q) (toQueue : Q) :
    Called lim s (.running queue work) (.reEnqueue toQueue) (s.reEnqueue lim queue work toQueue).1
      (s.reEnqueue lim queue work toQueue).2 := by
  obtain ⟨_, hr⟩ | ⟨⟨hfull, hsame⟩, hr⟩ | ⟨⟨hfull, hsame⟩, hr⟩ := (s.queues toQueue).reEnqueueInternal_cases
    (lim.maxSize toQueue) ⟨s.nextItem, s.nextItem, ⟨queue, work.id⟩ :: work.trail⟩ (some ⟨queue, work.id⟩)
    (decide (toQueue = queue))
  · rw [reEnqueue, hr]
    exact .forked queue work toQueue
  · rw [reEnqueue, hr]
    rw [if_pos rfl, if_pos hsame]
    obtain rfl := of_decide_eq_true hsame
    exact .pushedBack toQueue work hfull
  · rw [reEnqueue, hr]
    rw [if_pos rfl, if_neg (by rw [hsame]; exact nofun)]
    exact .overflowed queue work toQueue (of_decide_eq_false hsame) hfull

lemma reEnqueueSerialized_called (queue : Q) (work : WorkItem Q) (toQueue : Q) :
    Called lim s (.running queue work) (.reEnqueueSerialized toQueue) (s.reEnqueueSerialized lim queue work toQueue).1
      (s.reEnqueueSerialized lim queue work toQueue).2 := by
  obtain ⟨_, hr⟩ | ⟨⟨hfull, hsame⟩, hr⟩ | ⟨⟨hfull, hsame⟩, hr⟩ := (s.queues toQueue).reEnqueueInternal_cases
    (lim.maxSize toQueue) ⟨s.nextItem, work.sCtx, ⟨queue, work.id⟩ :: work.trail⟩ none (decide (toQueue = queue))
  · rw [reEnqueueSerialized, hr]
    by_cases hsame : toQueue = queue
    · rw [if_pos (decide_eq_true hsame), if_neg nofun]
      obtain rfl := hsame
      exact .again toQueue work
    · rw [if_neg (by simpa using hsame), if_neg nofun]
      exact .movedOn queue work toQueue hsame
  · rw [reEnqueueSerialized, hr]
    rw [if_pos hsame, if_pos rfl]
    obtain rfl := of_decide_eq_true hsame
    exact .pushedBackSerialized toQueue work hfull
  · rw [reEnqueueSerialized, hr]
    rw [if_neg (by rw [hsame]; exact nofun), if_pos rfl]
    exact .movedOnFull queue work toQueue (of_decide_eq_false hsame) hfull

variable {lim s} {caller : Caller Q} {c : Call Q} {s₁ : WorkQueues Q} {ops : List (QueueOp Q)}

lemma called_of_call (h : s.call lim caller c = some (s₁, ops)) : Called lim s caller c s₁ ops := by
  cases c with
  | enqueue toQueue | reserve toQueue =>
    rw [call] at h
    split at h
    case h_1 =>
      cases h
      exact .nothing caller _
    case h_2 wq hwq =>
      cases h
      obtain ⟨_, hwq⟩ := ite_none_left_eq_some.mp hwq
      cases hwq
      first | exact .enqueued caller toQueue | exact .reserved caller _ toQueue
  | reserveFrom toQueue =>
    cases caller with
    | outside | holder => exact nomatch h
    | running fromQueue work =>
      rw [call] at h
      split at h
      case h_1 =>
        cases h
        exact .nothing _ _
      case h_2 wq hwq =>
        cases h
        rw [WorkQueue.reserveFrom] at hwq
        split_ifs at hwq <;> cases hwq <;> exact .reserved _ _ toQueue
  | unreserve toQueue =>
    obtain ⟨wq, hwq, h⟩ := map_eq_some_iff.mp h
    cases h
    obtain ⟨hreserved, hwq⟩ := ite_none_left_eq_some.mp hwq
    cases hwq
    exact .unreserved caller toQueue (Nat.pos_of_ne_zero fun hzero => hreserved hzero.le)
  | enqueueReserved toQueue shared =>
    cases shared with
    | false =>
      obtain ⟨wq, hwq, h⟩ := map_eq_some_iff.mp (by rwa [call] at h)
      cases h
      obtain ⟨_, hwq⟩ := ite_none_left_eq_some.mp hwq
      cases hwq
      exact .enqueuedReserved caller toQueue
    | true =>
      rcases hsCtx : caller.sCtx with _ | sCtx
      · simp only [call, hsCtx] at h
        exact nomatch h
      · simp only [call, hsCtx] at h
        obtain ⟨wq, hwq, h⟩ := map_eq_some_iff.mp h
        cases h
        obtain ⟨_, hwq⟩ := ite_none_left_eq_some.mp hwq
        cases hwq
        exact .shared caller toQueue sCtx hsCtx
  | reEnqueue toQueue =>
    cases caller with
    | outside | holder => exact nomatch h
    | running queue work =>
      have h : s.reEnqueue lim queue work toQueue = (s₁, ops) := some.inj h
      have hcalled := reEnqueue_called lim s queue work toQueue
      rwa [h] at hcalled
  | reEnqueueSerialized toQueue =>
    cases caller with
    | outside | holder => exact nomatch h
    | running queue work =>
      have h : s.reEnqueueSerialized lim queue work toQueue = (s₁, ops) := some.inj h
      have hcalled := reEnqueueSerialized_called lim s queue work toQueue
      rwa [h] at hcalled
  | start queue =>
    cases h
    exact .started caller queue
  | stop queue =>
    cases h
    exact .stopped caller queue
  | leave =>
    obtain ⟨sCtx, hsCtx, h⟩ := map_eq_some_iff.mp h
    cases h
    exact .left caller sCtx hsCtx

lemma Called.threads (h : Called lim s caller c s₁ ops) : s.threads <+: s₁.threads := by
  cases h with
  | left => exact prefix_append _ _
  | _ => exact prefix_refl _

end WorkQueues

end SciDB.Util
