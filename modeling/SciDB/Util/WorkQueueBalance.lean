import SciDB.Util.WorkQueueSlots

/-!
# Work that waits

A call that leaves items waiting in a queue that could go on must be followed by a `spawn`. Two are not: an item put back on its
own full queue, and `unreserve`.
-/

namespace SciDB.Util

open SciDB.Lib List Option

variable {Q : Type} [DecidableEq Q]

namespace WorkQueues

/-- What a step may do to a queue if no `spawn` follows. -/
inductive Unspawned (lim : Limits Q) (s : WorkQueues Q) (made : Option (Caller Q × Call Q)) (q : Q) (wq : WorkQueue Q) : Prop where
  | same (h : wq = s.queues q)
  | reserved (h : wq = { s.queues q with reserved := (s.queues q).reserved + 1 })
  | overflow (entry : WorkItem Q × Option (Slot Q)) (hfull : lim.maxSize q ≤ (s.queues q).size)
      (h : wq = { s.queues q with overflowQueue := (s.queues q).overflowQueue ++ [entry] })
  | pushBack (work : WorkItem Q) (hfull : lim.maxSize q ≤ (s.queues q).size)
      (h : made = some (.running q work, .reEnqueue q) ∨ made = some (.running q work, .reEnqueueSerialized q))
  | unreserved (caller : Caller Q) (hmade : made = some (caller, .unreserve q)) (hreserved : 0 < (s.queues q).reserved)
      (h : wq = { s.queues q with reserved := (s.queues q).reserved - 1 })
  | stopped (h : wq.isStarted = false)

variable {lim : Limits Q} {s s₁ s' : WorkQueues Q} {caller : Caller Q} {c : Call Q} {ops : List (QueueOp Q)}

variable {made : Option (Caller Q × Call Q)} {q : Q} {i : ℕ} {o : QueueOp Q} {rest : List (QueueOp Q)}
  {a : Action Q}

lemma unspawned_setQueue {queue : Q} {wq : WorkQueue Q} (h : Unspawned lim s made queue wq ∨ .spawn queue ∈ ops) :
    Unspawned lim s made q ((s.setQueue queue wq).queues q) ∨ .spawn q ∈ ops := by
  by_cases hq : q = queue
  · rwa [hq, setQueue_self]
  · rw [setQueue_of_ne s hq]
    exact .inl (.same rfl)

lemma Called.unspawned (h : Called lim s caller c s₁ ops) (q : Q) :
    Unspawned lim s (some (caller, c)) q (s₁.queues q) ∨ .spawn q ∈ ops := by
  cases h with
  | nothing | left => exact .inl (.same rfl)
  | reserved => exact unspawned_setQueue (.inl (.reserved rfl))
  | unreserved caller queue hreserved => exact unspawned_setQueue (.inl (.unreserved caller rfl hreserved rfl))
  | stopped => exact unspawned_setQueue (.inl (.stopped rfl))
  | started | enqueued | enqueuedReserved | shared | forked | again | movedOn =>
    exact unspawned_setQueue (.inr mem_cons_self)
  | pushedBack queue work hfull => exact unspawned_setQueue (.inl (.pushBack work hfull (.inl rfl)))
  | pushedBackSerialized queue work hfull => exact unspawned_setQueue (.inl (.pushBack work hfull (.inr rfl)))
  | overflowed queue work toQueue hne hfull | movedOnFull queue work toQueue hne hfull =>
    exact unspawned_setQueue (.inl (.overflow _ hfull rfl))

/-- A `spawn` of a queue is to be done. -/
def SpawnDue (s : WorkQueues Q) (q : Q) : Prop := ∃ ops ∈ s.threads, .spawn q ∈ ops

omit [DecidableEq Q] in
lemma SpawnDue.setThread {ops : List (QueueOp Q)} (hdue : s.SpawnDue q) (h : s.threads[i]? = some (o :: ops))
    (ho : o ≠ .spawn q) (hthreads : s.threads <+: s₁.threads) (ops' : List (QueueOp Q)) :
    (s₁.setThread i (ops' ++ ops)).SpawnDue q := by
  obtain ⟨l, hl, hspawn⟩ := hdue
  obtain ⟨j, hj, rfl⟩ := mem_iff_getElem.mp hl
  obtain ⟨hi, hget⟩ := List.getElem?_eq_some_iff.mp h
  have hle := hthreads.length_le
  by_cases hij : i = j
  · subst hij
    rw [hget] at hspawn
    have hrest : QueueOp.spawn q ∈ ops := (mem_cons.mp hspawn).resolve_left fun heq => ho heq.symm
    exact ⟨_, mem_set (by omega) _, mem_append_right _ hrest⟩
  · refine ⟨s.threads[j], ?_, hspawn⟩
    apply mem_of_getElem? (i := j)
    rw [WorkQueues.setThread, getElem?_set_ne hij, ← getElem?_eq_getElem hj]
    obtain ⟨more, hmore⟩ := hthreads
    rw [← hmore, getElem?_append_left hj]

lemma Called.thread_unspawned (h : Called lim s caller c s₁ ops) (hthread : s.threads[i]? = some (o :: rest))
    (q : Q) (ho : o ≠ .spawn q) : (s₁.setThread i (ops ++ rest)).SpawnDue q ∨ Unspawned lim s (some (caller, c)) q (s₁.queues q) ∧
      (s.SpawnDue q → (s₁.setThread i (ops ++ rest)).SpawnDue q) := by
  rcases h.unspawned q with hq | hspawn
  · exact .inr ⟨hq, fun hdue => hdue.setThread hthread ho h.threads ops⟩
  · have hi := (List.getElem?_eq_some_iff.mp hthread).1
    have hle := h.threads.length_le
    exact .inl ⟨_, mem_set (by omega) _, mem_append_left _ hspawn⟩

variable [Fintype Q]

lemma exec_unspawned (h : s.threads[i]? = some (o :: rest)) (q : Q) : let r := (s.setThread i rest).exec lim o
    let s' := r.1.setThread i (r.2 ++ rest)
    ((s'.queues q).isStarted = true → (s'.queues q).Balanced (lim.maxOutstanding q) (lim.maxSize q)) ∨
      s'.SpawnDue q ∨ Unspawned lim s made q (s'.queues q) ∧ (s.SpawnDue q → s'.SpawnDue q) := by
  intro r s'
  have hi := (List.getElem?_eq_some_iff.mp h).1
  have hthreads : s'.threads = (s.setThread i (r.2 ++ rest)).threads := by
    have hr : r.1.threads = s.threads.set i rest := by
      simp only [r, exec]
      split <;> try rfl
      split_ifs <;> rfl
    rw [show s'.threads = r.1.threads.set i (r.2 ++ rest) from rfl, hr, set_set]
    rfl
  have hkept : o ≠ .spawn q → s.SpawnDue q → s'.SpawnDue q := by
    intro ho hdue
    have hdue' := hdue.setThread h ho (prefix_refl s.threads) r.2
    rwa [SpawnDue, ← hthreads] at hdue'
  cases o with
  | spawn queue =>
    by_cases hq : q = queue
    · obtain ⟨moved, rest', found, waiting, _, _, hspawn, _, hbalanced⟩ :=
        (s.queues queue).spawn_spec (lim.maxOutstanding queue) (lim.maxSize queue)
      have hqueue : s'.queues q = ((s.queues queue).spawn (lim.maxOutstanding queue) (lim.maxSize queue)).1 := by
        rw [hq]
        exact setQueue_self _ queue _
      rw [hqueue, hq]
      refine .inl fun hstarted => hbalanced ?_
      rwa [hspawn] at hstarted
    · exact .inr (.inr ⟨.same (setQueue_of_ne _ hq _), hkept fun heq => hq (QueueOp.spawn.inj heq).symm⟩)
  | release slot =>
    by_cases hq : q = slot.queue
    · refine .inr (.inl ?_)
      rw [SpawnDue, hthreads, hq]
      exact ⟨_, mem_set hi _, mem_cons_self⟩
    · exact .inr (.inr ⟨.same (setQueue_of_ne _ hq _), hkept (by simp)⟩)
  | pushJob queue item => exact .inr (.inr ⟨.same rfl, hkept (by simp)⟩)
  | run queue item => exact .inr (.inr ⟨.same rfl, hkept (by simp)⟩)
  | hold sCtx => exact .inr (.inr ⟨.same rfl, hkept (by simp)⟩)
  | drop sCtx =>
    refine .inr (.inr ⟨.same ?_, hkept (by simp)⟩)
    simp only [s', r, exec]
    split_ifs <;> rfl

lemma step_unspawned (h : step lim s a = some s') (q : Q) :
    ((s'.queues q).isStarted = true → (s'.queues q).Balanced (lim.maxOutstanding q) (lim.maxSize q)) ∨
      s'.SpawnDue q ∨ Unspawned lim s (a.made s) q (s'.queues q) ∧ (s.SpawnDue q → s'.SpawnDue q) := by
  cases a with
  | outside c =>
    obtain ⟨⟨s₁, ops⟩, hcall, rfl⟩ := map_eq_some_iff.mp h
    have hcalled := called_of_call hcall
    rcases hcalled.unspawned q with hq | hspawn
    · refine .inr (.inr ⟨hq, ?_⟩)
      rintro ⟨l, hl, hspawn⟩
      exact ⟨l, mem_append_left _ (hcalled.threads.subset hl), hspawn⟩
    · exact .inr (.inl ⟨ops, mem_append_right _ mem_cons_self, hspawn⟩)
  | call i c =>
    rw [step] at h
    split at h
    case h_3 => cases h
    case h_1 queue item rest hthread =>
      obtain ⟨⟨s₁, ops⟩, hcall, rfl⟩ := map_eq_some_iff.mp h
      rw [Action.made, hthread]
      exact .inr ((called_of_call hcall).thread_unspawned hthread q (by simp))
    case h_2 sCtx rest hthread =>
      obtain ⟨⟨s₁, ops⟩, hcall, rfl⟩ := map_eq_some_iff.mp h
      rw [Action.made, hthread]
      exact .inr ((called_of_call hcall).thread_unspawned hthread q (by simp))
  | exec i =>
    rw [step] at h
    split at h
    case h_2 => cases h
    case h_1 o ops hthread =>
      cases h
      exact exec_unspawned hthread q
  | start j =>
    obtain ⟨⟨queue, item⟩, hjob, rfl⟩ := map_eq_some_iff.mp h
    refine .inr (.inr ⟨.same rfl, ?_⟩)
    rintro ⟨l, hl, hspawn⟩
    exact ⟨l, mem_append_left _ hl, hspawn⟩

/-- No item is put back on its own full queue, and no room that an item waits for is given up. -/
def Wakes (lim : Limits Q) (s : WorkQueues Q) (a : Action Q) : Prop :=
  match a.made s with
  | some (.running queue _, .reEnqueue toQueue) | some (.running queue _, .reEnqueueSerialized toQueue) =>
    ¬ (toQueue = queue ∧ lim.maxSize queue ≤ (s.queues queue).size)
  | some (_, .unreserve queue) => (s.queues queue).overflowQueue = [] ∨ lim.maxSize queue < (s.queues queue).size
  | _ => True

/-- A queue that is started is balanced, unless a `spawn` of it is to be done. -/
def AllBalanced (lim : Limits Q) (s : WorkQueues Q) : Prop :=
  ∀ q, (s.queues q).isStarted = true → ¬ s.SpawnDue q → (s.queues q).Balanced (lim.maxOutstanding q) (lim.maxSize q)

lemma AllBalanced.step (h : s.AllBalanced lim) (hok : Wakes lim s a) (hs : step lim s a = some s') : s'.AllBalanced lim := by
  intro q hstarted hdue
  rcases step_unspawned hs q with hbalanced | hdue' | ⟨hq, hkept⟩
  · exact hbalanced hstarted
  · exact absurd hdue' hdue
  · have hq0 := fun hstarted => h q hstarted fun hdue' => hdue (hkept hdue')
    cases hq with
    | same heq =>
      rw [heq] at hstarted ⊢
      exact hq0 hstarted
    | reserved heq =>
      rw [heq] at hstarted ⊢
      obtain ⟨hwork, hoverflow⟩ := hq0 hstarted
      refine ⟨hwork, fun hne => ?_⟩
      have hsize := hoverflow hne
      simp only [WorkQueue.size] at hsize ⊢
      omega
    | overflow entry hfull heq =>
      rw [heq] at hstarted ⊢
      exact ⟨(hq0 hstarted).1, fun _ => hfull⟩
    | pushBack work hfull hmade =>
      rw [Wakes] at hok
      rcases hmade with hmade | hmade <;> rw [hmade] at hok <;> exact absurd ⟨rfl, hfull⟩ hok
    | unreserved caller hmade hreserved heq =>
      rw [Wakes, hmade] at hok
      rw [heq] at hstarted ⊢
      obtain ⟨hwork, hoverflow⟩ := hq0 hstarted
      refine ⟨hwork, fun hne => ?_⟩
      have hroom : (s.queues q).overflowQueue = [] ∨ lim.maxSize q < (s.queues q).size := by cases caller <;> exact hok
      have hsize := hroom.resolve_left hne
      simp only [WorkQueue.size] at hsize ⊢
      omega
    | stopped heq =>
      rw [heq] at hstarted
      cases hstarted

/-- **No work is stranded** in a queue that is started, when no call on it is in progress. -/
theorem balanced_of_reaches {isStarted : Bool} (h : Reaches (step lim) (Wakes lim) (init isStarted) s) (q : Q)
    (hstarted : (s.queues q).isStarted = true) (hidle : ¬ s.SpawnDue q) :
    ((s.queues q).workQueue ≠ [] → (s.queues q).outstanding = lim.maxOutstanding q) ∧ ((s.queues q).overflowQueue ≠ [] →
        lim.maxSize q ≤ (s.queues q).outstanding + (s.queues q).reserved + (s.queues q).workQueue.length) := by
  have hbalanced : s.AllBalanced lim :=
    h.invariant (I := AllBalanced lim) (fun _ _ _ => ⟨fun hne => absurd rfl hne, fun hne => absurd rfl hne⟩)
      fun _ _ _ hb hok hs => hb.step hok hs
  obtain ⟨hwork, hoverflow⟩ := hbalanced q hstarted hidle
  exact ⟨fun hne => le_antisymm ((accounted_of_reaches h).bound q) (hwork hne), hoverflow⟩

theorem oneWaits_balanced : let lim : Limits Unit := ⟨fun _ => 1, fun _ => 2⟩
    ∃ s, Reaches (step lim) (Wakes lim) (init true) s ∧ (s.queues ()).workQueue ≠ [] ∧
      (s.queues ()).outstanding = lim.maxOutstanding () := by
  intro lim
  obtain ⟨s, hs, hwork, hstarted, hthreads⟩ : ∃ s, Reaches (step lim) (Wakes lim) (init true) s ∧
      (s.queues ()).workQueue ≠ [] ∧ (s.queues ()).isStarted = true ∧ ∀ ops ∈ s.threads, .spawn () ∉ ops :=
    ⟨_, Reaches.start.run (by simp [Wakes, Action.made])
      (show runActions _ _ [.outside (.enqueue ()), .outside (.enqueue ()), .exec 0, .exec 1] = some _ from rfl),
      nofun, rfl, by decide⟩
  refine ⟨s, hs, hwork, (balanced_of_reaches hs () hstarted ?_).1 hwork⟩
  rintro ⟨ops, hops, hspawn⟩
  exact hthreads ops hops hspawn

end WorkQueues

/-- It waits, no slot is taken, and nothing is left to do. -/
theorem selfPushBack_strands : let lim : Limits Unit := ⟨fun _ => 1, fun _ => 1⟩
    (runActions (WorkQueues.step lim) (.init true)
      [.outside (.enqueue ()), .exec 0, .exec 0, .start 0, .call 1 (.reEnqueue ()), .exec 1, .exec 1]).map
        (fun s => (s.queues (), s.threads, s.jobs)) =
      some (⟨[⟨1, 1, [⟨(), 0⟩]⟩], [], 0, 0, true⟩, [[], []], []) := by
  decide +kernel

end SciDB.Util
