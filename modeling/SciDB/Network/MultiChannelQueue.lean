import SciDB.Lib.Sums

/-!
# The message queue of a connection

`MultiChannelQueue`: channels that take turns, each first in, first out. An `mtAlive` that finds messages in its channel is
dropped, but counted in `_size`. Left out: what becomes of the queries of aborted messages, and ids of instances.
-/

namespace SciDB.Network

open Function Finset Lib

/-- The types below `mqtMax`. -/
inductive MessageQueueType where
  | mqtNone
  | mqtReplication
deriving DecidableEq

instance : Fintype MessageQueueType := ⟨{.mqtNone, .mqtReplication}, by rintro (_ | _) <;> decide⟩

/-- A channel of a connection. -/
structure Channel (M : Type) where
  remoteSize : UInt64
  localSeqNum : UInt64 := 0
  remoteSeqNum : UInt64 := 0
  localSeqNumOnPeer : UInt64 := 0
  msgQ : List M := []
  sendQueueLimit : ℕ

/-- What a peer says: `rSize`, the generations and the sequence numbers. -/
structure RemoteState where
  rSize : UInt64
  localGenId : UInt64
  remoteGenId : UInt64
  localSn : UInt64
  remoteSn : UInt64

variable {M : Type}

namespace Channel

variable (isAlive : M → Bool) (c : Channel M)

/-- The network manager gives `getSendQueueLimit` and `getReceiveQueueHint`. -/
def create (limits : ℕ × UInt64) : Channel M :=
  { remoteSize := limits.2, sendQueueLimit := if 1 < limits.1 then limits.1 else 1 }

def isActive : Bool := decide (c.localSeqNum - c.localSeqNumOnPeer < c.remoteSize) && !c.msgQ.isEmpty

/-- The room that is left. -/
def getAvailable : ℕ := if c.sendQueueLimit ≤ c.msgQ.length then 0 else c.sendQueueLimit - c.msgQ.length

/-- A status to report. -/
def getNewStatus (spaceBefore spaceAfter : ℕ) : Option ℕ :=
  if spaceBefore ≠ spaceAfter ∧ (spaceBefore = 0 ∨ spaceAfter = 0) then some spaceAfter else none

/-- `none` for an `OverflowException`. -/
def pushBack (msg : M) : Option (Option ℕ × Channel M) :=
  if !c.msgQ.isEmpty && isAlive msg then some (none, c)
  else if c.getAvailable = 0 then none
  else
    let c' := { c with msgQ := c.msgQ ++ [msg] }
    some (getNewStatus c.getAvailable c'.getAvailable, c')

/-- Takes the first message. -/
def popFront : Option (M × Option ℕ × Channel M) :=
  match c.msgQ with
  | msg :: msgQ =>
    if c.isActive then
      let c' := { c with msgQ, localSeqNum := c.localSeqNum + 1 }
      some (msg, getNewStatus c.getAvailable c'.getAvailable, c')
    else none
  | [] => none

/-- What the peer has said. -/
def setRemoteState (rSize localSn remoteSn : UInt64) : Option ℕ × Channel M :=
  let c' := { c with remoteSize := rSize, remoteSeqNum := remoteSn, localSeqNumOnPeer := localSn }
  (getNewStatus c.getAvailable c'.getAvailable, c')

end Channel

structure MultiChannelQueue (M : Type) where
  channels : MessageQueueType → Option (Channel M) := fun _ => none
  currChannel : ℕ := 0
  activeChannelCount : UInt64 := 0
  size : UInt64 := 0
  remoteGenId : UInt64 := 0
  localGenId : UInt64

namespace MultiChannelQueue

/-- `_currChannel % mqtMax`. -/
def channelAt (n : ℕ) : MessageQueueType := if n % 2 = 0 then .mqtNone else .mqtReplication

variable (isAlive : M → Bool) (q : MultiChannelQueue M)

/-- The channel is active. -/
def active (mqt : MessageQueueType) : Bool := (q.channels mqt).any (·.isActive)

/-- The messages of a channel. -/
def msgs (mqt : MessageQueueType) : List M := ((q.channels mqt).map (·.msgQ)).getD []

/-- A channel has changed, and with it maybe the number of active ones. -/
def put (mqt : MessageQueueType) (before after : Channel M) : MultiChannelQueue M :=
  { q with
    channels := update q.channels mqt (some after)
    activeChannelCount :=
      if before.isActive ≠ after.isActive then
        if after.isActive then q.activeChannelCount + 1 else q.activeChannelCount - 1
      else q.activeChannelCount }

/-- `none` for an `OverflowException`. -/
def pushBack (mqt : MessageQueueType) (limits : ℕ × UInt64) (msg : M) : Option (Option ℕ) × MultiChannelQueue M :=
  let channel := (q.channels mqt).getD (.create limits)
  match channel.pushBack isAlive msg with
  | none => (none, { q with channels := update q.channels mqt (some channel) })
  | some (status, after) => (some status, { q.put mqt channel after with size := q.size + 1 })

/-- The loop of `popFront`, which ends at an active channel, or when it is back where it started. -/
def nextChannel (start : ℕ) : ℕ → ℕ → ℕ
  | 0, curr => curr
  | rounds + 1, curr =>
    let curr := (curr + 1) % 2 ^ 32
    if curr % 2 = start % 2 then curr
    else if q.active (channelAt curr) then curr
    else nextChannel start rounds curr

/-- Takes a message, in turns. -/
def popFront : Option (M × Option ℕ) × MultiChannelQueue M :=
  let q := { q with currChannel := q.nextChannel q.currChannel 2 q.currChannel }
  match (q.channels (channelAt q.currChannel)).bind (·.popFront) with
  | none => (none, q)
  | some (msg, status, after) =>
    (some (msg, status), { q with
      channels := update q.channels (channelAt q.currChannel) (some after)
      size := q.size - 1
      activeChannelCount := q.activeChannelCount - if after.isActive then 0 else 1 })

/-- The type of the queue is `none` if it is not below `mqtMax`. -/
def setRemoteState (mqt : Option MessageQueueType) (limits : ℕ × UInt64) (r : RemoteState) : Option ℕ × MultiChannelQueue M :=
  match mqt with
  | none => (none, q)
  | some mqt =>
    if r.remoteGenId < q.remoteGenId ∨ q.localGenId < r.localGenId then (none, q)
    else
      let localSn := if r.localGenId < q.localGenId then 0 else r.localSn
      let channel := (q.channels mqt).getD (.create limits)
      -- `validateRemoteState`
      if channel.localSeqNum < localSn then (none, { q with channels := update q.channels mqt (some channel) })
      else
        let (status, after) := channel.setRemoteState r.rSize localSn r.remoteSn
        (status, { q.put mqt channel after with
          remoteGenId := if q.remoteGenId < r.remoteGenId then r.remoteGenId else q.remoteGenId })

/-- Drops all messages. -/
def abortMessages : MultiChannelQueue M :=
  { q with
    channels := fun mqt => (q.channels mqt).map fun c => { c with msgQ := [] }
    activeChannelCount := 0
    size := 0 }

end MultiChannelQueue

/-- The calls of a connection. -/
inductive Call (M : Type) where
  | pushBack (mqt : MessageQueueType) (limits : ℕ × UInt64) (msg : M)
  | popFront
  | setRemoteState (mqt : Option MessageQueueType) (limits : ℕ × UInt64) (r : RemoteState)
  | abortMessages

/-- A queue, what was queued in each channel and not aborted, what has left it, and how many messages were dropped since the last
abort. -/
structure State (M : Type) where
  queue : MultiChannelQueue M
  entered : MessageQueueType → List M := fun _ => []
  left : MessageQueueType → List M := fun _ => []
  dropped : ℕ := 0

open MultiChannelQueue

/-- What a call does. -/
def State.step (isAlive : M → Bool) (s : State M) : Call M → State M
  | .pushBack mqt limits msg =>
    let (status, queue) := s.queue.pushBack isAlive mqt limits msg
    if !(s.queue.msgs mqt).isEmpty && isAlive msg then { s with queue, dropped := s.dropped + 1 }
    else { s with queue, entered := if status.isNone then s.entered else update s.entered mqt (s.entered mqt ++ [msg]) }
  | .popFront =>
    match s.queue.popFront with
    | (none, queue) => { s with queue }
    | (some (msg, _), queue) =>
      let mqt := channelAt queue.currChannel
      { s with queue, left := update s.left mqt (s.left mqt ++ [msg]) }
  | .setRemoteState mqt limits r => { s with queue := (s.queue.setRemoteState mqt limits r).2 }
  | .abortMessages => { s with queue := s.queue.abortMessages, entered := s.left, dropped := 0 }

namespace MultiChannelQueue

variable {q : MultiChannelQueue M} {mqt c : MessageQueueType}

lemma channelAt_succ {n : ℕ} (h : c ≠ channelAt n) : channelAt (n + 1) = c := by
  unfold channelAt at h ⊢
  cases c <;> grind

/-- The loop ends in its second round at the latest, wherever the number wraps around. -/
lemma channelAt_nextChannel (q : MultiChannelQueue M) (start rounds : ℕ) :
    channelAt (q.nextChannel start (rounds + 2) start) =
      if q.active (channelAt (start + 1)) then channelAt (start + 1) else channelAt start := by
  have hfirst : channelAt ((start + 1) % 2 ^ 32) = channelAt (start + 1) := by
    unfold channelAt
    rw [Nat.mod_mod_of_dvd _ (by decide)]
  rw [nextChannel, if_neg (by omega), hfirst]
  split_ifs with hactive
  · exact hfirst
  · rw [nextChannel, if_pos (by omega)]
    unfold channelAt
    rw [show ((start + 1) % 2 ^ 32 + 1) % 2 ^ 32 % 2 = start % 2 by omega]

lemma channelAt_popFront (q : MultiChannelQueue M) : channelAt q.popFront.2.currChannel =
    if q.active (channelAt (q.currChannel + 1)) then channelAt (q.currChannel + 1) else channelAt q.currChannel := by
  rw [← channelAt_nextChannel q _ 0, popFront]
  dsimp only
  split <;> rfl

/-- An active channel that is not the last one in turn is served. -/
lemma served_of_ne (hactive : q.active c) (hlast : c ≠ channelAt q.currChannel) : channelAt q.popFront.2.currChannel = c := by
  rw [channelAt_popFront, channelAt_succ hlast, if_pos hactive]

lemma active_served (hactive : q.active c) : q.active (channelAt q.popFront.2.currChannel) := by
  by_cases hlast : c = channelAt q.currChannel
  · rw [channelAt_popFront]
    split_ifs with hnext
    · exact hnext
    · rwa [← hlast]
  · rwa [served_of_ne hactive hlast]

lemma popFront_eq_some {channel after : Channel M} {msg : M} {status : Option ℕ}
    (h : channel.popFront = some (msg, status, after)) : channel.isActive = true ∧ channel.msgQ = msg :: after.msgQ := by
  rw [Channel.popFront] at h
  split at h
  · split_ifs at h with hactive
    cases h
    exact ⟨hactive, by assumption⟩
  · cases h

lemma isSome_popFront (hactive : q.active c) : q.popFront.1.isSome := by
  have hserved := active_served hactive
  rw [popFront] at hserved ⊢
  dsimp only at hserved ⊢
  split at hserved
  next hnone =>
    obtain ⟨channel, hchannel, hactive⟩ := (Option.any_eq_true ..).mp hserved
    rw [hchannel, Option.bind_some, Channel.popFront] at hnone
    split at hnone
    · rw [if_pos hactive] at hnone
      cases hnone
    · simp_all [Channel.isActive]
  next => rfl

lemma put_activeChannelCount (q : MultiChannelQueue M) (mqt : MessageQueueType) (before after : Channel M) :
    (q.put mqt before after).activeChannelCount + .ofNat before.isActive.toNat =
      q.activeChannelCount + .ofNat after.isActive.toNat := by
  unfold put
  cases before.isActive <;> cases after.isActive <;> simp

lemma getD_create (q : MultiChannelQueue M) (mqt : MessageQueueType) (limits : ℕ × UInt64) :
    q.active mqt = ((q.channels mqt).getD (.create limits)).isActive ∧
      q.msgs mqt = ((q.channels mqt).getD (.create limits)).msgQ := by
  unfold active msgs
  cases q.channels mqt with
  | none => exact ⟨(Bool.and_false _).symm, rfl⟩
  | some channel => exact ⟨rfl, rfl⟩

lemma abortMessages_empty (q : MultiChannelQueue M) (c : MessageQueueType) :
    q.abortMessages.active c = false ∧ q.abortMessages.msgs c = [] := by
  unfold active msgs abortMessages
  dsimp only
  cases q.channels c with
  | none => exact ⟨rfl, rfl⟩
  | some channel => exact ⟨Bool.and_false _, rfl⟩

end MultiChannelQueue

namespace State

variable {isAlive : M → Bool} {s s' : State M} {mqt : MessageQueueType} {before after : Channel M}

/-- The counters are exact. -/
structure Inv (s : State M) : Prop where
  active : s.queue.activeChannelCount = .ofNat (∑ c, (s.queue.active c).toNat)
  size : s.queue.size = .ofNat (∑ c, (s.queue.msgs c).length + s.dropped)
  fifo : ∀ c, s.entered c = s.left c ++ s.queue.msgs c

/-- One channel has changed. -/
lemma Inv.change (h : s.Inv) (hbefore : s.queue.active mqt = before.isActive ∧ s.queue.msgs mqt = before.msgQ)
    (hchannels : s'.queue.channels = update s.queue.channels mqt (some after))
    (hactive : s'.queue.activeChannelCount + .ofNat before.isActive.toNat =
      s.queue.activeChannelCount + .ofNat after.isActive.toNat)
    (hsize : s'.queue.size + .ofNat (before.msgQ.length + s.dropped) = s.queue.size + .ofNat (after.msgQ.length + s'.dropped))
    (hfifo : s.entered mqt = s.left mqt ++ before.msgQ → s'.entered mqt = s'.left mqt ++ after.msgQ)
    (hothers : ∀ c, c ≠ mqt → s'.entered c = s.entered c ∧ s'.left c = s.left c) : s'.Inv := by
  obtain ⟨hbefore, hmsgs⟩ := hbefore
  have hcount := sum_comp_update (fun o : Option (Channel M) => (o.any (·.isActive)).toNat) s.queue.channels mqt (some after)
  have htotal := sum_comp_update (fun o : Option (Channel M) => ((o.map (·.msgQ)).getD []).length) s.queue.channels mqt
    (some after)
  rw [← hchannels] at hcount htotal
  replace hcount := congrArg UInt64.ofNat hcount
  replace htotal := congrArg UInt64.ofNat htotal
  rw [h.active, ← hbefore] at hactive
  rw [h.size, ← hmsgs] at hsize
  refine ⟨?_, ?_, fun c => ?_⟩
  · unfold MultiChannelQueue.active at *
    simp only [UInt64.ofNat_add, Option.any_some] at *
    grind
  · unfold msgs at *
    simp only [UInt64.ofNat_add, Option.map_some, Option.getD_some] at *
    grind
  · rw [msgs, hchannels, update_apply]
    split_ifs with hc
    · rw [hc]
      exact hfifo (hmsgs ▸ h.fifo mqt)
    · rw [(hothers c hc).1, (hothers c hc).2]
      exact h.fifo c

lemma Inv.pushBack (h : s.Inv) (mqt : MessageQueueType) (limits : ℕ × UInt64) (msg : M) :
    (s.step isAlive (.pushBack mqt limits msg)).Inv := by
  have hchannel := getD_create s.queue mqt limits
  rw [step, MultiChannelQueue.pushBack, hchannel.2]
  generalize (s.queue.channels mqt).getD (.create limits) = channel at hchannel
  dsimp only
  rw [Channel.pushBack]
  by_cases hdrop : (!channel.msgQ.isEmpty && isAlive msg) = true
  · rw [if_pos hdrop, if_pos hdrop]
    refine h.change hchannel rfl (put_activeChannelCount s.queue mqt channel channel) ?_ id fun _ _ => ⟨rfl, rfl⟩
    simp only [UInt64.ofNat_add]
    grind
  · rw [if_neg hdrop, if_neg hdrop]
    by_cases hfull : channel.getAvailable = 0
    · rw [if_pos hfull]
      exact h.change hchannel rfl rfl rfl id fun _ _ => ⟨rfl, rfl⟩
    · rw [if_neg hfull]
      refine h.change hchannel rfl (put_activeChannelCount s.queue mqt channel _) ?_ (fun hfifo => ?_) fun c hc => ⟨?_, rfl⟩
      · simp only [UInt64.ofNat_add, List.length_append, List.length_singleton]
        grind
      · simp [hfifo]
      · simp [hc]

lemma Inv.popFront (h : s.Inv) : (s.step isAlive .popFront).Inv := by
  rw [step, MultiChannelQueue.popFront]
  generalize s.queue.nextChannel s.queue.currChannel 2 s.queue.currChannel = curr
  dsimp only
  cases hpop : (s.queue.channels (channelAt curr)).bind (·.popFront) with
  | none => exact ⟨h.active, h.size, h.fifo⟩
  | some r =>
    obtain ⟨channel, hchannel, hpop⟩ := Option.bind_eq_some_iff.mp hpop
    obtain ⟨hactive, hmsgs⟩ := popFront_eq_some hpop
    have hbefore : s.queue.active (channelAt curr) = channel.isActive ∧ s.queue.msgs (channelAt curr) = channel.msgQ := by
      rw [MultiChannelQueue.active, msgs, hchannel]
      exact ⟨rfl, rfl⟩
    refine h.change hbefore rfl ?_ ?_ (fun hfifo => ?_) fun c hc => ⟨rfl, ?_⟩
    · rw [hactive]
      dsimp only
      cases r.2.2.isActive <;> simp
    · simp only [hmsgs, UInt64.ofNat_add, List.length_cons]
      grind
    · simp [hfifo, hmsgs]
    · simp [hc]

lemma Inv.setRemoteState (h : s.Inv) (mqt : Option MessageQueueType) (limits : ℕ × UInt64) (r : RemoteState) :
    (s.step isAlive (.setRemoteState mqt limits r)).Inv := by
  rw [step, MultiChannelQueue.setRemoteState.eq_def]
  cases mqt with
  | none => exact ⟨h.active, h.size, h.fifo⟩
  | some mqt =>
    have hchannel := getD_create s.queue mqt limits
    dsimp only
    generalize (s.queue.channels mqt).getD (.create limits) = channel at hchannel
    generalize (if r.localGenId < s.queue.localGenId then 0 else r.localSn) = localSn
    by_cases hgen : r.remoteGenId < s.queue.remoteGenId ∨ s.queue.localGenId < r.localGenId
    · rw [if_pos hgen]
      exact ⟨h.active, h.size, h.fifo⟩
    · rw [if_neg hgen]
      by_cases hvalid : channel.localSeqNum < localSn
      · rw [if_pos hvalid]
        exact h.change hchannel rfl rfl rfl id fun _ _ => ⟨rfl, rfl⟩
      · rw [if_neg hvalid]
        exact h.change hchannel rfl (put_activeChannelCount s.queue mqt channel _) rfl id fun _ _ => ⟨rfl, rfl⟩

lemma Inv.abortMessages (s : State M) : (s.step isAlive .abortMessages).Inv := by
  have hempty := s.queue.abortMessages_empty
  refine ⟨?_, ?_, fun c => ?_⟩
  · simp only [step, hempty]
    rfl
  · simp only [step, hempty]
    rfl
  · simp [step, hempty]

lemma inv_foldl (h : s.Inv) (calls : List (Call M)) : (calls.foldl (step isAlive) s).Inv := by
  induction calls generalizing s with
  | nil => exact h
  | cons call calls ih =>
    refine ih ?_
    cases call with
    | pushBack mqt limits msg => exact h.pushBack mqt limits msg
    | popFront => exact h.popFront
    | setRemoteState mqt limits r => exact h.setRemoteState mqt limits r
    | abortMessages => exact .abortMessages s

lemma currChannel_foldl {calls : List (Call M)} (hcalls : .popFront ∉ calls) :
    (calls.foldl (step isAlive) s).queue.currChannel = s.queue.currChannel := by
  induction calls generalizing s with
  | nil => rfl
  | cons call calls ih =>
    obtain ⟨hcall, hcalls⟩ := not_or.mp (List.mem_cons.not.mp hcalls)
    refine (ih hcalls).trans ?_
    cases call with
    | pushBack mqt limits msg =>
      rw [step, MultiChannelQueue.pushBack]
      dsimp only
      split <;> split <;> rfl
    | popFront => exact absurd rfl hcall
    | setRemoteState mqt limits r =>
      rw [step, MultiChannelQueue.setRemoteState.eq_def]
      cases mqt <;> grind [put]
    | abortMessages => rfl

/-- **Bookkeeping**: `_size` is the number of messages that are queued and of those that were dropped. Of two calls of `popFront`
with others between them, one serves the channel if it is active at both. -/
theorem bookkeeping (isAlive : M → Bool) (localGenId : UInt64) (calls : List (Call M)) :
    let s := calls.foldl (step isAlive) { queue := { localGenId } }
    s.queue.activeChannelCount.toNat = #{c | s.queue.active c} ∧
      s.queue.size = .ofNat (∑ c, (s.queue.msgs c).length + s.dropped) ∧
      (∀ c, s.entered c = s.left c ++ s.queue.msgs c) ∧
      ∀ c, s.queue.active c → s.queue.popFront.1.isSome ∧ ∀ between : List (Call M), .popFront ∉ between →
        let next := between.foldl (step isAlive) (s.step isAlive .popFront)
        next.queue.active c → c = channelAt s.queue.popFront.2.currChannel ∨ c = channelAt next.queue.popFront.2.currChannel := by
  intro s
  have hinv : s.Inv := inv_foldl ⟨rfl, rfl, fun _ => rfl⟩ calls
  refine ⟨?_, hinv.size, hinv.fifo, fun c hc => ⟨isSome_popFront hc, fun between hbetween => ?_⟩⟩
  · have hcard : ∑ c, (s.queue.active c).toNat = #{c | s.queue.active c} := by
      rw [card_filter]
      exact sum_congr rfl fun c _ => by cases s.queue.active c <;> rfl
    rw [hinv.active, hcard, UInt64.toNat_ofNat']
    exact Nat.mod_eq_of_lt ((card_le_univ _).trans_lt (by decide))
  · intro next hnext
    by_cases hserved : c = channelAt s.queue.popFront.2.currChannel
    · exact .inl hserved
    · refine .inr (served_of_ne hnext ?_).symm
      have hpop : (s.step isAlive .popFront).queue = s.queue.popFront.2 := by
        rw [step]
        split <;> simp_all
      rwa [currChannel_foldl hbetween, hpop]

/-- A message, and then an `mtAlive` that is dropped. -/
theorem dropped_counted :
    let s := [Call.pushBack .mqtNone (8, 8) false, .pushBack .mqtNone (8, 8) true].foldl (step id) { queue := { localGenId := 1 } }
    s.queue.size = 2 ∧ s.queue.msgs .mqtNone = [false] ∧ s.queue.msgs .mqtReplication = [] := by
  decide

end State

end SciDB.Network
