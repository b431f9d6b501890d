import SciDB.Lib.Runs
import SciDB.Lib.Sums

/-!
# Prefetch credit of a pull SG array

The receiving side of a redistribution, for one attribute. Bodies beyond the share of a stream are charged to `_commonChunks`.
Every call holds the mutex of its stream and touches `_commonChunks` once. A call whose assertion fails is not made. Left out:
the network and the contents of chunks.
-/

namespace SciDB.Query.PullSGArray

open Finset Lib List

variable {S P : Type} [Fintype S] [DecidableEq S]

/-- A message of a stream. -/
inductive Msg (P : Type) where
  | body (next : Option P)
  | position (pos : P)
  | eof
deriving DecidableEq

/-- It has a chunk. -/
def Msg.isBody : Msg P → Bool
  | .body _ => true
  | _ => false

/-- The state of a stream. -/
structure StreamState (P : Type) where
  msgs : List (Msg P)
  requested : ℕ
  currMsgId : ℕ
  lastPositionOnlyId : ℕ
  lastRemoteId : ℕ
  isPending : Bool

/-- The bodies in the queue. -/
def StreamState.cachedSize (st : StreamState P) : ℕ := st.msgs.countP Msg.isBody

/-- The limits of the pools. -/
structure Limits where
  maxChunksPerStream : ℕ
  maxCommonChunks : ℕ

/-- What the constructor computes. -/
def limits (S : Type) [Fintype S] (maxChunksPerAttribute : ℕ) : Limits :=
  let maxChunksPerStream := maxChunksPerAttribute / Fintype.card S / 2
  ⟨maxChunksPerStream, maxChunksPerAttribute - maxChunksPerStream * Fintype.card S⟩

/-- The streams and the common pool. -/
structure State (S P : Type) where
  streams : S → StreamState P
  -- a `uint32_t` in the source: below zero is an underflow
  commonChunks : ℤ

/-- Nothing is requested. -/
def init : State S P := ⟨fun _ => ⟨[], 0, 0, 0, 0, false⟩, 0⟩

/-- A stream changes. -/
def State.set (a : State S P) (s : S) (st : StreamState P) : State S P :=
  { a with streams := Function.update a.streams s st }

variable (lim : Limits)

/-- How many bodies to request. -/
def getPrefetchSize (streamCount : ℕ) (st : StreamState P) (common : ℤ) (positionOnly : Bool) : ℕ × ℤ :=
  let outstanding := st.cachedSize + st.requested
  if outstanding < lim.maxChunksPerStream then (lim.maxChunksPerStream - outstanding, common)
  else if common < lim.maxCommonChunks ∧ st.requested < 1 then
    let prefetchSize := max 1 ((lim.maxCommonChunks - common).toNat / streamCount)
    (prefetchSize, common + prefetchSize)
  else if positionOnly = false ∧ outstanding < 1 ∧ st.msgs = [] then (1, common + 1)
  else (0, common)

/-- The bodies of a stream. -/
def StreamState.outstanding (st : StreamState P) : ℕ := st.cachedSize + st.requested

/-- Bodies charged to the pool. -/
def StreamState.charged (st : StreamState P) : ℕ := st.outstanding - lim.maxChunksPerStream

/-- Every chunk of the common pool is charged once; each stream overdraws it by at most one. -/
structure Exact (a : State S P) : Prop where
  common : a.commonChunks = ∑ s, (a.streams s).charged lim
  bound : a.commonChunks ≤ lim.maxCommonChunks + ∑ s, min 1 ((a.streams s).charged lim)

section

variable {lim} {a : State S P} {s : S} {st : StreamState P}

lemma Exact.set {common : ℤ} (h : Exact lim a) (hc : common + (a.streams s).charged lim = a.commonChunks + st.charged lim)
    (hb : common ≤ lim.maxCommonChunks ∨ common + min 1 ((a.streams s).charged lim) ≤ a.commonChunks + min 1 (st.charged lim)) :
    Exact lim { a.set s st with commonChunks := common } := by
  have hcharged := sum_comp_update (·.charged lim) a.streams s st
  have husers := sum_comp_update (fun st => min 1 (st.charged lim)) a.streams s st
  refine ⟨?_, ?_⟩
  · have := h.common
    simp only [State.set]
    omega
  · have := h.bound
    simp only [State.set]
    omega

lemma Exact.keep (h : Exact lim a) (ho : st.outstanding = (a.streams s).outstanding) : Exact lim (a.set s st) := by
  have hc : st.charged lim = (a.streams s).charged lim := congrArg (· - _) ho
  exact h.set (by rw [hc]) (.inr (by rw [hc]))

omit [DecidableEq S] in
lemma Exact.sum_outstanding_le (h : Exact lim a) :
    (∑ s, (a.streams s).outstanding : ℕ) ≤ (lim.maxChunksPerStream * Fintype.card S : ℕ) + a.commonChunks := by
  have : ∑ s, (a.streams s).outstanding ≤ ∑ s, (lim.maxChunksPerStream + (a.streams s).charged lim) :=
    sum_le_sum fun s _ => le_add_tsub
  rw [sum_add_distrib, sum_const_nat fun _ _ => rfl, card_univ, mul_comm] at this
  have := h.common
  omega

lemma getPrefetchSize_cases {positionOnly : Bool} {n : ℕ} {common : ℤ} {r : ℕ × ℤ}
    (hr : getPrefetchSize lim n st common positionOnly = r) :
    (r.2 = common ∧ (r.1 = 0 ∨ st.outstanding + r.1 ≤ lim.maxChunksPerStream)) ∨
      (r.2 = common + r.1 ∧ st.requested = 0 ∧ 0 < r.1 ∧ lim.maxChunksPerStream ≤ st.outstanding ∧
        (r.2 ≤ lim.maxCommonChunks ∨ r.1 = 1 ∧ st.outstanding = 0)) := by
  subst hr
  unfold getPrefetchSize
  simp only [StreamState.outstanding]
  split_ifs with h₁ h₂ h₃
  · exact .inl ⟨rfl, .inr (by simp only; omega)⟩
  · have hle : max 1 ((lim.maxCommonChunks - common).toNat / n) ≤ (lim.maxCommonChunks - common).toNat := by
      have := Nat.div_le_self (lim.maxCommonChunks - common).toNat n
      omega
    exact .inr ⟨rfl, by omega, by simp only; omega, by omega, .inl (by simp only; omega)⟩
  · exact .inr ⟨rfl, by omega, by simp, by omega, .inr ⟨rfl, by omega⟩⟩
  · exact .inl ⟨rfl, .inl rfl⟩

end

variable [DecidableEq P]

/-- Drops positions at the head. -/
def pruneRedundantPositions (pos : P) : List (Msg P) → List (Msg P) × Bool
  | .position p :: ms => if p = pos then pruneRedundantPositions pos ms else (.position p :: ms, false)
  | ms => (ms, true)

def request (st : StreamState P) (positionOnly : Bool) (a : State S P) (s : S) : State S P :=
  if st.msgs.head? = some .eof then a.set s st
  else
    let isPositionReqInFlight := decide (st.lastRemoteId < st.lastPositionOnlyId)
    let charge := getPrefetchSize lim (Fintype.card S) st a.commonChunks positionOnly
    let prefetchSize := charge.1
    let a := { a.set s st with commonChunks := charge.2 }
    if prefetchSize = 0 ∧ (st.msgs ≠ [] ∨ positionOnly = false ∨ isPositionReqInFlight) then a
    else if positionOnly ∧ st.msgs = [] ∧ !isPositionReqInFlight then
      a.set s { st with
        currMsgId := st.currMsgId + 1
        lastPositionOnlyId := st.currMsgId + 1
        requested := prefetchSize + st.requested }
    else if 0 < st.requested then a
    else a.set s { st with currMsgId := st.currMsgId + 1, requested := prefetchSize + st.requested }

def requestNextChunk (a : State S P) (s : S) (positionOnly : Bool) (lastKnownPosition : P) : State S P :=
  let st := a.streams s
  if positionOnly then request lim st true a s
  else
    let pruned := pruneRedundantPositions lastKnownPosition st.msgs
    if pruned.2 then request lim { st with msgs := pruned.1 } false a s
    else a.set s { st with msgs := pruned.1 }

/-- A message comes. -/
def handleChunkMsg (a : State S P) (s : S) (m : Msg P) (fetchId : ℕ) : State S P :=
  let st := a.streams s
  if fetchId = 0 then a
  -- `setLastRemoteId` throws when the message is in the queue already
  else if st.currMsgId < fetchId then a.set s { st with msgs := st.msgs ++ [m], lastRemoteId := fetchId }
  else
    a.set s { st with
      msgs := st.msgs ++ [m]
      lastRemoteId := fetchId
      requested := if m.isBody then st.requested - 1 else st.requested
      isPending := false }

/-- `none` at the end. -/
def getChunk (a : State S P) (s : S) (position : P) : Option (State S P) :=
  let st := a.streams s
  match pruneRedundantPositions position st.msgs with
  | (msgs, false) => some (a.set s { st with msgs })
  | ([], true) => some (a.set s { st with msgs := [], isPending := true })
  | (.body next :: msgs, true) =>
    let popped := { st with msgs }
    some ({ a with
      commonChunks :=
        if lim.maxChunksPerStream ≤ popped.cachedSize + popped.requested then a.commonChunks - 1
        else a.commonChunks }.set s
      { popped with msgs := if msgs = [] then (next.map Msg.position).toList else msgs })
  | (_ :: _, true) => none

/-- What a consumer calls. -/
inductive Call (S P : Type) where
  | requestNextChunk (s : S) (positionOnly : Bool) (lastKnownPosition : P)
  | handleChunkMsg (s : S) (m : Msg P) (fetchId : ℕ)
  | getChunk (s : S) (position : P)

/-- What a call does. -/
def step (a : State S P) : Call S P → Option (State S P)
  | .requestNextChunk s positionOnly pos => some (requestNextChunk lim a s positionOnly pos)
  | .handleChunkMsg s m fetchId => some (handleChunkMsg a s m fetchId)
  | .getChunk s pos => getChunk lim a s pos

/-- The sender never sends more chunk bodies than requested, and answers requests that were sent. -/
def Honest (a : State S P) : Call S P → Prop
  | .handleChunkMsg s m fetchId => (m.isBody → 0 < (a.streams s).requested) ∧ fetchId ≤ (a.streams s).currMsgId
  | _ => True

variable {lim} {a a' : State S P} {s : S} {st : StreamState P} {pos : P} {positionOnly : Bool}

lemma countP_prune (pos : P) (ms : List (Msg P)) :
    (pruneRedundantPositions pos ms).1.countP Msg.isBody = ms.countP Msg.isBody := by
  fun_induction pruneRedundantPositions pos ms with
  | case1 ms ih => simp [ih, Msg.isBody]
  | case2 => rfl
  | case3 => rfl

lemma Exact.requested (h : Exact lim a) (ho : st.outstanding = (a.streams s).outstanding) :
    Exact lim (request lim st positionOnly a s) := by
  unfold request
  generalize hr : getPrefetchSize lim (Fintype.card S) st a.commonChunks positionOnly = r
  obtain ⟨size, common⟩ := r
  dsimp only
  have hcases := getPrefetchSize_cases hr
  have hset (st' : StreamState P) : (a.set s st).set s st' = a.set s st' := by
    simp [State.set]
  have hkept (hc : common = a.commonChunks) : Exact lim { a.set s st with commonChunks := common } := hc ▸ h.keep ho
  -- a request that goes out: the stream has `size` more on the way
  have hsent (c l : ℕ) : Exact lim { (a.set s st).set s { st with
      currMsgId := c
      lastPositionOnlyId := l
      requested := size + st.requested } with commonChunks := common } := by
    rw [hset]
    apply h.set <;>
    · simp only [StreamState.charged, ← ho]
      simp only [StreamState.outstanding, StreamState.cachedSize] at hcases ⊢
      omega
  split_ifs with _ hnone
  · exact h.keep ho
  · exact hkept (by omega)
  · exact hsent _ _
  · exact hkept (by omega)
  · exact hsent _ _

lemma Exact.step {c : Call S P} (h : Exact lim a) (hc : Honest a c) (hs : step lim a c = some a') : Exact lim a' := by
  cases c with
  | requestNextChunk s positionOnly pos =>
    cases hs
    dsimp only [requestNextChunk]
    have hpruned : StreamState.outstanding { a.streams s with
        msgs := (pruneRedundantPositions pos (a.streams s).msgs).1 } = (a.streams s).outstanding := by
      simp [StreamState.outstanding, StreamState.cachedSize, countP_prune]
    split_ifs
    · exact h.requested rfl
    · exact h.requested hpruned
    · exact h.keep hpruned
  | handleChunkMsg s m fetchId =>
    cases hs
    obtain ⟨hrequested, hid⟩ : (m.isBody → 0 < (a.streams s).requested) ∧ fetchId ≤ (a.streams s).currMsgId := hc
    dsimp only [handleChunkMsg]
    rw [if_neg (not_lt.mpr hid)]
    by_cases hzero : fetchId = 0
    · rwa [if_pos hzero]
    · rw [if_neg hzero]
      apply h.keep
      simp only [StreamState.outstanding, StreamState.cachedSize, countP_append, countP_singleton]
      split_ifs with hm
      · have := hrequested hm
        omega
      · rfl
  | getChunk s pos =>
    have hcount := countP_prune pos (a.streams s).msgs
    simp only [PullSGArray.step, getChunk] at hs
    split at hs
    · next msgs hp =>
      cases hs
      apply h.keep
      simp_all [StreamState.outstanding, StreamState.cachedSize]
    · next hp =>
      cases hs
      apply h.keep
      simp_all [StreamState.outstanding, StreamState.cachedSize]
    · next next msgs hp =>
      cases hs
      rw [hp] at hcount
      have hrest : (if msgs = [] then (next.map Msg.position).toList else msgs).countP Msg.isBody =
          msgs.countP Msg.isBody := by
        split_ifs with hnil
        · cases next <;> simp [hnil, Msg.isBody]
        · rfl
      have hone : (Msg.body next).isBody = true := rfl
      rw [countP_cons, hone, if_pos rfl] at hcount
      apply h.set <;>
      · simp only [StreamState.charged, StreamState.outstanding, StreamState.cachedSize, hrest, ← hcount]
        split_ifs <;> omega
    · cases hs

/-- **Receiver credit.** In any interleaving with an honest sender, `_commonChunks` is what the streams have beyond their share,
has not underflowed, and exceeds `_maxCommonChunks` by at most the number of streams. -/
theorem commonChunks_exact (n : ℕ) (h : Reaches (step (limits S n)) Honest (init : State S P) a) :
    a.commonChunks = ∑ s, max 0 (((a.streams s).cachedSize + (a.streams s).requested : ℤ) - (limits S n).maxChunksPerStream) ∧
      0 ≤ a.commonChunks ∧ a.commonChunks ≤ (limits S n).maxCommonChunks + Fintype.card S ∧
      ∑ s, ((a.streams s).cachedSize + (a.streams s).requested) ≤ n + Fintype.card S := by
  have hexact : Exact (limits S n) a := by
    refine h.invariant ⟨?_, ?_⟩ fun a a' c ih hc hs => ih.step hc hs
    · simp [init, StreamState.charged, StreamState.outstanding, StreamState.cachedSize]
    · simp only [init]
      omega
  have husers : ∑ s, min 1 ((a.streams s).charged (limits S n)) ≤ Fintype.card S := by
    rw [← card_univ, card_eq_sum_ones]
    exact sum_le_sum fun s _ => min_le_left _ _
  have hbound := hexact.bound
  have hshare : (limits S n).maxChunksPerStream * Fintype.card S +
      (limits S n).maxCommonChunks = n := by
    have : n / Fintype.card S / 2 * Fintype.card S ≤ n :=
      (Nat.mul_le_mul_right _ (Nat.div_le_self _ 2)).trans (Nat.div_mul_le_self _ _)
    simp only [limits]
    omega
  refine ⟨?_, ?_, by omega, ?_⟩
  · rw [hexact.common, Nat.cast_sum]
    refine sum_congr rfl fun s _ => ?_
    simp only [StreamState.charged, StreamState.outstanding]
    omega
  · exact hexact.common ▸ Int.natCast_nonneg _
  · have htotal := hexact.sum_outstanding_le
    simp only [StreamState.outstanding] at htotal
    omega

/-- The first body has come. -/
def firstBody : State (Fin 2) ℕ :=
  handleChunkMsg (requestNextChunk (limits (Fin 2) 4) init ⟨0, Nat.two_pos⟩ false 3) ⟨0, Nat.two_pos⟩ (.body none) 1

/-- The stream has its share with the first body, so the second request is charged. -/
theorem secondRequest_exact : Reaches (step (limits (Fin 2) 4)) Honest init
      (requestNextChunk (limits (Fin 2) 4) firstBody 0 false 3) ∧
    (requestNextChunk (limits (Fin 2) 4) firstBody 0 false 3).commonChunks = 1 ∧
    0 ≤ (requestNextChunk (limits (Fin 2) 4) firstBody 0 false 3).commonChunks := by
  have hfirst : Reaches (step (limits (Fin 2) 4)) Honest init firstBody :=
    (Reaches.start.step (a := .requestNextChunk 0 false 3) trivial rfl).step
      (a := .handleChunkMsg 0 (.body none) 1) ⟨fun _ => by decide, by decide⟩ rfl
  have h : Reaches (step (limits (Fin 2) 4)) Honest init (requestNextChunk (limits (Fin 2) 4) firstBody 0 false 3) :=
    hfirst.step (a := .requestNextChunk 0 false 3) trivial rfl
  exact ⟨h, by decide, (commonChunks_exact 4 h).2.1⟩

end SciDB.Query.PullSGArray
