import SciDB.Lib.Runs
import SciDB.Lib.Sums

/-!
# The cache of a pull SG context

The sending side of a redistribution, for one attribute. A broadcast chunk counts in `_size` once, and end markers only in
`_shallowSize`. Of the messages only matters what they take from the queues.
-/

namespace SciDB.Query.PullSGContext

open Finset Lib Function

/-- What the input comes to. -/
inductive Input (n : ℕ) where
  | chunk (dest : Option (Fin (n + 1))) (hasValues : Bool)
  | retry
deriving DecidableEq

/-- A message to a destination. -/
inductive Msg where
  | chunk (buffer : ℕ)
  | eof
deriving DecidableEq

/-- The buffer of a chunk. -/
def Msg.buffer? : Msg → Option ℕ
  | chunk b => some b
  | eof => none

/-- The queues and their counters. -/
structure State (n : ℕ) where
  input : List (Input n)
  atEof : Bool
  chunks : Fin (n + 1) → List Msg
  requestedNum : Fin (n + 1) → ℕ
  -- unsigned in the source: below zero is an underflow
  size : ℤ
  shallowSize : ℤ
  buffers : ℕ
  -- not in the source: how many end markers were answers to a request for a position
  eofPositions : ℕ

variable {n : ℕ}

/-- Nothing is queued. -/
def init (input : List (Input n)) : State n := ⟨input, false, fun _ => [], fun _ => 0, 0, 0, 0, 0⟩

variable (maxSize : ℕ) (s : State n)

/-- Queues a chunk. -/
def cacheChunk : Option (Fin (n + 1)) → State n
  | none => { s with
      chunks d := s.chunks d ++ [.chunk s.buffers]
      shallowSize := s.shallowSize + n
      size := s.size + 1
      buffers := s.buffers + 1 }
  | some d => { s with
      chunks := Function.update s.chunks d (s.chunks d ++ [.chunk s.buffers])
      size := s.size + 1
      buffers := s.buffers + 1 }

/-- Queues the end markers. -/
def insertEOFChunks : State n :=
  { s with chunks d := s.chunks d ++ [.eof], shallowSize := s.shallowSize + (n + 1) }

def drainInputArray (s : State n) : List (Input n) → State n
  | [] => { insertEOFChunks s with input := [], atEof := true }
  | i :: input =>
    -- `advanceInputIterator`, which ends the loop if the next increment has to be tried again
    let advance (s : State n) :=
      if input.head? = some .retry then { s with input } else drainInputArray s input
    match i with
    | .retry => advance s
    | .chunk _ false => advance s
    | .chunk dest true =>
      if maxSize ≤ s.size then { s with input := i :: input } else advance (cacheChunk s dest)

/-- Takes the first message. -/
def reapChunkMsg (d : Fin (n + 1)) (positionOnly : Bool) : State n :=
  match s.chunks d, positionOnly with
  | .eof :: msgs, true =>
    { s with chunks := Function.update s.chunks d msgs, eofPositions := s.eofPositions + 1 }
  | _ :: msgs, false =>
    { s with
      chunks := Function.update s.chunks d msgs
      requestedNum := Function.update s.requestedNum d (s.requestedNum d - 1)
      shallowSize := if 0 < s.shallowSize then s.shallowSize - 1 else s.shallowSize
      size := if 0 < s.shallowSize then s.size else s.size - 1 }
  | _, _ => s

/-- Sends what is requested. -/
def sendChunks (s : State n) (d : Fin (n + 1)) : ℕ → State n
  | 0 => s
  | k + 1 => if s.chunks d = [] then s else sendChunks (reapChunkMsg s d false) d k

/-- The loop over destinations. -/
def findCachedChunksToSend (pullingInstance : Option (Fin (n + 1))) (positionOnlyOK : Bool) : State n :=
  (List.finRange (n + 1)).foldl (fun s d =>
    let onlyPos := pullingInstance = some d ∧ positionOnlyOK ∧ s.requestedNum d = 0
    if onlyPos ∧ s.chunks d ≠ [] then reapChunkMsg s d true else sendChunks s d (s.requestedNum d)) s

/-- The queues with what the input gives. -/
def filled : State n := if s.atEof then s else drainInputArray maxSize s s.input

/-- One request. -/
def getNextChunksInternal (pullingInstance : Option (Fin (n + 1))) (positionOnlyOK : Bool) : State n :=
  findCachedChunksToSend (filled maxSize s) pullingInstance positionOnlyOK

/-- The requests. -/
inductive Fetch (n : ℕ) where
  | getNextChunks (pullingInstance : Fin (n + 1)) (positionOnlyOK : Bool) (prefetchSize : ℕ)
  /-- A request for another attribute, while this one is unavailable. -/
  | unavailable

/-- What a request does. -/
def step : Fetch n → Option (State n)
  | .getNextChunks d positionOnlyOK prefetchSize =>
    let s := { s with requestedNum := Function.update s.requestedNum d (s.requestedNum d + prefetchSize) }
    some (getNextChunksInternal maxSize s (some d) positionOnlyOK)
  | .unavailable =>
    if s.input.head? = some .retry then some (getNextChunksInternal maxSize s none false) else none

/-- Just a position is asked for, no chunk is requested, and with what the input gives the queue begins with an end marker. -/
def TakesMarker (s : State n) : Fetch n → Prop
  | .getNextChunks d positionOnlyOK prefetchSize =>
    positionOnlyOK = true ∧ s.requestedNum d + prefetchSize = 0 ∧ ((filled maxSize s).chunks d).head? = some .eof
  | .unavailable => False

/-- The number of messages. -/
def queued : ℕ := ∑ d, (s.chunks d).length

/-- The buffers in the queues. -/
def queuedBuffers : Finset ℕ := univ.biUnion fun d => ((s.chunks d).filterMap Msg.buffer?).toFinset

/-- The counters are exact but for the end markers that answered a request for a position. -/
structure Counted : Prop where
  sum : s.size + s.shallowSize = queued s + s.eofPositions
  shallow : 0 ≤ s.shallowSize
  buffers : (queuedBuffers s).card ≤ s.size
  size : s.size ≤ maxSize

variable {maxSize} {s} {d : Fin (n + 1)} {msgs : List Msg}

lemma card_queuedBuffers_le (s : State n) : (queuedBuffers s).card ≤ queued s := by
  refine card_biUnion_le.trans (sum_le_sum fun d _ => ?_)
  exact (List.toFinset_card_le _).trans (List.length_filterMap_le _ _)

lemma mem_queuedBuffers {b : ℕ} : b ∈ queuedBuffers s ↔ ∃ d, .chunk b ∈ s.chunks d := by
  simp only [queuedBuffers, mem_biUnion, mem_univ, true_and, List.mem_toFinset, List.mem_filterMap]
  refine exists_congr fun d => ⟨?_, fun h => ⟨_, h, rfl⟩⟩
  rintro ⟨_ | _, h, ⟨⟩⟩
  exact h

lemma queued_update (s s' : State n) (h : s'.chunks = update s.chunks d msgs) :
    queued s' + (s.chunks d).length = queued s + msgs.length := by
  rw [queued, h]
  exact sum_comp_update List.length s.chunks d msgs

lemma queued_broadcast (s s' : State n) {m : Msg} (h : s'.chunks = fun d => s.chunks d ++ [m]) :
    queued s' = queued s + (n + 1) := by
  simp [queued, h, sum_add_distrib]

lemma card_insert_buffers {s s' : State n} {b : ℕ} (h : ∀ d, ∀ m ∈ s'.chunks d, m ∈ s.chunks d ∨ m = .chunk b) :
    (queuedBuffers s').card ≤ (queuedBuffers s).card + 1 := by
  refine (card_le_card (t := insert b (queuedBuffers s)) fun b' hb => ?_).trans (card_insert_le _ _)
  obtain ⟨d, hd⟩ := mem_queuedBuffers.mp hb
  rcases h d _ hd with hm | hm
  · exact mem_insert_of_mem (mem_queuedBuffers.mpr ⟨d, hm⟩)
  · cases hm
    exact mem_insert_self _ _

lemma card_buffers_le {s s' : State n} (h : ∀ d, ∀ m ∈ s'.chunks d, m ∈ s.chunks d ∨ m = .eof) :
    (queuedBuffers s').card ≤ (queuedBuffers s).card := by
  refine card_le_card fun b hb => ?_
  obtain ⟨d, hd⟩ := mem_queuedBuffers.mp hb
  exact mem_queuedBuffers.mpr ⟨d, (h d _ hd).resolve_right nofun⟩

lemma Counted.eof (h : Counted maxSize s) : Counted maxSize (insertEOFChunks s) := by
  obtain ⟨hsum, hshallow, hbuffers, hsize⟩ := h
  have hqueued := queued_broadcast s (insertEOFChunks s) rfl
  have hcard : (queuedBuffers (insertEOFChunks s)).card ≤ (queuedBuffers s).card :=
    card_buffers_le fun d m hm => by simpa [insertEOFChunks] using hm
  refine ⟨?_, ?_, by exact (Int.ofNat_le.mpr hcard).trans hbuffers, hsize⟩ <;> simp only [insertEOFChunks] at hqueued ⊢ <;> omega

lemma Counted.cache (h : Counted maxSize s) (hroom : s.size < maxSize)
    (dest : Option (Fin (n + 1))) : Counted maxSize (cacheChunk s dest) := by
  obtain ⟨hsum, hshallow, hbuffers, hsize⟩ := h
  have hcard : (queuedBuffers (cacheChunk s dest)).card ≤ (queuedBuffers s).card + 1 := by
    refine card_insert_buffers (b := s.buffers) fun d m hm => ?_
    cases dest with
    | none => simpa [cacheChunk] using hm
    | some d' =>
      rcases eq_or_ne d d' with rfl | hne
      · simpa [cacheChunk] using hm
      · exact .inl (by simpa [cacheChunk, hne] using hm)
  cases dest with
  | none =>
    have hqueued := queued_broadcast s (cacheChunk s none) rfl
    constructor <;> simp only [cacheChunk] at hqueued hcard ⊢ <;> omega
  | some d =>
    have hqueued := queued_update s (cacheChunk s (some d)) rfl
    rw [List.length_append, List.length_singleton] at hqueued
    constructor <;> simp only [cacheChunk] at hqueued hcard ⊢ <;> omega

lemma Counted.drain (h : Counted maxSize s) (input : List (Input n)) : Counted maxSize (drainInputArray maxSize s input) := by
  have hinput {s : State n} (h : Counted maxSize s) (input : List (Input n)) (atEof : Bool) :
      Counted maxSize { s with input, atEof } := ⟨h.sum, h.shallow, h.buffers, h.size⟩
  induction input generalizing s with
  | nil => exact hinput h.eof [] true
  | cons i input ih =>
    have hadvance {s : State n} (h : Counted maxSize s) : Counted maxSize
        (if input.head? = some .retry then { s with input } else drainInputArray maxSize s input) := by
      split_ifs
      · exact hinput h input s.atEof
      · exact ih h
    rcases i with ⟨dest, _ | _⟩ | _
    · exact hadvance h
    · simp only [drainInputArray]
      split_ifs with hfull
      · exact hinput h _ s.atEof
      · exact hinput (h.cache (not_le.mp hfull) dest) input _
      · exact ih (h.cache (not_le.mp hfull) dest)
    · exact hadvance h

lemma queued_pop {s : State n} (s' : State n) {m : Msg} (hd : s.chunks d = m :: msgs) (h : s'.chunks = update s.chunks d msgs) :
    queued s' + 1 = queued s ∧ (queuedBuffers s').card ≤ (queuedBuffers s).card ∧ (queuedBuffers s').card ≤ queued s' := by
  refine ⟨?_, card_buffers_le fun d' m' hm => .inl ?_, card_queuedBuffers_le s'⟩
  · have := queued_update s s' h
    rw [hd, List.length_cons] at this
    omega
  · rw [h] at hm
    rcases eq_or_ne d' d with rfl | hne
    · rw [update_self] at hm
      exact hd ▸ List.mem_cons_of_mem m hm
    · rwa [update_of_ne hne] at hm

section

variable (h : Counted maxSize s)

include h

lemma Counted.reap (d : Fin (n + 1)) (positionOnly : Bool) : Counted maxSize (reapChunkMsg s d positionOnly) := by
  obtain ⟨hsum, hshallow, hbuffers, hsize⟩ := h
  unfold reapChunkMsg
  split
  · next msgs hd =>
    obtain ⟨hqueued, hcard, -⟩ := queued_pop { s with
      chunks := update s.chunks d msgs, eofPositions := s.eofPositions + 1 } hd rfl
    constructor <;> simp only at hqueued hcard ⊢ <;> omega
  · next m _ msgs hd =>
    obtain ⟨hqueued, hcard, hle⟩ := queued_pop { s with
      chunks := update s.chunks d msgs
      requestedNum := update s.requestedNum d (s.requestedNum d - 1)
      shallowSize := if 0 < s.shallowSize then s.shallowSize - 1 else s.shallowSize
      size := if 0 < s.shallowSize then s.size else s.size - 1 } hd rfl
    -- without shallow messages `_size` is at least what is queued
    constructor <;> simp only at hqueued hcard hle ⊢ <;> split_ifs at * <;> omega
  · exact ⟨hsum, hshallow, hbuffers, hsize⟩

lemma Counted.sends (d : Fin (n + 1)) (k : ℕ) : Counted maxSize (sendChunks s d k) := by
  induction k generalizing s with
  | zero => exact h
  | succ k ih =>
    unfold sendChunks
    split_ifs
    · exact h
    · exact ih (h.reap d false)

lemma Counted.find (pulling : Option (Fin (n + 1)))
    (positionOnlyOK : Bool) : Counted maxSize (findCachedChunksToSend s pulling positionOnlyOK) := by
  unfold findCachedChunksToSend
  induction List.finRange (n + 1) generalizing s with
  | nil => exact h
  | cons d ds ih =>
    rw [List.foldl_cons]
    apply ih
    dsimp only
    split_ifs
    · exact h.reap d true
    · exact h.sends d _

lemma Counted.next (pulling : Option (Fin (n + 1))) (positionOnlyOK : Bool) :
    Counted maxSize (getNextChunksInternal maxSize s pulling positionOnlyOK) := by
  apply Counted.find
  rw [filled]
  split_ifs
  · exact h
  · exact h.drain s.input

end

lemma drain_frame (s : State n) (input : List (Input n)) : (drainInputArray maxSize s input).eofPositions = s.eofPositions ∧
    (drainInputArray maxSize s input).requestedNum = s.requestedNum := by
  induction input generalizing s with
  | nil => exact ⟨rfl, rfl⟩
  | cons i input ih =>
    have hadvance (s : State n) :
        (if input.head? = some .retry then { s with input } else drainInputArray maxSize s input).eofPositions =
          s.eofPositions ∧
        (if input.head? = some .retry then { s with input } else drainInputArray maxSize s input).requestedNum =
          s.requestedNum := by
      split_ifs
      · exact ⟨rfl, rfl⟩
      · exact ih s
    rcases i with ⟨dest, _ | _⟩ | _
    · exact hadvance s
    · rw [drainInputArray]
      have hcache : (cacheChunk s dest).eofPositions = s.eofPositions ∧ (cacheChunk s dest).requestedNum = s.requestedNum := by
        cases dest <;> exact ⟨rfl, rfl⟩
      by_cases hfull : maxSize ≤ s.size
      · rw [if_pos hfull]
        exact ⟨rfl, rfl⟩
      · rw [if_neg hfull]
        exact ⟨(hadvance _).1.trans hcache.1, (hadvance _).2.trans hcache.2⟩
    · exact hadvance s

lemma reap_frame (s : State n) (d : Fin (n + 1)) : (reapChunkMsg s d false).eofPositions = s.eofPositions ∧
    ∀ d', d' ≠ d → (reapChunkMsg s d false).chunks d' = s.chunks d' ∧
      (reapChunkMsg s d false).requestedNum d' = s.requestedNum d' := by
  rcases hd : s.chunks d with _ | ⟨m, msgs⟩
  · simp [reapChunkMsg, hd]
  · have hreap : reapChunkMsg s d false = { s with
        chunks := update s.chunks d msgs
        requestedNum := update s.requestedNum d (s.requestedNum d - 1)
        shallowSize := if 0 < s.shallowSize then s.shallowSize - 1 else s.shallowSize
        size := if 0 < s.shallowSize then s.size else s.size - 1 } := by
      cases m <;> simp [reapChunkMsg, hd]
    rw [hreap]
    exact ⟨rfl, fun d' hne => ⟨update_of_ne hne .., update_of_ne hne ..⟩⟩

lemma sends_frame (s : State n) (d : Fin (n + 1)) (k : ℕ) : (sendChunks s d k).eofPositions = s.eofPositions ∧
    ∀ d', d' ≠ d → (sendChunks s d k).chunks d' = s.chunks d' ∧ (sendChunks s d k).requestedNum d' = s.requestedNum d' := by
  induction k generalizing s with
  | zero => exact ⟨rfl, fun _ _ => ⟨rfl, rfl⟩⟩
  | succ k ih =>
    rw [sendChunks]
    split_ifs
    · exact ⟨rfl, fun _ _ => ⟨rfl, rfl⟩⟩
    · obtain ⟨heof, hother⟩ := reap_frame s d
      obtain ⟨heof', hother'⟩ := ih (reapChunkMsg s d false)
      refine ⟨heof'.trans heof, fun d' hne => ?_⟩
      exact ⟨(hother' d' hne).1.trans (hother d' hne).1, (hother' d' hne).2.trans (hother d' hne).2⟩

/-- Only the answer to the pulling instance can be a marker that stays counted. -/
lemma find_eofPositions (s : State n) (d : Fin (n + 1)) (positionOnlyOK : Bool) :
    (findCachedChunksToSend s (some d) positionOnlyOK).eofPositions = s.eofPositions +
      if positionOnlyOK = true ∧ s.requestedNum d = 0 ∧ (s.chunks d).head? = some .eof then 1 else 0 := by
  have hall : ∀ (ds : List (Fin (n + 1))) (s : State n), ds.Nodup →
      (ds.foldl (fun s d' =>
        if (some d = some d' ∧ positionOnlyOK ∧ s.requestedNum d' = 0) ∧ s.chunks d' ≠ [] then reapChunkMsg s d' true
        else sendChunks s d' (s.requestedNum d')) s).eofPositions = s.eofPositions +
      if d ∈ ds ∧ positionOnlyOK = true ∧ s.requestedNum d = 0 ∧ (s.chunks d).head? = some .eof then 1 else 0 := by
    intro ds
    induction ds with
    | nil =>
      intro s _
      simp
    | cons d' ds ih =>
      intro s hnodup
      obtain ⟨hmem, hds⟩ := List.nodup_cons.mp hnodup
      rw [List.foldl_cons, ih _ hds]
      rcases eq_or_ne d d' with rfl | hne
      · -- the rest of the instances are others
        simp only [hmem, false_and, if_false, add_zero, List.mem_cons_self, true_and]
        rcases hd : s.chunks d with _ | ⟨m, msgs⟩
        · simp [(sends_frame s d _).1]
        · by_cases honly : positionOnlyOK = true ∧ s.requestedNum d = 0
          · cases m <;> simp [honly, reapChunkMsg, hd]
          · rw [if_neg fun h => honly h.1, (sends_frame s d _).1, if_neg fun h => honly ⟨h.1, h.2.1⟩, add_zero]
      · obtain ⟨heof, hother⟩ := sends_frame s d' (s.requestedNum d')
        rw [if_neg fun h => hne (Option.some.inj h.1.1), heof, (hother d hne).1, (hother d hne).2]
        simp [hne]
  have := hall (List.finRange (n + 1)) s (List.nodup_finRange _)
  simpa [findCachedChunksToSend] using this

lemma find_none_eofPositions (s : State n) : (findCachedChunksToSend s none false).eofPositions = s.eofPositions := by
  rw [findCachedChunksToSend]
  induction List.finRange (n + 1) generalizing s with
  | nil => rfl
  | cons d ds ih =>
    rw [List.foldl_cons, ih]
    simp [(sends_frame s d _).1]

lemma step_eofPositions {f : Fetch n} {s' : State n} (hs : step maxSize s f = some s') :
    TakesMarker maxSize s f ∧ s'.eofPositions = s.eofPositions + 1 ∨
      ¬ TakesMarker maxSize s f ∧ s'.eofPositions = s.eofPositions := by
  have hfilled (s : State n) : (filled maxSize s).eofPositions = s.eofPositions ∧
      (filled maxSize s).requestedNum = s.requestedNum := by
    rw [filled]
    split_ifs
    · exact ⟨rfl, rfl⟩
    · exact drain_frame s s.input
  cases f with
  | getNextChunks d positionOnlyOK prefetchSize =>
    cases hs
    rw [getNextChunksInternal, find_eofPositions, (hfilled _).1, (hfilled _).2, TakesMarker]
    by_cases hnum : s.requestedNum d + prefetchSize = 0
    · -- nothing is requested, so the request changes nothing
      obtain rfl : prefetchSize = 0 := by omega
      simp only [add_zero, update_eq_self] at hnum ⊢
      split_ifs with htakes
      · exact .inl ⟨htakes, rfl⟩
      · exact .inr ⟨htakes, rfl⟩
    · rw [if_neg fun h => hnum ((update_self d _ s.requestedNum).symm.trans h.2.1)]
      exact .inr ⟨fun h => hnum h.2.1, rfl⟩
  | unavailable =>
    obtain ⟨-, ⟨⟩⟩ := Option.ite_none_right_eq_some.mp hs
    exact .inr ⟨id, (find_none_eofPositions _).trans (hfilled s).1⟩

lemma eofPositions_eq_zero_iff {input : List (Input n)} (h : Reaches (step maxSize) (fun _ _ => True) (init input) s) :
    s.eofPositions = 0 ↔ Reaches (step maxSize) (fun s f => ¬ TakesMarker maxSize s f) (init input) s := by
  constructor
  · induction h with
    | start => exact fun _ => .start
    | step _ _ hs ih =>
      intro hzero
      rcases step_eofPositions hs with ⟨-, hcount⟩ | ⟨hnot, hcount⟩
      · omega
      · exact (ih (hcount.symm.trans hzero)).step hnot hs
  · intro hspared
    refine hspared.invariant (I := fun s => s.eofPositions = 0) rfl fun s s' f hzero hnot hs => ?_
    rcases step_eofPositions hs with ⟨htakes, -⟩ | ⟨-, hcount⟩
    · exact absurd htakes hnot
    · exact hcount.trans hzero

/-- **Sender accounting.** `_size` and `_shallowSize` add up to what is queued if and only if no request for a position was
answered by an end marker; `_size` is within its bounds. -/
theorem size_add_shallowSize_eq_iff {input : List (Input n)} (h : Reaches (step maxSize) (fun _ _ => True) (init input) s) :
    (s.size + s.shallowSize = queued s ↔
      Reaches (step maxSize) (fun s f => ¬ TakesMarker maxSize s f) (init input) s) ∧
      (queuedBuffers s).card ≤ s.size ∧ s.size ≤ maxSize ∧ 0 ≤ s.shallowSize := by
  have hcounted : Counted maxSize s := by
    refine h.invariant ?_ fun s s' f ih _ hs => ?_
    · have := card_queuedBuffers_le (init input)
      constructor <;> simp_all [init, queued]
    cases f with
    | getNextChunks d positionOnlyOK prefetchSize =>
      cases hs
      refine Counted.next ?_ (some d) positionOnlyOK
      exact ⟨ih.sum, ih.shallow, ih.buffers, ih.size⟩
    | unavailable =>
      obtain ⟨-, ⟨⟩⟩ := Option.ite_none_right_eq_some.mp hs
      exact ih.next none false
  obtain ⟨hsum, hshallow, hbuffers, hsize⟩ := hcounted
  exact ⟨by rw [← eofPositions_eq_zero_iff h]; omega, hbuffers, hsize, hshallow⟩

/-- One chunk for two instances. -/
def broadcast : State 1 := getNextChunksInternal 4
  { init [.chunk none true] with requestedNum := Function.update (fun _ => 0) ⟨0, Nat.two_pos⟩ 1 } (some ⟨0, Nat.two_pos⟩) false

theorem broadcast_counted : broadcast.size + broadcast.shallowSize = queued broadcast ∧ (queuedBuffers broadcast).card ≤ broadcast.size := by
  have h : Reaches (step 4) (fun _ _ => True) (init [.chunk none true]) broadcast :=
    Reaches.start.step (a := .getNextChunks 0 false 1) trivial rfl
  have hspared : Reaches (step 4) (fun s f => ¬ TakesMarker 4 s f) (init [.chunk none true]) broadcast :=
    Reaches.start.step (a := .getNextChunks 0 false 1) (fun h => Bool.false_ne_true h.1) rfl
  have hcounted := size_add_shallowSize_eq_iff h
  exact ⟨hcounted.1.mpr hspared, hcounted.2.1⟩

/-- An empty input: the end marker answers a request for a position, and stays in `_shallowSize`. -/
theorem eofPosition_counted : ∃ s : State 0, runActions (step 4) (init []) [.getNextChunks 0 true 0] = some s ∧
    queued s = 0 ∧ s.size + s.shallowSize = 1 :=
  ⟨_, rfl, by decide, by decide⟩

end SciDB.Query.PullSGContext
