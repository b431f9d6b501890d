import SciDB.Query.QueryState

/-!
# Announcing the error of a query

A call that sets `_error` keeps it as its message and publishes it once `errorMutex` is released. The abort that a liveness
change starts is a `handleAbort` of another thread. Left out: what listeners do with the message.
-/

namespace SciDB.Query

open SciDB.Lib Function QueryState Option

/-- A query with its message. -/
structure NotifyingQuery where
  query : QueryState
  msg : ℕ → Option ErrorCode
  published : List ErrorCode

namespace NotifyingQuery

/-- A new query. -/
def create : NotifyingQuery := ⟨.create, fun _ => none, []⟩

/-- A step. -/
inductive Action where
  | step (a : QueryState.Action)
  | handleLivenessNotification (i : ℕ) (sameVersion : Bool) (noQuorum : ErrorCode)
  | publish (i : ℕ)

/-- The thread of a step. -/
def thread : QueryState.Action → ℕ
  | .call i _ => i
  | .exec i => i

/-- The step is an abort. -/
def isAbort (q : QueryState) : QueryState.Action → Bool
  | .call _ c => c = .handleAbort
  | .exec i => q.threads i = .aborting

/-- The error if this step has set it. `handleAbort` returns without one while the query is in progress. -/
def message (q q' : QueryState) (a : QueryState.Action) : Option ErrorCode :=
  if isAbort q a ∧ q.completionStatus = .start then none
  else if q.error = none then q'.error
  else none

/-- The quorum may be lost. -/
def handleLivenessNotification (q : QueryState) (sameVersion : Bool) (noQuorum : ErrorCode) : QueryState :=
  if sameVersion then q else { q with error := q.error.or (some noQuorum) }

/-- What a step does. -/
def step (s : NotifyingQuery) : Action → Option NotifyingQuery
  | .step a =>
    if s.msg (thread a) = none then
      (s.query.step a).map fun q => { s with query := q, msg := update s.msg (thread a) (message s.query q a) }
    else none
  | .handleLivenessNotification i sameVersion noQuorum =>
    if s.msg i = none ∧ s.query.threads i = .idle then
      let q := NotifyingQuery.handleLivenessNotification s.query sameVersion noQuorum
      some { s with query := q, msg := update s.msg i (if s.query.error = none then q.error else none) }
    else none
  | .publish i => (s.msg i).map fun e => { s with msg := update s.msg i none, published := s.published ++ [e] }

/-- The abort of a query in progress, without an error so far. -/
def AbortsInProgress (q : QueryState) (a : QueryState.Action) : Prop :=
  isAbort q a ∧ q.completionStatus = .start ∧ q.error = none ∧ q.commitState ≠ .committed ∧ q.isAutoCommit = false

/-- No abort of one in progress. -/
def Admitted (s : NotifyingQuery) : Action → Prop
  | .step a => ¬ AbortsInProgress s.query a
  | _ => True

/-- The error is published once, or one thread is about to. -/
inductive Announced (s : NotifyingQuery) : Prop where
  | noError (herror : s.query.error = none) (hmsg : ∀ i, s.msg i = none) (hpub : s.published = [])
  | pending (e : ErrorCode) (i : ℕ) (herror : s.query.error = some e) (hmsg : s.msg i = some e)
      (hothers : ∀ j ≠ i, s.msg j = none) (hpub : s.published = [])
  | published (e : ErrorCode) (herror : s.query.error = some e) (hmsg : ∀ i, s.msg i = none) (hpub : s.published = [e])

variable {q q' : QueryState} {s s' : NotifyingQuery} {e : ErrorCode} {a : Action} {b : QueryState.Action}

lemma checked_error (hq : q'.error = q.error) : (q.checked q').1.error = q.error := by
  unfold checked
  split
  · rfl
  · exact hq

lemma call_error (c : Call) (he : q.error = some e) : (q.call c).1.error = some e := by
  cases c with
  | start | stop | pushErrorHandler | pushFinalizer =>
    rw [← he]
    apply checked_error
    try split_ifs
    all_goals rfl
  | setAutoCommit => exact he
  | done =>
    simp only [QueryState.call, done]
    split <;> exact he
  | doneError e' | handleError e' => exact congrArg (·.or (some e')) he
  | handleAbort | handleCommit =>
    simp only [QueryState.call, handleAbort, handleCommit]
    split_ifs <;> simp [he]

lemma query_step_error (h : q.step b = some q') (he : q.error = some e) : q'.error = some e := by
  cases b with
  | call i c =>
    simp only [QueryState.step] at h
    split at h <;> cases h
    exact call_error c he
  | exec i =>
    simp only [QueryState.step] at h
    split at h <;> cases h
    · exact call_error .handleAbort he
    · exact call_error .handleCommit he
    all_goals exact he

lemma step_error (h : s.step a = some s') (he : s.query.error = some e) : s'.query.error = some e := by
  cases a with
  | step b =>
    obtain ⟨-, h⟩ := ite_none_right_eq_some.mp h
    obtain ⟨q, hq, rfl⟩ := map_eq_some_iff.mp h
    exact query_step_error hq he
  | handleLivenessNotification i same noQuorum =>
    obtain ⟨-, ⟨⟩⟩ := ite_none_right_eq_some.mp h
    simp only [NotifyingQuery.handleLivenessNotification]
    split_ifs <;> simp [he]
  | publish i =>
    obtain ⟨_, -, rfl⟩ := map_eq_some_iff.mp h
    exact he

lemma Announced.advance {i : ℕ} {m : Option ErrorCode} (h : Announced s) (hi : s.msg i = none)
    (hset : s.query.error = none → m = q'.error) (hkeep : ∀ e, s.query.error = some e → m = none ∧ q'.error = some e) :
    Announced { s with query := q', msg := update s.msg i m } := by
  cases h with
  | noError herror hmsg hpub =>
    have hothers (j : ℕ) (hj : j ≠ i) : update s.msg i m j = none := by rw [update_of_ne hj, hmsg]
    rcases hm : m with _ | e
    · refine .noError (hm ▸ hset herror).symm (fun j => ?_) hpub
      rcases eq_or_ne j i with rfl | hj
      · exact update_self ..
      · exact hm ▸ hothers j hj
    · exact .pending e i (hm ▸ hset herror).symm (update_self ..) (fun j hj => hm ▸ hothers j hj) hpub
  | pending e j herror hmsg hothers hpub =>
    obtain ⟨rfl, he⟩ := hkeep e herror
    rw [← hi, update_eq_self]
    exact .pending e j he hmsg hothers hpub
  | published e herror hmsg hpub =>
    obtain ⟨rfl, he⟩ := hkeep e herror
    rw [← hi, update_eq_self]
    exact .published e he hmsg hpub

lemma handleAbort_refused (hstart : q.completionStatus = .start)
    (h : ¬ (q.commitState ≠ .committed ∧ q.isAutoCommit = false)) : q.handleAbort.1 = q := by
  unfold handleAbort
  split_ifs with hcommitted hauto <;> simp_all

lemma message_eq (hb : ¬ AbortsInProgress q b) (h : q.step b = some q') (he : q.error = none) : message q q' b = q'.error := by
  unfold message
  split_ifs with habort
  · have hq := handleAbort_refused habort.2 fun h => hb ⟨habort.1, habort.2, he, h⟩
    have hsame : q'.error = q.handleAbort.1.error := by
      cases b with
      | call i c =>
        obtain rfl : c = .handleAbort := of_decide_eq_true habort.1
        simp only [QueryState.step] at h
        split at h <;> cases h
        rfl
      | exec i =>
        have hi : q.threads i = .aborting := of_decide_eq_true habort.1
        simp only [QueryState.step, hi] at h
        cases h
        rfl
    rw [hsame, hq, he]
  · rfl

lemma Announced.step (h : Announced s) (ha : Admitted s a) (hs : s.step a = some s') : Announced s' := by
  cases a with
  | step b =>
    obtain ⟨hi, hs⟩ := ite_none_right_eq_some.mp hs
    obtain ⟨q, hq, rfl⟩ := map_eq_some_iff.mp hs
    refine h.advance hi (message_eq ha hq) fun e he => ⟨?_, query_step_error hq he⟩
    simp [message, he]
  | handleLivenessNotification i same noQuorum =>
    have herror (e : ErrorCode) := step_error (e := e) hs
    obtain ⟨⟨hi, -⟩, ⟨⟩⟩ := ite_none_right_eq_some.mp hs
    refine h.advance hi (fun he => if_pos he) fun e he => ⟨?_, herror e he⟩
    simp [he]
  | publish i =>
    obtain ⟨e, he, rfl⟩ := map_eq_some_iff.mp hs
    cases h with
    | noError _ hmsg | published _ _ hmsg =>
      rw [hmsg] at he
      cases he
    | pending e' j herror hmsg hothers hpub =>
      obtain rfl : i = j := by
        by_contra hij
        rw [hothers i hij] at he
        cases he
      obtain rfl : e = e' := some.inj (he.symm.trans hmsg)
      refine .published e herror (fun j => ?_) (by simp [hpub])
      rcases eq_or_ne j i with rfl | hj
      · exact update_self ..
      · exact (update_of_ne hj ..).trans (hothers j hj)

/-- **One announcement.** If no query in progress is aborted that has no error yet, nothing is published before an error is
set; then it is published once, or one thread has it as its message. -/
theorem announced_once (h : Reaches step Admitted create s) : (s.query.error = none → s.published = [] ∧ ∀ i, s.msg i = none) ∧
      ∀ e, s.query.error = some e → (∀ a s', s.step a = some s' → s'.query.error = some e) ∧
          (s.published = [e] ∧ (∀ i, s.msg i = none) ∨ s.published = [] ∧ ∃ i, s.msg i = some e ∧ ∀ j ≠ i, s.msg j = none) := by
  have hs : Announced s := h.invariant (.noError rfl (fun _ => rfl) rfl) fun _ _ _ ih ha hs => ih.step ha hs
  cases hs with
  | noError herror hmsg hpub => simp [herror, hmsg, hpub]
  | pending e i herror hmsg hothers hpub =>
    rw [herror]
    refine ⟨nofun, ?_⟩
    rintro _ ⟨⟩
    exact ⟨fun a s' hs => step_error hs herror, .inr ⟨hpub, i, hmsg, hothers⟩⟩
  | published e herror hmsg hpub =>
    rw [herror]
    refine ⟨nofun, ?_⟩
    rintro _ ⟨⟩
    exact ⟨fun a s' hs => step_error hs herror, .inl ⟨hpub, hmsg⟩⟩

def failed : NotifyingQuery :=
  { create with
    query := QueryState.continueWith 0 (QueryState.create.handleError (.other 7))
    msg := update create.msg 0 (some (.other 7)) }

theorem failed_announced : failed.published = [] ∧ ∃ i, failed.msg i = some (.other 7) ∧ ∀ j ≠ i, failed.msg j = none := by
  have h : Reaches step Admitted create failed :=
    Reaches.start.step (a := .step (.call 0 (.handleError (.other 7)))) (by simp [Admitted, AbortsInProgress, isAbort]) rfl
  simpa [failed, create] using ((announced_once h).2 (.other 7) rfl).2

/-- The abort of a query in progress: its error is set and no thread publishes it. -/
theorem inProgress_unannounced : ∃ s, runActions step create [.step (.call 0 .start), .step (.call 1 .handleAbort)] = some s ∧
    s.query.error = some .queryCancelled ∧ s.published = [] ∧ ∀ i, s.msg i = none := by
  refine ⟨_, rfl, rfl, rfl, fun i => ?_⟩
  rcases i with _ | _ | i <;> rfl

end NotifyingQuery

end SciDB.Query
