import SciDB.Lib.Runs

/-!
# The states of a query

When a query is aborted or committed, a call takes its error handlers and finalizers off it under `errorMutex` and runs them
afterwards. A step is what a thread does under it, or the run of one of them. `setAutoCommit` takes no lock. Left out:
notifications, and what handlers do.
-/

namespace SciDB.Query

open SciDB.Lib List Function

inductive CompletionStatus where
  | init
  | start
  | ok
  | error
deriving DecidableEq, Repr

inductive CommitState where
  | unknown
  | committed
  | aborted
deriving DecidableEq, Repr

/-- An error code. -/
inductive ErrorCode where
  | queryAlreadyCommitted
  | queryCancelled
  | other (code : ℕ)
deriving DecidableEq, Repr

/-- What a call may throw. -/
inductive QueryException where
  | raised (error : ErrorCode)
  | invalidCommitState
deriving DecidableEq, Repr

/-- What is left to do. -/
inductive QueryThread where
  | idle
  | aborting
  | committing
  | running (errorHandlers finalizers : List ℕ)
deriving DecidableEq, Repr

namespace QueryThread

/-- The error handlers to run. -/
def errorHandlers : QueryThread → List ℕ
  | running errorHandlers _ => errorHandlers
  | _ => []

/-- The finalizers that are to be run. -/
def finalizers : QueryThread → List ℕ
  | running _ finalizers => finalizers
  | _ => []

end QueryThread

/-- A `Query` and its threads. -/
structure QueryState where
  completionStatus : CompletionStatus
  commitState : CommitState
  error : Option ErrorCode
  isAutoCommit : Bool
  errorHandlers : List ℕ
  finalizers : List ℕ
  threads : ℕ → QueryThread
  handlersPushed : ℕ
  finalizersPushed : ℕ
  handlersRun : List ℕ
  finalizersRun : List ℕ
  doneAborted : Bool

namespace QueryState

/-- A new query. -/
def create : QueryState where
  completionStatus := .init
  commitState := .unknown
  error := none
  isAutoCommit := false
  errorHandlers := []
  finalizers := []
  threads _ := .idle
  handlersPushed := 0
  finalizersPushed := 0
  handlersRun := []
  finalizersRun := []
  doneAborted := false

variable (q : QueryState)

/-- What `checkNoError` throws. -/
def checkNoError : Option ErrorCode :=
  if q.isAutoCommit && q.commitState == .committed && q.error == some .queryAlreadyCommitted then none else q.error

def checked (q q' : QueryState) : QueryState × Except QueryException QueryThread :=
  match q.checkNoError with
  | some e => (q, .error (.raised e))
  | none => (q', .ok .idle)

/-- From `init` to `start`. -/
def start (q : QueryState) : QueryState × Except QueryException QueryThread :=
  q.checked (if q.completionStatus = .init then { q with completionStatus := .start } else q)

/-- From `start` to `init`. -/
def stop : QueryState × Except QueryException QueryThread :=
  q.checked (if q.completionStatus = .start then { q with completionStatus := .init } else q)

def pushErrorHandler : QueryState × Except QueryException QueryThread :=
  q.checked { q with errorHandlers := q.errorHandlers ++ [q.handlersPushed], handlersPushed := q.handlersPushed + 1 }

def pushFinalizer : QueryState × Except QueryException QueryThread :=
  q.checked { q with finalizers := q.finalizers ++ [q.finalizersPushed], finalizersPushed := q.finalizersPushed + 1 }

def setAutoCommit : QueryState × Except QueryException QueryThread := ({ q with isAutoCommit := true }, .ok .idle)

def done : QueryState × Except QueryException QueryThread :=
  match q.isAutoCommit, q.error with
  | true, _ => ({ q with completionStatus := .ok, commitState := .committed }, .ok .committing)
  | false, some e => ({ q with completionStatus := .error }, .error (.raised e))
  | false, none => ({ q with completionStatus := .ok }, .ok .idle)

def handleError (e : ErrorCode) : QueryState × Except QueryException QueryThread :=
  ({ q with error := q.error.or (some e) }, .ok .idle)

/-- `done(unwindException)`. -/
def doneError (e : ErrorCode) : QueryState × Except QueryException QueryThread :=
  ({ q with
      error := q.error.or (some e)
      completionStatus := .error
      doneAborted := q.doneAborted || q.commitState == .aborted },
    .ok (if q.commitState = .unknown then .idle else .aborting))

/-- Aborts, unless committed. -/
def handleAbort : QueryState × Except QueryException QueryThread :=
  if q.commitState = .committed then (q, .error .invalidCommitState)
  else if q.isAutoCommit && q.completionStatus == .start then (q, .error .invalidCommitState)
  else
    let q' := { q with commitState := .aborted, error := q.error.or (some .queryCancelled) }
    if q.completionStatus = .start then (q', .ok .idle)
    else ({ q' with errorHandlers := [], finalizers := [] }, .ok (.running q.errorHandlers.reverse q.finalizers.reverse))

/-- Commits, if completed. -/
def handleCommit : QueryState × Except QueryException QueryThread :=
  if q.completionStatus ≠ .ok ∨ q.commitState = .aborted then (q, .error .invalidCommitState)
  else
    ({ q with
        errorHandlers := []
        commitState := .committed
        error := q.error.or (some .queryAlreadyCommitted)
        finalizers := [] },
      .ok (.running [] q.finalizers.reverse))

/-- A call. -/
inductive Call where
  | start
  | stop
  | pushErrorHandler
  | pushFinalizer
  | setAutoCommit
  | done
  | doneError (e : ErrorCode)
  | handleError (e : ErrorCode)
  | handleAbort
  | handleCommit
deriving DecidableEq, Repr

/-- What a call does under the lock. -/
def call : Call → QueryState × Except QueryException QueryThread
  | .start => q.start
  | .stop => q.stop
  | .pushErrorHandler => q.pushErrorHandler
  | .pushFinalizer => q.pushFinalizer
  | .setAutoCommit => q.setAutoCommit
  | .done => q.done
  | .doneError e => q.doneError e
  | .handleError e => q.handleError e
  | .handleAbort => q.handleAbort
  | .handleCommit => q.handleCommit

/-- A thread goes on, or ends. -/
def setThread (i : ℕ) (t : QueryThread) : QueryState := { q with threads := Function.update q.threads i t }

/-- What a thread does next. -/
def continueWith (i : ℕ) (r : QueryState × Except QueryException QueryThread) : QueryState :=
  r.1.setThread i (match r.2 with
    | .ok t => t
    | .error _ => .idle)

/-- A step of a thread. -/
inductive Action where
  | call (i : ℕ) (c : Call)
  | exec (i : ℕ)
deriving DecidableEq, Repr

/-- What a step does. -/
def step : Action → Option QueryState
  | .call i c =>
    match q.threads i with
    | .idle => some (continueWith i (q.call c))
    | _ => none
  | .exec i =>
    match q.threads i with
    | .idle => none
    | .aborting => some (continueWith i q.handleAbort)
    | .committing => some (continueWith i q.handleCommit)
    | .running (n :: errorHandlers) finalizers =>
      some { q.setThread i (.running errorHandlers finalizers) with handlersRun := q.handlersRun ++ [n] }
    | .running [] (n :: finalizers) =>
      some { q.setThread i (.running [] finalizers) with finalizersRun := q.finalizersRun ++ [n] }
    | .running [] [] => some (q.setThread i .idle)

/-- Actions that are registered, and run by one thread in reverse order. -/
inductive Batch (pushed : ℕ) (waiting : List ℕ) (pending : ℕ → List ℕ) (run : List ℕ) (cleared closed : Prop) : Prop where
  | registered (hpending : ∀ i, pending i = []) (hrun : run = []) (hwaiting : waiting = List.range pushed) :
      Batch pushed waiting pending run cleared closed
  | cleared (hpending : ∀ i, pending i = []) (hrun : run = []) (h : cleared) : Batch pushed waiting pending run cleared closed
  | taken (i : ℕ) (hpending : ∀ j, j ≠ i → pending j = []) (hrun : run ++ pending i = (List.range pushed).reverse)
      (hwaiting : waiting = []) (h : closed) : Batch pushed waiting pending run cleared closed

section Batch

variable {pushed : ℕ} {waiting : List ℕ} {pending : ℕ → List ℕ} {run : List ℕ} {cleared closed cleared' closed' : Prop}

section

variable (h : Batch pushed waiting pending run cleared closed) {i : ℕ}

include h

section

variable (hi : pending i = [])

include hi

lemma Batch.keep (hcleared : cleared → cleared') (hclosed : closed → closed') :
    Batch pushed waiting (update pending i []) run cleared' closed' := by
  rw [update_eq_self_iff.mpr hi.symm]
  cases h with
  | registered hpending hrun hwaiting => exact .registered hpending hrun hwaiting
  | cleared hpending hrun h => exact .cleared hpending hrun (hcleared h)
  | taken i hpending hrun hwaiting h => exact .taken i hpending hrun hwaiting (hclosed h)

lemma Batch.push (hcleared : ¬ cleared) (hclosed : ¬ closed) :
    Batch (pushed + 1) (waiting ++ [pushed]) (update pending i []) run cleared' closed' := by
  rw [update_eq_self_iff.mpr hi.symm]
  cases h with
  | registered hpending hrun hwaiting => exact .registered hpending hrun (by rw [hwaiting, range_succ])
  | cleared _ _ h => exact absurd h hcleared
  | taken _ _ _ _ h => exact absurd h hclosed

lemma Batch.take (hcleared : ¬ cleared) (hclosed : closed') :
    Batch pushed [] (update pending i waiting.reverse) run cleared' closed' := by
  cases h with
  | registered hpending hrun hwaiting =>
    refine .taken i (fun j hj => ?_) ?_ rfl hclosed
    · rw [update_of_ne hj, hpending]
    · rw [update_self, hrun, hwaiting, nil_append]
  | cleared _ _ h => exact absurd h hcleared
  | taken j hpending hrun hwaiting h =>
    rw [hwaiting, reverse_nil, update_eq_self_iff.mpr hi.symm]
    exact .taken j hpending hrun rfl hclosed

lemma Batch.clear (hclosed : ¬ closed) (hcleared : cleared') :
    Batch pushed [] (update pending i []) run cleared' closed' := by
  rw [update_eq_self_iff.mpr hi.symm]
  cases h with
  | registered hpending hrun | cleared hpending hrun => exact .cleared hpending hrun hcleared
  | taken _ _ _ _ h => exact absurd h hclosed

end

lemma Batch.runNext {i n : ℕ} {rest : List ℕ} (hi : pending i = n :: rest) (hclosed : closed → closed') :
    Batch pushed waiting (update pending i rest) (run ++ [n]) cleared' closed' := by
  cases h with
  | registered hpending | cleared hpending =>
    rw [hpending] at hi
    exact nomatch hi
  | taken j hpending hrun hwaiting h =>
    obtain rfl : i = j := by
      by_contra hne
      rw [hpending i hne] at hi
      exact nomatch hi
    refine .taken i (fun j hj => ?_) ?_ hwaiting (hclosed h)
    · rw [update_of_ne hj, hpending j hj]
    · rw [update_self, ← hrun, hi, append_assoc]
      rfl

lemma Batch.prefix_reverse : run <+: (List.range pushed).reverse := by
  cases h with
  | registered _ hrun | cleared _ hrun =>
    rw [hrun]
    exact nil_prefix
  | taken _ _ hrun => exact ⟨_, hrun⟩

lemma Batch.all_run (hcleared : ¬ cleared) (hwaiting : waiting = []) (hpending : ∀ i, pending i = []) :
    run = (List.range pushed).reverse := by
  cases h with
  | registered _ hrun hwaiting' => rw [hrun, ← hwaiting', hwaiting, reverse_nil]
  | cleared _ _ h => exact absurd h hcleared
  | taken i _ hrun => rw [← hrun, hpending, append_nil]

end

end Batch

/-- What holds at any time. -/
structure Inv (q : QueryState) : Prop where
  committed : q.commitState = .committed → q.completionStatus = .ok ∨ q.completionStatus = .error
  aborted : q.commitState = .aborted → q.error.isSome = true
  handlers : Batch q.handlersPushed q.errorHandlers (fun i => (q.threads i).errorHandlers) q.handlersRun
    (q.commitState = .committed ∧ q.error.isSome = true)
    (q.commitState = .aborted ∧ q.error.isSome = true ∧ q.completionStatus ≠ .start)
  finalizers : Batch q.finalizersPushed q.finalizers (fun i => (q.threads i).finalizers) q.finalizersRun
    False (q.commitState ≠ .unknown ∧ q.error.isSome = true ∧ q.completionStatus ≠ .start)
  doneAborted : q.doneAborted = true → q.commitState = .aborted ∧ q.completionStatus = .error ∧
    (q.errorHandlers = [] ∧ q.finalizers = [] ∨ ∃ i, q.threads i = .aborting)

/-- An aborted query is not committed by `done()`, and nothing is registered after a commit. -/
def Proper (q : QueryState) : Action → Prop
  | .call _ .done => q.isAutoCommit = true → q.commitState ≠ .aborted
  | .call _ .pushErrorHandler | .call _ .pushFinalizer =>
    ¬ (q.isAutoCommit = true ∧ q.commitState = .committed ∧ q.error = some .queryAlreadyCommitted)
  | _ => True

variable {q q' : QueryState} {i : ℕ} {t : QueryThread}

lemma inv_create : Inv create :=
  ⟨nofun, nofun, .registered (fun _ => rfl) rfl rfl, .registered (fun _ => rfl) rfl rfl, nofun⟩

lemma errorHandlers_setThread (q : QueryState) (i : ℕ) (t : QueryThread) :
    (fun j => ((q.setThread i t).threads j).errorHandlers) = update (fun j => (q.threads j).errorHandlers) i t.errorHandlers := by
  funext j
  exact apply_update (fun _ => QueryThread.errorHandlers) q.threads i t j

lemma finalizers_setThread (q : QueryState) (i : ℕ) (t : QueryThread) : (fun j => ((q.setThread i t).threads j).finalizers) =
      update (fun j => (q.threads j).finalizers) i t.finalizers := by
  funext j
  exact apply_update (fun _ => QueryThread.finalizers) q.threads i t j

lemma errorHandlers_setThread_of_eq (h : t.errorHandlers = (q.threads i).errorHandlers) :
    (fun j => ((q.setThread i t).threads j).errorHandlers) = fun j => (q.threads j).errorHandlers := by
  rw [errorHandlers_setThread, h, update_eq_self]

lemma finalizers_setThread_of_eq (h : t.finalizers = (q.threads i).finalizers) :
    (fun j => ((q.setThread i t).threads j).finalizers) = fun j => (q.threads j).finalizers := by
  rw [finalizers_setThread, h, update_eq_self]

section

variable (h : q.Inv) (hi : (q.threads i).errorHandlers = [] ∧ (q.threads i).finalizers = [])

include h hi

lemma Inv.keep {completionStatus : CompletionStatus} {commitState : CommitState}
    {error : Option ErrorCode} {isAutoCommit doneAborted : Bool} (ht : t.errorHandlers = [] ∧ t.finalizers = [])
    (hcommitted : commitState = .committed → completionStatus = .ok ∨ completionStatus = .error)
    (haborted : commitState = .aborted → error.isSome = true) (hcommit : q.commitState ≠ .unknown → commitState = q.commitState)
    (hclosed : q.error.isSome = true → q.commitState ≠ .unknown → q.completionStatus ≠ .start →
      error.isSome = true ∧ completionStatus ≠ .start)
    (hdone : doneAborted = true → commitState = .aborted ∧ completionStatus = .error ∧
      (q.errorHandlers = [] ∧ q.finalizers = [] ∨ t = .aborting ∨ ∃ j, j ≠ i ∧ q.threads j = .aborting)) :
    (setThread { q with completionStatus, commitState, error, isAutoCommit, doneAborted } i t).Inv := by
  refine ⟨hcommitted, haborted, ?_, ?_, fun hd => ?_⟩
  · rw [errorHandlers_setThread, ht.1]
    refine h.handlers.keep hi.1 (fun ⟨hc, he⟩ => ?_) fun ⟨ha, he, hs⟩ => ?_
    · have hne : q.commitState ≠ .unknown := by rw [hc]; exact nofun
      have hs : q.completionStatus ≠ .start := by
        rcases h.committed hc with hs | hs <;> rw [hs] <;> exact nofun
      exact ⟨(hcommit hne).trans hc, (hclosed he hne hs).1⟩
    · have hne : q.commitState ≠ .unknown := by rw [ha]; exact nofun
      exact ⟨(hcommit hne).trans ha, hclosed he hne hs⟩
  · rw [finalizers_setThread, ht.2]
    refine h.finalizers.keep hi.2 id fun ⟨ha, he, hs⟩ => ⟨?_, hclosed he ha hs⟩
    exact fun hu => ha ((hcommit ha).symm.trans hu)
  · obtain ⟨ha, hs, hrest⟩ := hdone hd
    refine ⟨ha, hs, hrest.imp_right ?_⟩
    rintro (rfl | ⟨j, hj, hpc⟩)
    · exact ⟨i, update_self i _ _⟩
    · exact ⟨j, (update_of_ne hj _ _).trans hpc⟩

lemma Inv.throws (hpc : q.doneAborted = true → q.threads i ≠ .aborting) : (q.setThread i .idle).Inv := by
  refine h.keep hi ⟨rfl, rfl⟩ h.committed h.aborted (fun _ => rfl) (fun he _ hs => ⟨he, hs⟩) fun hd => ?_
  obtain ⟨ha, hs, hrest⟩ := h.doneAborted hd
  refine ⟨ha, hs, hrest.imp_right fun ⟨j, hj⟩ => .inr ⟨j, ?_, hj⟩⟩
  rintro rfl
  exact hpc hd hj

end

lemma isSome_or_some (o : Option ErrorCode) (e : ErrorCode) : (o.or (some e)).isSome = true := by
  cases o <;> rfl

section

variable (h : q.Inv) (hi : (q.threads i).errorHandlers = [] ∧ (q.threads i).finalizers = [])

include h hi

lemma Inv.handleAbort : (continueWith i q.handleAbort).Inv := by
  rw [QueryState.handleAbort]
  by_cases hc : q.commitState = .committed
  · rw [if_pos hc]
    refine h.throws hi fun hd => ?_
    exact absurd ((h.doneAborted hd).1.symm.trans hc) nofun
  rw [if_neg hc]
  by_cases hauto : (q.isAutoCommit && q.completionStatus == .start) = true
  · rw [if_pos hauto]
    refine h.throws hi fun hd => ?_
    simp [(h.doneAborted hd).2.1] at hauto
  rw [if_neg hauto]
  by_cases hstart : q.completionStatus = .start
  · rw [if_pos hstart]
    refine h.keep hi ⟨rfl, rfl⟩ nofun (fun _ => isSome_or_some _ _) (fun hne => ?_) (fun _ _ hs => absurd hstart hs) fun hd => ?_
    · cases hstate : q.commitState with
      | unknown => exact absurd hstate hne
      | committed => exact absurd hstate hc
      | aborted => rfl
    · exact absurd ((h.doneAborted hd).2.1.symm.trans hstart) nofun
  · rw [if_neg hstart]
    refine ⟨nofun, fun _ => isSome_or_some _ _, ?_, ?_, fun hd => ⟨rfl, (h.doneAborted hd).2.1, .inl ⟨rfl, rfl⟩⟩⟩
    · rw [continueWith, errorHandlers_setThread]
      exact h.handlers.take hi.1 (fun hcleared => hc hcleared.1) ⟨rfl, isSome_or_some _ _, hstart⟩
    · rw [continueWith, finalizers_setThread]
      exact h.finalizers.take hi.2 id ⟨nofun, isSome_or_some _ _, hstart⟩

lemma Inv.handleCommit (hpc : q.threads i ≠ .aborting) : (continueWith i q.handleCommit).Inv := by
  rw [QueryState.handleCommit]
  split_ifs with hbad
  · exact h.throws hi fun _ => hpc
  · push Not at hbad
    obtain ⟨hok, ha⟩ := hbad
    refine ⟨fun _ => .inl hok, nofun, ?_, ?_, fun hd => absurd (h.doneAborted hd).1 ha⟩
    · rw [continueWith, errorHandlers_setThread]
      exact h.handlers.clear hi.1 (fun hclosed => ha hclosed.1) ⟨rfl, isSome_or_some _ _⟩
    · rw [continueWith, finalizers_setThread]
      exact h.finalizers.take hi.2 id ⟨nofun, isSome_or_some _ _, by rw [show QueryState.completionStatus _ = _ from hok]; exact nofun⟩

end

lemma checkNoError_eq_none (h : q.checkNoError = none) :
    q.error = none ∨ q.isAutoCommit = true ∧ q.commitState = .committed ∧ q.error = some .queryAlreadyCommitted := by
  rw [checkNoError] at h
  split_ifs at h with hauto
  · simp only [Bool.and_eq_true, beq_iff_eq, and_assoc] at hauto
    exact .inr hauto
  · exact .inl h

lemma lists_idle (hidle : q.threads i = .idle) : (q.threads i).errorHandlers = [] ∧ (q.threads i).finalizers = [] := by
  rw [hidle]
  exact ⟨rfl, rfl⟩

lemma ne_aborting (hidle : q.threads i = .idle) : q.threads i ≠ .aborting := by
  rw [hidle]
  exact nofun

section

variable (h : q.Inv)

include h

lemma Inv.doneAborted_other (hpc : q.threads i ≠ .aborting) (hd : q.doneAborted = true) :
    q.commitState = .aborted ∧ q.completionStatus = .error ∧
      (q.errorHandlers = [] ∧ q.finalizers = [] ∨ ∃ j, j ≠ i ∧ q.threads j = .aborting) := by
  obtain ⟨ha, hs, hrest⟩ := h.doneAborted hd
  refine ⟨ha, hs, hrest.imp_right fun ⟨j, hj⟩ => ⟨j, ?_, hj⟩⟩
  rintro rfl
  exact hpc hj

section

variable (hidle : q.threads i = .idle)

include hidle

lemma Inv.checked_status {status : CompletionStatus}
    (hstatus : status = q.completionStatus ∨ q.completionStatus = .init ∧ status = .start ∨
      q.completionStatus = .start ∧ status = .init) : (continueWith i (q.checked { q with completionStatus := status })).Inv := by
  rw [checked]
  cases hcheck : q.checkNoError with
  | some e => exact h.throws (lists_idle hidle) fun _ => ne_aborting hidle
  | none =>
    refine h.keep (lists_idle hidle) ⟨rfl, rfl⟩ (fun hc => ?_) h.aborted (fun _ => rfl) (fun he _ hs => ⟨he, ?_⟩) fun hd => ?_
    · have hcommitted := h.committed hc
      rcases hstatus with rfl | ⟨hinit, _⟩ | ⟨hstart, _⟩
      · exact hcommitted
      · rw [hinit] at hcommitted
        exact absurd hcommitted nofun
      · rw [hstart] at hcommitted
        exact absurd hcommitted nofun
    · rcases checkNoError_eq_none hcheck with hnone | ⟨_, hc, _⟩
      · rw [hnone] at he
        exact nomatch he
      · have hcommitted := h.committed hc
        rcases hstatus with rfl | ⟨hinit, _⟩ | ⟨hstart, _⟩
        · exact hs
        · rw [hinit] at hcommitted
          exact absurd hcommitted nofun
        · exact absurd hstart hs
    · obtain ⟨ha, hs, hrest⟩ := h.doneAborted_other (ne_aborting hidle) hd
      refine ⟨ha, ?_, hrest.imp_right .inr⟩
      rcases hstatus with rfl | ⟨hinit, _⟩ | ⟨hstart, _⟩
      · exact hs
      · exact absurd (hinit.symm.trans hs) nofun
      · exact absurd (hstart.symm.trans hs) nofun

lemma Inv.start : (continueWith i q.start).Inv := by
  rw [QueryState.start]
  split_ifs with hinit
  · exact h.checked_status hidle (.inr (.inl ⟨hinit, rfl⟩))
  · exact h.checked_status hidle (.inl rfl)

lemma Inv.stop : (continueWith i q.stop).Inv := by
  rw [QueryState.stop]
  split_ifs with hstart
  · exact h.checked_status hidle (.inr (.inr ⟨hstart, rfl⟩))
  · exact h.checked_status hidle (.inl rfl)

lemma Inv.checked_push (hok : ¬ (q.isAutoCommit = true ∧ q.commitState = .committed ∧ q.error = some .queryAlreadyCommitted))
    (hpush : ¬ q.error.isSome = true → (q'.setThread i .idle).Inv) : (continueWith i (q.checked q')).Inv := by
  rw [checked]
  cases hcheck : q.checkNoError with
  | some e => exact h.throws (lists_idle hidle) fun _ => ne_aborting hidle
  | none => exact hpush (by rw [(checkNoError_eq_none hcheck).resolve_right hok]; exact nofun)

lemma Inv.pushErrorHandler (hok : Proper q (.call i .pushErrorHandler)) : (continueWith i q.pushErrorHandler).Inv := by
  refine h.checked_push hidle hok fun hsome => ?_
  refine ⟨h.committed, h.aborted, ?_, ?_, fun hd => absurd (h.aborted (h.doneAborted hd).1) hsome⟩
  · rw [errorHandlers_setThread]
    exact h.handlers.push (lists_idle hidle).1 (fun hcleared => hsome hcleared.2) fun hclosed => hsome hclosed.2.1
  · rw [finalizers_setThread]
    exact h.finalizers.keep (lists_idle hidle).2 id id

lemma Inv.pushFinalizer (hok : Proper q (.call i .pushFinalizer)) : (continueWith i q.pushFinalizer).Inv := by
  refine h.checked_push hidle hok fun hsome => ?_
  refine ⟨h.committed, h.aborted, ?_, ?_, fun hd => absurd (h.aborted (h.doneAborted hd).1) hsome⟩
  · rw [errorHandlers_setThread]
    exact h.handlers.keep (lists_idle hidle).1 id id
  · rw [finalizers_setThread]
    exact h.finalizers.push (lists_idle hidle).2 id fun hclosed => hsome hclosed.2.1

lemma Inv.setAutoCommit : (continueWith i q.setAutoCommit).Inv := by
  refine h.keep (lists_idle hidle) ⟨rfl, rfl⟩ h.committed h.aborted (fun _ => rfl) (fun he _ hs => ⟨he, hs⟩) fun hd => ?_
  obtain ⟨ha, hs, hrest⟩ := h.doneAborted_other (ne_aborting hidle) hd
  exact ⟨ha, hs, hrest.imp_right .inr⟩

lemma Inv.handleError (e : ErrorCode) : (continueWith i (q.handleError e)).Inv := by
  refine h.keep (lists_idle hidle) ⟨rfl, rfl⟩ h.committed
    (fun _ => isSome_or_some _ _) (fun _ => rfl) (fun _ _ hs => ⟨isSome_or_some _ _, hs⟩) fun hd => ?_
  obtain ⟨ha, hs, hrest⟩ := h.doneAborted_other (ne_aborting hidle) hd
  exact ⟨ha, hs, hrest.imp_right .inr⟩

lemma Inv.doneError (e : ErrorCode) : (continueWith i (q.doneError e)).Inv := by
  rw [QueryState.doneError, continueWith]
  refine h.keep (lists_idle hidle) ?_ (fun _ => .inr rfl)
    (fun _ => isSome_or_some _ _) (fun _ => rfl) (fun _ _ _ => ⟨isSome_or_some _ _, nofun⟩) fun hd => ?_
  · dsimp only
    split_ifs <;> exact ⟨rfl, rfl⟩
  · have ha : q.commitState = .aborted := by
      rcases Bool.or_eq_true _ _ ▸ hd with hd | ha
      · exact (h.doneAborted hd).1
      · exact beq_iff_eq.mp ha
    exact ⟨ha, rfl, .inr (.inl (if_neg (by rw [ha]; exact nofun)))⟩

lemma Inv.done (hok : Proper q (.call i .done)) : (continueWith i q.done).Inv := by
  rw [QueryState.done]
  split
  · rename_i hauto
    have hnot : q.commitState ≠ .aborted := hok hauto
    refine h.keep (lists_idle hidle) ⟨rfl, rfl⟩ (fun _ => .inl rfl) nofun (fun hne => ?_)
      (fun he _ _ => ⟨he, nofun⟩) fun hd => absurd (h.doneAborted hd).1 hnot
    cases hstate : q.commitState with
    | unknown => exact absurd hstate hne
    | committed => rfl
    | aborted => exact absurd hstate hnot
  · refine h.keep (lists_idle hidle) ⟨rfl, rfl⟩ (fun _ => .inr rfl) h.aborted (fun _ => rfl)
      (fun he _ _ => ⟨he, nofun⟩) fun hd => ?_
    obtain ⟨ha, _, hrest⟩ := h.doneAborted_other (ne_aborting hidle) hd
    exact ⟨ha, rfl, hrest.imp_right .inr⟩
  · rename_i hnone
    have hsome : ¬ q.error.isSome = true := by rw [hnone]; exact nofun
    exact h.keep (lists_idle hidle) ⟨rfl, rfl⟩ (fun _ => .inl rfl) h.aborted (fun _ => rfl)
      (fun he _ _ => ⟨he, nofun⟩) fun hd => absurd (h.aborted (h.doneAborted hd).1) hsome

end

lemma Inv.step {a : Action} (hok : Proper q a) (hs : step q a = some q') : q'.Inv := by
  cases a with
  | call i c =>
    rw [QueryState.step] at hs
    split at hs
    case h_2 => exact nomatch hs
    case h_1 hidle =>
      cases hs
      cases c with
      | start => exact h.start hidle
      | stop => exact h.stop hidle
      | pushErrorHandler => exact h.pushErrorHandler hidle hok
      | pushFinalizer => exact h.pushFinalizer hidle hok
      | setAutoCommit => exact h.setAutoCommit hidle
      | done => exact h.done hidle hok
      | doneError e => exact h.doneError hidle e
      | handleError e => exact h.handleError hidle e
      | handleAbort => exact h.handleAbort (lists_idle hidle)
      | handleCommit => exact h.handleCommit (lists_idle hidle) (ne_aborting hidle)
  | exec i =>
    rw [QueryState.step] at hs
    cases hpc : q.threads i with
    | idle =>
      rw [hpc] at hs
      exact nomatch hs
    | aborting =>
      rw [hpc] at hs
      cases hs
      exact h.handleAbort (by rw [hpc]; exact ⟨rfl, rfl⟩)
    | committing =>
      rw [hpc] at hs
      cases hs
      exact h.handleCommit (by rw [hpc]; exact ⟨rfl, rfl⟩) (by rw [hpc]; exact nofun)
    | running errorHandlers finalizers =>
      have hother := fun hd => h.doneAborted_other (i := i) (by rw [hpc]; exact nofun) hd
      have hhandlers : (q.threads i).errorHandlers = errorHandlers := by rw [hpc]; rfl
      have hfinalizers : (q.threads i).finalizers = finalizers := by rw [hpc]; rfl
      rw [hpc] at hs
      have hdone : ∀ t : QueryThread, q.doneAborted = true → q.commitState = .aborted ∧ q.completionStatus = .error ∧
          (q.errorHandlers = [] ∧ q.finalizers = [] ∨ ∃ j, (q.setThread i t).threads j = .aborting) := by
        intro t hd
        obtain ⟨ha, hs, hrest⟩ := hother hd
        exact ⟨ha, hs, hrest.imp_right fun ⟨j, hj, hpc⟩ => ⟨j, (update_of_ne hj _ _).trans hpc⟩⟩
      match errorHandlers, finalizers with
      | n :: errorHandlers, finalizers =>
        cases hs
        refine ⟨h.committed, h.aborted, ?_, ?_, hdone _⟩
        · rw [show (fun j => (QueryState.threads _ j).errorHandlers) = _ from errorHandlers_setThread q i _]
          exact h.handlers.runNext hhandlers id
        · rw [show (fun j => (QueryState.threads _ j).finalizers) = _ from finalizers_setThread_of_eq (by exact hfinalizers.symm)]
          exact h.finalizers
      | [], n :: finalizers =>
        cases hs
        refine ⟨h.committed, h.aborted, ?_, ?_, hdone _⟩
        · rw [show (fun j => (QueryState.threads _ j).errorHandlers) = _ from errorHandlers_setThread_of_eq (by exact hhandlers.symm)]
          exact h.handlers
        · rw [show (fun j => (QueryState.threads _ j).finalizers) = _ from finalizers_setThread q i _]
          exact h.finalizers.runNext hfinalizers id
      | [], [] =>
        cases hs
        exact h.throws ⟨hhandlers, hfinalizers⟩ fun _ => by rw [hpc]; exact nofun

end

lemma commitState_of_step {a : Action} (hok : Proper q a) (hs : step q a = some q') (hne : q.commitState ≠ .unknown) :
    q'.commitState = q.commitState := by
  have hchecked : ∀ q' : QueryState, q'.commitState = q.commitState → (q.checked q').1.commitState = q.commitState := by
    intro q' hq'
    rw [checked]
    split
    · rfl
    · exact hq'
  have habort : q.handleAbort.1.commitState = q.commitState := by
    rw [handleAbort]
    split_ifs with hc
    · rfl
    · rfl
    all_goals cases hstate : q.commitState with
      | unknown => exact absurd hstate hne
      | committed => exact absurd hstate hc
      | aborted => rfl
  have hcommit : q.handleCommit.1.commitState = q.commitState := by
    rw [handleCommit]
    split_ifs with hbad
    · rfl
    · push Not at hbad
      cases hstate : q.commitState with
      | unknown => exact absurd hstate hne
      | committed => rfl
      | aborted => exact absurd hstate hbad.2
  cases a with
  | call i c =>
    rw [step] at hs
    split at hs
    case h_2 => exact nomatch hs
    case h_1 =>
      cases hs
      cases c with
      | start | stop => exact hchecked _ (by split_ifs <;> rfl)
      | pushErrorHandler | pushFinalizer => exact hchecked _ rfl
      | setAutoCommit | doneError | handleError => rfl
      | done =>
        rw [call, done]
        split
        · rename_i hauto
          cases hstate : q.commitState with
          | unknown => exact absurd hstate hne
          | committed => rfl
          | aborted => exact absurd hstate (hok hauto)
        · rfl
        · rfl
      | handleAbort => exact habort
      | handleCommit => exact hcommit
  | exec i =>
    rw [step] at hs
    split at hs
    · exact nomatch hs
    · cases hs
      exact habort
    · cases hs
      exact hcommit
    all_goals
      cases hs
      rfl

/-- **Error handlers and finalizers** run at most once and in reverse order, no error handler of a committed query; after
`done(error)` of an aborted one all of them run. -/
theorem runs_of_reaches (h : Reaches step Proper create q) :
    (q.handlersRun <+: (List.range q.handlersPushed).reverse ∧ q.finalizersRun <+: (List.range q.finalizersPushed).reverse) ∧
      (q.commitState = .committed → q.handlersRun = [] ∧ ∀ i, (q.threads i).errorHandlers = []) ∧
      (∀ a q', Proper q a → step q a = some q' → (q.commitState = .aborted → q'.commitState = .aborted) ∧
        (q.commitState = .committed → q'.commitState = .committed)) ∧
      (∀ i, (q.threads i).errorHandlers ≠ [] ∨ (q.threads i).finalizers ≠ [] → q.completionStatus ≠ .start) ∧
      (∀ i, q.threads i ≠ .idle → ∃ q', step q (.exec i) = some q') ∧ (q.doneAborted = true → (∀ i, q.threads i = .idle) →
        q.handlersRun = (List.range q.handlersPushed).reverse ∧ q.finalizersRun = (List.range q.finalizersPushed).reverse) := by
  have hinv : q.Inv := h.invariant inv_create fun _ _ _ hq hok hs => hq.step hok hs
  refine ⟨⟨hinv.handlers.prefix_reverse, hinv.finalizers.prefix_reverse⟩, fun hc => ?_, fun a q' hok hs => ⟨fun ha => ?_, fun hc => ?_⟩,
    fun i hi => ?_, fun i hi => ?_, fun hd hidle => ?_⟩
  · cases hinv.handlers with
    | registered hpending hrun | cleared hpending hrun => exact ⟨hrun, hpending⟩
    | taken _ _ _ _ hclosed => exact absurd (hclosed.1.symm.trans hc) nofun
  · exact (commitState_of_step hok hs (by rw [ha]; exact nofun)).trans ha
  · exact (commitState_of_step hok hs (by rw [hc]; exact nofun)).trans hc
  · rcases hi with hi | hi
    · cases hinv.handlers with
      | registered hpending | cleared hpending => exact absurd (hpending i) hi
      | taken _ _ _ _ hclosed => exact hclosed.2.2
    · cases hinv.finalizers with
      | registered hpending | cleared hpending => exact absurd (hpending i) hi
      | taken _ _ _ _ hclosed => exact hclosed.2.2
  · rw [step]
    split
    · rename_i hidle
      exact absurd hidle hi
    all_goals exact ⟨_, rfl⟩
  · obtain ⟨ha, _, hempty | ⟨i, hi⟩⟩ := hinv.doneAborted hd
    · refine ⟨hinv.handlers.all_run (fun hc => ?_) hempty.1 fun i => by rw [hidle i]; rfl,
        hinv.finalizers.all_run id hempty.2 fun i => by rw [hidle i]; rfl⟩
      exact absurd (ha.symm.trans hc.1) nofun
    · rw [hidle i] at hi
      exact nomatch hi

theorem abortedStart_runs :
    ∃ q, Reaches step Proper create q ∧ q.doneAborted = true ∧ q.handlersRun = [0] ∧ q.finalizersRun = [0] := by
  obtain ⟨q, hq, hdone, hthreads, hpushed, hpushed'⟩ : ∃ q, Reaches step Proper create q ∧ q.doneAborted = true ∧
      (∀ i, q.threads i = .idle) ∧ q.handlersPushed = 1 ∧ q.finalizersPushed = 1 := by
    have hpushed : Reaches step Proper create _ := .step (a := .call 0 .pushErrorHandler) .start (fun h => nomatch h.1) rfl
    have hpushed' := hpushed.step (a := Action.call 0 .pushFinalizer) (fun h => nomatch h.1) rfl
    refine ⟨_, hpushed'.run ?_ (show runActions _ _ [.call 0 .start, .call 1 .handleAbort, .call 0 (.doneError (.other 1)),
      .exec 0, .exec 0, .exec 0, .exec 0] = some _ from rfl), rfl, ?_, rfl, rfl⟩
    · simp [Proper]
    · intro i
      rcases i with _ | _ | i <;> rfl
  have hruns := (runs_of_reaches hq).2.2.2.2.2 hdone hthreads
  rw [hpushed, hpushed'] at hruns
  exact ⟨q, hq, hdone, hruns⟩

end QueryState

/-- A query is aborted while it is executed, and then set to auto-commit and done: it is committed. -/
theorem aborted_commits :
    (runActions QueryState.step .create [.call 0 .start, .call 1 .handleAbort]).map (·.commitState) = some .aborted ∧
      (runActions QueryState.step .create [.call 0 .start, .call 1 .handleAbort, .call 0 .setAutoCommit, .call 0 .done]).map
        (·.commitState) = some .committed := by
  decide

end SciDB.Query
