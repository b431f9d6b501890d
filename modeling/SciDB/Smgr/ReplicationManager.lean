import SciDB.Lib.Runs

/-!
# Sending replicas

A queue for each instance. A step is what a thread does while it holds `_repMutex`: a call, or one round of the loop of
`wait`, which may wake up at any time. The network decides how a send ends. Left out: inbound replication, and what the items
hold.
-/

namespace SciDB.Smgr.ReplicationManager

open Function Lib List Option

variable {I D : Type} [DecidableEq I] [DecidableEq D]

inductive ItemState where
  | waiting
  | done
  | failed
deriving DecidableEq

/-- How sending ends. -/
inductive Outcome where
  | accepted
  | acceptedFails
  | overflow
  | error

/-- A thread that is in `wait`, holding the mutex or waiting for the event. -/
inductive Wait (I : Type) where
  | idle
  | loop (item : I)
  | blocked (item : I)

/-- Queues, items and logs. -/
structure State (I D : Type) where
  item : I → ItemState
  repQueue : D → List I
  threads : ℕ → Wait I
  sends : D → List I
  accepted : List I
  /-- Items for which `abort` was called before they were accepted. -/
  aborted : List I
  /-- Items for which `wait` has returned normally. -/
  returned : List I

/-- Nothing is queued. -/
def init : State I D := ⟨fun _ => .waiting, fun _ => [], fun _ => .idle, fun _ => [], [], [], []⟩

variable (inst : I → D) (s : State I D)

/-- An item is done. -/
def State.setDone (x : I) (st : ItemState) : State I D := { s with item := update s.item x st }

/-- The first item of a queue is taken off unless the network overflows. The flag tells if it was. -/
def sendItem (d : D) (outcome : Outcome) : Option (Bool × State I D) :=
  match s.repQueue d with
  | [] => none
  | x :: ri =>
    let popped := { s with repQueue := update s.repQueue d ri }
    if s.item x ≠ .waiting then some (true, popped)
    else
      match outcome with
      | .accepted => some (true, { popped.setDone x .done with accepted := s.accepted ++ [x] })
      | .acceptedFails => some (true, { popped.setDone x .failed with accepted := s.accepted ++ [x] })
      | .overflow => some (false, s)
      | .error => some (true, popped.setDone x .failed)

/-- `send`, and how it ends. -/
def send (x : I) (outcome : Outcome) : Option (State I D) :=
  let d := inst x
  let queued := { s with
    repQueue := update s.repQueue d (s.repQueue d ++ [x])
    sends := update s.sends d (s.sends d ++ [x]) }
  if (queued.repQueue d).length = 1 then (sendItem queued d outcome).map Prod.snd else some queued

/-- `abort` of an item. -/
def abort (x : I) : State I D :=
  let s := { s with aborted := if x ∈ s.accepted then s.aborted else x :: s.aborted }
  if s.item x ≠ .waiting then s else s.setDone x .failed

/-- The end of a `wait`. -/
def validate (t : ℕ) (x : I) : State I D :=
  { s with
    threads := update s.threads t .idle
    returned := if s.item x = .done then x :: s.returned else s.returned }

/-- Returns if the item is done, and goes on with the loop if it is not. -/
def checkDone (t : ℕ) (x : I) : State I D :=
  if s.item x ≠ .waiting then validate s t x else { s with threads := update s.threads t (.loop x) }

/-- The first item of the queue is sent, which need not be the one that is waited for. -/
def waitLoop (t : ℕ) (x : I) (outcome : Outcome) : Option (State I D) :=
  let mine := (s.repQueue (inst x)).head? = some x
  (sendItem s (inst x) outcome).map fun (res, s) =>
    if mine ∧ res then validate s t x
    else if res then checkDone s t x
    else { s with threads := update s.threads t (.blocked x) }

/-- `stop` drops everything. -/
def stop : State I D :=
  { s with
    -- an item can only be in the queue of its instance
    item x := if x ∈ s.repQueue (inst x) then .failed else s.item x
    repQueue _ := [] }

/-- What callers do. -/
inductive Action (I : Type) where
  | send (x : I) (outcome : Outcome)
  | abort (x : I)
  | stop
  | handleConnectionStatus
  | wait (t : ℕ) (x : I)
  | loop (t : ℕ) (outcome : Outcome)
  | wake (t : ℕ)
  | throws (t : ℕ)

/-- What an action does. -/
def step : Action I → Option (State I D)
  | .send x outcome => send inst s x outcome
  | .abort x => some (abort s x)
  | .stop => some (stop inst s)
  | .handleConnectionStatus => some s
  | .wait t x =>
    match s.threads t with
    | .idle => some (checkDone s t x)
    | _ => none
  | .loop t outcome =>
    match s.threads t with
    | .loop x => waitLoop inst s t x outcome
    | _ => none
  | .wake t =>
    match s.threads t with
    | .blocked x => some (checkDone s t x)
    | _ => none
  | .throws t =>
    match s.threads t with
    | .blocked x => some { s.setDone x .failed with threads := update s.threads t .idle }
    | _ => none

/-- What is accepted, and then what is queued for an instance, are in the order of the calls of `send`. -/
structure Inv (s : State I D) : Prop where
  nodup : s.accepted.Nodup
  finished : ∀ x ∈ s.accepted, s.item x ≠ .waiting
  done : ∀ x, s.item x = .done → x ∈ s.accepted
  queued : ∀ d, ∀ x ∈ s.repQueue d, inst x = d
  order : ∀ d, s.accepted.filter (inst · = d) ++ s.repQueue d <+ s.sends d
  aborted : ∀ x ∈ s.aborted, s.item x ≠ .waiting ∧ x ∉ s.accepted
  returned : ∀ x ∈ s.returned, x ∈ s.accepted

variable {inst} {s} {s' : State I D} {x : I} {d : D} {ri : List I} {outcome : Outcome}

section

variable (h : Inv inst s)

include h

omit [DecidableEq I] in
lemma Inv.failItems (item : I → ItemState)
    (hitem : ∀ y, item y = s.item y ∨ item y = .failed) : Inv inst { s with item } := by
  have hwaiting (y : I) (hy : s.item y ≠ .waiting) : item y ≠ .waiting := by
    rcases hitem y with he | he <;> simp [he, hy]
  exact { h with
    finished y hy := hwaiting y (h.finished y hy)
    done y hy := h.done y ((hitem y).resolve_right (by simp_all) ▸ hy)
    aborted y hy := (h.aborted y hy).imp_left (hwaiting y) }

lemma Inv.fail (x : I) : Inv inst (s.setDone x .failed) :=
  h.failItems _ fun y => by
    rw [update_apply]
    split_ifs <;> simp

omit [DecidableEq I] in
lemma Inv.pop (hq : s.repQueue d = x :: ri) : Inv inst { s with repQueue := update s.repQueue d ri } where
  __ := h
  queued d' y hy := by
    rcases eq_or_ne d' d with rfl | hne
    · exact h.queued d' y (hq ▸ mem_cons_of_mem x (by simpa using hy))
    · exact h.queued d' y (by simpa [hne] using hy)
  order d' := by
    rcases eq_or_ne d' d with rfl | hne
    · have := h.order d'
      rw [hq] at this
      exact (Sublist.append_left (by simp) _).trans this
    · simpa [hne] using h.order d'

lemma Inv.accept {st : ItemState} (hq : s.repQueue d = x :: ri) (hx : s.item x = .waiting)
    (hst : st ≠ .waiting) : Inv inst { s with
      item := update s.item x st
      repQueue := update s.repQueue d ri
      accepted := s.accepted ++ [x] } where
  nodup := by
    refine nodup_append.mpr ⟨h.nodup, nodup_singleton x, ?_⟩
    rintro y hy _ hx' rfl
    rw [mem_singleton.mp hx'] at hy
    exact h.finished x hy hx
  finished y hy := by
    rcases eq_or_ne y x with rfl | hne
    · simpa using hst
    · simpa [hne] using h.finished y (by simpa [hne] using hy)
  done y hy := by
    rcases eq_or_ne y x with rfl | hne
    · simp
    · exact mem_append_left _ (h.done y (by simpa [hne] using hy))
  queued := (h.pop hq).queued
  order d' := by
    have hd : inst x = d := h.queued d x (hq ▸ mem_cons_self)
    have := h.order d'
    rcases eq_or_ne d' d with rfl | hne
    · simpa [filter_append, hd, hq] using this
    · simpa [filter_append, hd, hne, hne.symm] using this
  aborted y hy := by
    obtain ⟨hwaiting, hacc⟩ := h.aborted y hy
    have hne : y ≠ x := by
      rintro rfl
      exact hwaiting hx
    simp [hne, hwaiting, hacc]
  returned y hy := mem_append_left _ (h.returned y hy)

lemma Inv.sendFront {res : Bool} (hs : sendItem s d outcome = some (res, s')) : Inv inst s' := by
  simp only [sendItem] at hs
  split at hs
  · cases hs
  · next x ri hq =>
    split_ifs at hs with hx
    · cases hs
      exact h.pop hq
    · rw [not_not] at hx
      cases outcome <;> cases hs
      · exact h.accept hq hx nofun
      · exact h.accept hq hx nofun
      · exact h
      · exact (h.pop hq).fail x

omit [DecidableEq I] in
lemma Inv.setThreads (threads : ℕ → Wait I) : Inv inst { s with threads } :=
  { h with }

omit [DecidableEq I] in
lemma Inv.returns (t : ℕ) (x : I) : Inv inst (validate s t x) :=
  { h with
    returned y hy := by
      simp only [validate] at hy
      split_ifs at hy with hx
      · rcases mem_cons.mp hy with rfl | hy
        · exact h.done y hx
        · exact h.returned y hy
      · exact h.returned y hy }

omit [DecidableEq I] in
lemma Inv.check (t : ℕ) (x : I) : Inv inst (checkDone s t x) := by
  unfold checkDone
  split_ifs
  · exact h.returns t x
  · exact h.setThreads _

lemma Inv.enqueue (hs : send inst s x outcome = some s') : Inv inst s' := by
  have hqueued : Inv inst { s with
      repQueue := update s.repQueue (inst x) (s.repQueue (inst x) ++ [x])
      sends := update s.sends (inst x) (s.sends (inst x) ++ [x]) } :=
    { h with
      queued d y hy := by
        rcases eq_or_ne d (inst x) with rfl | hne
        · simp only [update_self, mem_append, mem_singleton] at hy
          rcases hy with hy | rfl
          · exact h.queued _ y hy
          · rfl
        · exact h.queued d y (by simpa [hne] using hy)
      order d := by
        rcases eq_or_ne d (inst x) with rfl | hne
        · simpa using (h.order (inst x)).append (Sublist.refl [x])
        · simpa [hne] using h.order d }
  simp only [send] at hs
  split_ifs at hs
  · obtain ⟨⟨res, _⟩, hr, rfl⟩ := map_eq_some_iff.mp hs
    exact hqueued.sendFront hr
  · cases hs
    exact hqueued

lemma Inv.addAborted (hx : s.item x ≠ .waiting) :
    Inv inst { s with aborted := if x ∈ s.accepted then s.aborted else x :: s.aborted } :=
  { h with
    aborted y hy := by
      simp only at hy
      split_ifs at hy with hacc
      · exact h.aborted y hy
      · rcases mem_cons.mp hy with rfl | hy
        · exact ⟨hx, hacc⟩
        · exact h.aborted y hy }

lemma Inv.aborts (x : I) : Inv inst (abort s x) := by
  by_cases hx : s.item x = .waiting
  · have := (h.fail x).addAborted (x := x) (by simp [State.setDone])
    simpa only [abort, ne_eq, hx, not_true, if_false]
  · simpa only [abort, ne_eq, hx, not_false_iff, if_true] using h.addAborted hx

lemma Inv.stops : Inv inst (stop inst s) where
  __ := h.failItems (stop inst s).item fun y => by
    simp only [stop]
    split_ifs <;> simp
  queued := by simp [stop]
  order d := (Sublist.append_left (nil_sublist _) _).trans (h.order d)

lemma inv_step {a : Action I} (hs : step inst s a = some s') : Inv inst s' := by
  cases a with
  | send x outcome => exact h.enqueue hs
  | abort x =>
    cases hs
    exact h.aborts x
  | stop =>
    cases hs
    exact h.stops
  | handleConnectionStatus =>
    cases hs
    exact h
  | wait t x =>
    simp only [step] at hs
    split at hs <;> cases hs
    exact h.check t x
  | loop t outcome =>
    simp only [step] at hs
    split at hs
    · next x _ =>
      obtain ⟨⟨res, s₁⟩, hr, rfl⟩ := map_eq_some_iff.mp hs
      have h₁ := h.sendFront hr
      dsimp only
      split_ifs
      · exact h₁.returns t x
      · exact h₁.check t x
      · exact h₁.setThreads _
    · cases hs
  | wake t =>
    simp only [step] at hs
    split at hs <;> cases hs
    exact h.check t _
  | throws t =>
    simp only [step] at hs
    split at hs <;> cases hs
    exact (h.fail _).setThreads _

end

/-- **In order, once.** Whatever the network does, no item is accepted twice, those of an instance in the order of their `send`;
exactly once if `wait` returned normally, and never if it was aborted before. -/
theorem accepted_once_in_order (h : Reaches (step inst) (fun _ _ => True) init s) : (∀ x, s.accepted.count x ≤ 1) ∧
      (∀ d, s.accepted.filter (inst · = d) <+ s.sends d) ∧ (∀ x ∈ s.returned, s.accepted.count x = 1) ∧
      ∀ x ∈ s.aborted, x ∉ s.accepted := by
  have hinv : Inv inst s := by
    refine h.invariant ?_ fun _ _ _ ih _ hs => inv_step ih hs
    constructor <;> simp [init]
  refine ⟨nodup_iff_count_le_one.mp hinv.nodup, fun d => ?_, fun x hx => ?_, fun x hx => (hinv.aborted x hx).2⟩
  · exact (sublist_append_left _ _).trans (hinv.order d)
  · exact count_eq_one_of_mem hinv.nodup (hinv.returned x hx)

/-- The second item is aborted while the first one waits for room at their instance. -/
def overflowRun : List (Action ℕ) :=
  [.send 1 .overflow, .send 2 .overflow, .wait 0 1, .loop 0 .overflow, .abort 2, .wake 0, .loop 0 .accepted, .wait 1 2]

theorem overflowRun_in_order : ∃ s, runActions (step fun _ : ℕ => ()) init overflowRun = some s ∧
    s.accepted = [1] ∧ s.returned = [1] ∧ s.accepted.count 1 = 1 ∧ 2 ∉ s.accepted := by
  refine ⟨_, rfl, rfl, rfl, ?_⟩
  have h := accepted_once_in_order (Reaches.start.run (fun _ _ _ => trivial)
    (rfl : runActions (step fun _ : ℕ => ()) init overflowRun = _))
  exact ⟨h.2.2.1 1 mem_cons_self, h.2.2.2 2 mem_cons_self⟩

end SciDB.Smgr.ReplicationManager
