import SciDB.Lib.Runs
import SciDB.Lib.Sums

/-!
# Parallel sort

`SortArray::getSortedArray`: a `SortJob` puts sorted runs on the list `_results`, a `MergeJob` takes some off and puts back
one; the main loop starts, waits and reaps. What happens under `_sortLock` is one step. A job may fail at any point. Nothing
is remembered of an event that nobody waits for. `jobFailed` is not in the source. Left out: the `std::exception` path of
`Job::execute`.
-/

namespace SciDB.Array

open SciDB.Lib List Option Finset Multiset Function

variable {τ : Type}

/-- The parameters of a sort. -/
structure SortConfig where
  numJobs : ℕ
  memLimit : ℕ
  tupleSize : ℕ
  nStreams : ℕ
  pipelineLimit : ℕ
  two_le_nStreams : 2 ≤ nStreams
  nStreams_le : nStreams ≤ pipelineLimit

/-- A job that waits. -/
inductive WaitingJob where
  | sort
  | merge
deriving DecidableEq, Repr

/-- Where a running job is. -/
inductive RunningJob (τ : Type) where
  | sorting (buffer : List τ) (limitReached : Bool)
  | sorted (complete : Bool)
  | merge
  | merging (mergeStreams : List (List τ))
  | failed
deriving DecidableEq, Repr

/-- What the loop sees of a job. -/
inductive StoppedJob where
  | sort (complete : Bool)
  | merge
  | failed
deriving DecidableEq, Repr

/-- The entries of one job. -/
structure JobSlot (τ : Type) where
  pos : ℕ
  partitionComplete : Bool
  waiting : Option WaitingJob
  running : Option (RunningJob τ)
  stopped : Option StoppedJob
deriving DecidableEq, Repr

/-- Where the main loop is. -/
inductive SortPc (τ : Type) where
  /-- Before an iteration, without the lock. -/
  | between
  | waiting
  | left
  | returned (tuples : List τ)
  | threw
deriving DecidableEq, Repr

/-- A sort. -/
structure SortState (τ : Type) where
  results : List (List τ)
  nRunningJobs : ℕ
  slots : ℕ → JobSlot τ
  failedJob : Bool
  pc : SortPc τ
  jobFailed : Bool

/-- A step. -/
inductive SortAction where
  | iterate
  | wake
  | append (i : ℕ)
  | finish (i : ℕ)
  | take (i : ℕ)
  | fail (i : ℕ)
  | stop (i : ℕ)
  | leave (merged : Bool)
deriving DecidableEq, Repr

namespace JobSlot

/-- A waiting job is started. -/
def spawn (slot : JobSlot τ) : JobSlot τ :=
  match slot.waiting with
  | none => slot
  | some .sort => { slot with running := some (.sorting [] false), waiting := none }
  | some .merge => { slot with running := some .merge, waiting := none }

def reschedule (cfg : SortConfig) (nResults : ℕ) (slot : JobSlot τ) (job : StoppedJob) : JobSlot τ :=
  let complete := slot.partitionComplete || job == .sort true
  let next :=
    if complete then (if cfg.nStreams < nResults then some .merge else none)
    else if nResults < cfg.pipelineLimit then some .sort else some .merge
  { slot with partitionComplete := complete, waiting := next, stopped := none }

/-- A stopped job is reaped. -/
def reap (cfg : SortConfig) (nResults : ℕ) (failedJob : Bool) (slot : JobSlot τ) : JobSlot τ × Bool :=
  match slot.stopped with
  | none => (slot, failedJob)
  | some job =>
    if failedJob = false ∧ job ≠ .failed then (slot.reschedule cfg nResults job, failedJob)
    else ({ slot with stopped := none }, failedJob || job == .failed)

end JobSlot

namespace SortState

variable (cfg : SortConfig) (le : τ → τ → Bool) (chunks : List (List τ))

/-- `TupleArray::sort`. -/
def sortTuples (tuples : List τ) : List τ := tuples.insertionSort fun a b => le a b

/-- `MergeSortArray`. -/
def mergeRuns (streams : List (List τ)) : List τ := streams.foldr (fun run merged => run.merge merged le) []

/-- Where the main loop starts. -/
def init : SortState τ where
  results := []
  nRunningJobs := 0
  slots i := { pos := min i chunks.length, partitionComplete := false, waiting := some .sort, running := none, stopped := none }
  failedJob := false
  pc := .between
  jobFailed := false

variable (s : SortState τ)

variable (i : ℕ)

/-- The entries of a job change. -/
def setSlot (slot : JobSlot τ) : SortState τ := { s with slots := Function.update s.slots i slot }

/-- An iteration up to the wait. -/
def iterate : SortState τ :=
  let nRunningJobs := s.nRunningJobs + (List.range cfg.numJobs).countP fun i => (s.slots i).waiting.isSome
  { s with
    slots := fun i => if i < cfg.numJobs then (s.slots i).spawn else s.slots i
    nRunningJobs := nRunningJobs
    pc := if nRunningJobs = 0 then .left else .waiting }

def reapAt : SortState τ :=
  let r := (s.slots i).reap cfg s.results.length s.failedJob
  { s.setSlot i r.1 with failedJob := r.2 }

/-- The rest of the iteration. -/
def wake : SortState τ := { (List.range cfg.numJobs).foldl (reapAt cfg) s with pc := .between }

/-- One round of `SortJob::run`. -/
def append : Option (SortState τ) :=
  let slot := s.slots i
  match slot.running with
  | some (.sorting buffer false) =>
    if slot.pos < chunks.length then
      let buffer := buffer ++ chunks.getD slot.pos []
      let slot := { slot with pos := min (slot.pos + cfg.numJobs) chunks.length }
      if cfg.memLimit < buffer.length * cfg.tupleSize then
        let results := s.results ++ [sortTuples le buffer]
        let limitReached := decide (cfg.pipelineLimit < results.length)
        some { s.setSlot i { slot with running := some (.sorting [] limitReached) } with results := results }
      else some (s.setSlot i { slot with running := some (.sorting buffer false) })
    else none
  | _ => none

/-- The end of `SortJob::run`. -/
def finish : Option (SortState τ) :=
  let slot := s.slots i
  match slot.running with
  | some (.sorting buffer limitReached) =>
    if chunks.length ≤ slot.pos then
      let results := if buffer = [] then s.results else s.results ++ [sortTuples le buffer]
      some { s.setSlot i { slot with running := some (.sorted true) } with results := results }
    else if limitReached then some (s.setSlot i { slot with running := some (.sorted false) })
    else none
  | _ => none

/-- A `MergeJob` takes its streams. -/
def take (i : ℕ) : Option (SortState τ) :=
  let slot := s.slots i
  match slot.running with
  | some .merge => some
      { s.setSlot i { slot with running := some (.merging (s.results.take cfg.nStreams)) } with
        results := s.results.drop cfg.nStreams }
  | _ => none

/-- A job throws before its end. -/
def fail : Option (SortState τ) :=
  let slot := s.slots i
  match slot.running with
  | some (.sorting _ _) | some .merge | some (.merging _) =>
    some { s.setSlot i { slot with running := some .failed } with jobFailed := true }
  | _ => none

def stop : Option (SortState τ) :=
  let slot := s.slots i
  let mark job := s.setSlot i { slot with running := none, stopped := some job }
  match slot.running with
  | some (.sorted complete) => some { mark (.sort complete) with nRunningJobs := s.nRunningJobs - 1 }
  | some (.merging streams) => some
      { mark .merge with nRunningJobs := s.nRunningJobs - 1, results := s.results ++ [mergeRuns le streams] }
  | some .failed => some { mark .failed with nRunningJobs := s.nRunningJobs - 1 }
  | _ => none

/-- What follows the loop. -/
def leave (merged : Bool) : SortState τ :=
  if s.failedJob then { s with pc := .threw }
  else if 1 < s.results.length then
    if merged then
      let results := s.results.drop cfg.nStreams ++ [mergeRuns le (s.results.take cfg.nStreams)]
      { s with results := [], pc := .returned (results.headD []) }
    else { s with pc := .threw, jobFailed := true }
  else { s with results := [], pc := .returned (s.results.headD []) }

/-- What a step does. -/
def step : SortState τ → SortAction → Option (SortState τ)
  | s, .iterate =>
    match s.pc with
    | .between => some (s.iterate cfg)
    | _ => none
  | s, .wake =>
    match s.pc with
    | .waiting => some (s.wake cfg)
    | _ => none
  | s, .append i => if i < cfg.numJobs then s.append cfg le chunks i else none
  | s, .finish i => if i < cfg.numJobs then s.finish le chunks i else none
  | s, .take i => if i < cfg.numJobs then s.take cfg i else none
  | s, .fail i => if i < cfg.numJobs then s.fail i else none
  | s, .stop i => if i < cfg.numJobs then s.stop le i else none
  | s, .leave merged =>
    match s.pc with
    | .left => some (s.leave cfg le merged)
    | _ => none

end SortState

variable {cfg : SortConfig} {le : τ → τ → Bool} {chunks : List (List τ)}

section Tuples

variable {n pos : ℕ} {runs : List (List τ)}

/-- The tuples still to be read. -/
def chunksLeft (n : ℕ) (chunks : List (List τ)) (pos : ℕ) : Multiset τ :=
  ∑ k ∈ (Finset.range chunks.length).filter fun k => pos ≤ k ∧ k % n = pos % n, (chunks.getD k [] : Multiset τ)

lemma chunksLeft_of_le (h : chunks.length ≤ pos) : chunksLeft n chunks pos = 0 := by
  rw [chunksLeft, filter_false_of_mem, sum_empty]
  intro k hk
  rw [Finset.mem_range] at hk
  omega

lemma eq_or_add_le {k : ℕ} (hle : pos ≤ k) (hmod : k % n = pos % n) : k = pos ∨ pos + n ≤ k := by
  by_contra h
  have hdvd : n ∣ k - pos := (Nat.modEq_iff_dvd' hle).mp hmod.symm
  have := Nat.eq_zero_of_dvd_of_lt hdvd (by omega)
  omega

lemma chunksLeft_step (hn : 0 < n) (h : pos < chunks.length) :
    chunksLeft n chunks pos = (chunks.getD pos [] : Multiset τ) + chunksLeft n chunks (min (pos + n) chunks.length) := by
  by_cases hlen : pos + n < chunks.length
  · have hinsert : ((Finset.range chunks.length).filter fun k => pos ≤ k ∧ k % n = pos % n) =
        insert pos ((Finset.range chunks.length).filter fun k => pos + n ≤ k ∧ k % n = (pos + n) % n) := by
      ext k
      simp only [Finset.mem_filter, Finset.mem_insert, Finset.mem_range, Nat.add_mod_right]
      constructor
      · rintro ⟨hk, hle, hmod⟩
        exact (eq_or_add_le hle hmod).imp id fun hle => ⟨hk, hle, hmod⟩
      · rintro (rfl | ⟨hk, hle, hmod⟩)
        · exact ⟨h, le_refl k, rfl⟩
        · exact ⟨hk, by omega, hmod⟩
    rw [chunksLeft, hinsert, sum_insert (by simp; omega), min_eq_left hlen.le, chunksLeft]
  · have hsingle : ((Finset.range chunks.length).filter fun k => pos ≤ k ∧ k % n = pos % n) = {pos} := by
      ext k
      simp only [Finset.mem_filter, Finset.mem_singleton, Finset.mem_range]
      constructor
      · rintro ⟨hk, hle, hmod⟩
        exact (eq_or_add_le hle hmod).resolve_right (by omega)
      · rintro rfl
        exact ⟨h, le_refl k, rfl⟩
    have hend : chunks.length ≤ min (pos + n) chunks.length := by omega
    rw [chunksLeft_of_le hend, add_zero, chunksLeft, hsingle, Finset.sum_singleton]

lemma sum_chunksLeft (hn : 0 < n) :
    ∑ i ∈ Finset.range n, chunksLeft n chunks (min i chunks.length) = (chunks.flatten : Multiset τ) := by
  have hfiber : ∀ i ∈ Finset.range n, chunksLeft n chunks (min i chunks.length) =
      ∑ k ∈ (Finset.range chunks.length).filter fun k => k % n = i, (chunks.getD k [] : Multiset τ) := by
    intro i hi
    rw [Finset.mem_range] at hi
    rw [chunksLeft]
    congr 1
    apply Finset.filter_congr
    intro k hk
    rw [Finset.mem_range] at hk
    have hmod := Nat.mod_le k n
    rcases Nat.lt_or_ge chunks.length i with hlen | hlen
    · rw [min_eq_right hlen.le, Nat.mod_eq_of_lt (show k < n by omega)]
      omega
    · rw [min_eq_left hlen, Nat.mod_eq_of_lt hi]
      omega
  rw [sum_congr rfl hfiber, sum_fiberwise_of_maps_to fun k _ => mem_range.mpr (Nat.mod_lt k hn)]
  clear hfiber
  induction chunks with
  | nil => rfl
  | cons chunk chunks ih =>
    rw [length_cons, Finset.sum_range_succ', flatten_cons, ← Multiset.coe_add, add_comm]
    exact congrArg _ ih

/-- Every run is sorted. -/
def RunsSorted (le : τ → τ → Bool) (runs : List (List τ)) : Prop := ∀ run ∈ runs, run.Pairwise fun a b => le a b

lemma RunsSorted.append {run : List τ} (hruns : RunsSorted le runs)
    (hrun : run.Pairwise fun a b => le a b) : RunsSorted le (runs ++ [run]) := by
  intro r hr
  rcases mem_append.mp hr with hr | hr
  · exact hruns r hr
  · rwa [List.mem_singleton.mp hr]

lemma sortTuples_perm (tuples : List τ) : (SortState.sortTuples le tuples).Perm tuples :=
  perm_insertionSort _ tuples

lemma mergeRuns_perm (runs : List (List τ)) : (SortState.mergeRuns le runs).Perm runs.flatten := by
  induction runs with
  | nil => exact List.Perm.nil
  | cons run runs ih => exact (merge_perm_append le).trans (ih.append_left run)

section Order

variable (htotal : ∀ a b, le a b || le b a) (htrans : ∀ a b c, le a b → le b c → le a c)

include htotal htrans

lemma sortTuples_sorted (tuples : List τ) : (SortState.sortTuples le tuples).Pairwise fun a b => le a b := by
  have : Std.Total fun a b => (le a b : Prop) := ⟨fun a b => by simpa using htotal a b⟩
  have : IsTrans τ fun a b => le a b := ⟨htrans⟩
  exact pairwise_insertionSort _ tuples

lemma mergeRuns_sorted (h : RunsSorted le runs) : (SortState.mergeRuns le runs).Pairwise fun a b => le a b := by
  induction runs with
  | nil => exact List.Pairwise.nil
  | cons run runs ih =>
    apply pairwise_merge htrans htotal
    · exact h run mem_cons_self
    · exact ih fun r hr => h r (mem_cons_of_mem run hr)

end Order

end Tuples

/-- The tuples that a job holds. -/
def RunningJob.tuples : RunningJob τ → List τ
  | .sorting buffer _ => buffer
  | .merging streams => streams.flatten
  | _ => []

namespace JobSlot

variable (cfg le chunks) (slot : JobSlot τ)

/-- The tuples that a job holds. -/
def held : List τ := (slot.running.map RunningJob.tuples).getD []

/-- What a job holds or has to read. -/
def contents : Multiset τ := (slot.held : Multiset τ) + chunksLeft cfg.numJobs chunks slot.pos

def Idle : Prop := slot.waiting = none ∧ slot.running = none ∧ slot.stopped = none

def Failing : Prop := slot.running = some .failed ∨ slot.stopped = some .failed

/-- What holds of one job. -/
structure Ok (failedJob : Bool) : Prop where
  waiting_running : slot.waiting = none ∨ slot.running = none
  waiting_stopped : slot.waiting = none ∨ slot.stopped = none
  running_stopped : slot.running = none ∨ slot.stopped = none
  complete : slot.partitionComplete = true → chunks.length ≤ slot.pos
  sorted : slot.running = some (.sorted true) → chunks.length ≤ slot.pos
  stopped : slot.stopped = some (.sort true) → chunks.length ≤ slot.pos
  limit : ∀ buffer, slot.running = some (.sorting buffer true) → buffer = []
  streams : ∀ streams, slot.running = some (.merging streams) → RunsSorted le streams
  idle : slot.Idle → slot.partitionComplete = true ∨ failedJob = true

end JobSlot

namespace SortState

variable (cfg le chunks) (s : SortState τ)

/-- All tuples that are somewhere. -/
def contents : Multiset τ :=
  (s.results.flatten : Multiset τ) + ∑ i ∈ Finset.range cfg.numJobs, (s.slots i).contents cfg chunks

def isRunning (slot : JobSlot τ) : ℕ := if slot.running.isSome then 1 else 0

/-- Until the main loop returns. -/
structure Sorting : Prop where
  pc : s.pc = .between ∨ s.pc = .waiting ∨ s.pc = .left
  slots : ∀ i < cfg.numJobs, (s.slots i).Ok le chunks s.failedJob
  running : s.nRunningJobs = ∑ i ∈ Finset.range cfg.numJobs, isRunning (s.slots i)
  results : RunsSorted le s.results
  total : s.jobFailed = false → s.contents cfg chunks = chunks.flatten
  failed : s.jobFailed = true ↔ s.failedJob = true ∨ ∃ i < cfg.numJobs, (s.slots i).Failing
  few : (∀ i < cfg.numJobs, (s.slots i).Idle) → s.failedJob = false → s.results.length ≤ cfg.nStreams
  between : s.pc = .between →
    (∃ i < cfg.numJobs, (s.slots i).waiting ≠ none ∨ (s.slots i).running ≠ none) ∨
      ∀ i < cfg.numJobs, (s.slots i).stopped = none
  waiting : s.pc = .waiting → ∃ i < cfg.numJobs, (s.slots i).running ≠ none ∨ (s.slots i).stopped ≠ none
  left : s.pc = .left → ∀ i < cfg.numJobs, (s.slots i).Idle

structure Changes (i : ℕ) (slot : JobSlot τ) (s' : SortState τ) : Prop where
  slots : s'.slots = Function.update s.slots i slot
  pc : s'.pc = s.pc
  failedJob : s'.failedJob = s.failedJob
  ok : slot.Ok le chunks s.failedJob
  busy : slot.running ≠ none ∨ slot.stopped ≠ none
  results : RunsSorted le s'.results
  running : s'.nRunningJobs + 1 = s.nRunningJobs + isRunning slot
  total : s'.jobFailed = false → s.jobFailed = false ∧
    (s'.results.flatten : Multiset τ) + slot.contents cfg chunks =
      (s.results.flatten : Multiset τ) + (s.slots i).contents cfg chunks
  failing : slot.Failing → s'.jobFailed = true
  fails : s'.jobFailed = true → s.jobFailed = true ∨ slot.Failing
  keeps : s.jobFailed = true → s'.jobFailed = true
  keepsFailing : (s.slots i).Failing → slot.Failing
  between : s.pc = .between →
    slot.running ≠ none ∨ ∃ j < cfg.numJobs, j ≠ i ∧ ((s.slots j).waiting ≠ none ∨ (s.slots j).running ≠ none)

variable {cfg le chunks s} {s' : SortState τ} {i : ℕ} {slot : JobSlot τ}

variable {job : RunningJob τ} {n : ℕ} {results : List (List τ)}

lemma isRunning_of_running (h : slot.running = some job) : isRunning slot = 1 := by
  rw [isRunning, h]
  rfl

lemma isRunning_of_none (h : slot.running = none) : isRunning slot = 0 := by
  rw [isRunning, h]
  rfl

lemma sum_isRunning_eq_zero_iff {slots : ℕ → JobSlot τ} :
    ∑ i ∈ Finset.range n, isRunning (slots i) = 0 ↔ ∀ i < n, (slots i).running = none := by
  rw [Finset.sum_eq_zero_iff]
  refine forall_congr' fun i => ?_
  rw [Finset.mem_range, isRunning]
  cases (slots i).running <;> simp

lemma sum_update {M : Type} [AddCommMonoid M] (hi : i < n) (slots : ℕ → JobSlot τ) (slot : JobSlot τ) (f : JobSlot τ → M) :
    ∑ j ∈ Finset.range n, f (update slots i slot j) + f (slots i) = ∑ j ∈ Finset.range n, f (slots j) + f slot := by
  rw [← sum_exchange (mem_range.mpr hi) (fun j => f (slots j)) (f slot)]
  congr 1
  apply sum_congr rfl
  intro j _
  exact apply_update (fun _ => f) slots i slot j

section

variable (h : s.Sorting cfg le chunks)

include h

lemma Sorting.change (hi : i < cfg.numJobs) (hrun : (s.slots i).running = some job)
    (hc : s.Changes cfg le chunks i slot s') : s'.Sorting cfg le chunks := by
  have hat : s'.slots i = slot := by rw [hc.slots, update_self]
  have hother : ∀ j, j ≠ i → s'.slots j = s.slots j := fun j hj => by rw [hc.slots, update_of_ne hj]
  have hnotIdle : ¬ ∀ j < cfg.numJobs, (s'.slots j).Idle := by
    intro hidle
    have hslot := hidle i hi
    rw [hat] at hslot
    exact hc.busy.elim (fun hr => hr hslot.2.1) fun hs => hs hslot.2.2
  refine ⟨hc.pc ▸ h.pc, ?_, ?_, hc.results, ?_, ?_, fun hidle => absurd hidle hnotIdle, ?_, ?_, ?_⟩
  · intro j hj
    rw [hc.failedJob]
    by_cases hji : j = i
    · rw [hji, hat]
      exact hc.ok
    · rw [hother j hji]
      exact h.slots j hj
  · have hsum := sum_update hi s.slots slot isRunning
    have hnew := hc.running
    rw [isRunning_of_running hrun, ← h.running] at hsum
    rw [hc.slots]
    omega
  · intro hjf
    obtain ⟨hjf, htotal⟩ := hc.total hjf
    have hsum := sum_update hi s.slots slot (JobSlot.contents cfg chunks)
    apply add_right_cancel (b := (s.slots i).contents cfg chunks)
    rw [← h.total hjf, contents, contents, hc.slots, add_assoc, hsum, add_comm (Finset.sum _ _), ← add_assoc, htotal,
      add_right_comm]
  · rw [hc.failedJob]
    constructor
    · intro hjf
      rcases hc.fails hjf with hjf | hfailing
      · refine (h.failed.mp hjf).imp_right ?_
        rintro ⟨j, hj, hfailing⟩
        by_cases hji : j = i
        · refine ⟨i, hi, ?_⟩
          rw [hat]
          exact hc.keepsFailing (hji ▸ hfailing)
        · exact ⟨j, hj, by rwa [hother j hji]⟩
      · exact .inr ⟨i, hi, by rwa [hat]⟩
    · rintro (hfailed | ⟨j, hj, hfailing⟩)
      · exact hc.keeps (h.failed.mpr (.inl hfailed))
      · by_cases hji : j = i
        · rw [hji, hat] at hfailing
          exact hc.failing hfailing
        · rw [hother j hji] at hfailing
          exact hc.keeps (h.failed.mpr (.inr ⟨j, hj, hfailing⟩))
  · intro hpc
    rw [hc.pc] at hpc
    rcases hc.between hpc with hr | ⟨j, hj, hji, hbusy⟩
    · exact .inl ⟨i, hi, .inr (by rwa [hat])⟩
    · exact .inl ⟨j, hj, by rwa [hother j hji]⟩
  · intro _
    refine ⟨i, hi, ?_⟩
    rw [hat]
    exact hc.busy
  · intro hleft
    rw [hc.pc] at hleft
    have hnone := (h.left hleft i hi).2.1
    rw [hrun] at hnone
    exact nomatch hnone

lemma Sorting.running_eq_none (hzero : s.nRunningJobs = 0) (hi : i < cfg.numJobs) : (s.slots i).running = none := by
  rw [h.running, sum_isRunning_eq_zero_iff] at hzero
  exact hzero i hi

lemma Sorting.nRunningJobs_ne_zero (hi : i < cfg.numJobs) (hrun : (s.slots i).running = some job) : s.nRunningJobs ≠ 0 := by
  intro hzero
  have hnone := h.running_eq_none hzero hi
  rw [hrun] at hnone
  exact nomatch hnone

end

open Option

lemma Changes.work {job' : RunningJob τ} {p : ℕ} (hok : (s.slots i).Ok le chunks s.failedJob)
    (hrun : (s.slots i).running = some job) (hp : (s.slots i).pos ≤ p)
    (hsorted : job' = .sorted true → chunks.length ≤ p) (hlimit : ∀ buffer, job' = .sorting buffer true → buffer = [])
    (hstreams : ∀ streams, job' = .merging streams → RunsSorted le streams) (hresults : RunsSorted le results)
    (hcontents : (results.flatten : Multiset τ) + (job'.tuples + chunksLeft cfg.numJobs chunks p) =
      s.results.flatten + (job.tuples + chunksLeft cfg.numJobs chunks (s.slots i).pos)) (hjob : job ≠ .failed)
    (hjob' : job' ≠ .failed) : s.Changes cfg le chunks i { s.slots i with pos := p, running := some job' }
      { s.setSlot i { s.slots i with pos := p, running := some job' } with results := results } where
  slots := rfl
  pc := rfl
  failedJob := rfl
  ok := by
    refine ⟨.inl ?_, .inl ?_, .inr ?_, fun h => (hok.complete h).trans hp, fun h => hsorted (some.inj h), ?_,
      fun buffer h => hlimit buffer (some.inj h), fun streams h => hstreams streams (some.inj h),
      fun h => nomatch h.2.1⟩
    · exact hok.waiting_running.resolve_right (by simp [hrun])
    · exact hok.waiting_running.resolve_right (by simp [hrun])
    · exact hok.running_stopped.resolve_left (by simp [hrun])
    · exact fun h => (hok.stopped h).trans hp
  busy := .inl nofun
  results := hresults
  running := rfl
  total := by
    intro hjf
    refine ⟨hjf, ?_⟩
    rwa [JobSlot.contents, JobSlot.contents, JobSlot.held, JobSlot.held, hrun]
  failing := by
    rintro (h | h)
    · exact absurd (some.inj h) hjob'
    · have hnone := hok.running_stopped.resolve_left (by simp [hrun])
      rw [hnone] at h
      exact nomatch h
  fails := .inl
  keeps := id
  keepsFailing := by
    rintro (h | h)
    · rw [hrun] at h
      exact absurd (some.inj h) hjob
    · exact .inr h
  between _ := .inl nofun

open RunningJob

section

variable (htotal : ∀ a b, le a b || le b a) (htrans : ∀ a b c, le a b → le b c → le a c) (h : s.Sorting cfg le chunks)
  (hi : i < cfg.numJobs)

include htotal htrans h hi

lemma Sorting.append (hs : s.append cfg le chunks i = some s') :
    s'.Sorting cfg le chunks := by
  have hok := h.slots i hi
  rw [SortState.append] at hs
  dsimp only at hs
  split at hs
  case h_2 => exact nomatch hs
  case h_1 buffer hrun =>
  split_ifs at hs with hpos hmem
  · cases hs
    have hstep := chunksLeft_step (Nat.zero_lt_of_lt hi) hpos
    refine h.change hi hrun (.work hok hrun (by omega) nofun ?_ nofun ?_ ?_ nofun nofun)
    · exact fun _ hjob => (sorting.inj hjob).1.symm
    · exact h.results.append (sortTuples_sorted htotal htrans _)
    · rw [hstep, flatten_append]
      simp only [flatten_cons, flatten_nil, append_nil, (coe_add _ _).symm, tuples,
        coe_eq_coe.mpr (sortTuples_perm _), coe_nil, zero_add, add_assoc]
  · cases hs
    have hstep := chunksLeft_step (Nat.zero_lt_of_lt hi) hpos
    refine h.change hi hrun (.work hok hrun (by omega) nofun nofun nofun h.results ?_ nofun nofun)
    rw [hstep]
    simp only [(coe_add _ _).symm, tuples, add_assoc]

lemma Sorting.finish (hs : s.finish le chunks i = some s') :
    s'.Sorting cfg le chunks := by
  have hok := h.slots i hi
  rw [SortState.finish] at hs
  split at hs
  case h_2 => exact nomatch hs
  case h_1 buffer limitReached hrun =>
  split_ifs at hs with hpos hbuffer hlimit
  · cases hs
    refine h.change hi hrun (.work hok hrun (le_refl _) (fun _ => hpos) nofun nofun h.results ?_ nofun nofun)
    simp only [tuples, hbuffer]
  · cases hs
    refine h.change hi hrun (.work hok hrun (le_refl _) (fun _ => hpos) nofun nofun ?_ ?_ nofun nofun)
    · exact h.results.append (sortTuples_sorted htotal htrans _)
    · simp only [flatten_append, flatten_cons, flatten_nil, append_nil, (coe_add _ _).symm,
        tuples, coe_eq_coe.mpr (sortTuples_perm _), coe_nil, zero_add, add_assoc]
  · cases hs
    rw [hlimit] at hrun
    refine h.change hi hrun (.work hok hrun (le_refl _) nofun nofun nofun h.results ?_ nofun nofun)
    rw [tuples, tuples, hok.limit buffer hrun]
    · exact nofun
    · exact nofun

end

lemma Sorting.take (h : s.Sorting cfg le chunks) (hi : i < cfg.numJobs) (hs : s.take cfg i = some s') :
    s'.Sorting cfg le chunks := by
  have hok := h.slots i hi
  rw [SortState.take] at hs
  split at hs
  case h_2 => exact nomatch hs
  case h_1 hrun =>
  cases hs
  refine h.change hi hrun (.work hok hrun (le_refl _) nofun nofun ?_ ?_ ?_ nofun nofun)
  · rintro _ ⟨⟩ run hrun
    exact h.results run (mem_of_mem_take hrun)
  · exact fun run hrun => h.results run (mem_of_mem_drop hrun)
  · have hsplit : (s.results.flatten : Multiset τ) =
        (s.results.drop cfg.nStreams).flatten + (s.results.take cfg.nStreams).flatten := by
      rw [add_comm, coe_add, ← flatten_append, take_append_drop]
    simp only [tuples, coe_nil, zero_add, hsplit, add_assoc]

lemma Sorting.fail (h : s.Sorting cfg le chunks) (hi : i < cfg.numJobs) (hs : s.fail i = some s') :
    s'.Sorting cfg le chunks := by
  have hok := h.slots i hi
  obtain ⟨job, hrun, rfl⟩ : ∃ job, (s.slots i).running = some job ∧ s' =
      { s.setSlot i { s.slots i with running := some .failed } with jobFailed := true } := by
    rw [SortState.fail] at hs
    split at hs
    case h_4 => exact nomatch hs
    all_goals exact ⟨_, by assumption, (some.inj hs).symm⟩
  have hwaiting := hok.waiting_running.resolve_right (by simp [hrun])
  have hstopped := hok.running_stopped.resolve_left (by simp [hrun])
  refine h.change hi hrun (?_ : s.Changes cfg le chunks i { s.slots i with running := some .failed } _)
  exact
    { slots := rfl
      pc := rfl
      failedJob := rfl
      ok := ⟨.inl hwaiting, .inl hwaiting, .inr hstopped, hok.complete, nofun, hok.stopped, nofun, nofun,
        fun hidle => nomatch hidle.2.1⟩
      busy := .inl nofun
      results := h.results
      running := rfl
      total := nofun
      failing := fun _ => rfl
      fails := fun _ => .inr (.inl rfl)
      keeps := fun _ => rfl
      keepsFailing := fun _ => .inl rfl
      between := fun _ => .inl nofun }

/-- A job that stops in the gap between two iterations leaves something to do for the main loop. -/
def StopsSafely (cfg : SortConfig) (s : SortState τ) (i : ℕ) : Prop :=
  s.pc = .between → ∃ j < cfg.numJobs, j ≠ i ∧ ((s.slots j).waiting ≠ none ∨ (s.slots j).running ≠ none)

lemma Changes.stop {job' : StoppedJob} (hi : i < cfg.numJobs) (h : s.Sorting cfg le chunks)
    (hrun : (s.slots i).running = some job) (hsafe : StopsSafely cfg s i)
    (hsorted : job' = .sort true → chunks.length ≤ (s.slots i).pos) (hresults : RunsSorted le results)
    (hcontents : (results.flatten : Multiset τ) = s.results.flatten + job.tuples) (hjob : job = .failed ↔ job' = .failed) :
    s.Changes cfg le chunks i { s.slots i with running := none, stopped := some job' }
      { s.setSlot i { s.slots i with running := none, stopped := some job' } with
        nRunningJobs := s.nRunningJobs - 1, results := results } where
  slots := rfl
  pc := rfl
  failedJob := rfl
  ok := by
    have hok := h.slots i hi
    have hwaiting := hok.waiting_running.resolve_right (by simp [hrun])
    exact ⟨.inl hwaiting, .inl hwaiting, .inl rfl, hok.complete, nofun, fun h => hsorted (some.inj h), nofun,
      nofun, fun hidle => nomatch hidle.2.2⟩
  busy := .inr nofun
  results := hresults
  running := by
    have hpos := h.nRunningJobs_ne_zero hi hrun
    rw [isRunning_of_none rfl]
    dsimp only
    omega
  total := by
    intro hjf
    refine ⟨hjf, ?_⟩
    rw [JobSlot.contents, JobSlot.contents, JobSlot.held, JobSlot.held, hrun]
    dsimp only [Option.map, Option.getD]
    rw [hcontents, coe_nil, zero_add, add_assoc]
  failing := by
    rintro (hf | hf)
    · exact nomatch hf
    · exact h.failed.mpr (.inr ⟨i, hi, .inl (by rw [hrun, hjob.mpr (some.inj hf)])⟩)
  fails := .inl
  keeps := id
  keepsFailing := by
    rintro (hf | hf)
    · rw [hrun] at hf
      exact .inr (congrArg some (hjob.mp (some.inj hf)))
    · have hstopped := (h.slots i hi).running_stopped.resolve_left (by simp [hrun])
      rw [hstopped] at hf
      exact nomatch hf
  between hpc := .inr (hsafe hpc)

lemma Sorting.stop (htotal : ∀ a b, le a b || le b a) (htrans : ∀ a b c, le a b → le b c → le a c)
    (h : s.Sorting cfg le chunks) (hi : i < cfg.numJobs) (hsafe : StopsSafely cfg s i) (hs : s.stop le i = some s') :
    s'.Sorting cfg le chunks := by
  have hok := h.slots i hi
  rw [SortState.stop] at hs
  split at hs
  case h_4 => exact nomatch hs
  case h_1 complete hrun =>
    cases hs
    refine h.change hi hrun (.stop hi h hrun hsafe ?_ h.results ?_ ⟨nofun, nofun⟩)
    · intro hcomplete
      rw [StoppedJob.sort.injEq] at hcomplete
      rw [hcomplete] at hrun
      exact hok.sorted hrun
    · exact (add_zero _).symm
  case h_2 streams hrun =>
    cases hs
    have hstreams := hok.streams streams hrun
    refine h.change hi hrun (.stop hi h hrun hsafe nofun ?_ ?_ ⟨nofun, nofun⟩)
    · exact h.results.append (mergeRuns_sorted htotal htrans hstreams)
    · simp only [flatten_append, flatten_cons, flatten_nil, append_nil, (coe_add _ _).symm, tuples, coe_eq_coe.mpr (mergeRuns_perm _)]
  case h_3 hrun =>
    cases hs
    exact h.change hi hrun (.stop hi h hrun hsafe nofun h.results (add_zero _).symm ⟨fun _ => rfl, fun _ => rfl⟩)

end SortState

namespace JobSlot

variable {slot : JobSlot τ} {failedJob : Bool}

lemma spawn_cases (slot : JobSlot τ) : slot.waiting = none ∧ slot.spawn = slot ∨
      slot.waiting ≠ none ∧ ∃ job, (job = .sorting [] false ∨ job = .merge) ∧
        slot.spawn = { slot with running := some job, waiting := none } := by
  rw [spawn]
  split
  case h_1 h => exact .inl ⟨h, rfl⟩
  case h_2 h => exact .inr ⟨by simp [h], _, .inl rfl, rfl⟩
  case h_3 h => exact .inr ⟨by simp [h], _, .inr rfl, rfl⟩

lemma spawn_waiting (slot : JobSlot τ) : slot.spawn.waiting = none := by
  obtain ⟨h, hspawn⟩ | ⟨_, job, _, hspawn⟩ := slot.spawn_cases
  · rwa [hspawn]
  · rw [hspawn]

lemma spawn_stopped (slot : JobSlot τ) : slot.spawn.stopped = slot.stopped := by
  obtain ⟨_, hspawn⟩ | ⟨_, job, _, hspawn⟩ := slot.spawn_cases <;> rw [hspawn]

lemma spawn_running (h : slot.waiting ≠ none ∨ slot.running ≠ none) : slot.spawn.running ≠ none := by
  obtain ⟨hwaiting, hspawn⟩ | ⟨_, job, _, hspawn⟩ := slot.spawn_cases
  · rw [hspawn]
    exact h.resolve_left fun hw => hw hwaiting
  · rw [hspawn]
    exact nofun

lemma Idle.of_spawn (h : slot.spawn.Idle) : slot.Idle := by
  have hbusy : ¬ (slot.waiting ≠ none ∨ slot.running ≠ none) := fun hbusy => spawn_running hbusy h.2.1
  rw [not_or, not_not, not_not] at hbusy
  exact ⟨hbusy.1, hbusy.2, slot.spawn_stopped ▸ h.2.2⟩

lemma Ok.spawn (h : slot.Ok le chunks failedJob) : slot.spawn.Ok le chunks failedJob ∧ (slot.spawn.Failing ↔ slot.Failing) ∧
      SortState.isRunning slot.spawn = SortState.isRunning slot + if slot.waiting.isSome then 1 else 0 := by
  obtain ⟨hwaiting, hspawn⟩ | ⟨hwaiting, job, hjob, hspawn⟩ := slot.spawn_cases
  · rw [hspawn, hwaiting]
    exact ⟨h, Iff.rfl, rfl⟩
  · have hrun := h.waiting_running.resolve_left hwaiting
    have hstopped := h.waiting_stopped.resolve_left hwaiting
    rw [hspawn, SortState.isRunning_of_none hrun, SortState.isRunning_of_running rfl,
      if_pos (isSome_iff_ne_none.mpr hwaiting), Failing, Failing, hrun]
    refine ⟨⟨.inl rfl, .inl rfl, .inr hstopped, h.complete, ?_, h.stopped, ?_, ?_, fun hidle => nomatch hidle.2.1⟩, ?_, rfl⟩
    · rcases hjob with rfl | rfl <;> exact nofun
    · rcases hjob with rfl | rfl <;> exact nofun
    · rcases hjob with rfl | rfl <;> exact nofun
    · rcases hjob with rfl | rfl <;> simp

lemma Ok.contents_spawn (cfg : SortConfig) (h : slot.Ok le chunks failedJob) :
    slot.spawn.contents cfg chunks = slot.contents cfg chunks := by
  obtain ⟨hwaiting, hspawn⟩ | ⟨hwaiting, job, hjob, hspawn⟩ := slot.spawn_cases
  · rw [hspawn]
  · rw [hspawn, contents, contents, held, held, h.waiting_running.resolve_left hwaiting]
    rcases hjob with rfl | rfl <;> rfl

end JobSlot

namespace SortState

variable {s s' : SortState τ}

lemma countP_range (n : ℕ) (p : ℕ → Bool) : (List.range n).countP p = ∑ i ∈ Finset.range n, if p i then 1 else 0 := by
  induction n with
  | zero => rfl
  | succ n ih => rw [List.range_succ, countP_append, Finset.sum_range_succ, ih, countP_singleton]

lemma Sorting.iterate (h : s.Sorting cfg le chunks) (hpc : s.pc = .between) : (s.iterate cfg).Sorting cfg le chunks := by
  have hslot : ∀ i < cfg.numJobs, (s.iterate cfg).slots i = (s.slots i).spawn := fun i hi => if_pos hi
  have hrunning : (s.iterate cfg).nRunningJobs = ∑ i ∈ range cfg.numJobs, isRunning ((s.iterate cfg).slots i) := by
    show s.nRunningJobs + _ = _
    rw [h.running, countP_range, ← sum_add_distrib]
    apply sum_congr rfl
    intro i hi
    have hi := Finset.mem_range.mp hi
    rw [hslot i hi, (h.slots i hi).spawn.2.2]
  have hend : (s.iterate cfg).pc = if (s.iterate cfg).nRunningJobs = 0 then .left else .waiting := rfl
  refine ⟨?_, ?_, hrunning, h.results, ?_, ?_, ?_, ?_, ?_, ?_⟩
  · rw [hend]
    split_ifs
    · exact .inr (.inr rfl)
    · exact .inr (.inl rfl)
  · intro i hi
    rw [hslot i hi]
    exact (h.slots i hi).spawn.1
  · intro hjf
    rw [← h.total hjf, contents, contents]
    congr 1
    apply sum_congr rfl
    intro i hi
    have hi := Finset.mem_range.mp hi
    rw [hslot i hi, (h.slots i hi).contents_spawn]
  · refine h.failed.trans (or_congr_right (exists_congr fun i => and_congr_right fun hi => ?_))
    rw [hslot i hi, (h.slots i hi).spawn.2.1]
  · intro hidle
    apply h.few
    intro i hi
    have hi' := hidle i hi
    rw [hslot i hi] at hi'
    exact hi'.of_spawn
  · rw [hend]
    split_ifs <;> exact nofun
  · rw [hend]
    split_ifs with hzero
    · exact nofun
    · intro _
      rw [hrunning, sum_isRunning_eq_zero_iff] at hzero
      push Not at hzero
      obtain ⟨i, hi, hrun⟩ := hzero
      exact ⟨i, hi, .inl hrun⟩
  · rw [hend]
    split_ifs with hzero
    · intro _ i hi
      rw [hrunning, sum_isRunning_eq_zero_iff] at hzero
      have hrun := hzero i hi
      -- A job that waited or ran would run now, so there was nothing to do, and nothing to reap.
      have hstopped := (h.between hpc).resolve_left (by
        rintro ⟨j, hj, hbusy⟩
        have hj' := hzero j hj
        rw [hslot j hj] at hj'
        exact JobSlot.spawn_running hbusy hj')
      rw [hslot i hi] at hrun ⊢
      exact ⟨(s.slots i).spawn_waiting, hrun, by rw [JobSlot.spawn_stopped, hstopped i hi]⟩
    · exact nofun

end SortState

namespace JobSlot

variable {slot : JobSlot τ} {failedJob : Bool} {nResults : ℕ}

lemma reap_cases (cfg : SortConfig) (nResults : ℕ) (failedJob : Bool) (slot : JobSlot τ) :
    slot.stopped = none ∧ slot.reap cfg nResults failedJob = (slot, failedJob) ∨
      (∃ job, slot.stopped = some job ∧ failedJob = false ∧ job ≠ .failed ∧
        slot.reap cfg nResults failedJob = (slot.reschedule cfg nResults job, false)) ∨
      slot.stopped ≠ none ∧ (failedJob = true ∨ slot.stopped = some .failed) ∧
        slot.reap cfg nResults failedJob = ({ slot with stopped := none }, true) := by
  rw [reap]
  split
  case h_1 h => exact .inl ⟨h, rfl⟩
  case h_2 job h =>
    split_ifs with hgood
    · exact .inr (.inl ⟨job, h, hgood.1, hgood.2, by rw [hgood.1]⟩)
    · have hbad : failedJob = true ∨ job = .failed := by
        cases failedJob with
        | true => exact .inl rfl
        | false => exact .inr (by_contra fun hjob => hgood ⟨rfl, hjob⟩)
      refine .inr (.inr ⟨by simp [h], hbad.imp_right fun hjob => by rw [h, hjob], ?_⟩)
      rcases hbad with hbad | hbad <;> simp [hbad]

lemma reap_failedJob (h : failedJob = true) : (slot.reap cfg nResults failedJob).2 = true := by
  obtain ⟨_, hreap⟩ | ⟨_, _, hf, _⟩ | ⟨_, _, hreap⟩ := reap_cases cfg nResults failedJob slot
  · rwa [hreap]
  · rw [h] at hf
    exact nomatch hf
  · rw [hreap]

lemma failed_of_reap (h : (slot.reap cfg nResults failedJob).2 = true) : failedJob = true ∨ slot.stopped = some .failed := by
  obtain ⟨_, hreap⟩ | ⟨_, _, _, _, hreap⟩ | ⟨_, hbad, _⟩ := reap_cases cfg nResults failedJob slot
  · rw [hreap] at h
    exact .inl h
  · rw [hreap] at h
    exact nomatch h
  · exact hbad

lemma reap_of_failed (h : slot.stopped = some .failed) : (slot.reap cfg nResults failedJob).2 = true := by
  obtain ⟨hnone, _⟩ | ⟨_, hjob, _, hne, _⟩ | ⟨_, _, hreap⟩ := reap_cases cfg nResults failedJob slot
  · rw [h] at hnone
    exact nomatch hnone
  · rw [h] at hjob
    exact absurd (some.inj hjob).symm hne
  · rw [hreap]

lemma reap_of_none (h : slot.stopped = none) : (slot.reap cfg nResults failedJob).1 = slot := by
  rw [reap, h]

lemma reap_running : (slot.reap cfg nResults failedJob).1.running = slot.running := by
  obtain ⟨_, hreap⟩ | ⟨_, _, _, _, hreap⟩ | ⟨_, _, hreap⟩ := reap_cases cfg nResults failedJob slot <;> rw [hreap]
  rfl

lemma reap_pos : (slot.reap cfg nResults failedJob).1.pos = slot.pos := by
  obtain ⟨_, hreap⟩ | ⟨_, _, _, _, hreap⟩ | ⟨_, _, hreap⟩ := reap_cases cfg nResults failedJob slot <;> rw [hreap]
  rfl

lemma reap_stopped : (slot.reap cfg nResults failedJob).1.stopped = none := by
  obtain ⟨h, hreap⟩ | ⟨_, _, _, _, hreap⟩ | ⟨_, _, hreap⟩ := reap_cases cfg nResults failedJob slot <;> rw [hreap]
  · exact h
  · rfl

lemma few_of_reap (hstopped : slot.stopped ≠ none) (hgood : (slot.reap cfg nResults failedJob).2 = false)
    (hidle : (slot.reap cfg nResults failedJob).1.Idle) : nResults ≤ cfg.nStreams := by
  obtain ⟨h, _⟩ | ⟨job, _, _, _, hreap⟩ | ⟨_, _, hreap⟩ := reap_cases cfg nResults failedJob slot
  · exact absurd h hstopped
  · have hwaiting := hidle.1
    rw [hreap, reschedule] at hwaiting
    split_ifs at hwaiting with _ hmany
    exact Nat.le_of_not_lt hmany
  · rw [hreap] at hgood
    exact nomatch hgood

lemma Ok.reap {f f' : Bool} (h : slot.Ok le chunks failedJob) (hfailed : failedJob = true → f' = true)
    (hreaped : (slot.reap cfg nResults f).2 = true → f' = true) : (slot.reap cfg nResults f).1.Ok le chunks f' := by
  obtain ⟨_, hreap⟩ | ⟨job, hjob, _, _, hreap⟩ | ⟨hstopped, _, hreap⟩ := reap_cases cfg nResults f slot
  · rw [hreap]
    exact { h with idle := fun hidle => (h.idle hidle).imp_right hfailed }
  · have hrun := h.running_stopped.resolve_right (by simp [hjob])
    rw [hreap, reschedule]
    refine ⟨.inr hrun, .inr rfl, .inr rfl, ?_, h.sorted, nofun, h.limit, h.streams, ?_⟩
    · intro hcomplete
      rcases Bool.or_eq_true_iff.mp hcomplete with hcomplete | hcomplete
      · exact h.complete hcomplete
      · exact h.stopped (by rw [hjob, beq_iff_eq.mp hcomplete])
    · rintro ⟨hwaiting, _, _⟩
      split_ifs at hwaiting with hcomplete
      exact .inl hcomplete
  · rw [hreap] at hreaped ⊢
    have hwaiting := h.waiting_stopped.resolve_right hstopped
    exact ⟨.inl hwaiting, .inl hwaiting, .inr rfl, h.complete, h.sorted, nofun, h.limit, h.streams, fun _ => .inr (hreaped rfl)⟩

end JobSlot

namespace SortState

variable {s s' : SortState τ}

/-- What reaping does. -/
structure Reaped (cfg : SortConfig) (l : List ℕ) (s s' : SortState τ) : Prop where
  results : s'.results = s.results
  nRunningJobs : s'.nRunningJobs = s.nRunningJobs
  jobFailed : s'.jobFailed = s.jobFailed
  slots : ∀ i ∉ l, s'.slots i = s.slots i
  reaped : ∀ i ∈ l, ∃ f, s'.slots i = ((s.slots i).reap cfg s.results.length f).1 ∧
    (s.failedJob = true → f = true) ∧ (((s.slots i).reap cfg s.results.length f).2 = true → s'.failedJob = true)
  failedJob : s.failedJob = true → s'.failedJob = true
  failed : s'.failedJob = true → s.failedJob = true ∨ ∃ i ∈ l, (s.slots i).stopped = some .failed

lemma reaped_foldl {l : List ℕ} (hl : l.Nodup) : Reaped cfg l s (l.foldl (reapAt cfg) s) := by
  induction l generalizing s with
  | nil => exact ⟨rfl, rfl, rfl, fun _ _ => rfl, nofun, id, .inl⟩
  | cons i l ih =>
    obtain ⟨hi, hl⟩ := List.nodup_cons.mp hl
    have hr := ih (s := s.reapAt cfg i) hl
    have hat : (s.reapAt cfg i).slots i = ((s.slots i).reap cfg s.results.length s.failedJob).1 := update_self i _ _
    have hother : ∀ j, j ≠ i → (s.reapAt cfg i).slots j = s.slots j := fun j hj => update_of_ne hj _ _
    rw [List.foldl_cons]
    refine ⟨hr.results, hr.nRunningJobs, hr.jobFailed, ?_, ?_, ?_, ?_⟩
    · intro j hj
      rw [List.mem_cons, not_or] at hj
      rw [hr.slots j hj.2, hother j hj.1]
    · intro j hj
      rcases List.mem_cons.mp hj with rfl | hj
      · exact ⟨s.failedJob, (hr.slots j hi).trans hat, id, hr.failedJob⟩
      · obtain ⟨f, hslot, hf, hr'⟩ := hr.reaped j hj
        rw [hother j fun hji => hi (hji ▸ hj)] at hslot hr'
        exact ⟨f, hslot, fun hfailed => hf (JobSlot.reap_failedJob hfailed), hr'⟩
    · exact fun hfailed => hr.failedJob (JobSlot.reap_failedJob hfailed)
    · intro hfailed
      rcases hr.failed hfailed with hfailed | ⟨j, hj, hstopped⟩
      · exact (JobSlot.failed_of_reap hfailed).imp_right fun hstopped => ⟨i, List.mem_cons_self, hstopped⟩
      · rw [hother j fun hji => hi (hji ▸ hj)] at hstopped
        exact .inr ⟨j, List.mem_cons_of_mem i hj, hstopped⟩

lemma Sorting.reap {w : SortState τ} (h : s.Sorting cfg le chunks) (hr : Reaped cfg (List.range cfg.numJobs) s w) :
    Sorting cfg le chunks { w with pc := .between } := by
  have hreaped : ∀ i < cfg.numJobs, ∃ f, w.slots i = ((s.slots i).reap cfg s.results.length f).1 ∧
      (s.failedJob = true → f = true) ∧ (((s.slots i).reap cfg s.results.length f).2 = true → w.failedJob = true) :=
    fun i hi => hr.reaped i (List.mem_range.mpr hi)
  have hrun : ∀ i < cfg.numJobs, (w.slots i).running = (s.slots i).running := by
    intro i hi
    obtain ⟨f, hslot, _⟩ := hreaped i hi
    rw [hslot, JobSlot.reap_running]
  have hpos : ∀ i < cfg.numJobs, (w.slots i).pos = (s.slots i).pos := by
    intro i hi
    obtain ⟨f, hslot, _⟩ := hreaped i hi
    rw [hslot, JobSlot.reap_pos]
  have hstopped : ∀ i < cfg.numJobs, (w.slots i).stopped = none := by
    intro i hi
    obtain ⟨f, hslot, _⟩ := hreaped i hi
    rw [hslot, JobSlot.reap_stopped]
  refine ⟨.inl rfl, ?_, ?_, ?_, ?_, ?_, ?_, fun _ => .inr hstopped, nofun, nofun⟩
  · intro i hi
    obtain ⟨f, hslot, _, hf⟩ := hreaped i hi
    rw [hslot]
    exact (h.slots i hi).reap hr.failedJob hf
  · dsimp only
    rw [hr.nRunningJobs, h.running]
    apply sum_congr rfl
    intro i hi
    rw [isRunning, isRunning, hrun i (Finset.mem_range.mp hi)]
  · dsimp only
    rw [hr.results]
    exact h.results
  · dsimp only [contents]
    intro hjf
    rw [← h.total (hr.jobFailed ▸ hjf), hr.results, contents]
    congr 1
    apply sum_congr rfl
    intro i hi
    have hi := Finset.mem_range.mp hi
    rw [JobSlot.contents, JobSlot.contents, JobSlot.held, JobSlot.held, hrun i hi, hpos i hi]
  · dsimp only
    rw [hr.jobFailed, h.failed]
    constructor
    · rintro (hfailed | ⟨i, hi, hfailing | hfailing⟩)
      · exact .inl (hr.failedJob hfailed)
      · exact .inr ⟨i, hi, .inl (by rw [hrun i hi, hfailing])⟩
      · obtain ⟨f, _, _, hf⟩ := hreaped i hi
        exact .inl (hf (JobSlot.reap_of_failed hfailing))
    · rintro (hfailed | ⟨i, hi, hfailing | hfailing⟩)
      · exact (hr.failed hfailed).imp_right fun ⟨i, hi, hs⟩ => ⟨i, List.mem_range.mp hi, .inr hs⟩
      · exact .inr ⟨i, hi, .inl (by rw [← hrun i hi, hfailing])⟩
      · rw [hstopped i hi] at hfailing
        exact nomatch hfailing
  · dsimp only
    intro hidle hfailed
    rw [hr.results]
    by_cases hnone : ∀ i < cfg.numJobs, (s.slots i).stopped = none
    · -- Nothing was reaped, so the jobs were idle before.
      refine h.few (fun i hi => ?_) (Bool.eq_false_iff.mpr fun hf => ?_)
      · obtain ⟨f, hslot, _⟩ := hreaped i hi
        have hi' := hidle i hi
        rwa [hslot, JobSlot.reap_of_none (hnone i hi)] at hi'
      · rw [hr.failedJob hf] at hfailed
        exact nomatch hfailed
    · push Not at hnone
      obtain ⟨i, hi, hstop⟩ := hnone
      obtain ⟨f, hslot, _, hf⟩ := hreaped i hi
      refine JobSlot.few_of_reap hstop (Bool.eq_false_iff.mpr fun hbad => ?_) (hslot ▸ hidle i hi)
      rw [hf hbad] at hfailed
      exact nomatch hfailed

/-- Where a call has ended. -/
structure Ended (cfg : SortConfig) (le : τ → τ → Bool) (chunks : List (List τ)) (s : SortState τ) : Prop where
  idle : ∀ i < cfg.numJobs, (s.slots i).running = none
  result : s.pc = .threw ∧ s.jobFailed = true ∨
    ∃ tuples, s.pc = .returned tuples ∧ s.jobFailed = false ∧ tuples.Pairwise (fun a b => le a b) ∧
      tuples.Perm chunks.flatten

lemma Sorting.results_perm (h : s.Sorting cfg le chunks) (hidle : ∀ i < cfg.numJobs, (s.slots i).Idle)
    (hfailed : s.failedJob = false) : s.jobFailed = false ∧ s.results.flatten.Perm chunks.flatten := by
  have hjf : s.jobFailed = false := by
    rw [Bool.eq_false_iff]
    intro hjf
    rcases h.failed.mp hjf with hf | ⟨i, hi, hf | hf⟩
    · rw [hfailed] at hf
      exact nomatch hf
    · rw [(hidle i hi).2.1] at hf
      exact nomatch hf
    · rw [(hidle i hi).2.2] at hf
      exact nomatch hf
  refine ⟨hjf, ?_⟩
  have hzero : ∑ i ∈ range cfg.numJobs, (s.slots i).contents cfg chunks = 0 := by
    apply Finset.sum_eq_zero
    intro i hi
    have hi := Finset.mem_range.mp hi
    have hcomplete := ((h.slots i hi).idle (hidle i hi)).resolve_right (by simp [hfailed])
    rw [JobSlot.contents, chunksLeft_of_le ((h.slots i hi).complete hcomplete), JobSlot.held, (hidle i hi).2.1]
    rfl
  have htotal := h.total hjf
  rw [contents, hzero, add_zero] at htotal
  exact coe_eq_coe.mp htotal

lemma Sorting.leave (htotal : ∀ a b, le a b || le b a) (htrans : ∀ a b c, le a b → le b c → le a c)
    (h : s.Sorting cfg le chunks) (hpc : s.pc = .left) (merged : Bool) : (s.leave cfg le merged).Ended cfg le chunks := by
  have hidle := h.left hpc
  rw [SortState.leave]
  split_ifs with hfailed hmany hmerged
  · exact ⟨fun i hi => (hidle i hi).2.1, .inl ⟨rfl, h.failed.mpr (.inl hfailed)⟩⟩
  · rw [Bool.not_eq_true] at hfailed
    obtain ⟨hjf, hperm⟩ := h.results_perm hidle hfailed
    have hfew := h.few hidle hfailed
    rw [take_of_length_le hfew, drop_of_length_le hfew]
    exact ⟨fun i hi => (hidle i hi).2.1,
      .inr ⟨_, rfl, hjf, mergeRuns_sorted htotal htrans h.results, (mergeRuns_perm _).trans hperm⟩⟩
  · exact ⟨fun i hi => (hidle i hi).2.1, .inl ⟨rfl, rfl⟩⟩
  · rw [Bool.not_eq_true] at hfailed
    obtain ⟨hjf, hperm⟩ := h.results_perm hidle hfailed
    refine ⟨fun i hi => (hidle i hi).2.1, .inr ⟨_, rfl, hjf, ?_⟩⟩
    have hsorted := h.results
    rcases hresults : s.results with _ | ⟨run, _ | ⟨run', runs⟩⟩
    · rw [hresults] at hperm
      exact ⟨List.Pairwise.nil, hperm⟩
    · rw [hresults] at hperm hsorted
      rw [flatten_singleton] at hperm
      exact ⟨hsorted run mem_cons_self, hperm⟩
    · rw [hresults] at hmany
      simp at hmany

lemma sorting_init (hn : 0 < cfg.numJobs) : (init chunks).Sorting cfg le chunks where
  pc := .inl rfl
  slots i _ := ⟨.inr rfl, .inr rfl, .inl rfl, nofun, nofun, nofun, nofun, nofun, fun hidle => nomatch hidle.1⟩
  running := (sum_isRunning_eq_zero_iff.mpr fun _ _ => rfl).symm
  results := nofun
  total _ := by
    rw [contents]
    refine (zero_add _).trans (Eq.trans (sum_congr rfl fun i _ => ?_) (sum_chunksLeft hn))
    exact zero_add _
  failed := ⟨nofun, by rintro (hf | ⟨_, _, hf | hf⟩) <;> exact nomatch hf⟩
  few hidle := nomatch (hidle 0 hn).1
  between _ := .inl ⟨0, hn, .inl nofun⟩
  waiting := nofun
  left := nofun

/-- The last running job does not stop between two iterations while no job waits to be started. -/
def StopsInTime (cfg : SortConfig) (s : SortState τ) : SortAction → Prop
  | .stop _ => ¬ (s.pc = .between ∧ s.nRunningJobs = 1 ∧ ∀ j < cfg.numJobs, (s.slots j).waiting = none)
  | _ => True

lemma Sorting.stopsSafely {i : ℕ} {job : RunningJob τ} (h : s.Sorting cfg le chunks) (hi : i < cfg.numJobs)
    (hrun : (s.slots i).running = some job) (hok : StopsInTime cfg s (.stop i)) : StopsSafely cfg s i := by
  intro hpc
  by_contra hnone
  push Not at hnone
  refine hok ⟨hpc, ?_, ?_⟩
  · rw [h.running, sum_eq_single_of_mem i (mem_range.mpr hi), isRunning_of_running hrun]
    exact fun j hj hji => isRunning_of_none (hnone j (Finset.mem_range.mp hj) hji).2
  · intro j hj
    by_cases hji : j = i
    · rw [hji]
      exact (h.slots i hi).waiting_running.resolve_right (by simp [hrun])
    · exact (hnone j hj hji).1

def Inv (cfg : SortConfig) (le : τ → τ → Bool) (chunks : List (List τ)) (s : SortState τ) : Prop :=
  s.Sorting cfg le chunks ∨ s.Ended cfg le chunks

lemma Sorting.step (htotal : ∀ a b, le a b || le b a) (htrans : ∀ a b c, le a b → le b c → le a c) {a : SortAction}
    (h : s.Sorting cfg le chunks) (hok : StopsInTime cfg s a) (hs : step cfg le chunks s a = some s') :
    Inv cfg le chunks s' := by
  cases a with
  | iterate =>
    rw [SortState.step] at hs
    split at hs
    · cases hs
      exact .inl (h.iterate (by assumption))
    · exact nomatch hs
  | wake =>
    rw [SortState.step] at hs
    split at hs
    · cases hs
      exact .inl (h.reap (reaped_foldl nodup_range))
    · exact nomatch hs
  | append i =>
    obtain ⟨hi, hs⟩ := ite_none_right_eq_some.mp hs
    exact .inl (h.append htotal htrans hi hs)
  | finish i =>
    obtain ⟨hi, hs⟩ := ite_none_right_eq_some.mp hs
    exact .inl (h.finish htotal htrans hi hs)
  | take i =>
    obtain ⟨hi, hs⟩ := ite_none_right_eq_some.mp hs
    exact .inl (h.take hi hs)
  | fail i =>
    obtain ⟨hi, hs⟩ := ite_none_right_eq_some.mp hs
    exact .inl (h.fail hi hs)
  | stop i =>
    obtain ⟨hi, hs⟩ := ite_none_right_eq_some.mp hs
    rcases hrun : (s.slots i).running with _ | job
    · rw [SortState.stop, hrun] at hs
      exact nomatch hs
    · exact .inl (h.stop htotal htrans hi (h.stopsSafely hi hrun hok) hs)
  | leave merged =>
    rw [SortState.step] at hs
    split at hs
    · cases hs
      exact .inr (h.leave htotal htrans (by assumption) merged)
    · exact nomatch hs

open SortState

lemma Ended.step_eq_none (h : s.Ended cfg le chunks) (a : SortAction) : step cfg le chunks s a = none := by
  have hpc : s.pc = .threw ∨ ∃ tuples, s.pc = .returned tuples := h.result.imp And.left fun ⟨tuples, hpc, _⟩ => ⟨tuples, hpc⟩
  cases a with
  | iterate | wake | leave => rcases hpc with hpc | ⟨_, hpc⟩ <;> rw [step, hpc]
  | append i | finish i | take i | fail i | stop i =>
    rw [step, ite_eq_right_iff]
    intro hi
    simp only [append, finish, take, fail, stop, h.idle i hi]

/-- **Nothing is lost** if jobs stop in time: the tuples come back sorted, a call throws only if a job failed, and the main
loop waits only for a job. -/
theorem getSortedArray_sorts (htotal : ∀ a b, le a b || le b a) (htrans : ∀ a b c, le a b → le b c → le a c)
    (hn : 0 < cfg.numJobs) (h : Reaches (step cfg le chunks) (StopsInTime cfg) (init chunks) s) :
    (∀ tuples, s.pc = .returned tuples → s.jobFailed = false ∧ tuples.Pairwise (fun a b => le a b) ∧ tuples.Perm chunks.flatten) ∧
    (s.pc = .threw → s.jobFailed = true) ∧
    (s.pc = .waiting → ∃ i < cfg.numJobs, (s.slots i).running ≠ none ∨ (s.slots i).stopped ≠ none) := by
  have hinv : Inv cfg le chunks s := by
    refine h.invariant (.inl (sorting_init hn)) fun s s' a hinv hok hs => ?_
    rcases hinv with hinv | hinv
    · exact hinv.step htotal htrans hok hs
    · rw [hinv.step_eq_none] at hs
      exact nomatch hs
  rcases hinv with h | ⟨_, ⟨hpc, hjf⟩ | ⟨tuples, hpc, hjf, hsorted, hperm⟩⟩
  · refine ⟨?_, ?_, h.waiting⟩
    · intro tuples hpc
      rcases h.pc with hpc' | hpc' | hpc' <;> rw [hpc'] at hpc <;> exact nomatch hpc
    · intro hpc
      rcases h.pc with hpc' | hpc' | hpc' <;> rw [hpc'] at hpc <;> exact nomatch hpc
  · rw [hpc]
    exact ⟨nofun, fun _ => hjf, nofun⟩
  · rw [hpc]
    refine ⟨?_, nofun, nofun⟩
    rintro _ ⟨⟩
    exact ⟨hjf, hsorted, hperm⟩

theorem oneJob_sorts : let cfg : SortConfig := ⟨1, 0, 1, 2, 2, le_refl 2, le_refl 2⟩
    let le : ℕ → ℕ → Bool := fun a b => a ≤ b
    ∃ s, Reaches (step cfg le [[2, 1]]) (StopsInTime cfg) (init [[2, 1]]) s ∧ s.pc = .returned [1, 2] ∧
      s.jobFailed = false ∧ [1, 2].Perm [2, 1] := by
  intro cfg le
  obtain ⟨s₁, hs₁, hwaiting, hrest⟩ : ∃ s₁, Reaches (step cfg le [[2, 1]]) (StopsInTime cfg) (init [[2, 1]]) s₁ ∧
      s₁.pc = .waiting ∧ ((runActions (step cfg le [[2, 1]]) s₁ [.stop 0, .wake, .iterate, .leave true]).map
        fun s => s.pc) = some (.returned [1, 2]) :=
    ⟨_, Reaches.start.run (by simp [StopsInTime])
      (show runActions _ _ [.iterate, .append 0, .finish 0] = some _ from rfl), rfl, rfl⟩
  obtain ⟨s, hs, hpc⟩ := map_eq_some_iff.mp hrest
  obtain ⟨s₂, hs₂, hrun⟩ := bind_eq_some_iff.mp hs
  have hstop : StopsInTime cfg s₁ (.stop 0) := by
    rintro ⟨hbetween, _⟩
    rw [hwaiting] at hbetween
    exact nomatch hbetween
  have h := (hs₁.step hstop hs₂).run (by simp [StopsInTime]) hrun
  have hsorts := getSortedArray_sorts (fun a b => by simp [Nat.le_total])
    (fun a b c hab hbc => decide_eq_true ((of_decide_eq_true hab).trans (of_decide_eq_true hbc))) Nat.one_pos h
  obtain ⟨hjf, _, hperm⟩ := hsorts.1 [1, 2] hpc
  exact ⟨s, h, hpc, hjf, hperm⟩

end SortState

/-- A job stops in the gap, with three runs on the list and a chunk to read: the third run is returned. -/
theorem unreaped_loses : let cfg : SortConfig := ⟨2, 0, 1, 2, 2, le_refl 2, le_refl 2⟩
    let le : ℕ → ℕ → Bool := fun a b => a ≤ b
    let chunks := [[], [1], [], [2], [], [3], [], [4]]
    (runActions (SortState.step cfg le chunks) (.init chunks)
      [.iterate, .append 0, .append 0, .append 0, .append 0, .finish 0, .append 1, .append 1, .stop 0, .wake,
        .append 1, .finish 1, .stop 1, .iterate, .leave true]).map (fun s => (s.pc, s.jobFailed)) =
      some (.returned [3], false) := by
  decide +kernel

end SciDB.Array
