import SciDB.Lib.Runs

/-!
# Removing a data store under the flusher

`getDataStore` and `closeDataStore`, and the background thread: the guids to flush next, the rest of its snapshot, and the store
it has in hand. A step is a section under one lock. `created` counts how often a file of a guid was opened in a way that
creates it. Left out: what is in the files.
-/

namespace SciDB.Util

open SciDB.Lib List Function Option

/-- `DataStore::Guid`. -/
abbrev Guid := ℕ

/-- A `DataStore` object. -/
structure StoreObject where
  guid : Guid
  dirty : Bool
  fldirty : Bool
  removeOnClose : Bool
  deriving DecidableEq

/-- Where `closeDataStore` is. -/
inductive ClosePc where
  | flush
  | removeOnClose
  | removeFreelistFile
  | erase
  deriving DecidableEq

/-- A call that holds the lock. -/
structure Closing where
  guid : Guid
  remove : Bool
  store : ℕ
  pc : ClosePc
  deriving DecidableEq

/-- The thread of the flusher. -/
structure FlushJob where
  dss : List Guid
  ds : Option ℕ
  deriving DecidableEq

/-- The stores and the flusher. -/
structure StoresState where
  objects : List StoreObject
  theDataStores : Guid → Option ℕ
  closing : Option Closing
  running : Bool
  datastores : List Guid
  job : Option FlushJob
  created : Guid → ℕ

namespace StoresState

/-- No store, and no flusher yet. -/
def start : StoresState := ⟨[], fun _ => none, none, false, [], none, fun _ => 0⟩

/-- A file is created. -/
def create (g : Guid) (s : StoresState) : StoresState :=
  { s with created := Function.update s.created g (s.created g + 1) }

/-- `DataStoreFlusher::add`. -/
def add (g : Guid) (s : StoresState) : StoresState :=
  if s.running then { s with datastores := s.datastores.insert g } else s

/-- Change a store object. -/
def modify (i : ℕ) (f : StoreObject → StoreObject) (s : StoresState) : StoresState :=
  { s with objects := s.objects.modify i f }

/-- The constructor of a store. -/
def construct (g : Guid) (s : StoresState) : StoresState :=
  { s.create g with
    objects := s.objects ++ [⟨g, false, false, false⟩]
    theDataStores := Function.update s.theDataStores g (some s.objects.length) }

def getDataStore (g : Guid) (s : StoresState) : ℕ × StoresState :=
  match s.theDataStores g with
  | some i => (i, s)
  | none => (s.objects.length, s.construct g)

def writeData (i : ℕ) (st : StoreObject) (s : StoresState) : StoresState :=
  if st.dirty then s else (s.modify i fun st => { st with dirty := true }).add st.guid

/-- Before a block is changed. -/
def invalidateFreelistFile (i : ℕ) (st : StoreObject) (s : StoresState) : StoresState :=
  if st.fldirty then s
  else ((s.create st.guid).modify i fun st => { st with fldirty := true }).add st.guid

/-- `flush` of a store. -/
def flush (i : ℕ) (st : StoreObject) (s : StoresState) : StoresState :=
  let s := s.modify i fun st => { st with dirty := false }
  if st.fldirty then (s.create st.guid).modify i fun st => { st with fldirty := false } else s

end StoresState

/-- What can happen. -/
inductive StoresAction where
  | getDataStore (g : Guid)
  | writeData (i : ℕ)
  | allocateSpace (i : ℕ)
  | freeChunk (i : ℕ)
  | closeDataStore (g : Guid) (remove : Bool)
  | close
  | startFlusher
  | stopFlusher
  | stopped
  | snapshot
  | openNext
  | flushNext

namespace StoresState

/-- The lock is taken and the store is found, or opened in order to remove it. -/
def closeDataStore (g : Guid) (remove : Bool) (s : StoresState) : StoresState :=
  match s.theDataStores g with
  | some i => { s with closing := some ⟨g, remove, i, .flush⟩ }
  | none =>
    if remove then { s.construct g with closing := some ⟨g, remove, s.objects.length, .flush⟩ } else s

/-- One more step of `closeDataStore`. -/
def close (c : Closing) (s : StoresState) : Option StoresState :=
  match c.pc with
  | .flush => (s.objects[c.store]?).map fun st =>
    { s.flush c.store st with
      closing := some { c with pc := if c.remove then .removeOnClose else .erase } }
  | .removeOnClose => some
    { s.modify c.store (fun st => { st with removeOnClose := true }) with
      closing := some { c with pc := .removeFreelistFile } }
  | .removeFreelistFile => some { s with closing := some { c with pc := .erase } }
  | .erase => some { s with theDataStores := Function.update s.theDataStores c.guid none, closing := none }

/-- What there is to flush. -/
def snapshot (s : StoresState) : StoresState :=
  if s.running then { s with datastores := [], job := some ⟨s.datastores, none⟩ }
  else { s with job := none }

/-- What a step does. -/
def step (s : StoresState) : StoresAction → Option StoresState
  | .getDataStore g => if s.closing = none then some (s.getDataStore g).2 else none
  | .writeData i => (s.objects[i]?).map fun st => s.writeData i st
  | .allocateSpace i => (s.objects[i]?).map fun st => s.invalidateFreelistFile i st
  | .freeChunk i => (s.objects[i]?).map fun st => s.invalidateFreelistFile i st
  | .closeDataStore g remove => if s.closing = none then some (s.closeDataStore g remove) else none
  | .close => s.closing.bind fun c => s.close c
  | .startFlusher =>
    if s.running = false ∧ s.job = none then some { s with running := true, job := some ⟨[], none⟩ } else none
  | .stopFlusher => if s.running then some { s with running := false } else none
  | .stopped => if s.running = false ∧ s.job = none then some { s with datastores := [] } else none
  | .snapshot => if s.job = some ⟨[], none⟩ then some s.snapshot else none
  | .openNext =>
    match s.job with
    | some ⟨g :: dss, none⟩ =>
      if s.closing = none then
        some { (s.getDataStore g).2 with job := some ⟨dss, some (s.getDataStore g).1⟩ }
      else none
    | _ => none
  | .flushNext =>
    match s.job with
    | some ⟨dss, some i⟩ => (s.objects[i]?).map fun st => { s.flush i st with job := some ⟨dss, none⟩ }
    | _ => none

end StoresState

/-- A client uses the guid. -/
def StoresAction.Uses (s : StoresState) (g : Guid) : StoresAction → Prop
  | .getDataStore g' | .closeDataStore g' _ => g' = g
  | .writeData i | .allocateSpace i | .freeChunk i => ∃ st, s.objects[i]? = some st ∧ st.guid = g
  | _ => False

/-- Nothing to flush. -/
structure StoresState.Quiet (g : Guid) (s : StoresState) : Prop where
  scheduled : g ∉ s.datastores
  snapshot : ∀ j, s.job = some j → g ∉ j.dss
  clean : ∀ st ∈ s.objects, st.guid = g → st.fldirty = false

/-- No store of the guid is open, and so far files of it were created `n` times. -/
structure StoresState.Gone (g : Guid) (n : ℕ) (s : StoresState) : Prop extends s.Quiet g where
  closed : s.theDataStores g = none
  closing : ∀ c, s.closing = some c → c.guid ≠ g
  created : s.created g = n

namespace StoresState.Gone

variable {g g' : Guid} {n i : ℕ} {s s' : StoresState} {st : StoreObject}

section

variable (h : s.Gone g n) {f : StoreObject → StoreObject}

include h

lemma create (hg : g' ≠ g) : (s.create g').Gone g n where
  __ := h
  created := by simp [StoresState.create, update_of_ne hg.symm, h.created]

lemma add (hg : g' ≠ g) : (s.add g').Gone g n := by
  rw [StoresState.add]
  split_ifs
  · exact { h with scheduled := by simp [mem_insert_iff, h.scheduled, hg.symm] }
  · exact h

lemma modify (hguid : ∀ st, (f st).guid = st.guid)
    (hf : ∀ st, s.objects[i]? = some st → st.guid = g → (f st).fldirty = false) : (s.modify i f).Gone g n where
  __ := h
  clean := by
    intro st hst hg
    obtain ⟨j, hj⟩ := mem_iff_getElem?.mp hst
    rw [StoresState.modify, getElem?_modify] at hj
    obtain ⟨st', hst', rfl⟩ := map_eq_some_iff.mp hj
    split_ifs at hg ⊢ with hij
    · subst hij
      exact hf st' hst' (hguid st' ▸ hg)
    · exact h.clean st' (mem_of_getElem? hst') hg

lemma modify_of_fldirty (hguid : ∀ st, (f st).guid = st.guid)
    (hf : ∀ st, (f st).fldirty = st.fldirty) : (s.modify i f).Gone g n :=
  h.modify hguid fun st hst hg => (hf st).trans (h.clean st (mem_of_getElem? hst) hg)

lemma construct (hg : g' ≠ g) : (s.construct g').Gone g n where
  scheduled := h.scheduled
  snapshot := h.snapshot
  clean := by
    intro st hst hst'
    rcases mem_append.mp hst with hst | hst
    · exact h.clean st hst hst'
    · rw [mem_singleton.mp hst]
  closed := by simp [StoresState.construct, update_of_ne hg.symm, h.closed]
  closing := h.closing
  created := (h.create hg).created

lemma getDataStore (hg : g' ≠ g) : (s.getDataStore g').2.Gone g n := by
  rw [StoresState.getDataStore]
  split
  · exact h
  · exact h.construct hg

lemma writeData (hg : st.guid ≠ g) : (s.writeData i st).Gone g n := by
  rw [StoresState.writeData]
  split_ifs
  · exact h
  · apply Gone.add _ hg
    exact h.modify_of_fldirty (fun _ => rfl) fun _ => rfl

lemma invalidateFreelistFile (hst : s.objects[i]? = some st) (hg : st.guid ≠ g) : (s.invalidateFreelistFile i st).Gone g n := by
  rw [StoresState.invalidateFreelistFile]
  split_ifs
  · exact h
  · apply Gone.add _ hg
    refine (h.create hg).modify (fun _ => rfl) fun st' hst' hg' => ?_
    cases hst.symm.trans hst'
    exact absurd hg' hg

lemma flush (hst : s.objects[i]? = some st) : (s.flush i st).Gone g n := by
  have h' : (s.modify i fun st => { st with dirty := false }).Gone g n := h.modify_of_fldirty (fun _ => rfl) fun _ => rfl
  simp only [StoresState.flush]
  split_ifs with hfl
  · have hg : st.guid ≠ g := by
      intro hg
      rw [h.clean st (mem_of_getElem? hst) hg] at hfl
      cases hfl
    exact (h'.create hg).modify (fun _ => rfl) fun _ _ _ => rfl
  · exact h'

lemma close {c : Closing} (hc : c.guid ≠ g) (hs : s.close c = some s') : s'.Gone g n := by
  obtain ⟨g', remove, i, pc⟩ := c
  have hclosing : ∀ {pc' c'}, some ({ guid := g', remove, store := i, pc := pc' } : Closing) = some c' → c'.guid ≠ g := by
    rintro _ _ ⟨⟩
    exact hc
  cases pc with
  | flush =>
    obtain ⟨st, hst, rfl⟩ := map_eq_some_iff.mp hs
    exact { h.flush hst with closing := fun _ => hclosing }
  | removeOnClose =>
    cases hs
    have h' : (s.modify i fun st => { st with removeOnClose := true }).Gone g n := h.modify_of_fldirty (fun _ => rfl) fun _ => rfl
    exact { h' with closing := fun _ => hclosing }
  | removeFreelistFile =>
    cases hs
    exact { h with closing := fun _ => hclosing }
  | erase =>
    cases hs
    refine { h with closed := ?_, closing := nofun }
    simp [update_of_ne hc.symm, h.closed]

lemma closeDataStore (hg : g' ≠ g) (remove : Bool) : (s.closeDataStore g' remove).Gone g n := by
  rw [StoresState.closeDataStore]
  split
  · exact { h with closing := by rintro _ ⟨⟩; exact hg }
  · split_ifs
    · exact { h.construct hg with closing := by rintro _ ⟨⟩; exact hg }
    · exact h

lemma snapshot_step : s.snapshot.Gone g n := by
  rw [StoresState.snapshot]
  split_ifs
  · exact { h with scheduled := not_mem_nil, snapshot := by rintro _ ⟨⟩; exact h.scheduled }
  · exact { h with snapshot := nofun }

lemma step {a : StoresAction} (ha : ¬ a.Uses s g) (hs : s.step a = some s') : s'.Gone g n := by
  cases a with
  | getDataStore g' =>
    obtain ⟨-, ⟨⟩⟩ := ite_none_right_eq_some.mp hs
    exact h.getDataStore ha
  | writeData i =>
    obtain ⟨st, hst, rfl⟩ := map_eq_some_iff.mp hs
    exact h.writeData fun hg => ha ⟨st, hst, hg⟩
  | allocateSpace i =>
    obtain ⟨st, hst, rfl⟩ := map_eq_some_iff.mp hs
    exact h.invalidateFreelistFile hst fun hg => ha ⟨st, hst, hg⟩
  | freeChunk i =>
    obtain ⟨st, hst, rfl⟩ := map_eq_some_iff.mp hs
    exact h.invalidateFreelistFile hst fun hg => ha ⟨st, hst, hg⟩
  | closeDataStore g' remove =>
    obtain ⟨-, ⟨⟩⟩ := ite_none_right_eq_some.mp hs
    exact h.closeDataStore ha remove
  | close =>
    obtain ⟨c, hc, hs⟩ := bind_eq_some_iff.mp hs
    exact h.close (h.closing c hc) hs
  | startFlusher =>
    obtain ⟨-, ⟨⟩⟩ := ite_none_right_eq_some.mp hs
    exact { h with snapshot := by rintro _ ⟨⟩; exact not_mem_nil }
  | stopFlusher =>
    obtain ⟨-, ⟨⟩⟩ := ite_none_right_eq_some.mp hs
    exact { h with }
  | stopped =>
    obtain ⟨-, ⟨⟩⟩ := ite_none_right_eq_some.mp hs
    exact { h with scheduled := not_mem_nil }
  | snapshot =>
    obtain ⟨-, ⟨⟩⟩ := ite_none_right_eq_some.mp hs
    exact h.snapshot_step
  | openNext =>
    simp only [StoresState.step] at hs
    split at hs
    · rename_i g' dss hjob
      simp only [ite_none_right_eq_some] at hs
      obtain ⟨-, ⟨⟩⟩ := hs
      have hdss := h.snapshot _ hjob
      rw [mem_cons, not_or] at hdss
      exact { h.getDataStore (Ne.symm hdss.1) with snapshot := by rintro _ ⟨⟩; exact hdss.2 }
    · cases hs
  | flushNext =>
    simp only [StoresState.step] at hs
    split at hs
    · rename_i dss i hjob
      obtain ⟨st, hst, rfl⟩ := map_eq_some_iff.mp hs
      have hdss := h.snapshot _ hjob
      exact { h.flush hst with snapshot := by rintro _ ⟨⟩; exact hdss }
    · cases hs

end

end StoresState.Gone

/-- **A removed store stays removed**, if the flusher has nothing to do for its guid and nobody uses it. -/
theorem closed_stays_removed {g : Guid} {i : ℕ} {s₀ s₁ s : StoresState}
    (hclosing : s₀.closing = some ⟨g, true, i, .erase⟩) (hclose : s₀.step .close = some s₁)
    (hquiet : s₀.Quiet g) (hrun : Reaches StoresState.step (fun s a => ¬ a.Uses s g) s₁ s) :
    s.theDataStores g = none ∧ s.created g = s₁.created g := by
  have hgone : s₁.Gone g (s₁.created g) := by
    simp only [StoresState.step, hclosing, bind_some, StoresState.close, Option.some.injEq] at hclose
    subst hclose
    exact { hquiet with closed := by simp, closing := nofun, created := rfl }
  have h : s.Gone g (s₁.created g) := hrun.invariant hgone fun _ _ _ h ha hs => h.step ha hs
  exact ⟨h.closed, h.created⟩

/-- Store 7 was written and flushed in the background, and `closeDataStore` is about to return. -/
def flushedState : StoresState where
  objects := [⟨7, false, false, true⟩]
  theDataStores := Function.update (fun _ => none) 7 (some 0)
  closing := some ⟨7, true, 0, .erase⟩
  running := true
  datastores := []
  job := some ⟨[], none⟩
  created := Function.update (fun _ => 0) 7 1

theorem flushedRun_stays_removed :
    runActions StoresState.step .start [.startFlusher, .getDataStore 7, .writeData 0, .snapshot, .openNext, .flushNext,
        .closeDataStore 7 true, .close, .close, .close] = some flushedState ∧ ∃ s₁ s, flushedState.step .close = some s₁ ∧
        runActions StoresState.step s₁ [.getDataStore 8, .snapshot] = some s ∧
        s.theDataStores 7 = none ∧ s.created 7 = s₁.created 7 := by
  refine ⟨rfl, _, _, rfl, rfl, ?_⟩
  have hquiet : flushedState.Quiet 7 := ⟨by decide, by rintro _ ⟨⟩; decide, by decide⟩
  refine @closed_stays_removed 7 0 flushedState _ _ rfl rfl hquiet ?_
  refine ((Reaches.start).step (a := StoresAction.getDataStore 8) ?_ rfl).step (a := StoresAction.snapshot) ?_ rfl
  · exact (by decide : (8 : ℕ) ≠ 7)
  · exact not_false

/-- A store is removed before the flusher comes to it, and created once more in its next round. -/
theorem removedRun_reopens : ∃ s₁ s,
      runActions StoresState.step .start [.startFlusher, .getDataStore 7, .allocateSpace 0, .writeData 0,
        .closeDataStore 7 true, .close, .close, .close, .close] = some s₁ ∧ s₁.closing = none ∧ s₁.theDataStores 7 = none ∧
      runActions StoresState.step s₁ [.snapshot, .openNext, .flushNext] = some s ∧
      s.theDataStores 7 = some 1 ∧ s.created 7 = s₁.created 7 + 1 :=
  ⟨_, _, rfl, rfl, rfl, rfl, rfl, rfl⟩

end SciDB.Util
