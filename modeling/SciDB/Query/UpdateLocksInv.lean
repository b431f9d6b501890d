import SciDB.Query.UpdateLocks

/-!
# The invariant of updates

As long as a lock of an update is in the catalog, the versions of the array change only by the update itself (`Follows`). A
worker reads the last version only after the coordinator has ended (`HandlerOk.step`).
-/

namespace SciDB.Query

open SciDB.Lib List Option

namespace Catalog

variable {c : Catalog}

lemma mem_of_check {u : Update} {l : LockDesc} (h : c.checkForCoordinatorLock u = some l) :
    l ∈ c.locks ∧ l.update = u ∧ l.instanceId = u.coordinator := by
  have hmem := mem_of_find?_eq_some h
  have hp := find?_some h
  exact ⟨hmem, by simpa using hp⟩

lemma check_isSome {u : Update} :
    (c.checkForCoordinatorLock u).isSome ↔ ∃ l ∈ c.locks, l.update = u ∧ l.instanceId = u.coordinator := by
  simp [checkForCoordinatorLock]

lemma le_getLastVersion {w : ArrayVersion} (h : w ∈ c.versions) : w.versionId ≤ c.getLastVersion w.arrayId := by
  rw [getLastVersion]
  have hmem : w.versionId ∈ (c.versions.filter fun v => v.arrayId = w.arrayId).map ArrayVersion.versionId :=
    mem_map_of_mem (mem_filter.mpr ⟨h, by simp⟩)
  generalize (c.versions.filter fun v => v.arrayId = w.arrayId).map ArrayVersion.versionId = ids at hmem
  induction ids with
  | nil => cases hmem
  | cons a ids ih =>
    rw [foldr_cons]
    rcases mem_cons.mp hmem with h | h
    · omega
    · have := ih h
      omega

lemma getLastVersion_le {id n : ℕ} (h : ∀ w ∈ c.versions, w.arrayId = id → w.versionId ≤ n) : c.getLastVersion id ≤ n := by
  rw [getLastVersion]
  have hall : ∀ a ∈ (c.versions.filter fun v => v.arrayId = id).map ArrayVersion.versionId, a ≤ n := by
    intro a ha
    obtain ⟨w, hw, rfl⟩ := mem_map.mp ha
    obtain ⟨hw, hid⟩ := mem_filter.mp hw
    exact h w hw (by simpa using hid)
  generalize (c.versions.filter fun v => v.arrayId = id).map ArrayVersion.versionId = ids at hall
  induction ids with
  | nil => exact Nat.zero_le n
  | cons a ids ih =>
    rw [foldr_cons]
    have ha := hall a mem_cons_self
    have := ih fun b hb => hall b (mem_cons_of_mem a hb)
    omega

lemma exists_getLastVersion {id : ℕ} (h : c.getLastVersion id ≠ 0) :
    ∃ w ∈ c.versions, w.arrayId = id ∧ w.versionId = c.getLastVersion id := by
  by_contra hno
  have hle : c.getLastVersion id ≤ c.getLastVersion id - 1 := by
    refine getLastVersion_le fun w hw hid => ?_
    have hwle := le_getLastVersion hw
    rw [hid] at hwle
    have hne : w.versionId ≠ c.getLastVersion id := fun he => hno ⟨w, hw, hid, he⟩
    omega
  omega

lemma getLastVersion_congr {c' : Catalog} {id : ℕ}
    (h : ∀ w, w.arrayId = id → (w ∈ c'.versions ↔ w ∈ c.versions)) : c'.getLastVersion id = c.getLastVersion id := by
  refine Nat.le_antisymm (getLastVersion_le fun w hw hid => ?_) (getLastVersion_le fun w hw hid => ?_)
  · exact hid ▸ le_getLastVersion ((h w hid).mp hw)
  · exact hid ▸ le_getLastVersion ((h w hid).mpr hw)

end Catalog

/-- The version comes next. -/
structure Follows (versions : List ArrayVersion) (v : ArrayVersion) : Prop where
  later : ∀ w ∈ versions, w.arrayId = v.arrayId → w ≠ v → w.versionArrayId < v.versionArrayId ∧ w.versionId < v.versionId
  next : v.versionId = 1 ∨ ∃ w ∈ versions, w.arrayId = v.arrayId ∧ w.versionId + 1 = v.versionId

namespace Follows

variable {c : Catalog} {v : ArrayVersion}

lemma lastVersion_recorded (h : Follows c.versions v) (hv : v ∈ c.versions) : c.getLastVersion v.arrayId = v.versionId := by
  refine Nat.le_antisymm (Catalog.getLastVersion_le fun w hw hid => ?_) (Catalog.le_getLastVersion hv)
  by_cases hwv : w = v
  · exact Nat.le_of_eq (congrArg _ hwv)
  · exact Nat.le_of_lt (h.later w hw hid hwv).2

lemma lastVersion_unrecorded (h : Follows c.versions v) (hv : v ∉ c.versions) :
    c.getLastVersion v.arrayId + 1 = v.versionId := by
  have hle : c.getLastVersion v.arrayId ≤ v.versionId - 1 := by
    refine Catalog.getLastVersion_le fun w hw hid => ?_
    have := (h.later w hw hid fun hwv => hv (hwv ▸ hw)).2
    omega
  rcases h.next with h1 | ⟨w, hw, hid, hnext⟩
  · omega
  · have := Catalog.le_getLastVersion hw
    rw [hid] at this
    omega

end Follows

namespace Cluster

variable (s : Cluster)

variable (u : Update)

variable (i : ℕ)

/-- `i` has a lock for `u`. -/
def HasLock : Prop := ∃ l ∈ s.catalog.locks, l.update = u ∧ l.instanceId = i

/-- Recorded, or rolled back. -/
def Settled (l : LockDesc) : Prop := l.version ∈ s.catalog.versions ∨ (l, true) ∈ s.decided

/-- The lock that a handler works with is the one in the catalog, if there is one. -/
def Knows (l : LockDesc) : Prop :=
  l.update = u ∧ (l ∈ s.catalog.locks ∧ l.instanceId = i ∨ l.version.versionArrayId = 0 ∧ ¬s.HasLock u i)

/-- What holds of a handler. -/
def HandlerOk : Handler → Prop
  | .checkCoord l => l.update = u ∧ i = u.coordinator ∧ s.HasLock u i ∧ (s.process u u.coordinator).Ended
  | .readCoord l => s.Knows u i l ∧ l.version.versionArrayId ≠ 0 ∧ (s.process u u.coordinator).Ended
  | .waitCoord l => s.Knows u i l
  | .readWorker l => s.Knows u i l ∧ (l.version.versionArrayId ≠ 0 → (s.process u u.coordinator).Ended)
  | .finished l undo =>
    s.Knows u i l ∧ (l.version.versionArrayId = 0 → undo = none) ∧
      (l.version.versionArrayId ≠ 0 → (s.process u u.coordinator).Ended ∧
        (undo = none → l.version ∈ s.catalog.versions) ∧
        ∀ lastVersion, undo = some lastVersion → l.version ∉ s.catalog.versions ∧ lastVersion + 1 = l.version.versionId)
  | .failed => False

/-- What holds of a process. -/
def ProcessOk : Process → Prop
  | .fresh => ¬s.HasLock u i ∧ (i = u.coordinator → s.assigned u = none ∧ ∀ l ∈ s.catalog.locks, l.update ≠ u)
  | .locked l => i = u.coordinator ∧ l.update = u ∧ l.instanceId = i ∧ s.assigned u = none ∧ s.HasLock u i
  | .lookedUp l arrayId lastVersion =>
    i = u.coordinator ∧ l.update = u ∧ l.instanceId = i ∧ s.assigned u = none ∧ s.HasLock u i ∧
      arrayId = s.catalog.arrays u.arrayName ∧ lastVersion = (arrayId.map s.catalog.getLastVersion).getD 0
  | .requested l => i ≠ u.coordinator ∧ l.update = u ∧ l.version.versionArrayId = 0 ∧ l.instanceId = i ∧ ¬s.HasLock u i
  | .executing l =>
    l ∈ s.catalog.locks ∧ l.update = u ∧ l.instanceId = i ∧
      (i = u.coordinator → s.assigned u = some l.version ∧ l.version ∉ s.catalog.versions)
  | .recorded => i = u.coordinator ∧ ∀ v, s.assigned u = some v → v ∈ s.catalog.versions
  | .handling h => s.HandlerOk u i h
  | .releasing => ∀ l ∈ s.catalog.locks, l.update = u → l.instanceId = i → l.version.versionArrayId ≠ 0 → s.Settled l
  | .committed => i = u.coordinator → ∀ v, s.assigned u = some v → v ∈ s.catalog.versions
  | .done => True

/-- The locks in the role. -/
def InRole (isCoord : Bool) (l : LockDesc) : Prop :=
  l ∈ s.catalog.locks ∧ l.instanceId = i ∧ l.isCoord = isCoord

/-- What holds in recovery. -/
def RecoveryPcOk (r : Recovery) : RecoveryPc → Prop
  | .next => ∀ l, s.InRole i r.isCoord l → l ∈ r.todo ∨ l ∈ r.examined
  | .handler h =>
    ∃ l₀, s.InRole i r.isCoord l₀ ∧ s.HandlerOk l₀.update i h ∧ ∀ l, s.InRole i r.isCoord l → l = l₀ ∨ l ∈ r.todo ∨ l ∈ r.examined
  | .delete => ∀ l, s.InRole i r.isCoord l → l.version.versionArrayId ≠ 0 → s.Settled l

/-- What holds of recovery. -/
structure RecoveryOk (s : Cluster) (i : ℕ) (r : Recovery) : Prop where
  todo : ∀ l ∈ r.todo, s.InRole i r.isCoord l
  workerLocks : r.isCoord = true → ∀ l, l ∈ r.workerLocks ↔ s.InRole i false l
  pc : s.RecoveryPcOk i r r.pc
  examined : ∀ l ∈ r.examined, s.InRole i r.isCoord l ∧ (l.version.versionArrayId ≠ 0 →
    (s.process l.update l.update.coordinator).Ended ∧
      (l.version ∈ s.catalog.versions ∨ ∃ n, r.arraysToRollback l.version.arrayId = some (l.version.versionArrayId, n)))
  collected : ∀ a n id, r.arraysToRollback a = some (id, n) → ∃ l ∈ r.examined,
    l.version.arrayId = a ∧ l.version.versionArrayId = id ∧ id ≠ 0 ∧ n + 1 = l.version.versionId ∧
      l.version ∉ s.catalog.versions

/-- What holds of an instance. -/
def NodeOk (s : Cluster) (i : ℕ) : Node → Prop
  | .up => True
  | .down => ∀ u, (s.process u i).Quiet
  | .recovering r => (∀ u, (s.process u i).Quiet) ∧ s.RecoveryOk i r

/-- Ids are given once. -/
structure IdsOk (c : Catalog) (f : Update → Option ArrayVersion) : Prop where
  next : 0 < c.nextArrayId
  assigned : ∀ u v, f u = some v → v.arrayId ≠ 0 ∧ v.arrayId < c.nextArrayId ∧
    v.versionArrayId ≠ 0 ∧ v.versionArrayId < c.nextArrayId ∧ v.versionId ≠ 0
  injective : ∀ u u' v v', f u = some v → f u' = some v' → v.versionArrayId = v'.versionArrayId → u = u'
  name : ∀ u u' v v', f u = some v → f u' = some v' → v.arrayId = v'.arrayId → u.arrayName = u'.arrayName
  arrays : ∀ n id, c.arrays n = some id → id ≠ 0 ∧ id < c.nextArrayId ∧
    (∀ u v, f u = some v → v.arrayId = id → u.arrayName = n) ∧ ∀ n', c.arrays n' = some id → n' = n
  versions : ∀ v ∈ c.versions, ∃ u, f u = some v

/-- What holds of a decision. -/
def DecisionOk (s : Cluster) (l : LockDesc) (rolledBack : Bool) : Prop :=
  l.version.versionArrayId ≠ 0 → s.assigned l.update = some l.version ∧
    (rolledBack = false → l.version ∈ s.catalog.versions) ∧
    (rolledBack = true → l.version ∉ s.catalog.versions ∧ (s.process l.update l.update.coordinator).Ended ∧
      (s.process l.update l.instanceId).Ended ∧ (l.version.arrayId, l.version.versionArrayId) ∉ s.stored l.instanceId)

/-- What was stored is there, unless its version is not recorded and cannot be recorded. -/
def WrittenOk (s : Cluster) (i : ℕ) (e : ℕ × ℕ) : Prop :=
  ∃ u v, s.assigned u = some v ∧ e = (v.arrayId, v.versionArrayId) ∧
    (e ∈ s.stored i ∨ v ∉ s.catalog.versions ∧ (s.process u u.coordinator).Ended)

/-- What holds of a cluster. -/
structure Inv (s : Cluster) : Prop where
  process : ∀ u i, s.ProcessOk u i (s.process u i)
  node : ∀ i, s.NodeOk i (s.node i)
  exclusive : ∀ l ∈ s.catalog.locks, ∀ l' ∈ s.catalog.locks, l.update.arrayName = l'.update.arrayName → l.update = l'.update
  unique : ∀ l ∈ s.catalog.locks, ∀ l' ∈ s.catalog.locks, l.update = l'.update → l.instanceId = l'.instanceId → l = l'
  lock : ∀ l ∈ s.catalog.locks, l.version = ⟨0, 0, 0⟩ ∨ s.assigned l.update = some l.version
  ids : IdsOk s.catalog s.assigned
  follows : ∀ l ∈ s.catalog.locks, ∀ v, s.assigned l.update = some v → Follows s.catalog.versions v
  decided : ∀ d ∈ s.decided, s.DecisionOk d.1 d.2
  held : ∀ l ∈ s.held, l.version.versionArrayId ≠ 0 ∧ (l ∈ s.catalog.locks ∨ s.Settled l)
  written : ∀ i, ∀ e ∈ s.written i, s.WrittenOk i e

lemma inv_init : init.Inv where
  process _ _ := ⟨fun ⟨l, hl, _⟩ => (by cases hl), fun _ => ⟨rfl, fun l hl => by cases hl⟩⟩
  node _ := trivial
  exclusive l hl := by cases hl
  unique l hl := by cases hl
  lock l hl := by cases hl
  ids := {
    next := Nat.one_pos
    assigned := by intro u v h; cases h
    injective := by intro u u' v v' h; cases h
    name := by intro u u' v v' h; cases h
    arrays := by intro n id h; cases h
    versions := by intro v h; cases h }
  follows l hl := by cases hl
  decided d hd := by cases hd
  held l hl := by cases hl
  written i e he := by cases he

namespace Inv

variable {s : Cluster}

variable {l : LockDesc} {u : Update} {v : ArrayVersion}

section

variable (h : s.Inv)

include h

lemma assigned_of_lock (hl : l ∈ s.catalog.locks) (hid : l.version.versionArrayId ≠ 0) :
    s.assigned l.update = some l.version := by
  rcases h.lock l hl with h0 | ha
  · rw [h0] at hid
    exact absurd rfl hid
  · exact ha

lemma hasLock_of_not_ended (hv : s.assigned u = some v) (hend : ¬(s.process u u.coordinator).Ended) :
    s.HasLock u u.coordinator := by
  have hp := h.process u u.coordinator
  generalize s.process u u.coordinator = p at hp hend
  cases p with
  | fresh => exact absurd (hv.symm.trans (hp.2 rfl).1) (by simp)
  | locked l => exact hp.2.2.2.2
  | lookedUp l a n => exact hp.2.2.2.2.1
  | requested l => exact absurd rfl hp.1
  | executing l => exact ⟨l, hp.1, hp.2.1, hp.2.2.1⟩
  | recorded | handling | releasing | committed | done => exact absurd trivial hend

section

variable (hl : l ∈ s.catalog.locks)

include hl

lemma ended_of_no_coordinator (hid : l.version.versionArrayId ≠ 0) (hno : ¬s.HasLock l.update l.update.coordinator) :
    (s.process l.update l.update.coordinator).Ended :=
  by_contra fun hend => hno (h.hasLock_of_not_ended (h.assigned_of_lock hl hid) hend)

lemma ended_of_same_array (hid : l.version.versionArrayId ≠ 0)
    (hend : (s.process l.update l.update.coordinator).Ended) (hv : s.assigned u = some v)
    (ha : v.arrayId = l.version.arrayId) : (s.process u u.coordinator).Ended := by
  by_contra hne
  obtain ⟨l', hl', rfl, -⟩ := h.hasLock_of_not_ended hv hne
  have hname := h.ids.name _ _ _ _ hv (h.assigned_of_lock hl hid) ha
  exact hne ((h.exclusive l' hl' l hl hname).symm ▸ hend)

lemma version_eq {l' : LockDesc} (hl' : l' ∈ s.catalog.locks) (hid : l.version.versionArrayId ≠ 0)
    (hid' : l'.version.versionArrayId ≠ 0) (ha : l.version.arrayId = l'.version.arrayId) : l.version = l'.version := by
  have hv := h.assigned_of_lock hl hid
  have hv' := h.assigned_of_lock hl' hid'
  have hu := h.exclusive l hl l' hl' (h.ids.name _ _ _ _ hv hv' ha)
  rw [hu, hv'] at hv
  exact (some.inj hv).symm

lemma follows_lock (hid : l.version.versionArrayId ≠ 0) :
    Follows s.catalog.versions l.version := h.follows l hl _ (h.assigned_of_lock hl hid)

lemma kept_of_recorded (hid : l.version.versionArrayId ≠ 0) (hrec : l.version ∉ s.catalog.versions) {n : ℕ}
    (hn : n + 1 = l.version.versionId) {w : ArrayVersion} (hw : w ∈ s.catalog.versions)
    (ha : w.arrayId = l.version.arrayId) : w.versionArrayId < l.version.versionArrayId ∧ n ≠ 0 := by
  have hlater := (h.follows_lock hl hid).later w hw ha fun hwl => hrec (hwl ▸ hw)
  obtain ⟨u, hu⟩ := h.ids.versions w hw
  have hpos := (h.ids.assigned u w hu).2.2.2.2
  omega

lemma ended_of_quiet (hq : (s.process l.update l.instanceId).Quiet) : (s.process l.update l.instanceId).Ended := by
  have hp := h.process l.update l.instanceId
  generalize s.process l.update l.instanceId = p at hp hq
  cases p with
  | fresh => exact absurd ⟨l, hl, rfl, rfl⟩ hp.1
  | committed | done => trivial
  | locked | lookedUp | requested | executing | recorded | handling | releasing => exact hq.elim

end

end

end Inv

section Handlers

variable {s : Cluster} {u : Update} {i : ℕ}

lemma HandlerOk.decide (h : s.Inv) {l : LockDesc} (hk : s.Knows u i l)
    (hend : l.version.versionArrayId ≠ 0 → (s.process u u.coordinator).Ended) {undo : Option ℕ}
    (hundo : undo = if s.catalog.getLastVersion l.version.arrayId < l.version.versionId ∧ 0 < l.version.versionArrayId then
      some (s.catalog.getLastVersion l.version.arrayId) else none) : s.HandlerOk u i (.finished l undo) := by
  refine ⟨hk, fun h0 => ?_, fun hid => ⟨hend hid, ?_⟩⟩
  · rw [hundo, if_neg (by omega)]
  · rcases hk.2 with ⟨hl, -⟩ | ⟨h0, -⟩
    · have hf := h.follows_lock hl hid
      by_cases hrec : l.version ∈ s.catalog.versions
      · rw [if_neg (by rw [hf.lastVersion_recorded hrec]; omega)] at hundo
        subst hundo
        exact ⟨fun _ => hrec, fun n hn => nomatch hn⟩
      · have hlast := hf.lastVersion_unrecorded hrec
        rw [if_pos (by omega)] at hundo
        subst hundo
        refine ⟨fun hn => (nomatch hn), fun n hn => ?_⟩
        cases hn
        exact ⟨hrec, hlast⟩
    · exact absurd h0 hid

lemma HandlerOk.start {l : LockDesc} (hlu : l.update = u) (hli : l.instanceId = i)
    (hcoord : i = u.coordinator → s.HasLock u i ∧ (s.process u u.coordinator).Ended)
    (hworker : i ≠ u.coordinator → s.Knows u i l ∧ (l.version.versionId = 0 → l.version.versionArrayId = 0)) :
    s.HandlerOk u i (.start l) := by
  have hi : l.isCoord = true ↔ i = u.coordinator := by rw [LockDesc.isCoord, beq_iff_eq, hli, hlu]
  unfold Handler.start
  split_ifs with hc h0
  · exact ⟨hlu, hi.mp hc, hcoord (hi.mp hc)⟩
  · exact (hworker fun h => hc (hi.mpr h)).1
  · obtain ⟨hk, hzero⟩ := hworker fun h => hc (hi.mpr h)
    exact ⟨hk, fun _ => rfl, fun hid => absurd (hzero (not_not.mp h0)) hid⟩

lemma HandlerOk.step (h : s.Inv) {x : Handler} (hx : s.HandlerOk u i x) : s.HandlerOk u i (x.step s.catalog) := by
  cases x with
  | checkCoord l =>
    obtain ⟨rfl, rfl, hlock, hend⟩ := hx
    rw [Handler.step]
    obtain ⟨l', hl'⟩ := isSome_iff_exists.mp (Catalog.check_isSome.mpr hlock)
    obtain ⟨hmem, hu, hi⟩ := Catalog.mem_of_check hl'
    rw [hl']
    have hk : s.Knows l.update l.update.coordinator l' := ⟨hu, .inl ⟨hmem, hi⟩⟩
    have hnone : l'.version.versionArrayId = 0 → s.HandlerOk l.update l.update.coordinator (.finished l' none) :=
      fun h0 => ⟨hk, fun _ => rfl, fun hid => absurd h0 hid⟩
    rcases h.lock l' hmem with hv | hv
    · have harr : l'.version.arrayId = 0 := by rw [hv]
      dsimp only
      rw [LockDesc.isTransientArray, harr]
      exact hnone (by rw [hv])
    · obtain ⟨ha, -, hid, -, hver⟩ := h.ids.assigned _ _ hv
      have htrans : l'.isTransientArray = false := by simp [LockDesc.isTransientArray, hver]
      dsimp only
      rw [htrans, if_neg Bool.false_ne_true, if_neg ha, if_neg (not_or.mpr ⟨hver, hid⟩)]
      exact ⟨hk, hid, hend⟩
  | readCoord l =>
    obtain ⟨hk, hid, hend⟩ := hx
    refine (show s.HandlerOk u i (if _ then _ else _) from ?_)
    rcases hk.2 with ⟨hl, -⟩ | ⟨h0, -⟩
    · have hf := h.follows_lock hl hid
      split_ifs with hlast
      · refine HandlerOk.decide h hk (fun _ => hend) ?_
        rw [if_neg (by omega)]
      · have hrec : l.version ∉ s.catalog.versions := fun hrec => hlast (hf.lastVersion_recorded hrec)
        have hsucc := hf.lastVersion_unrecorded hrec
        refine HandlerOk.decide h hk (fun _ => hend) ?_
        rw [if_pos (by omega)]
    · exact absurd h0 hid
  | waitCoord l =>
    refine (show s.HandlerOk u i (if _ then _ else _) from ?_)
    split_ifs with hc
    · exact hx
    · refine ⟨hx, fun hid => ?_⟩
      obtain ⟨rfl, ⟨hl, -⟩ | ⟨h0, -⟩⟩ := hx
      · exact h.ended_of_no_coordinator hl hid fun hlock => hc (Catalog.check_isSome.mpr hlock)
      · exact absurd h0 hid
  | readWorker l =>
    refine (show s.HandlerOk u i (if _ then _ else _) from ?_)
    split_ifs with hlast
    · exact HandlerOk.decide h hx.1 hx.2 (if_pos hlast).symm
    · exact HandlerOk.decide h hx.1 hx.2 (if_neg hlast).symm
  | finished l undo => exact hx
  | failed => exact hx

end Handlers

structure Later (s s' : Cluster) : Prop where
  assigned : ∀ u v, s.assigned u = some v → s'.assigned u = some v
  ended : ∀ u i, (s.process u i).Ended → (s'.process u i).Ended
  versions : ∀ v ∈ s.catalog.versions, v ∈ s'.catalog.versions
  unrecorded : ∀ u v, s.assigned u = some v → (s.process u u.coordinator).Ended → v ∈ s'.catalog.versions → v ∈ s.catalog.versions
  decided : ∀ d ∈ s.decided, d ∈ s'.decided

/-- The lock is the same. -/
def SameLock (s s' : Cluster) (u : Update) (i : ℕ) : Prop :=
  ∀ l : LockDesc, l.update = u → l.instanceId = i → (l ∈ s'.catalog.locks ↔ l ∈ s.catalog.locks)

/-- What the coordinator of `u` has read is still true. -/
structure SameCoord (s s' : Cluster) (u : Update) : Prop where
  assigned : s'.assigned u = s.assigned u
  locks : (∀ l ∈ s.catalog.locks, l.update ≠ u) → ∀ l ∈ s'.catalog.locks, l.update ≠ u
  arrays : s.HasLock u u.coordinator → s'.catalog.arrays u.arrayName = s.catalog.arrays u.arrayName
  lastVersion : s.HasLock u u.coordinator → ∀ id, s.catalog.arrays u.arrayName = some id →
    s'.catalog.getLastVersion id = s.catalog.getLastVersion id
  unrecorded : ∀ v, s.assigned u = some v → v ∈ s'.catalog.versions → v ∈ s.catalog.versions

section Keeping

variable {s s' : Cluster} {u : Update} {i : ℕ}

lemma SameLock.hasLock (h : s.SameLock s' u i) : s'.HasLock u i ↔ s.HasLock u i :=
  exists_congr fun l => ⟨fun ⟨hl, hu, hi⟩ => ⟨(h l hu hi).mp hl, hu, hi⟩, fun ⟨hl, hu, hi⟩ => ⟨(h l hu hi).mpr hl, hu, hi⟩⟩

variable {l : LockDesc} {b : Bool}

lemma Settled.later (h : s.Settled l) (hl : s.Later s') : s'.Settled l :=
  h.imp (hl.versions _) (hl.decided _)

lemma Knows.same (h : s.Knows u i l) (hs : s.SameLock s' u i) : s'.Knows u i l :=
  ⟨h.1, h.2.imp (fun ⟨hl, hi⟩ => ⟨(hs l h.1 hi).mpr hl, hi⟩) fun ⟨h0, hno⟩ => ⟨h0, fun hlock => hno (hs.hasLock.mp hlock)⟩⟩

lemma HandlerOk.later (hinv : s.Inv) {x : Handler} (h : s.HandlerOk u i x) (hl : s.Later s') (hs : s.SameLock s' u i) :
    s'.HandlerOk u i x := by
  cases x with
  | checkCoord l => exact ⟨h.1, h.2.1, hs.hasLock.mpr h.2.2.1, hl.ended _ _ h.2.2.2⟩
  | readCoord l => exact ⟨h.1.same hs, h.2.1, hl.ended _ _ h.2.2⟩
  | waitCoord l => exact Knows.same h hs
  | readWorker l => exact ⟨h.1.same hs, fun hid => hl.ended _ _ (h.2 hid)⟩
  | finished l undo =>
    obtain ⟨hk, h0, hid⟩ := h
    refine ⟨hk.same hs, h0, fun hne => ?_⟩
    obtain ⟨hend, hnone, hsome⟩ := hid hne
    refine ⟨hl.ended _ _ hend, fun hu => hl.versions _ (hnone hu), fun n hn => ⟨fun hrec => ?_, (hsome n hn).2⟩⟩
    obtain ⟨rfl, ⟨hmem, -⟩ | ⟨hz, -⟩⟩ := hk
    · exact (hsome n hn).1 (hl.unrecorded _ _ (hinv.assigned_of_lock hmem hne) hend hrec)
    · exact hne hz
  | failed => exact h

lemma ProcessOk.later (hinv : s.Inv) {p : Process} (h : s.ProcessOk u i p) (hl : s.Later s') (hs : s.SameLock s' u i)
    (hc : i = u.coordinator → s.SameCoord s' u) : s'.ProcessOk u i p := by
  cases p with
  | fresh =>
    refine ⟨fun hlock => h.1 (hs.hasLock.mp hlock), fun hi => ⟨?_, (hc hi).locks (h.2 hi).2⟩⟩
    rw [(hc hi).assigned]
    exact (h.2 hi).1
  | locked l =>
    obtain ⟨hi, hlu, hli, hno, hlock⟩ := h
    exact ⟨hi, hlu, hli, (hc hi).assigned.trans hno, hs.hasLock.mpr hlock⟩
  | lookedUp l a n =>
    obtain ⟨hi, hlu, hli, hno, hlock, ha, hn⟩ := h
    have hlock' : s.HasLock u u.coordinator := hi ▸ hlock
    refine ⟨hi, hlu, hli, (hc hi).assigned.trans hno, hs.hasLock.mpr hlock, ?_, ?_⟩
    · rw [(hc hi).arrays hlock', ha]
    · rw [hn]
      cases a with
      | none => rfl
      | some id => exact ((hc hi).lastVersion hlock' id ha.symm).symm
  | requested l => exact ⟨h.1, h.2.1, h.2.2.1, h.2.2.2.1, fun hlock => h.2.2.2.2 (hs.hasLock.mp hlock)⟩
  | executing l =>
    obtain ⟨hmem, hlu, hli, hcoord⟩ := h
    refine ⟨(hs l hlu hli).mpr hmem, hlu, hli, fun hi => ?_⟩
    obtain ⟨ha, hrec⟩ := hcoord hi
    exact ⟨(hc hi).assigned.trans ha, fun hr => hrec ((hc hi).unrecorded _ ha hr)⟩
  | recorded =>
    refine ⟨h.1, fun v hv => ?_⟩
    rw [(hc h.1).assigned] at hv
    exact hl.versions _ (h.2 v hv)
  | handling x => exact HandlerOk.later hinv h hl hs
  | releasing =>
    intro l hmem hlu hli hid
    exact (h l ((hs l hlu hli).mp hmem) hlu hli hid).later hl
  | committed =>
    intro hi v hv
    rw [(hc hi).assigned] at hv
    exact hl.versions _ (h hi v hv)
  | done => trivial

lemma InRole.same (hs : ∀ u, s.SameLock s' u i) : s'.InRole i b l ↔ s.InRole i b l :=
  ⟨fun h => ⟨(hs l.update l rfl h.2.1).mp h.1, h.2⟩, fun h => ⟨(hs l.update l rfl h.2.1).mpr h.1, h.2⟩⟩

lemma RecoveryOk.later (hinv : s.Inv) {r : Recovery} (h : s.RecoveryOk i r) (hl : s.Later s')
    (hs : ∀ u, s.SameLock s' u i) : s'.RecoveryOk i r where
  todo l hmem := (InRole.same hs).mpr (h.todo l hmem)
  workerLocks hc l := (h.workerLocks hc l).trans (InRole.same hs).symm
  pc := by
    have hpc := h.pc
    cases hr : r.pc with
    | next =>
      rw [hr] at hpc
      exact fun l hin => hpc l ((InRole.same hs).mp hin)
    | handler x =>
      rw [hr] at hpc
      obtain ⟨l₀, hin, hx, hall⟩ := hpc
      exact ⟨l₀, (InRole.same hs).mpr hin, HandlerOk.later hinv hx hl (hs _), fun l hin => hall l ((InRole.same hs).mp hin)⟩
    | delete =>
      rw [hr] at hpc
      exact fun l hin hid => (hpc l ((InRole.same hs).mp hin) hid).later hl
  examined l hmem := by
    obtain ⟨hin, hid⟩ := h.examined l hmem
    exact ⟨(InRole.same hs).mpr hin, fun hne => ⟨hl.ended _ _ (hid hne).1, (hid hne).2.imp_left (hl.versions _)⟩⟩
  collected a n id hm := by
    obtain ⟨l, hmem, ha, hlid, hne, hn, hrec⟩ := h.collected a n id hm
    refine ⟨l, hmem, ha, hlid, hne, hn, fun hr => hrec ?_⟩
    obtain ⟨hin, hid⟩ := h.examined l hmem
    have hne' : l.version.versionArrayId ≠ 0 := hlid ▸ hne
    exact hl.unrecorded _ _ (hinv.assigned_of_lock hin.1 hne') (hid hne').1 hr

lemma NodeOk.later (hinv : s.Inv) {n : Node} (h : s.NodeOk i n) (hl : s.Later s')
    (hp : ∀ u, s'.process u i = s.process u i) (hs : ∀ u, s.SameLock s' u i) : s'.NodeOk i n := by
  cases n with
  | up => trivial
  | down => exact fun u => (hp u).symm ▸ h u
  | recovering r => exact ⟨fun u => (hp u).symm ▸ h.1 u, h.2.later hinv hl hs⟩

lemma DecisionOk.later (h : s.DecisionOk l b) (hl : s.Later s')
    (hst : (l.version.arrayId, l.version.versionArrayId) ∈ s'.stored l.instanceId → (s.process l.update l.instanceId).Ended →
      (l.version.arrayId, l.version.versionArrayId) ∈ s.stored l.instanceId) : s'.DecisionOk l b := by
  intro hid
  obtain ⟨ha, hfalse, htrue⟩ := h hid
  refine ⟨hl.assigned _ _ ha, fun hb => hl.versions _ (hfalse hb), fun hb => ?_⟩
  obtain ⟨hrec, hend, hend', hno⟩ := htrue hb
  exact ⟨fun hr => hrec (hl.unrecorded _ _ ha hend hr), hl.ended _ _ hend, hl.ended _ _ hend', fun hmem => hno (hst hmem hend')⟩

lemma WrittenOk.later {e : ℕ × ℕ} (h : s.WrittenOk i e) (hl : s.Later s') (hst : e ∈ s.stored i → e ∈ s'.stored i) :
    s'.WrittenOk i e := by
  obtain ⟨u, v, ha, he, hor⟩ := h
  refine ⟨u, v, hl.assigned _ _ ha, he, hor.imp hst fun ⟨hrec, hend⟩ => ⟨fun hr => ?_, hl.ended _ _ hend⟩⟩
  exact hrec (hl.unrecorded _ _ ha hend hr)

end Keeping

end Cluster

end SciDB.Query
