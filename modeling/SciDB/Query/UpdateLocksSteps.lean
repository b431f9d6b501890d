import SciDB.Query.UpdateLocksInv

/-!
# The steps of updates keep the invariant

A rollback keeps all that is recorded or may be recorded (`WrittenOk.rollback`), because no other update of the array has a
lock.
-/

namespace SciDB.Query

open SciDB.Lib List Function Option

namespace Cluster

section Steps

variable {s s' : Cluster} {u : Update} {i : ℕ}

lemma setProcess_self (s : Cluster) (u : Update) (i : ℕ) (p : Process) : (s.setProcess u i p).process u i = p := by
  simp [setProcess]

lemma setProcess_of_ne (s : Cluster) (p : Process) {u' : Update} {j : ℕ} (h : ¬(u' = u ∧ j = i)) :
    (s.setProcess u i p).process u' j = s.process u' j := by
  by_cases hu : u' = u
  · subst hu
    have hj : j ≠ i := fun hj => h ⟨rfl, hj⟩
    simp [setProcess, hj]
  · simp [setProcess, hu]

variable {p : Process} {n : ℕ} {c : Catalog} {f : Update → Option ArrayVersion} {l : LockDesc}
  {a undo : Option ℕ} {v : ArrayVersion} {m : RollbackMap} {e : ℕ × ℕ} {held : List LockDesc}

lemma ended_setProcess (h : (s.process u i).Ended → p.Ended) (u' : Update) (j : ℕ) (hend : (s.process u' j).Ended) :
    ((s.setProcess u i p).process u' j).Ended := by
  by_cases hj : u' = u ∧ j = i
  · obtain ⟨rfl, rfl⟩ := hj
    rw [setProcess_self]
    exact h hend
  · rwa [setProcess_of_ne s p hj]

lemma running_eq (h : s.running u i = some p) : s.node i = .up ∧ s.process u i = p := by
  unfold running at h
  split at h
  · next hn => exact ⟨hn, some.inj h⟩
  · cases h

lemma Inv.running (h : s.Inv) (hrun : s.running u i = some p) : s.node i = .up ∧ s.process u i = p ∧ s.ProcessOk u i p := by
  obtain ⟨hup, rfl⟩ := running_eq hrun
  exact ⟨hup, rfl, h.process u i⟩

lemma Inv.of_process (h : s.Inv) (hl : s.Later s') (hup : s.node i = .up) (hnode : s'.node = s.node)
    (hother : ∀ u' j, ¬(u' = u ∧ j = i) → s'.process u' j = s.process u' j)
    (hsame : ∀ u' j, ¬(u' = u ∧ j = i) → s.SameLock s' u' j) (hcoord : ∀ u', ¬(u' = u ∧ u'.coordinator = i) → s.SameCoord s' u')
    (hself : s'.ProcessOk u i (s'.process u i)) :
    (∀ u' j, s'.ProcessOk u' j (s'.process u' j)) ∧ ∀ j, s'.NodeOk j (s'.node j) := by
  refine ⟨fun u' j => ?_, fun j => ?_⟩
  · by_cases hj : u' = u ∧ j = i
    · obtain ⟨rfl, rfl⟩ := hj
      exact hself
    · rw [hother u' j hj]
      exact (h.process u' j).later h hl (hsame u' j hj) fun hc => hcoord u' (hc ▸ hj)
  · rw [hnode]
    by_cases hj : j = i
    · rw [hj, hup]
      trivial
    · have hne : ∀ u', ¬(u' = u ∧ j = i) := fun u' hu => hj hu.2
      exact (h.node j).later h hl (fun u' => hother u' j (hne u')) fun u' => hsame u' j (hne u')

lemma Inv.of_step (h : s.Inv) (hup : s.node i = .up) (hend : (s.process u i).Ended → p.Ended)
    (hs' : ({ s with catalog := c, assigned := f, held := held }.setProcess u i p) = s')
    (hass : ∀ u' v, s.assigned u' = some v → f u' = some v) (hver : ∀ v ∈ s.catalog.versions, v ∈ c.versions)
    (hunrec : ∀ u' v, s.assigned u' = some v → (s.process u' u'.coordinator).Ended → v ∈ c.versions → v ∈ s.catalog.versions)
    (hsame : ∀ u' j, ¬(u' = u ∧ j = i) → s.SameLock s' u' j)
    (hcoord : ∀ u', ¬(u' = u ∧ u'.coordinator = i) → s.SameCoord s' u') (hself : s'.ProcessOk u i p) :
    s.Later s' ∧ (∀ u' j, s'.ProcessOk u' j (s'.process u' j)) ∧ (∀ j, s'.NodeOk j (s'.node j)) ∧
      (∀ d ∈ s'.decided, s'.DecisionOk d.1 d.2) ∧ ∀ j, ∀ e ∈ s'.written j, s'.WrittenOk j e := by
  subst hs'
  have hl : s.Later ({ s with catalog := c, assigned := f, held := held }.setProcess u i p) :=
    ⟨hass, ended_setProcess (s := { s with catalog := c, assigned := f, held := held }) hend, hver, hunrec, fun _ hd => hd⟩
  obtain ⟨hp, hn⟩ := h.of_process hl hup rfl (fun u' j hj => setProcess_of_ne _ p hj) hsame hcoord
    (by rw [setProcess_self]; exact hself)
  exact ⟨hl, hp, hn, fun d hd => (h.decided d hd).later hl fun he _ => he, fun j e he => (h.written j e he).later hl id⟩

lemma Inv.of_catalog (h : s.Inv) (hl : s.Later s') (hc : s'.catalog = s.catalog) (ha : s'.assigned = s.assigned)
    (hh : s'.held = s.held) (hp : ∀ u' j, s'.ProcessOk u' j (s'.process u' j)) (hn : ∀ j, s'.NodeOk j (s'.node j))
    (hd : ∀ d ∈ s'.decided, s'.DecisionOk d.1 d.2) (hw : ∀ j, ∀ e ∈ s'.written j, s'.WrittenOk j e) : s'.Inv where
  process := hp
  node := hn
  exclusive := by rw [hc]; exact h.exclusive
  unique := by rw [hc]; exact h.unique
  lock := by rw [hc, ha]; exact h.lock
  ids := by rw [hc, ha]; exact h.ids
  follows := by rw [hc, ha]; exact h.follows
  decided := hd
  held l hmem := by
    rw [hh] at hmem
    rw [hc]
    exact ⟨(h.held l hmem).1, (h.held l hmem).2.imp_right fun hset => hset.later hl⟩
  written := hw

lemma later_setProcess (hend : (s.process u i).Ended → p.Ended) : s.Later (s.setProcess u i p) where
  assigned _ _ hv := hv
  ended := ended_setProcess hend
  versions _ hv := hv
  unrecorded _ _ _ _ hv := hv
  decided _ hd := hd

lemma sameCoord_rfl (hc : s'.catalog = s.catalog) (ha : s'.assigned = s.assigned) : s.SameCoord s' u where
  assigned := by rw [ha]
  locks hno := by rw [hc]; exact hno
  arrays _ := by rw [hc]
  lastVersion _ _ _ := by rw [hc]
  unrecorded v _ hv := by rwa [hc] at hv

lemma Inv.setProcess (h : s.Inv) (hup : s.node i = .up) (hend : (s.process u i).Ended → p.Ended)
    (hself : (s.setProcess u i p).ProcessOk u i p) : (s.setProcess u i p).Inv := by
  obtain ⟨hl, hp, hn, hd, hw⟩ := h.of_step hup hend (Eq.refl (s.setProcess u i p)) (fun _ _ hv => hv) (fun _ hv => hv)
    (fun _ _ _ _ hv => hv) (fun _ _ _ _ _ _ => Iff.rfl) (fun _ _ => sameCoord_rfl rfl rfl) hself
  exact h.of_catalog hl rfl rfl rfl hp hn hd hw

lemma Inv.lookUp (h : s.Inv) (hs : s.lookUp u = some s') : s'.Inv := by
  unfold Cluster.lookUp at hs
  split at hs
  · next l hrun =>
    cases hs
    obtain ⟨hup, hpr, -, hlu, hli, hno, hlock⟩ := h.running hrun
    refine h.setProcess hup (fun hend => ?_) ⟨rfl, hlu, hli, hno, hlock, rfl, rfl⟩
    rw [hpr] at hend
    exact hend.elim
  · cases hs

lemma Inv.startWorker (h : s.Inv) (hs : s.startWorker u i n = some s') : s'.Inv := by
  unfold Cluster.startWorker at hs
  split at hs
  · next hrun =>
    split_ifs at hs with hi
    cases hs
    obtain ⟨hup, hpr, hp⟩ := h.running hrun
    refine h.setProcess hup (fun hend => ?_) ⟨hi, rfl, rfl, rfl, hp.1⟩
    rw [hpr] at hend
    exact hend.elim
  · cases hs

lemma Inv.abort (h : s.Inv) (hs : s.abort u i = some s') : s'.Inv := by
  obtain ⟨l, hl, rfl⟩ := map_eq_some_iff.mp hs
  obtain ⟨p, hrun, hlock⟩ := bind_eq_some_iff.mp hl
  obtain ⟨hup, rfl⟩ := running_eq hrun
  refine h.setProcess hup (fun _ => trivial) ?_
  have hended : i = u.coordinator → ((s.setProcess u i (.handling (.start l))).process u u.coordinator).Ended := by
    rintro rfl
    rw [setProcess_self]
    trivial
  have hp := h.process u i
  generalize s.process u i = p at hp hlock
  cases p with
  | locked l' =>
    cases hlock
    obtain ⟨hi, hlu, hli, -, hlk⟩ := hp
    exact HandlerOk.start hlu hli (fun hc => ⟨hlk, hended hc⟩) fun hc => absurd hi hc
  | lookedUp l' a n =>
    cases hlock
    obtain ⟨hi, hlu, hli, -, hlk, -⟩ := hp
    exact HandlerOk.start hlu hli (fun hc => ⟨hlk, hended hc⟩) fun hc => absurd hi hc
  | requested l' =>
    cases hlock
    obtain ⟨hi, hlu, h0, hli, hno⟩ := hp
    exact HandlerOk.start hlu hli (fun hc => absurd hc hi) fun _ => ⟨⟨hlu, .inr ⟨h0, hno⟩⟩, fun _ => h0⟩
  | executing l' =>
    cases hlock
    obtain ⟨hmem, hlu, hli, -⟩ := hp
    refine HandlerOk.start hlu hli (fun hc => ⟨⟨l, hmem, hlu, hli⟩, hended hc⟩) fun _ => ⟨⟨hlu, .inl ⟨hmem, hli⟩⟩, fun h0 => ?_⟩
    by_contra hid
    exact (h.ids.assigned _ _ (h.assigned_of_lock hmem hid)).2.2.2.2 h0
  | fresh | recorded | handling | releasing | committed | done => cases hlock

lemma IdsOk.of_locks (h : IdsOk c f) (locks : List LockDesc) :
    IdsOk { c with locks := locks } f := ⟨h.next, h.assigned, h.injective, h.name, h.arrays, h.versions⟩

lemma SameCoord.of_locks (hc : ∃ locks, s'.catalog = { s.catalog with locks := locks }) (ha : s'.assigned = s.assigned)
    (hno : (∀ l ∈ s.catalog.locks, l.update ≠ u) → ∀ l ∈ s'.catalog.locks, l.update ≠ u) : s.SameCoord s' u := by
  obtain ⟨locks, hc⟩ := hc
  refine ⟨by rw [ha], hno, fun _ => by rw [hc], fun _ id _ => ?_, fun v _ hv => by rwa [hc] at hv⟩
  exact Catalog.getLastVersion_congr fun w _ => by rw [hc]

section

variable (h : s.Inv)

include h

lemma Inv.insert (hup : s.node l.instanceId = .up)
    (hpr : ¬(s.process l.update l.instanceId).Ended) (hno : ¬s.HasLock l.update l.instanceId)
    (hexcl : ∀ l' ∈ s.catalog.locks, l'.update.arrayName = l.update.arrayName → l'.update = l.update)
    (hlock : l.version = ⟨0, 0, 0⟩ ∨ s.assigned l.update = some l.version)
    (hfol : ∀ v, s.assigned l.update = some v → Follows s.catalog.versions v)
    (hcoord : l.instanceId = l.update.coordinator ∨ ∃ l' ∈ s.catalog.locks, l'.update = l.update)
    (hheld : ∀ l' ∈ held, l'.version.versionArrayId ≠ 0 ∧ (l' = l ∨ l' ∈ s.held))
    (hself : ∀ s' : Cluster, s'.catalog = { s.catalog with locks := l :: s.catalog.locks } → s'.assigned = s.assigned →
      s'.ProcessOk l.update l.instanceId p)
    (hs' : ({ s with catalog := { s.catalog with locks := l :: s.catalog.locks }, held := held }.setProcess
      l.update l.instanceId p) = s') : s'.Inv := by
  have hcat : s'.catalog = { s.catalog with locks := l :: s.catalog.locks } := by rw [← hs']; rfl
  have hass : s'.assigned = s.assigned := by rw [← hs']; rfl
  have hmem : ∀ l', l' ∈ s'.catalog.locks ↔ l' = l ∨ l' ∈ s.catalog.locks := by
    intro l'
    rw [hcat]
    exact mem_cons
  have hsame : ∀ u' j, ¬(u' = l.update ∧ j = l.instanceId) → s.SameLock s' u' j := by
    intro u' j hj l' hu hi
    rw [hmem]
    refine ⟨fun h' => h'.resolve_left ?_, .inr⟩
    rintro rfl
    exact hj ⟨hu.symm, hi.symm⟩
  have hsameCoord : ∀ u', ¬(u' = l.update ∧ u'.coordinator = l.instanceId) → s.SameCoord s' u' := by
    intro u' hj
    refine SameCoord.of_locks ⟨_, hcat⟩ hass fun hno' l' hl' hu' => ?_
    rcases (hmem l').mp hl' with rfl | hl'
    · rcases hcoord with hc | ⟨l1, hl1, hu1⟩
      · exact hj ⟨hu'.symm, by rw [hc, hu']⟩
      · exact hno' l1 hl1 (hu1.trans hu')
    · exact hno' l' hl' hu'
  obtain ⟨hl, hp, hn, hd, hw⟩ := h.of_step hup (fun hend => absurd hend hpr) hs' (fun _ _ hv => hv) (fun _ hv => hv)
    (fun _ _ _ _ hv => hv) hsame hsameCoord (hself s' hcat hass)
  refine ⟨hp, hn, ?_, ?_, ?_, ?_, ?_, hd, ?_, hw⟩
  · intro l1 h1 l2 h2 hname
    rcases (hmem l1).mp h1 with rfl | h1 <;> rcases (hmem l2).mp h2 with rfl | h2
    · rfl
    · exact (hexcl l2 h2 hname.symm).symm
    · exact hexcl l1 h1 hname
    · exact h.exclusive l1 h1 l2 h2 hname
  · intro l1 h1 l2 h2 hu hi
    rcases (hmem l1).mp h1 with rfl | h1 <;> rcases (hmem l2).mp h2 with rfl | h2
    · rfl
    · exact absurd ⟨l2, h2, hu.symm, hi.symm⟩ hno
    · exact absurd ⟨l1, h1, hu, hi⟩ hno
    · exact h.unique l1 h1 l2 h2 hu hi
  · intro l1 h1
    rw [hass]
    rcases (hmem l1).mp h1 with rfl | h1
    · exact hlock
    · exact h.lock l1 h1
  · rw [hcat, hass]
    exact h.ids.of_locks _
  · intro l1 h1 v hv
    rw [hass] at hv
    rw [hcat]
    rcases (hmem l1).mp h1 with rfl | h1
    · exact hfol v hv
    · exact h.follows l1 h1 v hv
  · intro l1 h1
    have h1 : l1 ∈ held := by rw [← hs'] at h1; exact h1
    obtain ⟨hid, hor⟩ := hheld l1 h1
    refine ⟨hid, ?_⟩
    rw [hmem]
    rcases hor with rfl | h1
    · exact .inl (.inl rfl)
    · exact (h.held l1 h1).2.imp .inr fun hset => hset.later hl

lemma Inv.requestLock (hs : s.requestLock u = some s') : s'.Inv := by
  unfold Cluster.requestLock at hs
  split at hs
  · next hrun =>
    obtain ⟨hup, hpr, hno, hfresh⟩ := h.running hrun
    obtain ⟨c, hc, rfl⟩ := map_eq_some_iff.mp hs
    unfold Catalog.lockCoordinator at hc
    split_ifs at hc with hbusy
    cases hc
    obtain ⟨ha, -⟩ := hfresh rfl
    have hend : ¬(s.process u u.coordinator).Ended := by rw [hpr]; exact id
    refine h.insert (l := .unset u u.coordinator 0) hup hend hno ?_ (.inl rfl) ?_ (.inl rfl) ?_ ?_ rfl
    · intro l' hl' hname
      by_contra hne
      refine hbusy ⟨l', hl', hname, fun hq => hne ?_⟩
      cases hu : l'.update
      rw [hu] at hname hq
      cases u
      exact congrArg₂ Update.mk hname hq
    · intro v hv
      exact absurd (hv.symm.trans ha) (by simp)
    · exact fun l' hl' => ⟨(h.held l' hl').1, .inr hl'⟩
    · intro s' hcat hass
      refine ⟨rfl, rfl, rfl, by rw [hass]; exact ha, ?_⟩
      exact ⟨_, by rw [hcat]; exact mem_cons_self, rfl, rfl⟩
  · cases hs

lemma Inv.lockArray (hs : s.lockArray u i = some s') : s'.Inv := by
  unfold Cluster.lockArray at hs
  split at hs
  · next hrun =>
    obtain ⟨hup, hpr⟩ := running_eq hrun
    obtain ⟨r, hr, rfl⟩ := map_eq_some_iff.mp hs
    obtain ⟨l, hl, rfl⟩ := map_eq_some_iff.mp hr
    obtain ⟨hmem, rfl, hli⟩ := Catalog.mem_of_check hl
    have hp := h.process l.update i
    rw [hpr] at hp
    obtain ⟨hi, -, -, -, hno⟩ := hp
    have hend : ¬(s.process l.update i).Ended := by rw [hpr]; exact id
    refine h.insert (l := { l with instanceId := i }) hup hend hno ?_ (h.lock l hmem)
      (h.follows l hmem) (.inr ⟨l, hmem, rfl⟩) ?_ ?_ rfl
    · exact fun l' hl' hname => h.exclusive l' hl' l hmem hname
    · intro l' hl'
      split_ifs at hl' with h0
      · exact ⟨(h.held l' hl').1, .inr hl'⟩
      · rcases mem_cons.mp hl' with rfl | hl'
        · exact ⟨h0, .inl rfl⟩
        · exact ⟨(h.held l' hl').1, .inr hl'⟩
    · intro s' hcat _
      exact ⟨by rw [hcat]; exact mem_cons_self, rfl, rfl, fun hc => absurd hc hi⟩
  · cases hs

lemma Inv.of_fewer_locks (hl : s.Later s') {gone : LockDesc → Prop} {locks : List LockDesc}
    (hcat : s'.catalog = { s.catalog with locks := locks }) (hass : s'.assigned = s.assigned)
    (hmem : ∀ l, l ∈ s'.catalog.locks ↔ l ∈ s.catalog.locks ∧ ¬gone l)
    (hset : ∀ l ∈ s.catalog.locks, gone l → l.version.versionArrayId ≠ 0 → s.Settled l)
    (hdecided : s'.decided = s.decided) (hheld : s'.held = s.held) (hstored : s'.stored = s.stored)
    (hwritten : s'.written = s.written) (hp : ∀ u i, s'.ProcessOk u i (s'.process u i))
    (hn : ∀ i, s'.NodeOk i (s'.node i)) : s'.Inv := by
  refine ⟨hp, hn, fun l1 h1 l2 h2 => h.exclusive l1 ((hmem l1).mp h1).1 l2 ((hmem l2).mp h2).1,
    fun l1 h1 l2 h2 => h.unique l1 ((hmem l1).mp h1).1 l2 ((hmem l2).mp h2).1, ?_, ?_, ?_, ?_, ?_, ?_⟩
  · intro l1 h1
    rw [hass]
    exact h.lock l1 ((hmem l1).mp h1).1
  · rw [hcat, hass]
    exact h.ids.of_locks _
  · intro l1 h1 v hv
    rw [hass] at hv
    rw [hcat]
    exact h.follows l1 ((hmem l1).mp h1).1 v hv
  · rw [hdecided]
    exact fun d hd => (h.decided d hd).later hl fun he _ => by rwa [hstored] at he
  · intro l1 h1
    rw [hheld] at h1
    obtain ⟨hid, hor⟩ := h.held l1 h1
    refine ⟨hid, ?_⟩
    rw [hmem]
    rcases hor with hmem1 | hset1
    · by_cases hgone : gone l1
      · exact .inr ((hset l1 hmem1 hgone hid).later hl)
      · exact .inl ⟨hmem1, hgone⟩
    · exact .inr (hset1.later hl)
  · rw [hwritten]
    exact fun j e he => (h.written j e he).later hl fun he => by rwa [hstored]

lemma Inv.unlock (hup : s.node i = .up)
    (hs' : ({ s with catalog := s.catalog.unlockArray u i }.setProcess u i p) = s') (hend : p.Ended)
    (hset : ∀ l ∈ s.catalog.locks, l.update = u → l.instanceId = i → l.version.versionArrayId ≠ 0 → s.Settled l)
    (hself : ∀ s' : Cluster, s'.catalog.versions = s.catalog.versions → s'.assigned = s.assigned → s'.ProcessOk u i p) :
    s'.Inv := by
  have hcat : s'.catalog = s.catalog.unlockArray u i := by rw [← hs']; rfl
  have hass : s'.assigned = s.assigned := by rw [← hs']; rfl
  have hmem : ∀ l, l ∈ s'.catalog.locks ↔ l ∈ s.catalog.locks ∧ ¬(l.update = u ∧ l.instanceId = i) := by
    intro l
    rw [hcat, Catalog.unlockArray, mem_filter, decide_eq_true_iff]
  have hsame : ∀ u' j, ¬(u' = u ∧ j = i) → s.SameLock s' u' j := by
    intro u' j hj l hu hi
    rw [hmem, hu, hi]
    exact and_iff_left hj
  obtain ⟨hl, hp, hn, -⟩ := h.of_step hup (fun _ => hend) hs' (fun _ _ hv => hv) (fun _ hv => hv) (fun _ _ _ _ hv => hv) hsame
    (fun u' _ => SameCoord.of_locks ⟨_, hcat⟩ hass fun hno l hl' => hno l ((hmem l).mp hl').1)
    (hself s' (by rw [hcat]; rfl) hass)
  subst hs'
  exact h.of_fewer_locks hl hcat rfl hmem (fun l hl' hkey => hset l hl' hkey.1 hkey.2) rfl rfl rfl rfl hp hn

lemma Inv.release (hs : s.release u i = some s') : s'.Inv := by
  unfold Cluster.release at hs
  split at hs
  · next hrun =>
    cases hs
    obtain ⟨hup, hpr, hp⟩ := h.running hrun
    refine h.unlock hup rfl trivial ?_ fun s' hver hass _ v hv => ?_
    · rintro l hl rfl - hid
      exact .inl (hp.2 _ (h.assigned_of_lock hl hid))
    · rw [hass] at hv
      rw [hver]
      exact hp.2 v hv
  · next hrun =>
    cases hs
    obtain ⟨hup, hpr, hp⟩ := h.running hrun
    exact h.unlock hup rfl trivial hp fun _ _ _ => trivial
  · cases hs

lemma Inv.commitWorker (hs : s.commitWorker u i = some s') : s'.Inv := by
  unfold Cluster.commitWorker at hs
  split at hs
  · next l hrun hcom =>
    cases hs
    obtain ⟨hup, hpr⟩ := running_eq hrun
    have hp := h.process u u.coordinator
    rw [hcom] at hp
    refine h.unlock hup rfl trivial ?_ fun s' hver hass _ v hv => ?_
    · rintro l hl rfl - hid
      exact .inl (hp rfl _ (h.assigned_of_lock hl hid))
    · rw [hass] at hv
      rw [hver]
      exact hp rfl v hv
  · cases hs

end

lemma newVersion_ids {next : ℕ} (hnext : 0 < next) (ha : ∀ id, a = some id → id ≠ 0 ∧ id < next) : let v := newVersion next a n
    v.versionId = n + 1 ∧ next ≤ v.versionArrayId ∧ v.arrayId ≠ 0 ∧ v.arrayId ≤ v.versionArrayId ∧
      (a = some v.arrayId ∨ a = none ∧ v.arrayId = next) := by
  cases a with
  | none => exact ⟨rfl, Nat.le_succ _, Nat.ne_of_gt hnext, Nat.le_succ _, .inr ⟨rfl, rfl⟩⟩
  | some id => exact ⟨rfl, Nat.le_refl _, (ha id rfl).1, Nat.le_of_lt (ha id rfl).2, .inl rfl⟩

lemma IdsOk.assign (h : IdsOk c f) (hu : f u = none) (hv : v = newVersion c.nextArrayId (c.arrays u.arrayName) n) :
    IdsOk { c with nextArrayId := v.versionArrayId + 1 } (update f u (some v)) := by
  obtain ⟨hver, hnext, ha0, hle, hor⟩ := newVersion_ids h.next (n := n) fun id hid =>
    ⟨(h.arrays u.arrayName id hid).1, (h.arrays u.arrayName id hid).2.1⟩
  rw [← hv] at hver hnext ha0 hle hor
  have hcases : ∀ u' v', update f u (some v) u' = some v' → u' = u ∧ v' = v ∨ u' ≠ u ∧ f u' = some v' := by
    intro u' v' hv'
    by_cases hu' : u' = u
    · subst hu'
      rw [update_self] at hv'
      exact .inl ⟨rfl, (some.inj hv').symm⟩
    · rw [update_of_ne hu'] at hv'
      exact .inr ⟨hu', hv'⟩
  -- another update of an array with this id is an update of the array with this name
  have hname : ∀ u' v', f u' = some v' → v'.arrayId = v.arrayId → u'.arrayName = u.arrayName := by
    intro u' v' hv' he
    rcases hor with hin | ⟨-, hnew⟩
    · exact (h.arrays _ _ hin).2.2.1 u' v' hv' he
    · have := (h.assigned u' v' hv').2.1
      omega
  refine ⟨Nat.succ_pos _, ?_, ?_, ?_, ?_, ?_⟩
  · intro u' v' hv'
    rcases hcases u' v' hv' with ⟨-, rfl⟩ | ⟨-, hv'⟩
    · dsimp only
      omega
    · have := h.assigned u' v' hv'
      dsimp only
      omega
  · intro u1 u2 v1 v2 h1 h2 he
    rcases hcases u1 v1 h1 with ⟨rfl, rfl⟩ | ⟨-, h1'⟩ <;> rcases hcases u2 v2 h2 with ⟨rfl, rfl⟩ | ⟨-, h2'⟩
    · rfl
    · have := (h.assigned u2 v2 h2').2.2.2.1
      omega
    · have := (h.assigned u1 v1 h1').2.2.2.1
      omega
    · exact h.injective u1 u2 v1 v2 h1' h2' he
  · intro u1 u2 v1 v2 h1 h2 he
    rcases hcases u1 v1 h1 with ⟨rfl, rfl⟩ | ⟨-, h1'⟩ <;> rcases hcases u2 v2 h2 with ⟨rfl, rfl⟩ | ⟨-, h2'⟩
    · rfl
    · exact (hname u2 v2 h2' he.symm).symm
    · exact hname u1 v1 h1' he
    · exact h.name u1 u2 v1 v2 h1' h2' he
  · intro m id hm
    obtain ⟨hid0, hid, huse, hone⟩ := h.arrays m id hm
    refine ⟨hid0, by dsimp only; omega, fun u' v' hv' he => ?_, hone⟩
    rcases hcases u' v' hv' with ⟨rfl, rfl⟩ | ⟨-, hv'⟩
    · rcases hor with hin | ⟨-, hnew⟩
      · exact hone _ (he ▸ hin)
      · omega
    · exact huse u' v' hv' he
  · intro w hw
    obtain ⟨u', hu'⟩ := h.versions w hw
    refine ⟨u', ?_⟩
    rw [update_of_ne fun he => ?_]
    · exact hu'
    · rw [he, hu] at hu'
      cases hu'

lemma follows_newVersion (h : IdsOk c f) (ha : ∀ id, a = some id → id ≠ 0 ∧ id < c.nextArrayId)
    (hn : n = (a.map c.getLastVersion).getD 0) : Follows c.versions (newVersion c.nextArrayId a n) := by
  obtain ⟨hver, hnext, -, -, hor⟩ := newVersion_ids h.next (n := n) ha
  generalize newVersion c.nextArrayId a n = v at hver hnext hor
  have hbound : ∀ w ∈ c.versions, w.arrayId < c.nextArrayId ∧ w.versionArrayId < c.nextArrayId := by
    intro w hw
    obtain ⟨u, hu⟩ := h.versions w hw
    exact ⟨(h.assigned u w hu).2.1, (h.assigned u w hu).2.2.2.1⟩
  rcases hor with rfl | ⟨rfl, hnew⟩
  · have hn : n = c.getLastVersion v.arrayId := hn
    refine ⟨fun w hw he _ => ⟨by have := hbound w hw; omega, ?_⟩, ?_⟩
    · have := Catalog.le_getLastVersion hw
      rw [he] at this
      omega
    · by_cases h0 : c.getLastVersion v.arrayId = 0
      · exact .inl (by omega)
      · obtain ⟨w, hw, he, hl⟩ := Catalog.exists_getLastVersion h0
        exact .inr ⟨w, hw, he, by omega⟩
  · have hn : n = 0 := hn
    refine ⟨fun w hw he _ => ?_, .inl (by omega)⟩
    have := hbound w hw
    omega

lemma Inv.updateArrayLock (h : s.Inv) (hs : s.updateArrayLock u = some s') : s'.Inv := by
  unfold Cluster.updateArrayLock at hs
  split at hs
  · next l a n hrun =>
    obtain ⟨hup, hpr, -, hlu, hli, hnone, hlock, ha, hn⟩ := h.running hrun
    have hav : ∀ id, a = some id → id ≠ 0 ∧ id < s.catalog.nextArrayId := by
      rintro id rfl
      exact ⟨(h.ids.arrays _ id ha.symm).1, (h.ids.arrays _ id ha.symm).2.1⟩
    have hfollows := follows_newVersion h.ids hav hn
    have hids := h.ids.assign (n := n) hnone rfl
    rw [← ha] at hids
    have hvid := (newVersion_ids h.ids.next (n := n) hav).2.1
    have hpos := h.ids.next
    dsimp only at hs
    generalize newVersion s.catalog.nextArrayId a n = v at hs hfollows hids hvid
    generalize hl' : ({ l with lockMode := if a.isSome then .wr else .crt, version := v } : LockDesc) = l' at hs
    have hlu' : l'.update = u := by rw [← hl']; exact hlu
    have hli' : l'.instanceId = u.coordinator := by rw [← hl']; exact hli
    have hlv : l'.version = v := by rw [← hl']
    have hs' := some.inj hs
    have hcat : s'.catalog = { s.catalog.updateArrayLock l' with nextArrayId := v.versionArrayId + 1 } := by rw [← hs']; rfl
    have hass : s'.assigned = update s.assigned u (some v) := by rw [← hs']; rfl
    have hmem : ∀ l1, l1 ∈ s'.catalog.locks ↔ l1 = l' ∨ l1 ∈ s.catalog.locks ∧ ¬(l1.update = u ∧ l1.instanceId = u.coordinator) := by
      intro l1
      rw [hcat]
      refine mem_map.trans ⟨?_, ?_⟩
      · rintro ⟨l2, hl2, rfl⟩
        rw [hlu', hli']
        split_ifs with hkey
        · exact .inl rfl
        · exact .inr ⟨hl2, hkey⟩
      · rintro (rfl | ⟨hl1, hkey⟩)
        · obtain ⟨l2, hl2, hu2, hi2⟩ := hlock
          exact ⟨l2, hl2, if_pos ⟨hu2.trans hlu'.symm, hi2.trans hli'.symm⟩⟩
        · exact ⟨l1, hl1, if_neg (by rw [hlu', hli']; exact hkey)⟩
    have hver : s'.catalog.versions = s.catalog.versions := by rw [hcat]; rfl
    have hne : ∀ u' w, s.assigned u' = some w → u' ≠ u := by
      rintro u' w hw rfl
      rw [hnone] at hw
      cases hw
    have hsame : ∀ u' j, ¬(u' = u ∧ j = u.coordinator) → s.SameLock s' u' j := by
      intro u' j hj l1 hu1 hi1
      rw [hmem, hu1, hi1]
      refine ⟨?_, fun hl1 => .inr ⟨hl1, hj⟩⟩
      rintro (rfl | hl1)
      · exact absurd ⟨hu1.symm.trans hlu', hi1.symm.trans hli'⟩ hj
      · exact hl1.1
    have hsameCoord : ∀ u', ¬(u' = u ∧ u'.coordinator = u.coordinator) → s.SameCoord s' u' := by
      intro u' hj
      have hu' : u' ≠ u := fun he => hj ⟨he, by rw [he]⟩
      refine ⟨by rw [hass, update_of_ne hu'], fun hno l1 hl1 => ?_, fun _ => by rw [hcat]; rfl, fun _ id _ => ?_,
        fun _ _ hw => by rwa [hver] at hw⟩
      · rcases (hmem l1).mp hl1 with rfl | ⟨hl1, -⟩
        · rw [hlu']
          exact hu'.symm
        · exact hno l1 hl1
      · exact Catalog.getLastVersion_congr fun w _ => by rw [hver]
    have hunrec : v ∉ s.catalog.versions := by
      intro hv
      obtain ⟨u', hu'⟩ := h.ids.versions v hv
      have := (h.ids.assigned u' v hu').2.2.2.1
      omega
    have hself : s'.ProcessOk u u.coordinator (.executing l') := by
      refine ⟨(hmem l').mpr (.inl rfl), hlu', hli', fun _ => ?_⟩
      rw [hass, update_self, hlv, hver]
      exact ⟨rfl, hunrec⟩
    obtain ⟨hl, hp, hnd, hd, hw⟩ := h.of_step hup (fun hend => by rw [hpr] at hend; exact hend.elim) hs'
      (fun u' w hw => (update_of_ne (hne u' w hw) ..).trans hw) (fun _ hw => hw) (fun _ _ _ _ hw => hw)
      hsame hsameCoord hself
    refine ⟨hp, hnd, ?_, ?_, ?_, ?_, ?_, hd, ?_, hw⟩
    · obtain ⟨l0, hl0, hu0, -⟩ := hlock
      intro l1 h1 l2 h2 hname
      rcases (hmem l1).mp h1 with rfl | ⟨h1, -⟩ <;> rcases (hmem l2).mp h2 with rfl | ⟨h2, -⟩
      · rfl
      · rw [hlu', ← hu0] at hname ⊢
        exact h.exclusive l0 hl0 l2 h2 hname
      · rw [hlu', ← hu0] at hname ⊢
        exact h.exclusive l1 h1 l0 hl0 hname
      · exact h.exclusive l1 h1 l2 h2 hname
    · intro l1 h1 l2 h2 hu hi
      rcases (hmem l1).mp h1 with rfl | ⟨h1, hk1⟩ <;> rcases (hmem l2).mp h2 with rfl | ⟨h2, hk2⟩
      · rfl
      · exact absurd ⟨hu.symm.trans hlu', hi.symm.trans hli'⟩ hk2
      · exact absurd ⟨hu.trans hlu', hi.trans hli'⟩ hk1
      · exact h.unique l1 h1 l2 h2 hu hi
    · intro l1 h1
      rw [hass]
      rcases (hmem l1).mp h1 with rfl | ⟨h1, -⟩
      · rw [hlu', update_self, hlv]
        exact .inr rfl
      · refine (h.lock l1 h1).imp_right fun ha => ?_
        rwa [update_of_ne (hne _ _ ha)]
    · rw [hcat, hass]
      exact hids.of_locks _
    · intro l1 h1 w hw
      rw [hver]
      rw [hass] at hw
      by_cases hu1 : l1.update = u
      · rw [hu1, update_self] at hw
        exact some.inj hw ▸ hfollows
      · rw [update_of_ne hu1] at hw
        rcases (hmem l1).mp h1 with rfl | ⟨h1, -⟩
        · exact absurd hlu' hu1
        · exact h.follows l1 h1 w hw
    · intro l1 h1
      have h1 : l1 ∈ l' :: s.held := by rw [← hs'] at h1; exact h1
      rcases mem_cons.mp h1 with rfl | h1
      · rw [hlv]
        exact ⟨by omega, .inl ((hmem l1).mpr (.inl rfl))⟩
      · obtain ⟨hid, hor⟩ := h.held l1 h1
        refine ⟨hid, hor.imp (fun hl1 => (hmem l1).mpr (.inr ⟨hl1, fun hk => ?_⟩)) fun hset => hset.later hl⟩
        exact hne _ _ (h.assigned_of_lock hl1 hid) hk.1
  · cases hs

lemma Inv.store (h : s.Inv) (hs : s.store u i = some s') : s'.Inv := by
  unfold Cluster.store at hs
  split at hs
  · next l hrun =>
    split_ifs at hs with hid
    obtain ⟨hup, hpr, hmem, hlu, hli, -⟩ := h.running hrun
    have hs' := some.inj hs
    have hl : s.Later s' := by
      rw [← hs']
      exact ⟨fun _ _ hv => hv, fun _ _ he => he, fun _ hv => hv, fun _ _ _ _ hv => hv, fun _ hd => hd⟩
    have hstored : ∀ j e, e ∈ s'.stored j ↔ (j = i ∧ e = (l.version.arrayId, l.version.versionArrayId)) ∨ e ∈ s.stored j := by
      intro j e
      rw [← hs']
      by_cases hj : j = i
      · subst hj
        simp
      · simp [hj]
    have hass : s'.assigned = s.assigned := by rw [← hs']
    have hcat : s'.catalog = s.catalog := by rw [← hs']
    have hproc : s'.process = s.process := by rw [← hs']
    have hla := h.assigned_of_lock hmem hid
    rw [hlu] at hla
    refine h.of_catalog hl hcat hass (by rw [← hs']) (fun u' j => ?_) (fun j => ?_) (fun d hd => ?_) fun j e he => ?_
    · rw [hproc]
      exact (h.process u' j).later h hl (fun _ _ _ => by rw [hcat]) fun _ => sameCoord_rfl hcat hass
    · rw [show s'.node = s.node by rw [← hs']]
      exact (h.node j).later h hl (fun u' => by rw [hproc]) fun _ _ _ _ => by rw [hcat]
    · have hd : d ∈ s.decided := by rw [← hs'] at hd; exact hd
      intro hne
      refine (h.decided d hd).later hl (fun he hend => ?_) hne
      -- a process that stores has not ended
      rcases (hstored _ _).mp he with ⟨hj, heq⟩ | he
      · obtain ⟨-, hvid⟩ := Prod.mk.inj heq
        have hu := h.ids.injective _ _ _ _ (h.decided d hd hne).1 hla hvid
        rw [hu, hj, hpr] at hend
        exact hend.elim
      · exact he
    · have he' : (j = i ∧ e = (l.version.arrayId, l.version.versionArrayId)) ∨ e ∈ s.written j := by
        rw [← hs'] at he
        by_cases hj : j = i
        · subst hj
          simpa using he
        · simpa [hj] using he
      rcases he' with ⟨hj, rfl⟩ | he'
      · exact ⟨u, l.version, by rw [hass]; exact hla, rfl, .inl ((hstored _ _).mpr (.inl ⟨hj, rfl⟩))⟩
      · exact (h.written j e he').later hl fun hst => (hstored j e).mpr (.inr hst)
  · cases hs

lemma IdsOk.record (h : IdsOk c f) (hl : f l.update = some l.version) : IdsOk (c.addArrayVersion l) f := by
  refine ⟨h.next, h.assigned, h.injective, h.name, ?_, ?_⟩
  · obtain ⟨ha0, ha, -⟩ := h.assigned _ _ hl
    have hcases : ∀ n id, (c.addArrayVersion l).arrays n = some id →
        n = l.update.arrayName ∧ id = l.version.arrayId ∨ c.arrays n = some id := by
      intro n id hn
      dsimp only [Catalog.addArrayVersion] at hn
      split_ifs at hn
      · by_cases hname : n = l.update.arrayName
        · rw [hname, update_self] at hn
          exact .inl ⟨hname, (some.inj hn).symm⟩
        · rw [update_of_ne hname] at hn
          exact .inr hn
      · exact .inr hn
    intro n id hn
    rcases hcases n id hn with ⟨rfl, rfl⟩ | hn
    · refine ⟨ha0, ha, fun u v hu he => h.name _ _ _ _ hu hl he, fun n' hn' => ?_⟩
      rcases hcases n' _ hn' with ⟨rfl, -⟩ | hn'
      · rfl
      · exact ((h.arrays n' _ hn').2.2.1 _ _ hl rfl).symm
    · obtain ⟨hid0, hid, huse, hone⟩ := h.arrays n id hn
      refine ⟨hid0, hid, huse, fun n' hn' => ?_⟩
      rcases hcases n' _ hn' with ⟨rfl, rfl⟩ | hn'
      · exact huse _ _ hl rfl
      · exact hone n' hn'
  · intro v hv
    rcases mem_cons.mp hv with rfl | hv
    · exact ⟨_, hl⟩
    · exact h.versions v hv

lemma Inv.record (h : s.Inv) (hs : s.record u = some s') : s'.Inv := by
  unfold Cluster.record at hs
  split at hs
  · next l hrun =>
    obtain ⟨hup, hpr, hmem, hlu, hli, hcoord⟩ := h.running hrun
    obtain ⟨hla, -⟩ := hcoord rfl
    have hs' := some.inj hs
    have hcat : s'.catalog = s.catalog.addArrayVersion l := by rw [← hs']; rfl
    have hass : s'.assigned = s.assigned := by rw [← hs']; rfl
    have hver : ∀ v, v ∈ s'.catalog.versions ↔ v = l.version ∨ v ∈ s.catalog.versions := by
      intro v
      rw [hcat]
      exact mem_cons
    have hlocks : s'.catalog.locks = s.catalog.locks := by rw [hcat]; rfl
    have howner : ∀ u', s.assigned u' = some l.version → u' = u := fun u' hu' => h.ids.injective _ _ _ _ hu' hla rfl
    have hunrec : ∀ u' v, s.assigned u' = some v → (s.process u' u'.coordinator).Ended →
        v ∈ (s.catalog.addArrayVersion l).versions → v ∈ s.catalog.versions := by
      intro u' v hv hend hrec
      rcases mem_cons.mp hrec with rfl | hrec
      · rw [howner u' hv, hpr] at hend
        exact hend.elim
      · exact hrec
    have hsameCoord : ∀ u', ¬(u' = u ∧ u'.coordinator = u.coordinator) → s.SameCoord s' u' := by
      intro u' hj
      have hu' : u' ≠ u := fun he => hj ⟨he, by rw [he]⟩
      -- another update with a lock is one of another array
      have hname : s.HasLock u' u'.coordinator → u'.arrayName ≠ u.arrayName := by
        rintro ⟨l', hl', rfl, -⟩ hname
        exact hu' ((h.exclusive l' hl' l hmem (by rw [hlu]; exact hname)).trans hlu)
      refine ⟨by rw [hass], fun hno => by rw [hlocks]; exact hno, fun hlock => ?_, fun hlock id hid => ?_, fun v hv hrec => ?_⟩
      · rw [hcat, Catalog.addArrayVersion, hlu]
        dsimp only
        split_ifs
        · rw [update_of_ne (hname hlock)]
        · rfl
      · refine Catalog.getLastVersion_congr fun w hw => ?_
        rw [hver]
        refine or_iff_right ?_
        rintro rfl
        exact hname hlock ((h.ids.arrays _ _ hid).2.2.1 _ _ hla hw).symm
      · rcases (hver v).mp hrec with rfl | hrec
        · exact absurd (howner u' hv) hu'
        · exact hrec
    have hself : s'.ProcessOk u u.coordinator .recorded := by
      refine ⟨rfl, fun v hv => ?_⟩
      rw [hass, hla] at hv
      cases hv
      exact (hver _).mpr (.inl rfl)
    obtain ⟨hl, hp, hnd, hd, hw⟩ := h.of_step (p := .recorded) hup (fun _ => trivial) hs' (fun _ _ hv => hv)
      (fun _ hv => mem_cons_of_mem _ hv) hunrec (fun _ _ _ _ _ _ => by rw [hlocks]) hsameCoord hself
    refine ⟨hp, hnd, by rw [hlocks]; exact h.exclusive, by rw [hlocks]; exact h.unique, by rw [hlocks, hass]; exact h.lock, ?_,
      ?_, hd, ?_, hw⟩
    · rw [hcat, hass]
      exact h.ids.record (by rw [hlu]; exact hla)
    · intro l1 h1 v hv
      rw [hlocks] at h1
      rw [hass] at hv
      have hf := h.follows l1 h1 v hv
      refine ⟨fun w hw he hne => ?_, hf.next.imp_right fun ⟨w, hw, hrest⟩ => ⟨w, (hver w).mpr (.inr hw), hrest⟩⟩
      rcases (hver w).mp hw with rfl | hw
      · have hu1 := h.exclusive l1 h1 l hmem (hlu ▸ h.ids.name _ _ _ _ hv hla he.symm)
        rw [hu1, hlu, hla] at hv
        exact absurd (some.inj hv) hne
      · exact hf.later w hw he hne
    · intro l1 h1
      have h1 : l1 ∈ s.held := by rw [← hs'] at h1; exact h1
      rw [hlocks]
      exact ⟨(h.held l1 h1).1, (h.held l1 h1).2.imp_right fun hset => hset.later hl⟩
  · cases hs

lemma mem_rollback {stored : List (ℕ × ℕ)} :
    e ∈ rollback m stored ↔ e ∈ stored ∧ ∀ id n, m e.1 = some (id, n) → e.2 < id ∧ n ≠ 0 := by
  rw [rollback, List.mem_filter, Option.all_eq_true]
  simp

def RollbackOk (s : Cluster) (m : RollbackMap) : Prop :=
  ∀ a n id, m a = some (id, n) → ∃ l ∈ s.catalog.locks, l.version.arrayId = a ∧ l.version.versionArrayId = id ∧ id ≠ 0 ∧
    n + 1 = l.version.versionId ∧ l.version ∉ s.catalog.versions ∧ (s.process l.update l.update.coordinator).Ended

lemma WrittenOk.rollback (h : s.Inv) (hm : s.RollbackOk m) (he : s.WrittenOk i e) :
    ∃ u v, s.assigned u = some v ∧ e = (v.arrayId, v.versionArrayId) ∧
      (e ∈ SciDB.Query.rollback m (s.stored i) ∨ v ∉ s.catalog.versions ∧ (s.process u u.coordinator).Ended) := by
  obtain ⟨u, v, ha, rfl, hor⟩ := he
  refine ⟨u, v, ha, rfl, ?_⟩
  rcases hor with hst | hgone
  · by_cases hund : ∃ id n, m v.arrayId = some (id, n)
    · obtain ⟨id, n, hmv⟩ := hund
      obtain ⟨l, hl, hla, rfl, hid, hn, hrec, hend⟩ := hm _ n id hmv
      by_cases hv : v ∈ s.catalog.versions
      · refine .inl (mem_rollback.mpr ⟨hst, fun id' n' hmv' => ?_⟩)
        obtain ⟨rfl, rfl⟩ := Prod.mk.inj (some.inj (hmv.symm.trans hmv'))
        exact h.kept_of_recorded hl hid hrec hn hv hla.symm
      · exact .inr ⟨hv, h.ended_of_same_array hl hid hend ha hla.symm⟩
    · exact .inl (mem_rollback.mpr ⟨hst, fun id n hmv => absurd ⟨id, n, hmv⟩ hund⟩)
  · exact .inr hgone

lemma collect_self (m : RollbackMap) (v : ArrayVersion) (n : ℕ) : m.collect v n v.arrayId = some (v.versionArrayId, n) :=
  update_self ..

lemma collect_of_ne (m : RollbackMap) (n : ℕ) {a : ℕ} (h : a ≠ v.arrayId) : m.collect v n a = m a :=
  update_of_ne h ..

def undoMap (v : ArrayVersion) : Option ℕ → RollbackMap
  | none => .empty
  | some lastVersion => RollbackMap.empty.collect v lastVersion

lemma undoMap_eq_some {a id : ℕ} (h : undoMap v undo a = some (id, n)) :
    undo = some n ∧ v.arrayId = a ∧ v.versionArrayId = id := by
  cases undo with
  | none => cases h
  | some m =>
    by_cases ha : a = v.arrayId
    · subst ha
      rw [undoMap, collect_self] at h
      cases h
      exact ⟨rfl, rfl, rfl⟩
    · rw [undoMap, collect_of_ne _ _ ha] at h
      cases h

lemma HandlerOk.rollbackOk (h : s.HandlerOk u i (.finished l undo)) : s.RollbackOk (undoMap l.version undo) := by
  obtain ⟨⟨rfl, hkl⟩, hzero, hdec⟩ := h
  intro a n id hm
  obtain ⟨rfl, rfl, rfl⟩ := undoMap_eq_some hm
  have hid : l.version.versionArrayId ≠ 0 := fun h0 => nomatch hzero h0
  obtain ⟨hend, -, hsome⟩ := hdec hid
  rcases hkl with ⟨hl, -⟩ | ⟨h0, -⟩
  · exact ⟨l, hl, rfl, rfl, hid, (hsome n rfl).2, (hsome n rfl).1, hend⟩
  · exact absurd h0 hid

lemma Inv.handleFinished (h : s.Inv) (hup : s.node i = .up) (hpr : s.process u i = .handling (.finished l undo))
    (hcat : s'.catalog = s.catalog) (hass : s'.assigned = s.assigned) (hheld : s'.held = s.held)
    (hnode : s'.node = s.node) (hwritten : s'.written = s.written)
    (hdecided : s'.decided = (l, undo.isSome) :: s.decided) (hself : s'.process u i = .releasing)
    (hother : ∀ u' j, ¬(u' = u ∧ j = i) → s'.process u' j = s.process u' j)
    (hstored : s'.stored i = rollback (undoMap l.version undo) (s.stored i))
    (hstored' : ∀ j, j ≠ i → s'.stored j = s.stored j) : s'.Inv := by
  have hpo := h.process u i
  rw [hpr] at hpo
  have hroll := HandlerOk.rollbackOk hpo
  obtain ⟨⟨rfl, hkl⟩, hzero, hdec⟩ := hpo
  have hl : s.Later s' := by
    refine ⟨fun _ _ hv => by rwa [hass], fun u' j hend => ?_, fun _ hv => by rwa [hcat], fun _ _ _ _ hv => by rwa [hcat] at hv,
      fun d hd => by rw [hdecided]; exact mem_cons_of_mem _ hd⟩
    by_cases hj : u' = l.update ∧ j = i
    · rw [hj.1, hj.2, hself]
      trivial
    · rwa [hother u' j hj]
  obtain ⟨hp, hn⟩ := h.of_process hl hup hnode hother (fun _ _ _ _ _ _ => by rw [hcat]) (fun _ _ => sameCoord_rfl hcat hass) (by
    rw [hself]
    intro l1 h1 hu1 hi1 hid1
    rw [hcat] at h1
    rcases hkl with ⟨hmem, hli⟩ | ⟨-, hno⟩
    · obtain rfl := h.unique l1 h1 l hmem hu1 (hi1.trans hli.symm)
      cases undo with
      | none => exact .inl (hcat ▸ (hdec hid1).2.1 rfl)
      | some n => exact .inr (by rw [hdecided]; exact mem_cons_self)
    · exact absurd ⟨l1, h1, hu1, hi1⟩ hno)
  refine h.of_catalog hl hcat hass hheld hp hn (fun d hd => ?_) fun j e he => ?_
  · rw [hdecided] at hd
    rcases mem_cons.mp hd with rfl | hd
    · intro hid
      obtain ⟨hend, hnone, hsome⟩ := hdec hid
      rcases hkl with ⟨hmem, hli⟩ | ⟨h0, -⟩
      · refine ⟨by rw [hass]; exact h.assigned_of_lock hmem hid, fun hb => ?_, fun hb => ?_⟩
        · rw [hcat]
          exact hnone (by simpa using hb)
        · obtain ⟨n, rfl⟩ := isSome_iff_exists.mp hb
          refine ⟨by rw [hcat]; exact (hsome n rfl).1, hl.ended _ _ hend, ?_, fun he => ?_⟩
          · rw [show l.instanceId = i from hli, hself]
            trivial
          · rw [show l.instanceId = i from hli, hstored] at he
            have hlt := ((mem_rollback.mp he).2 l.version.versionArrayId n (collect_self ..)).1
            exact absurd hlt (Nat.lt_irrefl _)
      · exact absurd h0 hid
    · refine (h.decided d hd).later hl fun he _ => ?_
      by_cases hj : d.1.instanceId = i
      · rw [hj] at he ⊢
        rw [hstored] at he
        exact (mem_rollback.mp he).1
      · rwa [hstored' _ hj] at he
  · rw [hwritten] at he
    by_cases hj : j = i
    · subst hj
      obtain ⟨u', v, ha, rfl, hor⟩ := WrittenOk.rollback h hroll (h.written j e he)
      refine ⟨u', v, by rw [hass]; exact ha, rfl, ?_⟩
      rw [hstored, hcat]
      exact hor.imp_right fun ⟨hv, hend⟩ => ⟨hv, hl.ended _ _ hend⟩
    · exact (h.written j e he).later hl fun hst => by rwa [hstored' j hj]

lemma Inv.handle (h : s.Inv) (hs : s.handle u i = some s') : s'.Inv := by
  unfold Cluster.handle at hs
  split at hs
  · next l undo hrun =>
    obtain ⟨hup, hpr⟩ := running_eq hrun
    cases hs
    refine h.handleFinished hup hpr rfl rfl rfl rfl rfl rfl (setProcess_self ..) (fun u' j hj => setProcess_of_ne _ _ hj) ?_ ?_
    · cases undo with
      | none =>
        refine (filter_eq_self.mpr fun e _ => ?_).symm
        rfl
      | some n => exact update_self ..
    · intro j hj
      cases undo with
      | none => rfl
      | some n => exact update_of_ne hj ..
  · cases hs
  · next x _ _ hrun =>
    cases hs
    obtain ⟨hup, hpr, hpo⟩ := h.running hrun
    refine h.setProcess hup (fun _ => trivial) ?_
    exact HandlerOk.later h (HandlerOk.step h hpo) (later_setProcess fun _ => trivial) fun _ _ _ => Iff.rfl
  · cases hs

end Steps

end Cluster

end SciDB.Query
