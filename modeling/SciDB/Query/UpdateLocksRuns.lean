import SciDB.Query.UpdateLocksSteps

/-!
# A new version is made on all instances or on none

An instance rolls back what it has stored for an update exactly when the version was not recorded in the catalog.
-/

namespace SciDB.Query

open SciDB.Lib List Function Option

namespace Cluster

section Steps

variable {s s' : Cluster} {u : Update} {i : ℕ}

variable {p : Process} {l : LockDesc} {r : Recovery}

lemma Process.ended_crash (h : p.Ended) : p.crash.Ended := by
  cases p with
  | recorded | handling | releasing | committed | done => trivial
  | fresh | locked | lookedUp | requested | executing => exact h.elim

lemma Process.quiet_crash (p : Process) : p.crash.Quiet := by
  cases p with
  | fresh | recorded | handling | releasing | committed | done | locked | lookedUp | requested | executing => trivial

lemma ProcessOk.crash (h : s.ProcessOk u i p) : s.ProcessOk u i p.crash := by
  cases p with
  | fresh | committed => exact h
  | recorded | handling | releasing | done | locked | lookedUp | requested | executing => trivial

lemma Inv.crash (h : s.Inv) : (s.crash i).Inv := by
  have hproc : ∀ u j, (s.crash i).process u j = if j = i then (s.process u j).crash else s.process u j := fun _ _ => rfl
  have hl : s.Later (s.crash i) := by
    refine ⟨fun _ _ hv => hv, fun u j hend => ?_, fun _ hv => hv, fun _ _ _ _ hv => hv, fun _ hd => hd⟩
    rw [hproc]
    split_ifs
    · exact Process.ended_crash hend
    · exact hend
  refine h.of_catalog hl rfl rfl rfl (fun u j => ?_) (fun j => ?_) (fun d hd => (h.decided d hd).later hl fun he _ => he)
    fun j e he => (h.written j e he).later hl id
  · have hok : s.ProcessOk u j ((s.crash i).process u j) := by
      rw [hproc]
      split_ifs
      · exact (h.process u j).crash
      · exact h.process u j
    exact hok.later h hl (fun _ _ _ => Iff.rfl) fun _ => sameCoord_rfl rfl rfl
  · by_cases hj : j = i
    · subst hj
      rw [show (s.crash j).node j = .down from update_self ..]
      intro u
      rw [hproc, if_pos rfl]
      exact Process.quiet_crash _
    · rw [show (s.crash i).node j = s.node j from update_of_ne hj ..]
      exact (h.node j).later h hl (fun u => by rw [hproc, if_neg hj]) fun _ _ _ _ => Iff.rfl

lemma Inv.setNode (h : s.Inv) {n : Node} (hn : s.NodeOk i n) : (s.setNode i n).Inv := by
  have hl : s.Later (s.setNode i n) :=
    ⟨fun _ _ hv => hv, fun _ _ hend => hend, fun _ hv => hv, fun _ _ _ _ hv => hv, fun _ hd => hd⟩
  refine h.of_catalog hl rfl rfl rfl (fun u j => ?_) (fun j => ?_) (fun d hd => (h.decided d hd).later hl fun he _ => he)
    fun j e he => (h.written j e he).later hl id
  · exact (h.process u j).later h hl (fun _ _ _ => Iff.rfl) fun _ => sameCoord_rfl rfl rfl
  · by_cases hj : j = i
    · subst hj
      rw [show (s.setNode j n).node j = n from update_self ..]
      exact hn.later h hl (fun _ => rfl) fun _ _ _ _ => Iff.rfl
    · rw [show (s.setNode i n).node j = s.node j from update_of_ne hj ..]
      exact (h.node j).later h hl (fun _ => rfl) fun _ _ _ _ => Iff.rfl

lemma mem_readArrayLocks {b : Bool} : l ∈ s.catalog.readArrayLocks i b ↔ s.InRole i b l := by
  simp [Catalog.readArrayLocks, InRole]

lemma Inv.restart (h : s.Inv) (hs : s.restart i = some s') : s'.Inv := by
  unfold Cluster.restart at hs
  split at hs
  · next hdown =>
    cases hs
    have hn := h.node i
    rw [hdown] at hn
    refine h.setNode ⟨hn, ⟨fun l hl => mem_readArrayLocks.mp hl, fun _ l => mem_readArrayLocks, fun l hl => ?_, ?_, ?_⟩⟩
    · exact .inl (mem_readArrayLocks.mpr hl)
    · exact fun l hl => nomatch hl
    · exact fun a n id hm => nomatch hm
  · cases hs

section

variable (h : s.Inv) (hr : s.RecoveryOk i r)

include h hr

lemma RecoveryOk.next (hq : ∀ u, (s.process u i).Quiet) {rest : List LockDesc}
    (hpc : r.pc = .next) (htodo : r.todo = l :: rest) : s.RecoveryOk i { r with pc := .handler (.start l), todo := rest } := by
  have hin : s.InRole i r.isCoord l := hr.todo l (by rw [htodo]; exact mem_cons_self)
  have hcover := hr.pc
  rw [hpc] at hcover
  have hmem := hin.1
  have hli := hin.2.1
  refine ⟨fun l' hl' => hr.todo l' (by rw [htodo]; exact mem_cons_of_mem _ hl'), hr.workerLocks, ⟨l, hin, ?_, ?_⟩,
    hr.examined, hr.collected⟩
  · refine HandlerOk.start rfl hli (fun hc => ⟨⟨l, hmem, rfl, hli⟩, ?_⟩) fun _ => ⟨⟨rfl, .inl ⟨hmem, hli⟩⟩, fun h0 => ?_⟩
    · rw [← hc, ← hli]
      exact h.ended_of_quiet hmem (hli ▸ hq _)
    · by_contra hid
      exact (h.ids.assigned _ _ (h.assigned_of_lock hmem hid)).2.2.2.2 h0
  · intro l' hl'
    rcases hcover l' hl' with hl' | hl'
    · rw [htodo] at hl'
      exact (mem_cons.mp hl').imp id .inl
    · exact .inr (.inr hl')

lemma RecoveryOk.finished {undo : Option ℕ} :
    r.pc = .handler (.finished l undo) → s.RecoveryOk i { r with
      pc := .next
      arraysToRollback := match undo with
        | none => r.arraysToRollback
        | some lastVersion => r.arraysToRollback.collect l.version lastVersion
      examined := l :: r.examined } := by
  intro hpc
  have hcover := hr.pc
  rw [hpc] at hcover
  obtain ⟨l0, hin, ⟨⟨hlu, hkl⟩, hzero, hdec⟩, hall⟩ := hcover
  obtain ⟨hmem, hli⟩ : l ∈ s.catalog.locks ∧ l.instanceId = i := hkl.resolve_right fun hno => hno.2 ⟨l0, hin.1, rfl, hin.2.1⟩
  obtain rfl : l = l0 := h.unique l hmem l0 hin.1 hlu (hli.trans hin.2.1.symm)
  refine ⟨hr.todo, hr.workerLocks, fun l' hl' => ?_, fun l' hl' => ?_, fun a n id hm => ?_⟩
  · rcases hall l' hl' with rfl | hl' | hl'
    · exact .inr mem_cons_self
    · exact .inl hl'
    · exact .inr (mem_cons_of_mem _ hl')
  · rcases mem_cons.mp hl' with rfl | hl'
    · refine ⟨hin, fun hid => ⟨(hdec hid).1, ?_⟩⟩
      cases undo with
      | none => exact .inl ((hdec hid).2.1 rfl)
      | some n => exact .inr ⟨n, collect_self ..⟩
    · obtain ⟨hin', hid'⟩ := hr.examined l' hl'
      refine ⟨hin', fun hid => ⟨(hid' hid).1, (hid' hid).2.imp_right fun hm => ?_⟩⟩
      cases undo with
      | none => exact hm
      | some n =>
        -- a second lock on the same array is one of the same version
        by_cases ha : l'.version.arrayId = l.version.arrayId
        · have hl0 : l.version.versionArrayId ≠ 0 := fun h0 => nomatch hzero h0
          refine ⟨n, ?_⟩
          rw [h.version_eq hin'.1 hmem hid hl0 ha]
          exact collect_self ..
        · obtain ⟨n', hn'⟩ := hm
          exact ⟨n', (collect_of_ne _ n ha).trans hn'⟩
  · have hold : r.arraysToRollback a = some (id, n) → ∃ l' ∈ l :: r.examined, l'.version.arrayId = a ∧
        l'.version.versionArrayId = id ∧ id ≠ 0 ∧ n + 1 = l'.version.versionId ∧ l'.version ∉ s.catalog.versions := fun hm =>
      let ⟨l', hl', hrest⟩ := hr.collected a n id hm
      ⟨l', mem_cons_of_mem _ hl', hrest⟩
    cases undo with
    | none => exact hold hm
    | some m =>
      by_cases ha : a = l.version.arrayId
      · subst ha
        obtain ⟨rfl, rfl⟩ := Prod.mk.inj (some.inj ((collect_self r.arraysToRollback l.version m).symm.trans hm))
        have hl0 : l.version.versionArrayId ≠ 0 := fun h0 => nomatch hzero h0
        obtain ⟨hrec, hn⟩ := (hdec hl0).2.2 m rfl
        exact ⟨l, mem_cons_self, rfl, rfl, hl0, hn, hrec⟩
      · exact hold ((collect_of_ne _ m ha).symm.trans hm)

lemma RecoveryOk.step {x : Handler} (hpc : r.pc = .handler x) :
    s.RecoveryOk i { r with pc := .handler (x.step s.catalog) } := by
  have hcover := hr.pc
  rw [hpc] at hcover
  obtain ⟨l0, hin, hx, hall⟩ := hcover
  exact ⟨hr.todo, hr.workerLocks, ⟨l0, hin, HandlerOk.step h hx, hall⟩, hr.examined, hr.collected⟩

end

lemma RecoveryOk.rollbackOk (hr : s.RecoveryOk i r) : s.RollbackOk r.arraysToRollback := by
  intro a n id hm
  obtain ⟨l, hl, ha, rfl, hid, hn, hrec⟩ := hr.collected a n id hm
  obtain ⟨hin, hex⟩ := hr.examined l hl
  exact ⟨l, hin.1, ha, rfl, hid, hn, hrec, (hex hid).1⟩

lemma RecoveryOk.undoes_iff (h : s.Inv) (hr : s.RecoveryOk i r) (hl : l ∈ r.examined) (hid : l.version.versionArrayId ≠ 0) :
    r.arraysToRollback.undoes l.version = true ↔ l.version ∉ s.catalog.versions := by
  obtain ⟨hin, hex⟩ := hr.examined l hl
  rw [RollbackMap.undoes, Option.any_eq_true]
  constructor
  · rintro ⟨⟨id, n⟩, hm, -⟩
    obtain ⟨l', hl', ha, rfl, hid', -, hrec⟩ := hr.collected _ n id hm
    rwa [← h.version_eq (hr.examined l' hl').1.1 hin.1 hid' hid ha]
  · intro hrec
    obtain ⟨n, hm⟩ := (hex hid).2.resolve_left hrec
    exact ⟨_, hm, by simp⟩

lemma Inv.recoverRollback (h : s.Inv) (hn : s.node i = .recovering r) (hpc : r.pc = .next) (htodo : r.todo = []) (hs' : ({ s with
      stored := update s.stored i (rollback r.arraysToRollback (s.stored i))
      decided := r.examined.map (fun l : LockDesc => (l, r.arraysToRollback.undoes l.version)) ++ s.decided }.setNode i
        (.recovering { r with pc := .delete })) = s') : s'.Inv := by
  have hno := h.node i
  rw [hn] at hno
  obtain ⟨hq, hr⟩ := hno
  have hcat : s'.catalog = s.catalog := by rw [← hs']; rfl
  have hass : s'.assigned = s.assigned := by rw [← hs']; rfl
  have hproc : s'.process = s.process := by rw [← hs']; rfl
  have hdecided : s'.decided = r.examined.map (fun l : LockDesc => (l, r.arraysToRollback.undoes l.version)) ++ s.decided := by
    rw [← hs']; rfl
  have hstored : s'.stored i = rollback r.arraysToRollback (s.stored i) := by
    rw [← hs']
    exact update_self ..
  have hstored' : ∀ j, j ≠ i → s'.stored j = s.stored j := by
    intro j hj
    rw [← hs']
    exact update_of_ne hj ..
  have hl : s.Later s' :=
    ⟨fun _ _ hv => by rwa [hass], fun _ _ he => by rwa [hproc], fun _ hv => by rwa [hcat], fun _ _ _ _ hv => by rwa [hcat] at hv,
      fun d hd => by rw [hdecided]; exact mem_append_right _ hd⟩
  have hsame : ∀ u j, s.SameLock s' u j := fun _ _ _ _ _ => by rw [hcat]
  refine h.of_catalog hl hcat hass (by rw [← hs']; rfl) (fun u j => ?_) (fun j => ?_) (fun d hd => ?_) fun j e he => ?_
  · rw [hproc]
    exact (h.process u j).later h hl (hsame u j) fun _ => sameCoord_rfl hcat hass
  · by_cases hj : j = i
    · subst hj
      rw [show s'.node j = .recovering { r with pc := .delete } by rw [← hs']; exact update_self ..]
      have hr' := hr.later h hl fun u => hsame u j
      refine ⟨fun u => by rw [hproc]; exact hq u, hr'.todo, hr'.workerLocks, fun l hin hid => ?_, hr'.examined, hr'.collected⟩
      have hcover := hr.pc
      rw [hpc] at hcover
      have hex := (hcover l ((InRole.same fun u => hsame u j).mp hin)).resolve_left (by rw [htodo]; exact not_mem_nil)
      by_cases hrec : l.version ∈ s.catalog.versions
      · exact .inl (hl.versions _ hrec)
      · refine .inr ?_
        rw [hdecided]
        refine mem_append_left _ (mem_map.mpr ⟨l, hex, ?_⟩)
        rw [(hr.undoes_iff h hex hid).mpr hrec]
    · rw [show s'.node j = s.node j by rw [← hs']; exact update_of_ne hj ..]
      exact (h.node j).later h hl (fun u => by rw [hproc]) fun u => hsame u j
  · rw [hdecided] at hd
    rcases mem_append.mp hd with hd | hd
    · obtain ⟨l, hex, rfl⟩ := mem_map.mp hd
      intro hid
      obtain ⟨hin, hexd⟩ := hr.examined l hex
      have hund := hr.undoes_iff h hex hid
      refine ⟨by rw [hass]; exact h.assigned_of_lock hin.1 hid, fun hb => ?_, fun hb => ?_⟩
      · rw [hcat]
        by_contra hrec
        exact absurd (hund.mpr hrec) (by simpa using hb)
      · have hrec := hund.mp hb
        rw [hcat, hproc]
        refine ⟨hrec, (hexd hid).1, h.ended_of_quiet hin.1 (hin.2.1 ▸ hq _), fun he => ?_⟩
        rw [show l.instanceId = i from hin.2.1, hstored] at he
        obtain ⟨n, hm⟩ := (hexd hid).2.resolve_left hrec
        exact absurd ((mem_rollback.mp he).2 _ n hm).1 (lt_irrefl _)
    · refine (h.decided d hd).later hl fun he _ => ?_
      by_cases hj : d.1.instanceId = i
      · rw [hj] at he ⊢
        rw [hstored] at he
        exact (mem_rollback.mp he).1
      · rwa [hstored' _ hj] at he
  · have he : e ∈ s.written j := by rw [← hs'] at he; exact he
    by_cases hj : j = i
    · subst hj
      obtain ⟨u, v, ha, rfl, hor⟩ := WrittenOk.rollback h hr.rollbackOk (h.written j e he)
      refine ⟨u, v, by rw [hass]; exact ha, rfl, ?_⟩
      rwa [hstored, hcat, hproc]
    · exact (h.written j e he).later hl fun hst => by rwa [hstored' j hj]

lemma Inv.recoverDelete (h : s.Inv) (hn : s.node i = .recovering r) (hpc : r.pc = .delete)
    (hs' : ({ s with catalog := s.catalog.deleteArrayLocks i r.isCoord }.setNode i
      (if r.isCoord then .recovering ⟨false, .next, r.workerLocks, [], .empty, []⟩ else .up)) = s') : s'.Inv := by
  have hno := h.node i
  rw [hn] at hno
  obtain ⟨hq, hr⟩ := hno
  have hset := hr.pc
  rw [hpc] at hset
  have hcat : s'.catalog = s.catalog.deleteArrayLocks i r.isCoord := by rw [← hs']; rfl
  have hass : s'.assigned = s.assigned := by rw [← hs']; rfl
  have hproc : s'.process = s.process := by rw [← hs']; rfl
  have hver : s'.catalog.versions = s.catalog.versions := by rw [hcat]; rfl
  have hmem : ∀ l, l ∈ s'.catalog.locks ↔ l ∈ s.catalog.locks ∧ ¬(l.instanceId = i ∧ l.isCoord = r.isCoord) := by
    intro l
    rw [hcat, Catalog.deleteArrayLocks, mem_filter, decide_eq_true_iff]
  have hl : s.Later s' := by
    refine ⟨fun _ _ hv => by rwa [hass], fun _ _ he => by rwa [hproc], fun _ hv => by rwa [hver],
      fun _ _ _ _ hv => by rwa [hver] at hv, fun d hd => ?_⟩
    rwa [← hs']
  have hsame : ∀ u j, j ≠ i → s.SameLock s' u j := by
    intro u j hj l _ hli
    rw [hmem]
    exact and_iff_left fun hk => hj (hli.symm.trans hk.1)
  have hsub : ∀ u j, s'.HasLock u j → s.HasLock u j := fun u j ⟨l, hlm, hrest⟩ => ⟨l, ((hmem l).mp hlm).1, hrest⟩
  refine h.of_fewer_locks hl hcat hass hmem (fun l hlm hk => hset l ⟨hlm, hk⟩) (by rw [← hs']; rfl) (by rw [← hs']; rfl)
    (by rw [← hs']; rfl) (by rw [← hs']; rfl) (fun u j => ?_) fun j => ?_
  · rw [hproc]
    have hp := h.process u j
    by_cases hj : j = i
    · -- the processes of the instance are not affected
      subst hj
      have hqu := hq u
      generalize s.process u j = p at hp hqu
      cases p with
      | fresh =>
        refine ⟨fun hlock => hp.1 (hsub u j hlock), fun hc => ⟨by rw [hass]; exact (hp.2 hc).1, fun l hlm => ?_⟩⟩
        exact (hp.2 hc).2 l ((hmem l).mp hlm).1
      | committed =>
        intro hc v hv
        rw [hass] at hv
        rw [hver]
        exact hp hc v hv
      | done => trivial
      | locked | lookedUp | requested | executing | recorded | handling | releasing => exact hqu.elim
    · exact hp.later h hl (hsame u j hj) fun _ =>
        SameCoord.of_locks ⟨_, hcat⟩ hass fun hno l hlm => hno l ((hmem l).mp hlm).1
  · by_cases hj : j = i
    · subst hj
      have hnode : s'.node j = if r.isCoord then .recovering ⟨false, .next, r.workerLocks, [], .empty, []⟩ else .up := by
        rw [← hs']
        exact update_self ..
      rw [hnode]
      split_ifs with hc
      · have hin : ∀ l, s'.InRole j false l ↔ s.InRole j false l := by
          intro l
          rw [InRole, hmem, hc]
          refine ⟨fun hk => ⟨hk.1.1, hk.2⟩, fun hk => ⟨⟨hk.1, fun hk' => ?_⟩, hk.2⟩⟩
          rw [hk.2.2] at hk'
          cases hk'.2
        refine ⟨fun u => by rw [hproc]; exact hq u, ⟨fun l hlm => ?_, fun hc => (nomatch hc), fun l hlm => ?_, ?_, ?_⟩⟩
        · exact (hin l).mpr ((hr.workerLocks hc l).mp hlm)
        · exact .inl ((hr.workerLocks hc l).mpr ((hin l).mp hlm))
        · exact fun l hlm => nomatch hlm
        · exact fun a n id hm => nomatch hm
      · trivial
    · rw [show s'.node j = s.node j by rw [← hs']; exact update_of_ne hj ..]
      exact (h.node j).later h hl (fun u => by rw [hproc]) fun u => hsame u j hj

lemma Inv.recover (h : s.Inv) (hs : s.recover i = some s') : s'.Inv := by
  unfold Cluster.recover at hs
  split at hs
  · next r hn =>
    have hno := h.node i
    rw [hn] at hno
    obtain ⟨hq, hr⟩ := hno
    split at hs
    · next l rest hpc htodo =>
      cases hs
      exact h.setNode ⟨hq, hr.next h hq hpc htodo⟩
    · next l undo _ hpc =>
      cases hs
      exact h.setNode ⟨hq, hr.finished h hpc⟩
    · cases hs
    · next x _ _ _ hpc =>
      cases hs
      exact h.setNode ⟨hq, hr.step h hpc⟩
    · next hpc htodo =>
      exact h.recoverRollback hn hpc htodo (some.inj hs)
    · next hpc =>
      exact h.recoverDelete hn hpc (some.inj hs)
  · cases hs

lemma Inv.step (h : s.Inv) {a : UpdateAction} (hs : s.step a = some s') : s'.Inv := by
  cases a with
  | requestLock u => exact h.requestLock hs
  | lookUp u => exact h.lookUp hs
  | updateArrayLock u => exact h.updateArrayLock hs
  | startWorker u i n => exact h.startWorker hs
  | lockArray u i => exact h.lockArray hs
  | store u i => exact h.store hs
  | record u => exact h.record hs
  | commitWorker u i => exact h.commitWorker hs
  | abort u i => exact h.abort hs
  | handle u i => exact h.handle hs
  | release u i => exact h.release hs
  | crash i =>
    cases hs
    exact h.crash
  | restart i => exact h.restart hs
  | recover i => exact h.recover hs

end Steps

section Runs

variable {s s' : Cluster} {d : LockDesc × Bool}

lemma decided_mono {a : UpdateAction} (hs : s.step a = some s') (hd : d ∈ s.decided) : d ∈ s'.decided := by
  cases a <;> simp only [step, requestLock, lookUp, updateArrayLock, startWorker, lockArray, store, record, commitWorker, abort,
    handle, release, restart, recover] at hs
  all_goals (repeat' split at hs)
  all_goals first
    | (obtain ⟨_, _, rfl⟩ := map_eq_some_iff.mp hs; exact hd)
    | cases hs
  all_goals first
    | exact hd
    | exact mem_cons_of_mem _ hd
    | exact mem_append_right _ hd

lemma decided_mono_reaches {ok : Cluster → UpdateAction → Prop} (h : Reaches step ok s s')
    (hd : d ∈ s.decided) : d ∈ s'.decided :=
  h.invariant (I := fun t => d ∈ t.decided) hd fun _ _ _ hd _ hs => decided_mono hs hd

section Progress

variable {u : Update} {i : ℕ} {x : Handler} {undo : Option ℕ}

lemma iterate_failed (c : Catalog) (k : ℕ) : (Handler.step c)^[k] .failed = .failed := iterate_fixed rfl k

lemma running_handling (hup : s.node i = .up) (hpr : s.process u i = .handling x) : s.running u i = some (.handling x) := by
  rw [running, hup, hpr]

lemma handle_finished {l : LockDesc} (hup : s.node i = .up) (hpr : s.process u i = .handling (.finished l undo)) :
    ∃ s', runActions step s (replicate 1 (.handle u i)) = some s' ∧ s'.process u i = .releasing := by
  simp only [replicate, runActions, step, handle, running_handling hup hpr]
  exact ⟨_, rfl, setProcess_self ..⟩

lemma handle_ends {k : ℕ} {l : LockDesc} (hup : s.node i = .up) (hpr : s.process u i = .handling x)
    (hk : (Handler.step s.catalog)^[k] x = .finished l undo) :
    ∃ n ≤ k + 1, ∃ s', runActions step s (replicate n (.handle u i)) = some s' ∧ s'.process u i = .releasing := by
  induction k generalizing s x with
  | zero =>
    obtain rfl : x = .finished l undo := hk
    exact ⟨1, le_refl 1, handle_finished hup hpr⟩
  | succ k ih =>
    have hgo : s.step (.handle u i) = some (s.setProcess u i (.handling (x.step s.catalog))) →
        ∃ n ≤ k + 1 + 1, ∃ s', runActions step s (replicate n (.handle u i)) = some s' ∧ s'.process u i = .releasing := by
      intro hstep
      obtain ⟨n, hn, s', hs', hrel⟩ := ih (s := s.setProcess u i (.handling (x.step s.catalog))) hup (setProcess_self ..) hk
      refine ⟨n + 1, Nat.succ_le_succ hn, s', ?_, hrel⟩
      rwa [replicate_succ, runActions, hstep]
    cases x with
    | finished l' undo' => exact ⟨1, Nat.le_add_left 1 _, handle_finished hup hpr⟩
    | failed =>
      rw [iterate_failed] at hk
      cases hk
    | checkCoord l' | readCoord l' | waitCoord l' | readWorker l' =>
      exact hgo (by simp only [step, handle, running_handling hup hpr])

lemma HandlerOk.decides (h : s.Inv) (hx : s.HandlerOk u i x)
    (hwait : ∀ l, x = .waitCoord l → s.catalog.checkForCoordinatorLock l.update = none) :
    ∃ k ≤ 2, ∃ l undo, (Handler.step s.catalog)^[k] x = .finished l undo := by
  have hread : ∀ l, ∃ undo, (Handler.readCoord l).step s.catalog = .finished l undo := by
    intro l
    by_cases hlast : s.catalog.getLastVersion l.version.arrayId = l.version.versionId
    · exact ⟨_, if_pos hlast⟩
    · exact ⟨_, if_neg hlast⟩
  have hread' : ∀ l, ∃ undo, (Handler.readWorker l).step s.catalog = .finished l undo := by
    intro l
    by_cases hlast : s.catalog.getLastVersion l.version.arrayId < l.version.versionId ∧ 0 < l.version.versionArrayId
    · exact ⟨_, if_pos hlast⟩
    · exact ⟨_, if_neg hlast⟩
  cases x with
  | finished l undo => exact ⟨0, Nat.zero_le 2, l, undo, rfl⟩
  | failed => exact hx.elim
  | readCoord l => exact ⟨1, Nat.le_succ 1, l, hread l⟩
  | readWorker l => exact ⟨1, Nat.le_succ 1, l, hread' l⟩
  | waitCoord l =>
    refine ⟨2, le_refl 2, l, ?_⟩
    have hstep : (Handler.waitCoord l).step s.catalog = .readWorker l := by
      rw [Handler.step, hwait l rfl]
      rfl
    rw [iterate_succ_apply, hstep]
    exact hread' l
  | checkCoord l =>
    have hstep := HandlerOk.step h hx
    generalize hy : (Handler.checkCoord l).step s.catalog = y at hstep
    have hcases : (∃ l' undo, y = .finished l' undo) ∨ (∃ l', y = .readCoord l') ∨ y = .failed := by
      rw [← hy, Handler.step]
      split
      · exact .inl ⟨_, _, rfl⟩
      · split_ifs
        exacts [.inl ⟨_, _, rfl⟩, .inl ⟨_, _, rfl⟩, .inr (.inr rfl), .inr (.inl ⟨_, rfl⟩)]
    rcases hcases with ⟨l', undo, rfl⟩ | ⟨l', rfl⟩ | rfl
    · exact ⟨1, Nat.le_succ 1, l', undo, hy⟩
    · refine ⟨2, le_refl 2, l', ?_⟩
      rw [iterate_succ_apply, hy]
      exact hread l'
    · exact hstep.elim

lemma recover_isSome (h : s.Inv) {r : Recovery} (hn : s.node i = .recovering r) : (s.recover i).isSome := by
  have hno := h.node i
  rw [hn] at hno
  have hpc := hno.2.pc
  unfold recover
  rw [hn]
  dsimp only
  split
  case h_3 h3 =>
    rw [h3] at hpc
    obtain ⟨-, -, ⟨⟩, -⟩ := hpc
  all_goals rfl

end Progress

lemma inv_of_reaches (h : Reaches step (fun _ _ => True) init s) : s.Inv :=
  h.invariant inv_init fun _ _ _ hi _ hs => hi.step hs

/-- **A new version is made on all instances or on none.** An instance whose lock is gone has rolled back exactly when the
version is not recorded; what is stored for a recorded one is there; handlers and recovery come to an end. -/
theorem versions_allOrNothing (h : Reaches step (fun _ _ => True) init s) :
    (∀ l ∈ s.held, l ∉ s.catalog.locks → ((l, true) ∈ s.decided ↔ l.version ∉ s.catalog.versions)) ∧
    (∀ s', Reaches step (fun _ _ => True) s s' → ∀ l b, (l, b) ∈ s.decided → l.version.versionArrayId ≠ 0 →
      (b = true ↔ l.version ∉ s'.catalog.versions) ∧
        (b = true → (l.version.arrayId, l.version.versionArrayId) ∉ s'.stored l.instanceId)) ∧
    (∀ i, ∀ v ∈ s.catalog.versions, (v.arrayId, v.versionArrayId) ∈ s.written i → (v.arrayId, v.versionArrayId) ∈ s.stored i) ∧
    (∀ u i x, s.node i = .up → s.process u i = .handling x →
      (∀ l, x = .waitCoord l → s.catalog.checkForCoordinatorLock l.update = none) →
      ∃ n ≤ 3, ∃ s', runActions step s (List.replicate n (.handle u i)) = some s' ∧ s'.process u i = .releasing) ∧
    ∀ i r, s.node i = .recovering r → (s.recover i).isSome := by
  have hinv := inv_of_reaches h
  refine ⟨fun l hl hgone => ⟨fun hd => ?_, fun hrec => ?_⟩, fun s' hs' l b hd hid => ?_, fun i v hv he => ?_,
    fun u i x hup hpr hwait => ?_, fun i r hn => recover_isSome hinv hn⟩
  · exact ((hinv.decided _ hd (hinv.held l hl).1).2.2 rfl).1
  · exact ((hinv.held l hl).2.resolve_left hgone).resolve_left hrec
  · have hinv' : s'.Inv := hs'.invariant hinv fun _ _ _ hi _ hs => hi.step hs
    obtain ⟨-, hfalse, htrue⟩ := hinv'.decided _ (decided_mono_reaches hs' hd) hid
    refine ⟨⟨fun hb => (htrue hb).1, fun hrec => ?_⟩, fun hb => (htrue hb).2.2.2⟩
    by_contra hb
    exact hrec (hfalse (Bool.not_eq_true _ ▸ hb))
  · obtain ⟨u, w, ha, heq, hor⟩ := hinv.written i _ he
    refine hor.resolve_right fun ⟨hno, _⟩ => hno ?_
    obtain ⟨u', ha'⟩ := hinv.ids.versions v hv
    obtain rfl := hinv.ids.injective _ _ _ _ ha ha' (Prod.mk.inj heq).2.symm
    rw [some.inj (ha.symm.trans ha')]
    exact hv
  · have hx := hinv.process u i
    rw [hpr] at hx
    obtain ⟨k, hk, l, undo, hfin⟩ := HandlerOk.decides hinv hx hwait
    obtain ⟨n, hn, s', hs', hrel⟩ := handle_ends hup hpr hfin
    exact ⟨n, by omega, s', hs', hrel⟩

def exampleUpdate : Update := ⟨"A", ⟨0, 7⟩⟩

def crashRun : List UpdateAction :=
  [.requestLock exampleUpdate, .lookUp exampleUpdate, .updateArrayLock exampleUpdate, .startWorker exampleUpdate 1 1,
    .lockArray exampleUpdate 1, .store exampleUpdate 1, .store exampleUpdate 0, .abort exampleUpdate 1, .crash 0,
    .handle exampleUpdate 1, .restart 0, .recover 0, .recover 0, .recover 0, .recover 0, .recover 0, .recover 0,
    .handle exampleUpdate 1, .handle exampleUpdate 1, .handle exampleUpdate 1, .release exampleUpdate 1]

theorem crashRun_rollsBack : ∃ s, runActions step init crashRun = some s ∧ s.decided.map Prod.snd = [true, true] ∧
      ∀ l ∈ s.held, l ∉ s.catalog.locks → ((l, true) ∈ s.decided ↔ l.version ∉ s.catalog.versions) := by
  have hrun : (runActions step init crashRun).map (fun s => s.decided.map Prod.snd) = some [true, true] := by decide +kernel
  obtain ⟨s, hs, hdecided⟩ := map_eq_some_iff.mp hrun
  exact ⟨s, hs, hdecided, (versions_allOrNothing (Reaches.start.run (fun _ _ _ => trivial) hs)).1⟩

lemma versions_step {a : UpdateAction} (hs : s.step a = some s') : s'.catalog.versions = s.catalog.versions ∨ ∃ u l,
    s.running u u.coordinator = some (.executing l) ∧ s'.catalog.versions = l.version :: s.catalog.versions := by
  cases a <;> simp only [step, requestLock, Catalog.lockCoordinator, lookUp, updateArrayLock, startWorker, lockArray,
    Catalog.lockWorker, store, record, commitWorker, abort, handle, release, restart, recover] at hs
  all_goals (repeat' split at hs)
  all_goals first
    | (obtain ⟨_, ⟨⟩, rfl⟩ := map_eq_some_iff.mp hs; exact .inl rfl)
    | (obtain ⟨_, hl, rfl⟩ := map_eq_some_iff.mp hs
       first | exact .inl rfl | (obtain ⟨_, _, rfl⟩ := map_eq_some_iff.mp hl; exact .inl rfl))
    | cases hs
  all_goals first | exact .inl rfl | exact .inr ⟨_, _, ‹_›, rfl⟩

/-- The versions of an array are numbered from 1 without a gap, newest first; a later version has the larger id. -/
def Numbered (s : Cluster) (id : ℕ) : Prop :=
  let versions := s.catalog.versions.filter (·.arrayId = id)
  versions.map ArrayVersion.versionId = (range' 1 (s.catalog.getLastVersion id)).reverse ∧
    versions.Pairwise fun v w => w.versionArrayId < v.versionArrayId

lemma Numbered.step {a : UpdateAction} {id : ℕ} (h : s.Numbered id) (hinv : s.Inv) (hs : s.step a = some s') :
    s'.Numbered id := by
  obtain ⟨hids, harrays⟩ := h
  rcases versions_step hs with heq | ⟨u, l, hrun, heq⟩
  · rw [Numbered, Catalog.getLastVersion, heq]
    exact ⟨hids, harrays⟩
  -- the coordinator records the version it was assigned, which follows the recorded ones
  obtain ⟨-, -, hl, rfl, -, hcoord⟩ := hinv.running hrun
  obtain ⟨hassigned, hnew⟩ := hcoord rfl
  have hf := hinv.follows l hl _ hassigned
  rw [Numbered, heq]
  by_cases hid : l.version.arrayId = id
  · subst hid
    have hlast := hf.lastVersion_unrecorded hnew
    have hlast' : s'.catalog.getLastVersion l.version.arrayId = s.catalog.getLastVersion l.version.arrayId + 1 := by
      rw [hlast, Catalog.getLastVersion, heq, filter_cons_of_pos (by simp)]
      exact Nat.max_eq_left (hlast ▸ Nat.le_succ _)
    rw [hlast', range'_1_concat, reverse_concat, ← hids, filter_cons_of_pos (by simp), map_cons, ← hlast, add_comm 1]
    refine ⟨rfl, pairwise_cons.mpr ⟨fun w hw => ?_, harrays⟩⟩
    obtain ⟨hw, hwid⟩ := mem_filter.mp hw
    exact (hf.later w hw (of_decide_eq_true hwid) fun heq => hnew (heq ▸ hw)).1
  · rw [Catalog.getLastVersion, heq, filter_cons_of_neg (by simpa using hid)]
    exact ⟨hids, harrays⟩

/-- **The recorded versions of an array are numbered without a gap**, whatever fails on the way. -/
theorem versions_numbered (h : Reaches step (fun _ _ => True) init s) (id : ℕ) : s.Numbered id :=
  (h.invariant (I := fun s => s.Inv ∧ s.Numbered id) ⟨inv_init, rfl, .nil⟩ fun _ _ _ hi _ hs =>
    ⟨hi.1.step hs, hi.2.step hi.1 hs⟩).2

def recordedTwice : List UpdateAction := [exampleUpdate, ⟨"A", ⟨1, 8⟩⟩].flatMap fun u =>
  [.requestLock u, .lookUp u, .updateArrayLock u, .record u, .release u u.coordinator]

theorem recordedTwice_numbered : ∃ s, runActions step init recordedTwice = some s ∧
    (s.catalog.versions.filter (·.arrayId = 1)).map ArrayVersion.versionId = [2, 1] := by
  have hrun : (runActions step init recordedTwice).map (·.catalog.getLastVersion 1) = some 2 := by decide +kernel
  obtain ⟨s, hs, hlast⟩ := map_eq_some_iff.mp hrun
  exact ⟨s, hs, by rw [(versions_numbered (Reaches.start.run (fun _ _ _ => trivial) hs) 1).1, hlast]; rfl⟩

/-- **No update is lost**: one update of an array executes at a time, and its coordinator makes the version after the last. -/
theorem executing_exclusive (h : Reaches step (fun _ _ => True) init s) {u u' : Update} {i j : ℕ} {l l' : LockDesc}
    (hl : s.process u i = .executing l) (hl' : s.process u' j = .executing l') (hname : u.arrayName = u'.arrayName) :
    u = u' ∧ (i = u.coordinator → s.catalog.getLastVersion l.version.arrayId + 1 = l.version.versionId) := by
  have hinv := inv_of_reaches h
  have hp := hinv.process u i
  have hp' := hinv.process u' j
  rw [hl] at hp
  rw [hl'] at hp'
  obtain ⟨hmem, rfl, -, hcoord⟩ := hp
  obtain ⟨hmem', rfl, -⟩ := hp'
  refine ⟨hinv.exclusive l hmem l' hmem' hname, fun hi => ?_⟩
  obtain ⟨hassigned, hnew⟩ := hcoord hi
  exact (hinv.follows l hmem _ hassigned).lastVersion_unrecorded hnew

theorem crashRun_executing : ∃ s l l', (runActions step init (crashRun.take 5) = some s ∧
    s.process exampleUpdate 0 = .executing l ∧ s.process exampleUpdate 1 = .executing l') ∧
    s.catalog.getLastVersion l.version.arrayId + 1 = l.version.versionId := by
  refine ⟨_, _, _, ⟨rfl, rfl, rfl⟩, ?_⟩
  have h := @executing_exclusive _ (Reaches.start.run (fun _ _ _ => trivial) (rfl : runActions step init (crashRun.take 5) = _))
  exact (@h exampleUpdate exampleUpdate 0 1 _ _ rfl rfl rfl).2 rfl

end Runs

end Cluster

end SciDB.Query
