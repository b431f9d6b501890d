import SciDB.Lib.Runs
import SciDB.Lib.Sums

/-!
# The memory of the storage cache

`_cacheUsed` of `CachedStorage`. A `Stage` is where a thread is in a call on a chunk. An action is a section under the mutex,
or a part of `fetchChunk` between two; a wait may end at any time. `owed` is by how much a thread puts `_cacheUsed` out of
step. Of the data it only matters if they are there.
-/

namespace SciDB.Smgr

open SciDB.Lib List Function Option Finset

/-- A `PersistentChunk`. -/
structure CachedChunk where
  data : Bool
  stored : Bool
  raw : Bool
  waiting : Bool
  size : BitVec 64
  deriving DecidableEq

/-- What a chunk should count. -/
def CachedChunk.counted (x : CachedChunk) : BitVec 64 := if x.data && x.stored then x.size else 0

/-- Where a thread is in a call. -/
inductive Stage where
  | calling
  | waiting
  | loadRoom
  | checking (mine : Bool)
  | fetching
  | leaving
  | writing
  | cleaning
  | writeRoom
  deriving DecidableEq

/-- The cache and its threads. -/
structure StorageCache (C T : Type) where
  cacheUsed : BitVec 64
  cacheSize : BitVec 64
  strictCacheLimit : Bool
  lru : List C
  live : Finset C
  chunk : C → CachedChunk
  accessCount : C → ℕ
  pc : T → Option (C × Stage)
  pins : T → C → ℕ

namespace StorageCache

variable {C T : Type} [DecidableEq C] [DecidableEq T]

/-- An empty cache. -/
def start (cacheSize : BitVec 64) (strict : Bool) : StorageCache C T :=
  ⟨0, cacheSize, strict, [], ∅, fun _ => ⟨false, false, false, false, 0⟩, fun _ => 0, fun _ => none, fun _ _ => 0⟩

variable (t : T)

/-- A chunk and a thread change. -/
def move (p : Option (C × Stage)) (c : C) (x : CachedChunk) (s : StorageCache C T) : StorageCache C T :=
  { s with chunk := Function.update s.chunk c x, pc := Function.update s.pc t p }

def internalFreeChunk (victim : C) (s : StorageCache C T) : StorageCache C T :=
  { s with
    cacheUsed := s.cacheUsed - (s.chunk victim).counted
    lru := s.lru.erase victim
    chunk := Function.update s.chunk victim { s.chunk victim with data := false } }

variable (c : C)

variable (s : StorageCache C T)

def isOver : Bool := s.cacheSize < s.cacheUsed + (s.chunk c).size

def makeRoom (c : C) : List C → StorageCache C T → StorageCache C T
  | [], s => s
  | victim :: lru, s => if s.isOver c then makeRoom c lru (s.internalFreeChunk victim) else s

def addChunkToCache (done : Option (C × Stage)) (s : StorageCache C T) : StorageCache C T :=
  let s := makeRoom c s.lru s
  if s.isOver c && s.lru.isEmpty && s.strictCacheLimit && s.cacheUsed != 0 then s
  else { s with cacheUsed := s.cacheUsed + (s.chunk c).size, pc := Function.update s.pc t done }

def wakeInAdd (done : Option (C × Stage)) (s : StorageCache C T) : StorageCache C T :=
  match s.lru with
  | [] => addChunkToCache t c done s
  | victim :: _ => addChunkToCache t c done (s.internalFreeChunk victim)

def pinChunk : StorageCache C T :=
  { s with
    accessCount := Function.update s.accessCount c (s.accessCount c + 1)
    lru := if s.accessCount c = 0 then s.lru.erase c else s.lru
    pins := Function.update s.pins t (Function.update (s.pins t) c (s.pins t c + 1)) }

/-- An access ends. -/
def dropPin : StorageCache C T :=
  { s with
    accessCount := Function.update s.accessCount c (s.accessCount c - 1)
    pins := Function.update s.pins t (Function.update (s.pins t) c (s.pins t c - 1)) }

def unpinChunk : StorageCache C T :=
  { s.dropPin t c with lru := if s.accessCount c = 1 then s.lru ++ [c] else s.lru }

/-- `loadChunk` up to a wait. -/
def enter : StorageCache C T :=
  if (s.chunk c).raw then s.move t (some (c, .waiting)) c { s.chunk c with waiting := true }
  else if (s.chunk c).data then s.move t (some (c, .checking false)) c (s.chunk c)
  else
    (s.move t (some (c, .loadRoom)) c { s.chunk c with raw := true }).addChunkToCache t c (some (c, .checking true))

def wake : StorageCache C T :=
  if (s.chunk c).raw then s.move t (some (c, .waiting)) c { s.chunk c with waiting := true }
  else if (s.chunk c).data then s.move t (some (c, .checking false)) c (s.chunk c)
  else s.move t (some (c, .checking true)) c { s.chunk c with raw := true }

/-- `notifyChunkReady`. -/
def ready (x : CachedChunk) : CachedChunk := { x with raw := false, waiting := false }

def writeSection (kept : Bool) (s : StorageCache C T) : StorageCache C T :=
  if kept then
    ((s.move t (some (c, .writeRoom)) c (ready { s.chunk c with stored := true })).unpinChunk t c).addChunkToCache t c none
  else s.move t (some (c, .cleaning)) c { s.chunk c with stored := true }

def cleanChunk : StorageCache C T :=
  (s.move t none c (ready { s.chunk c with data := false })).dropPin t c

end StorageCache

/-- What happens. -/
inductive StorageAction (C T : Type) where
  | create (c : C)
  | openStored (c : C) (size : BitVec 64)
  | destroy (c : C)
  | pin (t : T) (c : C)
  | unpin (t : T) (c : C)
  | fill (t : T) (c : C) (size : BitVec 64)
  | getData (t : T) (c : C)
  | enter (t : T)
  | wake (t : T)
  | cancel (t : T)
  | wakeInAdd (t : T)
  | check (t : T)
  | allocateFails (t : T)
  /-- `allocate` in `fetchChunk`; the rest of it may fail. -/
  | allocate (t : T)
  | ready (t : T)
  | write (t : T) (c : C)
  | writeFails (t : T)
  | writeSection (t : T) (kept : Bool)
  | clean (t : T)

namespace StorageCache

variable {C T : Type} [DecidableEq C] [DecidableEq T] [Fintype T]

/-- What an action does. -/
def step (s : StorageCache C T) : StorageAction C T → Option (StorageCache C T)
  | .create c =>
    if c ∉ s.live then
      some { s with live := insert c s.live, chunk := Function.update s.chunk c ⟨false, false, true, false, 0⟩ }
    else none
  | .openStored c size =>
    if c ∉ s.live then
      some { s with live := insert c s.live, chunk := Function.update s.chunk c ⟨false, true, false, false, size⟩ }
    else none
  | .destroy c =>
    if c ∈ s.live ∧ s.accessCount c = 0 ∧ ∀ t, (s.pc t).map Prod.fst ≠ some c then
      some { s.internalFreeChunk c with live := s.live.erase c }
    else none
  | .pin t c => if c ∈ s.live ∧ s.pc t = none then some (s.pinChunk t c) else none
  | .unpin t c => if 0 < s.pins t c ∧ s.pc t = none then some (s.unpinChunk t c) else none
  | .fill t c size =>
    if 0 < s.pins t c ∧ s.pc t = none ∧ (s.chunk c).stored = false then
      some (s.move t none c { s.chunk c with data := true, size := size })
    else none
  | .getData t c =>
    if 0 < s.pins t c ∧ s.pc t = none ∧ (s.chunk c).stored = true then
      some (s.move t (some (c, .calling)) c (s.chunk c))
    else none
  | .enter t =>
    match s.pc t with
    | some (c, .calling) => some (s.enter t c)
    | _ => none
  | .wake t =>
    match s.pc t with
    | some (c, .waiting) => some (s.wake t c)
    | _ => none
  | .cancel t =>
    match s.pc t with
    | some (c, .waiting) => some (s.move t none c (s.chunk c))
    | _ => none
  | .wakeInAdd t =>
    match s.pc t with
    | some (c, .loadRoom) => some (s.wakeInAdd t c (some (c, .checking true)))
    | some (c, .writeRoom) => some (s.wakeInAdd t c none)
    | _ => none
  | .check t =>
    match s.pc t with
    | some (c, .checking _) => some (s.move t (if (s.chunk c).raw then some (c, .fetching) else none) c (s.chunk c))
    | _ => none
  | .allocateFails t =>
    match s.pc t with
    | some (c, .fetching) => some (s.move t (some (c, .leaving)) c (s.chunk c))
    | _ => none
  | .allocate t =>
    match s.pc t with
    | some (c, .fetching) => some (s.move t (some (c, .leaving)) c { s.chunk c with data := true })
    | _ => none
  | .ready t =>
    match s.pc t with
    | some (c, .leaving) => some (s.move t none c (ready (s.chunk c)))
    | _ => none
  | .write t c =>
    if 0 < s.pins t c ∧ s.pc t = none ∧ (s.chunk c).stored = false ∧ (s.chunk c).raw = true ∧
        (s.chunk c).data = true ∧ ∀ u, s.pc u ≠ some (c, .writing) ∧ s.pc u ≠ some (c, .cleaning) then
      some (s.move t (some (c, .writing)) c (s.chunk c))
    else none
  | .writeFails t =>
    match s.pc t with
    | some (c, .writing) => some (s.move t (some (c, .cleaning)) c (s.chunk c))
    | _ => none
  | .writeSection t kept =>
    match s.pc t with
    | some (c, .writing) => some (s.writeSection t c kept)
    | _ => none
  | .clean t =>
    match s.pc t with
    | some (c, .cleaning) => some (s.cleanChunk t c)
    | _ => none

end StorageCache

/-- A chunk at a stage of a call. -/
def Stage.Ok (x : CachedChunk) : Stage → Prop
  | .calling | .writeRoom => x.stored = true
  | .waiting => x.stored = true ∧ (x.raw = true ∨ x.data = true)
  | .loadRoom | .checking true | .fetching => x.stored = true ∧ x.raw = true ∧ x.data = false
  | .checking false => x.stored = true ∧ x.raw = false ∧ x.data = true
  | .leaving => x.stored = true ∧ x.raw = true ∧ x.data = true
  | .writing => x.stored = false ∧ x.raw = true ∧ x.data = true
  | .cleaning => x.raw = true ∧ (x.stored = true → x.data = true)

/-- The chunk is raw for it. -/
def Stage.owns : Stage → Bool
  | .loadRoom | .checking true | .fetching | .leaving | .writing | .cleaning => true
  | .calling | .waiting | .checking false | .writeRoom => false

lemma Stage.Ok.raw {x : CachedChunk} {st : Stage} (h : st.Ok x) (hst : st.owns = true) : x.raw = true := by
  cases st with
  | checking mine => cases mine <;> simp_all [Stage.Ok, Stage.owns]
  | _ => simp_all [Stage.Ok, Stage.owns]

/-- By how much `_cacheUsed` is too large because a thread is at a stage of a call on a chunk. -/
def Stage.owed (x : CachedChunk) : Stage → BitVec 64
  | .checking true | .fetching => x.size
  | .cleaning => if x.stored then -x.size else 0
  | .writeRoom => -x.size
  | _ => 0

/-- A chunk is being added. -/
def Stage.Adding : Stage → Prop
  | .loadRoom | .checking true | .fetching | .leaving | .writeRoom => True
  | _ => False

/-- What a call owes. -/
def owedOf {C : Type} (x : CachedChunk) : Option (C × Stage) → BitVec 64
  | none => 0
  | some (_, st) => st.owed x

namespace StorageCache

variable {C T : Type} [DecidableEq C] [DecidableEq T] [Fintype T] {s : StorageCache C T} {t u : T} {c d : C}
  {p : Option (C × Stage)} {x : CachedChunk} {used : BitVec 64} {st : Stage}

/-- What a thread owes. -/
def owed (s : StorageCache C T) (t : T) : BitVec 64 :=
  match s.pc t with
  | none => 0
  | some (c, st) => st.owed (s.chunk c)

/-- What `_cacheUsed` should be. -/
def memInUse (s : StorageCache C T) : BitVec 64 := ∑ c ∈ s.live, (s.chunk c).counted

/-- Pins are counted. -/
structure Pinned (s : StorageCache C T) : Prop where
  count : ∀ c, s.accessCount c = ∑ t, s.pins t c
  gone : ∀ c, c ∉ s.live → s.accessCount c = 0
  lru : ∀ c ∈ s.lru, c ∈ s.live ∧ s.accessCount c = 0
  nodup : s.lru.Nodup
  pins : ∀ t c st, s.pc t = some (c, st) → st ≠ .writeRoom → 0 < s.pins t c

structure InCalls (live : Finset C) (chunk : C → CachedChunk) (pc : T → Option (C × Stage)) : Prop where
  mem : ∀ t c st, pc t = some (c, st) → c ∈ live
  ok : ∀ t c st, pc t = some (c, st) → st.Ok (chunk c)
  alone : ∀ t u c st st', pc t = some (c, st) → pc u = some (c, st') → st.owns = true → st'.owns = true → t = u

structure Inv (s : StorageCache C T) : Prop where
  pinned : s.Pinned
  calls : InCalls s.live s.chunk s.pc
  /-- `_cacheUsed` is what it should be, and what the threads owe. -/
  balance : s.cacheUsed = s.memInUse + ∑ t, s.owed t

omit [DecidableEq C] [DecidableEq T] in
lemma Pinned.pos (h : s.Pinned) (ht : 0 < s.pins t c) : 0 < s.accessCount c := by
  rw [h.count]
  exact ht.trans_le (single_le_sum (f := fun u => s.pins u c) (fun _ _ => Nat.zero_le _) (mem_univ t))

omit [DecidableEq C] [DecidableEq T] in
lemma Pinned.mem_live (h : s.Pinned) (ht : 0 < s.pins t c) : c ∈ s.live := by
  by_contra hc
  have := h.gone c hc
  have := h.pos ht
  omega

omit [DecidableEq T] [Fintype T] in
lemma memInUse_update (hc : c ∈ s.live) :
    ({ s with chunk := update s.chunk c x } : StorageCache C T).memInUse + (s.chunk c).counted =
      s.memInUse + x.counted := by
  have hsum := sum_exchange hc (fun d => (s.chunk d).counted) x.counted
  have hcounted : (fun d => (update s.chunk c x d).counted) =
      update (fun d => (s.chunk d).counted) c x.counted := by
    funext d
    by_cases hdc : d = c
    · subst hdc
      simp
    · simp [hdc]
  simp only [memInUse]
  rwa [hcounted]

omit [Fintype T] in
lemma InCalls.move {live : Finset C} {chunk : C → CachedChunk} {pc : T → Option (C × Stage)}
    (h : InCalls live chunk pc) (hc : c ∈ live) (hp : ∀ d st, p = some (d, st) → d = c ∧ st.Ok x)
    (hothers : ∀ u st, u ≠ t → pc u = some (c, st) → st.Ok x)
    (halone : ∀ st, p = some (c, st) → st.owns = true → ∀ u st', u ≠ t → pc u = some (c, st') → st'.owns = false) :
    InCalls live (update chunk c x) (update pc t p) := by
  refine ⟨fun u d st hu => ?_, fun u d st hu => ?_, fun u v d st st' hu hv hst hst' => ?_⟩
  · by_cases hut : u = t
    · rw [hut, update_self] at hu
      exact (hp d st hu).1 ▸ hc
    · rw [update_of_ne hut] at hu
      exact h.mem u d st hu
  · by_cases hut : u = t
    · rw [hut, update_self] at hu
      obtain ⟨rfl, hok⟩ := hp d st hu
      rwa [update_self]
    · rw [update_of_ne hut] at hu
      by_cases hdc : d = c
      · subst hdc
        rw [update_self]
        exact hothers u st hut hu
      · rw [update_of_ne hdc]
        exact h.ok u d st hu
  · by_cases hut : u = t <;> by_cases hvt : v = t
    · rw [hut, hvt]
    · subst hut
      rw [update_self] at hu
      rw [update_of_ne hvt] at hv
      obtain ⟨rfl, -⟩ := hp d st hu
      simp [halone st hu hst v st' hvt hv] at hst'
    · subst hvt
      rw [update_self] at hv
      rw [update_of_ne hut] at hu
      obtain ⟨rfl, -⟩ := hp d st' hv
      simp [halone st' hv hst' u st hut hu] at hst
    · rw [update_of_ne hut] at hu
      rw [update_of_ne hvt] at hv
      exact h.alone u v d st st' hu hv hst hst'

omit [Fintype T] in
lemma owed_move (hp : ∀ d st, p = some (d, st) → d = c)
    (hothers : ∀ u st, u ≠ t → s.pc u = some (c, st) → st.owed x = st.owed (s.chunk c)) :
    (s.move t p c x).owed = update s.owed t (owedOf x p) := by
  funext u
  by_cases hut : u = t
  · subst hut
    rw [update_self]
    cases p with
    | none => simp [owed, move, owedOf]
    | some q =>
      obtain ⟨d, st⟩ := q
      simp [owed, move, owedOf, hp d st rfl]
  · rw [update_of_ne hut]
    cases hu : s.pc u with
    | none => simp [owed, move, hut, hu]
    | some q =>
      obtain ⟨d, st⟩ := q
      by_cases hdc : d = c
      · subst hdc
        simpa [owed, move, hut, hu] using hothers u st hut hu
      · simp [owed, move, hut, hu, hdc]

lemma Inv.move (h : s.Inv) (hc : c ∈ s.live)
    (hp : ∀ d st, p = some (d, st) → d = c ∧ st.Ok x ∧ (st ≠ .writeRoom → 0 < s.pins t c))
    (ht : ∀ d st, s.pc t = some (d, st) → d = c)
    (hothers : ∀ u st, u ≠ t → s.pc u = some (c, st) → st.Ok x ∧ st.owed x = st.owed (s.chunk c))
    (halone : ∀ st, p = some (c, st) → st.owns = true → ∀ u st', u ≠ t → s.pc u = some (c, st') → st'.owns = false)
    (hused : used + (s.chunk c).counted + owedOf (s.chunk c) (s.pc t) = s.cacheUsed + x.counted + owedOf x p) :
    ({ s.move t p c x with cacheUsed := used } : StorageCache C T).Inv := by
  refine ⟨⟨h.pinned.count, h.pinned.gone, h.pinned.lru, h.pinned.nodup, fun u d st hu hst => ?_⟩,
    h.calls.move hc (fun d st hd => ⟨(hp d st hd).1, (hp d st hd).2.1⟩) (fun u st hut hu => (hothers u st hut hu).1) halone, ?_⟩
  · by_cases hut : u = t
    · subst hut
      simp only [StorageCache.move, update_self] at hu
      obtain ⟨rfl, -, hpins⟩ := hp d st hu
      exact hpins hst
    · simp only [StorageCache.move, update_of_ne hut] at hu
      exact h.pinned.pins u d st hu hst
  · have howed := owed_move (fun d st hd => (hp d st hd).1) fun u st hut hu => (hothers u st hut hu).2
    have hself : s.owed t = owedOf (s.chunk c) (s.pc t) := by
      rw [owed]
      cases hpc : s.pc t with
      | none => rfl
      | some q =>
        obtain ⟨d, st⟩ := q
        rw [ht d st hpc]
        rfl
    have hthreads := sum_exchange (mem_univ t) s.owed (owedOf x p)
    rw [← howed, hself] at hthreads
    have hchunks := memInUse_update hc (s := s) (x := x)
    have hbalance := h.balance
    show used = (s.move t p c x).memInUse + ∑ u, (s.move t p c x).owed u
    apply add_right_cancel (b := (s.chunk c).counted + owedOf (s.chunk c) (s.pc t))
    calc used + ((s.chunk c).counted + owedOf (s.chunk c) (s.pc t))
        = s.memInUse + ∑ u, s.owed u + x.counted + owedOf x p := by rw [← add_assoc, hused, hbalance]
      _ = (s.memInUse + x.counted) + (∑ u, s.owed u + owedOf x p) := by abel
      _ = ((s.move t p c x).memInUse + (s.chunk c).counted) +
          (∑ u, (s.move t p c x).owed u + owedOf (s.chunk c) (s.pc t)) := by rw [← hthreads, ← hchunks]; rfl
      _ = _ := by abel

lemma Inv.goto (h : s.Inv) (hc : c ∈ s.live)
    (hp : ∀ d st, p = some (d, st) → d = c ∧ st.Ok (s.chunk c) ∧ (st ≠ .writeRoom → 0 < s.pins t c))
    (ht : ∀ d st, s.pc t = some (d, st) → d = c)
    (halone : ∀ st, p = some (c, st) → st.owns = true → ∀ u st', u ≠ t → s.pc u = some (c, st') → st'.owns = false)
    (hused : used + owedOf (s.chunk c) (s.pc t) = s.cacheUsed + owedOf (s.chunk c) p) :
    ({ s.move t p c (s.chunk c) with cacheUsed := used } : StorageCache C T).Inv := by
  refine h.move hc hp ht (fun u st _ hu => ⟨h.calls.ok u c st hu, rfl⟩) halone ?_
  rw [add_right_comm, hused, add_right_comm]

omit [DecidableEq C] [DecidableEq T] in
lemma Pinned.eq_writeRoom (h : s.Pinned) (hzero : s.accessCount c = 0) (hu : s.pc u = some (c, st)) : st = .writeRoom := by
  by_contra hst
  have := h.pos (h.pins u c st hu hst)
  omega

omit [DecidableEq T] in
lemma Inv.internalFreeChunk (h : s.Inv) (hc : c ∈ s.live) (hzero : s.accessCount c = 0) : (s.internalFreeChunk c).Inv := by
  have hroom : ∀ u st, s.pc u = some (c, st) → st = .writeRoom := fun u st => h.pinned.eq_writeRoom hzero
  refine ⟨⟨h.pinned.count, h.pinned.gone, fun d hd => h.pinned.lru d (mem_of_mem_erase hd),
    h.pinned.nodup.erase c, h.pinned.pins⟩, ⟨h.calls.mem, fun u d st hu => ?_, h.calls.alone⟩, ?_⟩
  · have hok := h.calls.ok u d st hu
    by_cases hdc : d = c
    · subst hdc
      obtain rfl := hroom u st hu
      simpa [StorageCache.internalFreeChunk, Stage.Ok] using hok
    · simpa [StorageCache.internalFreeChunk, hdc] using hok
  · have howed : (s.internalFreeChunk c).owed = s.owed := by
      funext u
      cases hu : s.pc u with
      | none => simp [owed, StorageCache.internalFreeChunk, hu]
      | some q =>
        obtain ⟨d, st⟩ := q
        by_cases hdc : d = c
        · subst hdc
          obtain rfl := hroom u st hu
          simp [owed, StorageCache.internalFreeChunk, hu, Stage.owed]
        · simp [owed, StorageCache.internalFreeChunk, hu, hdc]
    have hchunks := memInUse_update hc (s := s) (x := { s.chunk c with data := false })
    have hfree : ({ s.chunk c with data := false } : CachedChunk).counted = 0 := by simp [CachedChunk.counted]
    rw [hfree, add_zero] at hchunks
    show s.cacheUsed - (s.chunk c).counted = (s.internalFreeChunk c).memInUse + ∑ u, (s.internalFreeChunk c).owed u
    rw [howed, h.balance, ← hchunks, sub_eq_iff_eq_add]
    show (s.internalFreeChunk c).memInUse + _ + _ = _
    abel

omit [DecidableEq T] in
lemma Inv.makeRoom {lru : List C} (h : s.Inv) (hlru : s.lru = lru) : (makeRoom c lru s).Inv ∧ (makeRoom c lru s).pc = s.pc := by
  induction lru generalizing s with
  | nil => exact ⟨h, rfl⟩
  | cons victim lru ih =>
    rw [StorageCache.makeRoom]
    split_ifs
    · obtain ⟨hlive, hzero⟩ := h.pinned.lru victim (by simp [hlru])
      exact ih (h.internalFreeChunk hlive hzero) (by simp [StorageCache.internalFreeChunk, hlru])
    · exact ⟨h, rfl⟩

section

variable (h : s.Inv) (hpc : s.pc t = some (c, st))
  (hst : st = .loadRoom ∧ p = some (c, .checking true) ∨ st = .writeRoom ∧ p = none)

include h hpc hst

lemma Inv.addChunkToCache : (s.addChunkToCache t c p).Inv := by
  obtain ⟨h1, hpc1⟩ := h.makeRoom (c := c) rfl
  rw [StorageCache.addChunkToCache]
  generalize StorageCache.makeRoom c s.lru s = s1 at h1 hpc1
  have hpc' : s1.pc t = some (c, st) := by rw [hpc1, hpc]
  split_ifs
  · exact h1
  · have hlive := h1.calls.mem t c st hpc'
    have hmove : ({ s1.move t p c (s1.chunk c) with cacheUsed := s1.cacheUsed + (s1.chunk c).size } : StorageCache C T).Inv :=
      h1.goto hlive ?_ ?_ ?_ ?_
    · simpa [StorageCache.move] using hmove
    · rcases hst with ⟨rfl, rfl⟩ | ⟨-, rfl⟩
      · rintro d st ⟨⟩
        have hok : Stage.Ok (s1.chunk c) .loadRoom := h1.calls.ok t c _ hpc'
        exact ⟨rfl, hok, fun _ => h1.pinned.pins t c _ hpc' (by simp)⟩
      · simp
    · rintro d st' hd
      rw [hpc'] at hd
      exact (Prod.ext_iff.mp (some.inj hd)).1.symm
    · rcases hst with ⟨rfl, rfl⟩ | ⟨-, rfl⟩
      · rintro _ - - u st' hut hu
        by_contra howns
        exact hut (h1.calls.alone u t c st' _ hu hpc' (by simpa using howns) rfl)
      · simp
    · rw [hpc']
      rcases hst with ⟨rfl, rfl⟩ | ⟨rfl, rfl⟩ <;> simp [owedOf, Stage.owed]

lemma Inv.wakeInAdd : (s.wakeInAdd t c p).Inv := by
  rw [StorageCache.wakeInAdd]
  split
  · exact h.addChunkToCache hpc hst
  · rename_i victim lru hlru
    obtain ⟨hlive, hzero⟩ := h.pinned.lru victim (by simp [hlru])
    exact (h.internalFreeChunk hlive hzero).addChunkToCache hpc hst

end

lemma sum_pins (s : StorageCache C T) (t : T) (c : C) (n : ℕ) (d : C) :
    ∑ u, update s.pins t (update (s.pins t) c n) u d + (if d = c then s.pins t c else 0) =
      ∑ u, s.pins u d + if d = c then n else 0 := by
  by_cases hdc : d = c
  · subst hdc
    have hsum := sum_exchange (mem_univ t) (fun u => s.pins u d) n
    have hpins : (fun u => update s.pins t (update (s.pins t) d n) u d) =
        update (fun u => s.pins u d) t n := by
      funext u
      by_cases hut : u = t
      · subst hut
        simp
      · simp [hut]
    simpa [hpins] using hsum
  · have hpins : (fun u => update s.pins t (update (s.pins t) c n) u d) = fun u => s.pins u d := by
      funext u
      by_cases hut : u = t
      · subst hut
        simp [hdc]
      · simp [hut]
    simp [hpins, hdc]

lemma Inv.pinChunk (h : s.Inv) (hc : c ∈ s.live) : (s.pinChunk t c).Inv := by
  refine ⟨⟨fun d => ?_, fun d hd => ?_, fun d hd => ?_, ?_, fun u d st hu hst => ?_⟩, h.calls, h.balance⟩
  · have hsum := sum_pins s t c (s.pins t c + 1) d
    have hcount := h.pinned.count d
    by_cases hdc : d = c
    · subst hdc
      simp [StorageCache.pinChunk] at hsum ⊢
      omega
    · simp [StorageCache.pinChunk, hdc] at hsum ⊢
      omega
  · have hdc : d ≠ c := by
      rintro rfl
      exact hd hc
    simpa [StorageCache.pinChunk, hdc] using h.pinned.gone d hd
  · have hmem : d ∈ s.lru ∧ d ≠ c := by
      simp only [StorageCache.pinChunk] at hd
      split_ifs at hd with hzero
      · exact (h.pinned.nodup.mem_erase_iff.mp hd).symm
      · refine ⟨hd, ?_⟩
        rintro rfl
        exact hzero (h.pinned.lru d hd).2
    simpa [StorageCache.pinChunk, hmem.2] using h.pinned.lru d hmem.1
  · simp only [StorageCache.pinChunk]
    split_ifs
    · exact h.pinned.nodup.erase c
    · exact h.pinned.nodup
  · have hpos := h.pinned.pins u d st hu hst
    simp only [StorageCache.pinChunk]
    by_cases hut : u = t <;> by_cases hdc : d = c <;> simp_all

section

variable (h : s.Inv) (hpos : 0 < s.pins t c) (ht : ∀ st, s.pc t = some (c, st) → st = .writeRoom)

include h hpos ht

lemma Inv.dropPin : (s.dropPin t c).Inv := by
  have hcount := h.pinned.pos hpos
  refine ⟨⟨fun d => ?_, fun d hd => ?_, fun d hd => ?_, h.pinned.nodup, fun u d st hu hst => ?_⟩, h.calls, h.balance⟩
  · have hsum := sum_pins s t c (s.pins t c - 1) d
    have hcount' := h.pinned.count d
    by_cases hdc : d = c
    · subst hdc
      simp [StorageCache.dropPin] at hsum ⊢
      omega
    · simp [StorageCache.dropPin, hdc] at hsum ⊢
      omega
  · have hgone := h.pinned.gone d hd
    have hdc : d ≠ c := by
      rintro rfl
      omega
    simpa [StorageCache.dropPin, hdc] using hgone
  · have hlru := h.pinned.lru d hd
    have hdc : d ≠ c := by
      rintro rfl
      omega
    simpa [StorageCache.dropPin, hdc] using hlru
  · have hpos' := h.pinned.pins u d st hu hst
    simp only [StorageCache.dropPin]
    by_cases hut : u = t
    · subst hut
      have hdc : d ≠ c := by
        rintro rfl
        exact hst (ht st hu)
      simpa [hdc] using hpos'
    · simpa [hut] using hpos'

lemma Inv.unpinChunk : (s.unpinChunk t c).Inv := by
  have h' := h.dropPin hpos ht
  have hcount := h.pinned.pos hpos
  have hnot : c ∉ s.lru := fun hmem => by
    have := (h.pinned.lru c hmem).2
    omega
  refine ⟨⟨h'.pinned.count, h'.pinned.gone, fun d hd => ?_, ?_, h'.pinned.pins⟩, h'.calls, h'.balance⟩
  · simp only [StorageCache.unpinChunk] at hd
    split_ifs at hd with hone
    · rcases mem_append.mp hd with hd | hd
      · exact h'.pinned.lru d hd
      · rw [List.mem_singleton.mp hd]
        exact ⟨h.pinned.mem_live hpos, by simp [StorageCache.unpinChunk, StorageCache.dropPin, hone]⟩
    · exact h'.pinned.lru d hd
  · simp only [StorageCache.unpinChunk]
    split_ifs
    · rw [nodup_append]
      refine ⟨h.pinned.nodup, nodup_singleton c, ?_⟩
      rintro d hd e he rfl
      exact hnot (List.mem_singleton.mp he ▸ hd)
    · exact h.pinned.nodup

end

omit [DecidableEq T] in
lemma Inv.add (h : s.Inv) (hc : c ∉ s.live) (hx : x.counted = 0) :
    ({ s with live := insert c s.live, chunk := update s.chunk c x } : StorageCache C T).Inv := by
  have hne : ∀ d ∈ s.live, d ≠ c := by
    rintro d hd rfl
    exact hc hd
  refine ⟨⟨h.pinned.count, fun d hd => h.pinned.gone d fun hd' => hd (mem_insert_of_mem hd'), fun d hd => ?_,
    h.pinned.nodup, h.pinned.pins⟩, ⟨fun u d st hu => ?_, fun u d st hu => ?_, h.calls.alone⟩, ?_⟩
  · exact ⟨mem_insert_of_mem (h.pinned.lru d hd).1, (h.pinned.lru d hd).2⟩
  · exact mem_insert_of_mem (h.calls.mem u d st hu)
  · simpa [hne d (h.calls.mem u d st hu)] using h.calls.ok u d st hu
  · have howed : (fun u => ({ s with live := insert c s.live, chunk := update s.chunk c x } :
        StorageCache C T).owed u) = s.owed := by
      funext u
      cases hu : s.pc u with
      | none => simp [owed, hu]
      | some q =>
        obtain ⟨d, st⟩ := q
        simp [owed, hu, hne d (h.calls.mem u d st hu)]
    have hsame : ∑ d ∈ s.live, (update s.chunk c x d).counted = s.memInUse := by
      apply sum_congr rfl
      intro d hd
      rw [update_of_ne (hne d hd)]
    rw [howed, memInUse, sum_insert hc]
    simp only [update_self, hx, zero_add, hsame]
    exact h.balance

omit [DecidableEq T] in
lemma Inv.destroy (h : s.Inv) (hc : c ∈ s.live) (hzero : s.accessCount c = 0) (hcalls : ∀ t, (s.pc t).map Prod.fst ≠ some c) :
    ({ s.internalFreeChunk c with live := s.live.erase c } : StorageCache C T).Inv := by
  have h' := h.internalFreeChunk hc hzero
  refine ⟨⟨h'.pinned.count, fun d hd => ?_, fun d hd => ?_, h'.pinned.nodup, h'.pinned.pins⟩,
    ⟨fun u d st hu => ?_, h'.calls.ok, h'.calls.alone⟩, ?_⟩
  · by_cases hdc : d = c
    · exact hdc ▸ hzero
    · exact h.pinned.gone d fun hd' => hd (mem_erase.mpr ⟨hdc, hd'⟩)
  · obtain ⟨hdc, hd'⟩ := h.pinned.nodup.mem_erase_iff.mp hd
    exact ⟨mem_erase.mpr ⟨hdc, (h.pinned.lru d hd').1⟩, (h.pinned.lru d hd').2⟩
  · refine mem_erase.mpr ⟨?_, h.calls.mem u d st hu⟩
    rintro rfl
    have hu' : s.pc u = some (d, st) := hu
    exact hcalls u (by simp [hu'])
  · have hfree : ((s.internalFreeChunk c).chunk c).counted = 0 := by
      simp [StorageCache.internalFreeChunk, CachedChunk.counted]
    have hsum := add_sum_erase s.live (fun d => ((s.internalFreeChunk c).chunk d).counted) hc
    rw [hfree, zero_add] at hsum
    have hbalance := h'.balance
    rwa [memInUse, show (s.internalFreeChunk c).live = s.live from rfl, ← hsum] at hbalance

omit [DecidableEq C] [DecidableEq T] [Fintype T] in
lemma InCalls.others (h : InCalls s.live s.chunk s.pc) (ht : s.pc t = some (c, st))
    (hst : st.owns = true) {st' : Stage} (hut : u ≠ t) (hu : s.pc u = some (c, st')) : st'.owns = false := by
  by_contra howns
  exact hut (h.alone u t c st' st hu ht (by simpa using howns) hst)

omit [DecidableEq C] [DecidableEq T] [Fintype T] in
lemma eq_of_pc {st st' : Stage} (ht : s.pc t = some (c, st)) : s.pc t = some (d, st') → d = c := by
  rw [ht]
  rintro ⟨⟩
  rfl

section

variable (h : s.Inv)

include h

section

variable (hpc : s.pc t = some (c, st)) (hst : st = .calling ∨ st = .waiting)

include hpc hst

omit [DecidableEq C] [DecidableEq T] in
lemma Inv.entering :
    (s.chunk c).stored = true ∧ 0 < s.pins t c := by
  have hok := h.calls.ok t c st hpc
  rcases hst with rfl | rfl
  · exact ⟨hok, h.pinned.pins t c _ hpc (by simp)⟩
  · exact ⟨hok.1, h.pinned.pins t c _ hpc (by simp)⟩

lemma Inv.wait
    (hraw : (s.chunk c).raw = true) : (s.move t (some (c, .waiting)) c { s.chunk c with waiting := true }).Inv := by
  obtain ⟨hstored, hpins⟩ := h.entering hpc hst
  refine h.move (h.calls.mem t c st hpc) ?_ (fun d st' => eq_of_pc hpc) (fun u st' _ hu => ?_) ?_ ?_
  · rintro d st' ⟨⟩
    exact ⟨rfl, ⟨hstored, .inl hraw⟩, fun _ => hpins⟩
  · have hok' := h.calls.ok u c st' hu
    cases st' with
    | checking mine => cases mine <;> exact ⟨hok', rfl⟩
    | _ => exact ⟨hok', rfl⟩
  · rintro st' ⟨⟩ ⟨⟩
  · rw [hpc]
    rcases hst with rfl | rfl <;> simp [owedOf, Stage.owed, CachedChunk.counted]

lemma Inv.found
    (hraw : (s.chunk c).raw = false) (hdata : (s.chunk c).data = true) :
    (s.move t (some (c, .checking false)) c (s.chunk c)).Inv := by
  obtain ⟨hstored, hpins⟩ := h.entering hpc hst
  refine h.goto (h.calls.mem t c st hpc) ?_ (fun d st' => eq_of_pc hpc) ?_ ?_
  · rintro d st' ⟨⟩
    exact ⟨rfl, ⟨hstored, hraw, hdata⟩, fun _ => hpins⟩
  · rintro st' ⟨⟩ ⟨⟩
  · rw [hpc]
    rcases hst with rfl | rfl <;> simp [owedOf, Stage.owed]

end

lemma Inv.enter (hpc : s.pc t = some (c, .calling)) : (s.enter t c).Inv := by
  rw [StorageCache.enter]
  by_cases hraw : (s.chunk c).raw = true
  · rw [if_pos hraw]
    exact h.wait hpc (.inl rfl) hraw
  by_cases hdata : (s.chunk c).data = true
  · rw [if_neg hraw, if_pos hdata]
    exact h.found hpc (.inl rfl) (by simpa using hraw) hdata
  rw [if_neg hraw, if_neg hdata]
  have hstored : (s.chunk c).stored = true := h.calls.ok t c _ hpc
  have hpins := h.pinned.pins t c _ hpc (by simp)
  refine Inv.addChunkToCache ?_ (show _ = some (c, .loadRoom) by simp [StorageCache.move]) (.inl ⟨rfl, rfl⟩)
  refine h.move (h.calls.mem t c _ hpc) ?_ (fun d st' => eq_of_pc hpc) (fun u st hut hu => ?_) ?_ ?_
  · rintro d st' ⟨⟩
    exact ⟨rfl, ⟨hstored, rfl, by simpa using hdata⟩, fun _ => hpins⟩
  · have hok := h.calls.ok u c st hu
    cases st with
    | checking mine => cases mine <;> simp_all [Stage.Ok]
    | _ => simp_all [Stage.Ok, Stage.owed]
  · rintro st' ⟨⟩ - u st hut hu
    by_contra howns
    exact hraw ((h.calls.ok u c st hu).raw (by simpa using howns))
  · rw [hpc]
    simp [owedOf, Stage.owed, CachedChunk.counted]

lemma Inv.wake (hpc : s.pc t = some (c, .waiting)) : (s.wake t c).Inv := by
  rw [StorageCache.wake]
  by_cases hraw : (s.chunk c).raw = true
  · rw [if_pos hraw]
    exact h.wait hpc (.inr rfl) hraw
  have hdata : (s.chunk c).data = true := (h.calls.ok t c _ hpc).2.resolve_left hraw
  rw [if_neg hraw, if_pos hdata]
  exact h.found hpc (.inr rfl) (by simpa using hraw) hdata

lemma Inv.leave (hpc : s.pc t = some (c, st)) (hst : st.owed (s.chunk c) = 0) : (s.move t none c (s.chunk c)).Inv := by
  refine h.goto (h.calls.mem t c st hpc) nofun (fun d st' => eq_of_pc hpc) nofun ?_
  simp [hpc, owedOf, hst]

lemma Inv.check {mine : Bool} (hpc : s.pc t = some (c, .checking mine)) :
    (s.move t (if (s.chunk c).raw then some (c, .fetching) else none) c (s.chunk c)).Inv := by
  have hok := h.calls.ok t c _ hpc
  have hpins := h.pinned.pins t c _ hpc (by simp)
  cases mine with
  | true =>
    rw [if_pos hok.2.1]
    refine h.goto (h.calls.mem t c _ hpc) ?_ (fun d st' => eq_of_pc hpc) ?_ ?_
    · rintro d st' ⟨⟩
      exact ⟨rfl, hok, fun _ => hpins⟩
    · rintro st' ⟨⟩ - u st hut hu
      exact h.calls.others hpc rfl hut hu
    · rw [hpc]
      rfl
  | false =>
    rw [if_neg (by simp [hok.2.1])]
    exact h.leave hpc rfl

lemma Inv.allocate (hpc : s.pc t = some (c, .fetching)) :
    (s.move t (some (c, .leaving)) c { s.chunk c with data := true }).Inv := by
  obtain ⟨hstored, hraw, hdata⟩ := h.calls.ok t c _ hpc
  refine h.move (h.calls.mem t c _ hpc) ?_ (fun d st' => eq_of_pc hpc) (fun u st hut hu => ?_) ?_ ?_
  · rintro d st' ⟨⟩
    exact ⟨rfl, ⟨hstored, hraw, rfl⟩, fun _ => h.pinned.pins t c _ hpc (by simp)⟩
  · have hok := h.calls.ok u c st hu
    have howns := h.calls.others hpc rfl hut hu
    cases st with
    | checking mine => cases mine <;> simp_all [Stage.Ok, Stage.owns]
    | _ => simp_all [Stage.Ok, Stage.owns, Stage.owed]
  · rintro st' ⟨⟩ - u st hut hu
    exact h.calls.others hpc rfl hut hu
  · rw [hpc]
    simp [owedOf, Stage.owed, CachedChunk.counted, hdata, hstored]

lemma Inv.ready (hpc : s.pc t = some (c, .leaving)) : (s.move t none c (ready (s.chunk c))).Inv := by
  obtain ⟨hstored, hraw, hdata⟩ := h.calls.ok t c _ hpc
  refine h.move (h.calls.mem t c _ hpc) nofun (fun d st' => eq_of_pc hpc) (fun u st hut hu => ?_) nofun ?_
  · have hok := h.calls.ok u c st hu
    have howns := h.calls.others hpc rfl hut hu
    cases st with
    | checking mine => cases mine <;> simp_all [Stage.Ok]
    | _ => simp_all [Stage.Ok, Stage.owns, Stage.owed, StorageCache.ready]
  · rw [hpc]
    simp [owedOf, Stage.owed, CachedChunk.counted, StorageCache.ready]

section

variable (hpins : 0 < s.pins t c) (hpc : s.pc t = none)

include hpins hpc

lemma Inv.getData (hstored : (s.chunk c).stored = true) : (s.move t (some (c, .calling)) c (s.chunk c)).Inv := by
  refine h.goto (h.pinned.mem_live hpins) ?_ (by simp [hpc]) ?_ ?_
  · rintro d st ⟨⟩
    exact ⟨rfl, hstored, fun _ => hpins⟩
  · rintro st ⟨⟩ ⟨⟩
  · rw [hpc]
    rfl

lemma Inv.fill {size : BitVec 64}
    (hstored : (s.chunk c).stored = false) : (s.move t none c { s.chunk c with data := true, size := size }).Inv := by
  refine h.move (h.pinned.mem_live hpins) nofun (by simp [hpc]) (fun u st _ hu => ?_) nofun ?_
  · have hok := h.calls.ok u c st hu
    cases st with
    | checking mine => cases mine <;> simp_all [Stage.Ok]
    | _ => simp_all [Stage.Ok, Stage.owed]
  · simp [hpc, owedOf, CachedChunk.counted, hstored]

lemma Inv.write (hstored : (s.chunk c).stored = false) (hraw : (s.chunk c).raw = true) (hdata : (s.chunk c).data = true)
    (hnobody : ∀ u, s.pc u ≠ some (c, .writing) ∧ s.pc u ≠ some (c, .cleaning)) :
    (s.move t (some (c, .writing)) c (s.chunk c)).Inv := by
  refine h.goto (h.pinned.mem_live hpins) ?_ (by simp [hpc]) ?_ ?_
  · rintro d st ⟨⟩
    exact ⟨rfl, ⟨hstored, hraw, hdata⟩, fun _ => hpins⟩
  · rintro st ⟨⟩ - u st' hut hu
    have hok := h.calls.ok u c st' hu
    cases st' with
    | checking mine => cases mine <;> simp_all [Stage.Ok]
    | _ => simp_all [Stage.Ok]
  · rw [hpc]
    rfl

end

lemma Inv.writeFails (hpc : s.pc t = some (c, .writing)) : (s.move t (some (c, .cleaning)) c (s.chunk c)).Inv := by
  obtain ⟨hstored, hraw, hdata⟩ := h.calls.ok t c _ hpc
  refine h.goto (h.calls.mem t c _ hpc) ?_ (fun d st' => eq_of_pc hpc) ?_ ?_
  · rintro d st ⟨⟩
    exact ⟨rfl, ⟨hraw, fun _ => hdata⟩, fun _ => h.pinned.pins t c _ hpc (by simp)⟩
  · rintro st ⟨⟩ - u st' hut hu
    exact h.calls.others hpc rfl hut hu
  · simp [hpc, owedOf, Stage.owed, hstored]

lemma Inv.writeSection {kept : Bool} (hpc : s.pc t = some (c, .writing)) : (s.writeSection t c kept).Inv := by
  obtain ⟨hstored, hraw, hdata⟩ := h.calls.ok t c _ hpc
  have hpins := h.pinned.pins t c _ hpc (by simp)
  -- nobody else is in a call on a chunk that is not on the disk
  have hnobody : ∀ u st, u ≠ t → s.pc u ≠ some (c, st) := by
    intro u st hut hu
    have hok := h.calls.ok u c st hu
    have howns := h.calls.others hpc rfl hut hu
    cases st with
    | checking mine => cases mine <;> simp_all [Stage.Ok]
    | _ => simp_all [Stage.Ok, Stage.owns]
  rw [StorageCache.writeSection]
  cases kept with
  | true =>
    rw [if_pos rfl]
    refine Inv.addChunkToCache ?_ (show _ = some (c, .writeRoom) by simp [StorageCache.move, StorageCache.unpinChunk,
      StorageCache.dropPin]) (.inr ⟨rfl, rfl⟩)
    refine Inv.unpinChunk ?_ hpins fun st => ?_
    · refine h.move (h.calls.mem t c _ hpc) ?_ (fun d st' => eq_of_pc hpc)
        (fun u st hut hu => absurd hu (hnobody u st hut)) (fun _ _ _ u st hut hu => absurd hu (hnobody u st hut)) ?_
      · rintro d st' ⟨⟩
        exact ⟨rfl, rfl, fun hne => absurd rfl hne⟩
      · rw [hpc]
        simp [owedOf, Stage.owed, CachedChunk.counted, StorageCache.ready, hdata, hstored]
    · simp [StorageCache.move]
      exact fun hst => hst.symm
  | false =>
    rw [if_neg (by simp)]
    refine h.move (h.calls.mem t c _ hpc) ?_ (fun d st' => eq_of_pc hpc)
      (fun u st hut hu => absurd hu (hnobody u st hut)) (fun _ _ _ u st hut hu => absurd hu (hnobody u st hut)) ?_
    · rintro d st' ⟨⟩
      exact ⟨rfl, ⟨hraw, fun _ => hdata⟩, fun _ => hpins⟩
    · rw [hpc]
      simp [owedOf, Stage.owed, CachedChunk.counted, hdata, hstored]

lemma Inv.cleanChunk (hpc : s.pc t = some (c, .cleaning))
    (hnone : (s.chunk c).stored = true → ∀ u, s.pc u ≠ some (c, .waiting)) : (s.cleanChunk t c).Inv := by
  obtain ⟨hraw, hdata⟩ := h.calls.ok t c _ hpc
  have hpins := h.pinned.pins t c _ hpc (by simp)
  refine Inv.dropPin ?_ hpins fun st => ?_
  · refine h.move (h.calls.mem t c _ hpc) nofun (fun d st' => eq_of_pc hpc) (fun u st hut hu => ?_) nofun ?_
    · have hok := h.calls.ok u c st hu
      have howns := h.calls.others hpc rfl hut hu
      cases st with
      | checking mine => cases mine <;> simp_all [Stage.Ok, Stage.owns]
      | waiting => exact absurd hu (hnone hok.1 u)
      | _ => simp_all [Stage.Ok, Stage.owns, Stage.owed, StorageCache.ready]
    · rw [hpc]
      cases hstored : (s.chunk c).stored with
      | true => simp [owedOf, Stage.owed, CachedChunk.counted, StorageCache.ready, hstored, hdata hstored]
      | false => simp [owedOf, Stage.owed, CachedChunk.counted, StorageCache.ready, hstored]
  · simp [StorageCache.move]

/-- No fetch fails before it has a buffer, and nobody waits for a stored chunk that is thrown away. -/
def Keeps (s : StorageCache C T) : StorageAction C T → Prop
  | .allocateFails _ => False
  | .clean t => ∀ c, s.pc t = some (c, .cleaning) → (s.chunk c).stored = true → ∀ u, s.pc u ≠ some (c, .waiting)
  | _ => True

lemma Inv.step {a : StorageAction C T} {s' : StorageCache C T} (hkeeps : s.Keeps a) (hstep : s.step a = some s') : s'.Inv := by
  cases a <;> simp only [StorageCache.step] at hstep
  case create c =>
    obtain ⟨hc, ⟨⟩⟩ := ite_none_right_eq_some.mp hstep
    exact h.add hc rfl
  case openStored c size =>
    obtain ⟨hc, ⟨⟩⟩ := ite_none_right_eq_some.mp hstep
    exact h.add hc rfl
  case destroy c =>
    obtain ⟨hc, ⟨⟩⟩ := ite_none_right_eq_some.mp hstep
    exact h.destroy hc.1 hc.2.1 hc.2.2
  case pin t c =>
    obtain ⟨hc, ⟨⟩⟩ := ite_none_right_eq_some.mp hstep
    exact h.pinChunk hc.1
  case unpin t c =>
    obtain ⟨hc, ⟨⟩⟩ := ite_none_right_eq_some.mp hstep
    exact h.unpinChunk hc.1 (by simp [hc.2])
  case fill t c size =>
    obtain ⟨hc, ⟨⟩⟩ := ite_none_right_eq_some.mp hstep
    exact h.fill hc.1 hc.2.1 hc.2.2
  case getData t c =>
    obtain ⟨hc, ⟨⟩⟩ := ite_none_right_eq_some.mp hstep
    exact h.getData hc.1 hc.2.1 hc.2.2
  case enter t =>
    split at hstep <;> cases hstep
    exact h.enter (by assumption)
  case wake t =>
    split at hstep <;> cases hstep
    exact h.wake (by assumption)
  case cancel t =>
    split at hstep <;> cases hstep
    exact h.leave (by assumption) rfl
  case wakeInAdd t =>
    split at hstep <;> cases hstep
    · exact h.wakeInAdd (by assumption) (.inl ⟨rfl, rfl⟩)
    · exact h.wakeInAdd (by assumption) (.inr ⟨rfl, rfl⟩)
  case check t =>
    split at hstep <;> cases hstep
    exact h.check (by assumption)
  case allocateFails t => exact hkeeps.elim
  case allocate t =>
    split at hstep <;> cases hstep
    exact h.allocate (by assumption)
  case ready t =>
    split at hstep <;> cases hstep
    exact h.ready (by assumption)
  case write t c =>
    obtain ⟨hc, ⟨⟩⟩ := ite_none_right_eq_some.mp hstep
    exact h.write hc.1 hc.2.1 hc.2.2.1 hc.2.2.2.1 hc.2.2.2.2.1 hc.2.2.2.2.2
  case writeFails t =>
    split at hstep <;> cases hstep
    exact h.writeFails (by assumption)
  case writeSection t kept =>
    split at hstep <;> cases hstep
    exact h.writeSection (by assumption)
  case clean t =>
    split at hstep <;> cases hstep
    rename_i c hpc
    exact h.cleanChunk hpc (hkeeps c hpc)

end

omit [DecidableEq C] [DecidableEq T] in
lemma inv_start (cacheSize : BitVec 64) (strict : Bool) : (start cacheSize strict : StorageCache C T).Inv := by
  refine ⟨⟨?_, ?_, ?_, nodup_nil, ?_⟩, ⟨?_, ?_, ?_⟩, ?_⟩ <;> simp [start, memInUse, owed]

/-- **`_cacheUsed` is the size of the chunks in memory** in such runs, whenever no `addChunkToCache` or `fetchChunk` is under
way and no stored chunk is about to be thrown away. -/
theorem reachable_cacheUsed {cacheSize : BitVec 64} {strict : Bool}
    (h : Reaches StorageCache.step Keeps (start cacheSize strict) s)
    (hquiet : ∀ t c st, s.pc t = some (c, st) → ¬ st.Adding ∧ ¬ (st = .cleaning ∧ (s.chunk c).stored = true)) :
    s.cacheUsed = ∑ c ∈ s.live, if (s.chunk c).data && (s.chunk c).stored then (s.chunk c).size else 0 := by
  have hinv : s.Inv := h.invariant (inv_start cacheSize strict) fun _ _ _ hs hkeeps hstep => hs.step hkeeps hstep
  have howed : ∀ t, s.owed t = 0 := by
    intro t
    cases hpc : s.pc t with
    | none => simp [owed, hpc]
    | some q =>
      obtain ⟨c, st⟩ := q
      obtain ⟨hadding, hcleaning⟩ := hquiet t c st hpc
      cases st with
      | checking mine => cases mine <;> simp_all [owed, Stage.owed, Stage.Adding]
      | _ => simp_all [owed, Stage.owed, Stage.Adding]
  have hbalance := hinv.balance
  simp only [howed, sum_const_zero, add_zero] at hbalance
  exact hbalance

def loadedRun : List (StorageAction ℕ Unit) :=
  [.openStored 0 10, .pin () 0, .getData () 0, .enter (), .check (), .allocate (), .ready ()]

theorem loadedRun_cacheUsed : ∃ s, runActions StorageCache.step (start 100 true) loadedRun = some s ∧ s.cacheUsed = 10 ∧
      s.cacheUsed = ∑ c ∈ s.live, if (s.chunk c).data && (s.chunk c).stored then (s.chunk c).size else 0 := by
  obtain ⟨s, hrun, hused, hpc⟩ : ∃ s, runActions StorageCache.step (start 100 true) loadedRun = some s ∧
      s.cacheUsed = 10 ∧ s.pc () = none := ⟨_, rfl, rfl, rfl⟩
  refine ⟨s, hrun, hused, reachable_cacheUsed ((Reaches.start).run (fun a ha s => ?_) hrun) fun t c st ht => ?_⟩
  · simp only [loadedRun, List.mem_cons, List.not_mem_nil, or_false] at ha
    rcases ha with rfl | rfl | rfl | rfl | rfl | rfl | rfl <;> trivial
  · simp [hpc] at ht

/-- There is no memory for a chunk that was counted. It stays counted. -/
theorem failedRun_counts : ∃ s : StorageCache ℕ Unit, runActions StorageCache.step (start 100 true)
        [.openStored 0 10, .pin () 0, .getData () 0, .enter (), .check (), .allocateFails (), .ready ()] = some s ∧
      s.pc () = none ∧ s.memInUse = 0 ∧ s.cacheUsed = 10 :=
  ⟨_, rfl, rfl, rfl, rfl⟩

/-- A replica is loaded when it is thrown away: it is not counted, but it is subtracted when it goes. -/
lemma takenOverRun_wraps : ∃ s s' : StorageCache ℕ Bool, runActions StorageCache.step (start 100 true)
        [.create 0, .pin false 0, .fill false 0 10, .write false 0, .pin true 0, .writeSection false false,
          .getData true 0, .enter true, .clean false, .wake true, .check true, .allocate true, .ready true] = some s ∧
      (∀ t, s.pc t = none) ∧ s.memInUse = 10 ∧ s.cacheUsed = 0 ∧
      runActions StorageCache.step s [.unpin true 0, .destroy 0] = some s' ∧ s'.memInUse = 0 ∧ s'.cacheUsed = -10 := by
  refine ⟨_, _, rfl, ?_, rfl, rfl, rfl, rfl, rfl⟩
  rintro (_ | _) <;> rfl

end StorageCache

end SciDB.Smgr
