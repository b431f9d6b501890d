import SciDB.Lib.Runs
import SciDB.Lib.Sums

/-!
# Loading a chunk

The first thread that finds no data marks the chunk as raw and fetches it; the others wait until it is not raw any more. An
`Event` is a section under the mutex, or a piece of `fetchChunk` and `getData`. Every step of a fetch may fail; a guard then
marks the chunk as ready all the same. A wait may end at any time (`_loadEvent` is that of all chunks), and room in the cache is
always found: whether a thread is woken, and when, is not modelled.
-/

namespace SciDB.Smgr

open SciDB.Lib Function Finset

/-- Bytes in memory. -/
abbrev Buffer := List UInt8

/-- A chunk as it is on the disk. -/
structure StoredChunk where
  size : ℕ
  compressedSize : ℕ
  stored : Buffer
  decompress : Buffer → Buffer

/-- What the data should be. -/
def StoredChunk.contents (image : StoredChunk) : Buffer :=
  if image.compressedSize ≠ image.size then image.decompress image.stored else image.stored

/-- Where a thread is. -/
inductive Pc where
  | idle
  | calling
  | waiting
  | caching
  | checking
  | fetching
  | allocated
  | decompressing (buf : Buffer)
  | loaded
  | failed
  | returning
deriving DecidableEq

/-- A chunk and its threads. -/
structure LoadState (T : Type) where
  data : Option Buffer
  raw : Bool
  waiting : Bool
  accessCount : ℕ
  linked : Bool
  pc : T → Pc
  pins : T → ℕ
  returned : List (T × Option Buffer)

/-- What a thread does. -/
inductive Event where
  | pin
  | unpin
  | getData
  | enter
  | cached
  | wake
  | cancel
  | check
  | allocateFails
  /-- `allocate`; the memory holds anything. -/
  | allocate (junk : Buffer)
  | read
  | readFails (junk : Buffer)
  | decompress
  | decompressFails (junk : Buffer)
  | ready
  | returns
deriving DecidableEq

/-- What happens. -/
inductive LoadAction (T : Type) where
  | thread (t : T) (e : Event)
  | evict

namespace LoadState

variable {T : Type} [DecidableEq T]

variable (s : LoadState T)

/-- The thread is elsewhere now. -/
def goto (t : T) (pc : Pc) : LoadState T := { s with pc := Function.update s.pc t pc }

def notifyChunkReady : LoadState T := { s with raw := false, waiting := false }

/-- `beginAccess`. -/
def pinChunk (t : T) : LoadState T :=
  { s with
    pins := Function.update s.pins t (s.pins t + 1)
    accessCount := s.accessCount + 1
    linked := if s.accessCount = 0 then false else s.linked }

def unpinChunk (t : T) : LoadState T :=
  { s with
    pins := Function.update s.pins t (s.pins t - 1)
    accessCount := s.accessCount - 1
    linked := if s.accessCount - 1 = 0 then true else s.linked }

def enter (t : T) : LoadState T :=
  if s.raw then { s.goto t .waiting with waiting := true }
  else if s.data = none then { s.goto t .caching with raw := true }
  else s.goto t .checking

/-- `loadChunk`, after a wait. -/
def wake (t : T) : LoadState T :=
  if s.raw then { s with waiting := true }
  else if s.data = none then { s.goto t .checking with raw := true }
  else s.goto t .checking

/-- What a thread at `pc` does. -/
def stepAt (image : StoredChunk) (s : LoadState T) (t : T) : Pc → Event → Option (LoadState T)
  | .idle, .pin => some (s.pinChunk t)
  | .idle, .unpin => if 0 < s.pins t then some (s.unpinChunk t) else none
  | .idle, .getData =>
    if 0 < s.pins t then
      -- `SCIDB_LE_CHUNK_NOT_PINNED`
      if s.accessCount = 0 then some s else some (s.goto t .calling)
    else none
  | .calling, .enter => some (s.enter t)
  | .caching, .cached => some (s.goto t .checking)
  | .waiting, .wake => some (s.wake t)
  | .waiting, .cancel => some (s.goto t .idle)
  | .checking, .check => some (s.goto t (if s.raw then .fetching else .returning))
  | .fetching, .allocateFails => some (s.goto t .failed)
  | .fetching, .allocate junk => some { s.goto t .allocated with data := some junk }
  | .allocated, .read =>
    if image.compressedSize ≠ image.size then some (s.goto t (.decompressing image.stored))
    else some { s.goto t .loaded with data := some image.stored }
  | .allocated, .readFails junk =>
    if image.compressedSize ≠ image.size then some (s.goto t .failed)
    else some { s.goto t .failed with data := some junk }
  | .decompressing buf, .decompress => some { s.goto t .loaded with data := some (image.decompress buf) }
  | .decompressing _, .decompressFails junk => some { s.goto t .failed with data := some junk }
  | .loaded, .ready => some (s.notifyChunkReady.goto t .returning)
  -- the exception goes on to the caller
  | .failed, .ready => some (s.notifyChunkReady.goto t .idle)
  | .returning, .returns => some { s.goto t .idle with returned := (t, s.data) :: s.returned }
  | _, _ => none

/-- What an action does. -/
def step (image : StoredChunk) (s : LoadState T) : LoadAction T → Option (LoadState T)
  | .thread t e => s.stepAt image t (s.pc t) e
  | .evict => if s.linked then some { s with data := none, linked := false } else none

/-- Nothing is in memory. -/
def start (T : Type) : LoadState T := ⟨none, false, false, 0, false, fun _ => .idle, fun _ => 0, []⟩

end LoadState

/-- A fetch fails with a buffer. -/
def Event.spoils : Event → Bool
  | .readFails _ | .decompressFails _ => true
  | _ => false

def LoadAction.Safe {T : Type} : LoadAction T → Prop
  | .thread _ e => e.spoils = false
  | .evict => True

instance {T : Type} : DecidablePred (@LoadAction.Safe T)
  | .thread _ e => inferInstanceAs (Decidable (e.spoils = false))
  | .evict => inferInstanceAs (Decidable True)

variable (image : StoredChunk)

/-- Runs without such failures. -/
abbrev LoadState.Reachable {T : Type} [DecidableEq T] : LoadState T → Prop :=
  Reaches (LoadState.step image) (fun _ a => a.Safe) (LoadState.start T)

/-- The thread relies on nothing. -/
def Pc.Outside : Pc → Prop
  | .idle | .calling | .waiting => True
  | _ => False

/-- The thread relies on the data. -/
def Pc.Reader : Pc → Prop
  | .checking | .returning => True
  | _ => False

/-- The chunk has a buffer with bytes that count as `good`. -/
def Filled (good : Buffer → Prop) (data : Option Buffer) : Prop := ∃ buf, data = some buf ∧ good buf

/-- What the thread that loads knows of the data at each of its steps. -/
def StoredChunk.Loading (good : Buffer → Prop) (data : Option Buffer) : Pc → Prop
  | .caching | .checking | .fetching => data = none
  | .allocated => data ≠ none
  | .decompressing buf => (image.compressedSize ≠ image.size ∧ buf = image.stored) ∧ data ≠ none
  | .loaded => Filled good data
  | .failed => data = none ∨ Filled good data
  | .idle | .calling | .waiting | .returning => False

/-- A chunk is raw while one thread loads it; else the data is good, or no thread relies on it. -/
def StoredChunk.Phase (good : Buffer → Prop) {T : Type} (data : Option Buffer) (pc : T → Pc) : Bool → Prop
  | true => ∃ t, image.Loading good data (pc t) ∧ ∀ u, u ≠ t → (pc u).Outside
  | false => (data = none ∨ Filled good data) ∧ ∀ t, (pc t).Outside ∨ (pc t).Reader ∧ Filled good data

namespace StoredChunk

variable {T : Type} [DecidableEq T] {image : StoredChunk} {good : Buffer → Prop} {data : Option Buffer} {pc : T → Pc}
  {raw : Bool} {t : T} {p : Pc}

lemma Loading.not_outside (h : image.Loading good data p) : ¬ p.Outside := by
  cases p <;> first | exact id | exact absurd h id

lemma Phase.leave (h : image.Phase good data pc false) (hp : p.Outside) : image.Phase good data (update pc t p) false := by
  refine ⟨h.1, fun u => ?_⟩
  by_cases hut : u = t
  · rw [hut, update_self]
    exact .inl hp
  · rw [update_of_ne hut]
    exact h.2 u

lemma Phase.outside (h : image.Phase good data pc raw) (ht : (pc t).Outside) (hp : p.Outside) :
    image.Phase good data (update pc t p) raw := by
  cases raw with
  | true =>
    obtain ⟨l, hl, hothers⟩ := h
    have hne : l ≠ t := by
      rintro rfl
      exact hl.not_outside ht
    refine ⟨l, by rwa [update_of_ne hne], fun u hu => ?_⟩
    by_cases hut : u = t
    · rwa [hut, update_self]
    · rw [update_of_ne hut]
      exact hothers u hu
  | false => exact h.leave hp

lemma Phase.begin (h : image.Phase good none pc false) (hp : image.Loading good none p) : image.Phase good none (update pc t p) true := by
  refine ⟨t, by rwa [update_self], fun u hu => ?_⟩
  rw [update_of_ne hu]
  rcases h.2 u with hout | ⟨-, buf, hdata, -⟩
  · exact hout
  · cases hdata

lemma Phase.join (h : image.Phase good data pc false) (hdata : data ≠ none) (hp : p.Reader) :
    image.Phase good data (update pc t p) false := by
  refine ⟨h.1, fun u => ?_⟩
  by_cases hut : u = t
  · rw [hut, update_self]
    exact .inr ⟨hp, h.1.resolve_left hdata⟩
  · rw [update_of_ne hut]
    exact h.2 u

section

variable (h : image.Phase good data pc true) (ht : ¬ (pc t).Outside)

include h ht

omit [DecidableEq T] in
lemma Phase.loader :
    image.Loading good data (pc t) ∧ ∀ u, u ≠ t → (pc u).Outside := by
  obtain ⟨l, hl, hothers⟩ := h
  rcases eq_or_ne t l with rfl | hne
  · exact ⟨hl, hothers⟩
  · exact absurd (hothers t hne) ht

lemma Phase.load {data' : Option Buffer}
    (hp : image.Loading good data (pc t) → image.Loading good data' p) : image.Phase good data' (update pc t p) true := by
  obtain ⟨hl, hothers⟩ := h.loader ht
  refine ⟨t, by rw [update_self]; exact hp hl, fun u hu => ?_⟩
  rw [update_of_ne hu]
  exact hothers u hu

lemma Phase.done
    (hp : image.Loading good data (pc t) → (data = none ∨ Filled good data) ∧ (p.Outside ∨ p.Reader ∧ Filled good data)) :
    image.Phase good data (update pc t p) false := by
  obtain ⟨hl, hothers⟩ := h.loader ht
  refine ⟨(hp hl).1, fun u => ?_⟩
  by_cases hut : u = t
  · rw [hut, update_self]
    exact (hp hl).2
  · rw [update_of_ne hut]
    exact .inl (hothers u hut)

end

omit [DecidableEq T] in
lemma Phase.raw_of_not_reader (h : image.Phase good data pc raw) (hout : ¬ (pc t).Outside) (hreader : ¬ (pc t).Reader) :
    raw = true := by
  cases raw with
  | true => rfl
  | false =>
    rcases h.2 t with ht | ⟨ht, -⟩
    · exact absurd ht hout
    · exact absurd ht hreader

end StoredChunk

namespace LoadState

variable {T : Type} [Fintype T] [DecidableEq T] {image : StoredChunk} {s s' : LoadState T} {t : T} {p : Pc} {e : Event}
  {data : Option Buffer} {good : Buffer → Prop}

/-- Pins are counted. -/
structure Pinned (s : LoadState T) : Prop where
  pins : ∀ t, s.pc t ≠ .idle → 0 < s.pins t
  count : s.accessCount = ∑ t, s.pins t
  linked : s.linked = true → s.accessCount = 0

/-- The invariant of such runs. -/
structure Inv (image : StoredChunk) (good : Buffer → Prop) (s : LoadState T) : Prop where
  phase : image.Phase good s.data s.pc s.raw
  pinned : s.Pinned
  returned : ∀ r ∈ s.returned, Filled good r.2

omit [DecidableEq T] in
lemma Pinned.pins_le (h : s.Pinned) (t : T) : s.pins t ≤ s.accessCount := by
  rw [h.count]
  exact single_le_sum (fun _ _ => Nat.zero_le _) (mem_univ t)

section

variable (h : s.Inv image good)

include h

lemma Inv.goto {raw waiting : Bool} (ht : 0 < s.pins t) (hphase : image.Phase good data (update s.pc t p) raw) :
    ({ s.goto t p with data := data, raw := raw, waiting := waiting } : LoadState T).Inv image good := by
  refine ⟨hphase, ⟨fun u hu => ?_, h.pinned.count, h.pinned.linked⟩, h.returned⟩
  by_cases hut : u = t
  · rwa [hut]
  · have hu' : update s.pc t p u ≠ .idle := hu
    rw [update_of_ne hut] at hu'
    exact h.pinned.pins u hu'

lemma Inv.pinChunk : (s.pinChunk t).Inv image good := by
  have hsum := sum_exchange (mem_univ t) s.pins (s.pins t + 1)
  refine ⟨h.phase, ⟨fun u hu => ?_, ?_, fun hl => ?_⟩, h.returned⟩
  · simp only [LoadState.pinChunk]
    by_cases hut : u = t
    · rw [hut, update_self]
      exact Nat.succ_pos _
    · rw [update_of_ne hut]
      exact h.pinned.pins u hu
  · simp only [LoadState.pinChunk, h.pinned.count]
    omega
  · simp only [LoadState.pinChunk] at hl
    split_ifs at hl with hzero
    exact absurd (h.pinned.linked hl) hzero

lemma Inv.unpinChunk (hpc : s.pc t = .idle) (ht : 0 < s.pins t) : (s.unpinChunk t).Inv image good := by
  have hsum := sum_exchange (mem_univ t) s.pins (s.pins t - 1)
  have hle := h.pinned.pins_le t
  refine ⟨h.phase, ⟨fun u hu => ?_, ?_, fun hl => ?_⟩, h.returned⟩
  · have hut : u ≠ t := by
      rintro rfl
      exact hu hpc
    simp only [LoadState.unpinChunk, update_of_ne hut]
    exact h.pinned.pins u hu
  · simp only [LoadState.unpinChunk]
    rw [h.pinned.count] at hle ⊢
    omega
  · simp only [LoadState.unpinChunk] at hl ⊢
    split_ifs at hl with hzero
    · exact hzero
    · rw [h.pinned.linked hl]

omit [DecidableEq T] in
lemma Inv.pins_pos (hpc : s.pc t = p) (hp : p ≠ .idle) : 0 < s.pins t :=
  h.pinned.pins t (hpc.symm ▸ hp)

lemma Inv.take (ht : 0 < s.pins t) (hraw : s.raw = false) (hp : image.Loading good none p) :
    (if s.data = none then { s.goto t p with raw := true } else s.goto t .checking).Inv image good := by
  have hphase := h.phase
  rw [hraw] at hphase
  by_cases hdata : s.data = none
  · rw [if_pos hdata]
    rw [hdata] at hphase
    exact h.goto ht (hdata.symm ▸ hphase.begin hp)
  · rw [if_neg hdata]
    exact h.goto ht (hraw.symm ▸ hphase.join hdata trivial)

lemma Inv.enter (hpc : s.pc t = .calling) : (s.enter t).Inv image good := by
  have ht := h.pins_pos hpc Pc.noConfusion
  rw [LoadState.enter]
  by_cases hraw : s.raw = true
  · rw [if_pos hraw]
    exact h.goto ht (h.phase.outside (hpc.symm ▸ trivial) trivial)
  · rw [if_neg hraw]
    exact h.take ht (Bool.eq_false_iff.mpr hraw) rfl

lemma Inv.wake (hpc : s.pc t = .waiting) : (s.wake t).Inv image good := by
  have ht := h.pins_pos hpc Pc.noConfusion
  rw [LoadState.wake]
  by_cases hraw : s.raw = true
  · rw [if_pos hraw]
    exact ⟨h.phase, ⟨h.pinned.pins, h.pinned.count, h.pinned.linked⟩, h.returned⟩
  · rw [if_neg hraw]
    exact h.take ht (Bool.eq_false_iff.mpr hraw) rfl

lemma Inv.check (hpc : s.pc t = .checking) :
    (s.goto t (if s.raw then .fetching else .returning)).Inv image good := by
  have ht := h.pins_pos hpc Pc.noConfusion
  have hphase := h.phase
  cases hraw : s.raw with
  | true =>
    rw [hraw] at hphase
    refine h.goto ht (hraw.symm ▸ hphase.load (hpc.symm ▸ id) fun hl => ?_)
    rwa [hpc] at hl
  | false =>
    rw [hraw] at hphase
    rcases hphase.2 t with hout | ⟨-, buf, hdata, -⟩
    · rw [hpc] at hout
      exact absurd hout id
    · refine h.goto ht (hraw.symm ▸ hphase.join ?_ trivial)
      rw [hdata]
      exact Option.some_ne_none _

lemma Inv.fetch {p0 : Pc} (hpc : s.pc t = p0) (hout : ¬ p0.Outside)
    (hreader : ¬ p0.Reader) (hp : image.Loading good s.data p0 → image.Loading good data p) :
    ({ s.goto t p with data := data } : LoadState T).Inv image good := by
  subst hpc
  have ht := h.pins_pos rfl fun hidle => hout (hidle ▸ trivial)
  have hraw := h.phase.raw_of_not_reader hout hreader
  have hphase := h.phase
  rw [hraw] at hphase
  exact h.goto ht (hraw.symm ▸ hphase.load hout hp)

lemma Inv.ready {p0 : Pc} (hpc : s.pc t = p0) (hout : ¬ p0.Outside) (hreader : ¬ p0.Reader)
    (hp : image.Loading good s.data p0 →
      (s.data = none ∨ Filled good s.data) ∧ (p.Outside ∨ p.Reader ∧ Filled good s.data)) :
    (s.notifyChunkReady.goto t p).Inv image good := by
  subst hpc
  have ht := h.pins_pos rfl fun hidle => hout (hidle ▸ trivial)
  have hphase := h.phase
  rw [h.phase.raw_of_not_reader hout hreader] at hphase
  exact h.goto ht (hphase.done hout hp)

omit [DecidableEq T] in
lemma Inv.of_returning (hpc : s.pc t = .returning) : s.raw = false ∧ Filled good s.data := by
  have hout : ¬ (s.pc t).Outside := hpc.symm ▸ id
  have hphase := h.phase
  cases hraw : s.raw with
  | true =>
    rw [hraw] at hphase
    have hl := (hphase.loader hout).1
    rw [hpc] at hl
    exact absurd hl id
  | false =>
    rw [hraw] at hphase
    exact ⟨rfl, ((hphase.2 t).resolve_left hout).2⟩

lemma Inv.returns (hpc : s.pc t = .returning) :
    ({ s.goto t .idle with returned := (t, s.data) :: s.returned } : LoadState T).Inv image good := by
  obtain ⟨hraw, hdata⟩ := h.of_returning hpc
  have hphase := h.phase
  rw [hraw] at hphase
  have hgoto : (s.goto t .idle).Inv image good := h.goto (h.pins_pos hpc Pc.noConfusion) (hraw.symm ▸ hphase.leave trivial)
  refine ⟨hgoto.phase, ⟨hgoto.pinned.pins, hgoto.pinned.count, hgoto.pinned.linked⟩, fun r hr => ?_⟩
  rcases List.mem_cons.mp hr with rfl | hr
  · exact hdata
  · exact h.returned r hr

omit [DecidableEq T] in
lemma Inv.evict (hlinked : s.linked = true) :
    ({ s with data := none, linked := false } : LoadState T).Inv image good := by
  have hcount := h.pinned.linked hlinked
  have hidle : ∀ t, s.pc t = .idle := by
    intro t
    by_contra hpc
    have hpos := h.pinned.pins t hpc
    have hle := h.pinned.pins_le t
    omega
  refine ⟨?_, ⟨h.pinned.pins, h.pinned.count, fun _ => hcount⟩, h.returned⟩
  have hphase := h.phase
  simp only
  cases hraw : s.raw with
  | true =>
    rw [hraw] at hphase
    obtain ⟨l, hl, -⟩ := hphase
    rw [hidle l] at hl
    exact absurd hl id
  | false => exact ⟨.inl rfl, fun t => .inl ((hidle t).symm ▸ trivial)⟩

lemma Inv.stepAt (hcontents : good image.contents) (hspoils : e.spoils = true → ∀ buf, good buf) (hpc : s.pc t = p)
    (hstep : s.stepAt image t p e = some s') : s'.Inv image good := by
  unfold LoadState.stepAt at hstep
  split at hstep
  · cases hstep
    exact h.pinChunk
  · split_ifs at hstep with ht
    cases hstep
    exact h.unpinChunk hpc ht
  · split_ifs at hstep with ht
    · cases hstep
      exact h
    · cases hstep
      exact h.goto ht (h.phase.outside (hpc.symm ▸ trivial) trivial)
  · cases hstep
    exact h.enter hpc
  · cases hstep
    exact h.fetch hpc id id id
  · cases hstep
    exact h.wake hpc
  · cases hstep
    exact h.goto (h.pins_pos hpc Pc.noConfusion) (h.phase.outside (hpc.symm ▸ trivial) trivial)
  · cases hstep
    exact h.check hpc
  · cases hstep
    exact h.fetch hpc id id .inl
  · cases hstep
    exact h.fetch hpc id id fun _ => Option.some_ne_none _
  · split_ifs at hstep with hsize
    · cases hstep
      exact h.fetch hpc id id fun hdata => ⟨⟨hsize, rfl⟩, hdata⟩
    · cases hstep
      rw [StoredChunk.contents, if_neg hsize] at hcontents
      exact h.fetch hpc id id fun _ => ⟨_, rfl, hcontents⟩
  · split_ifs at hstep with hsize
    · cases hstep
      refine h.fetch hpc id id fun hdata => .inr ?_
      obtain ⟨buf, hbuf⟩ := Option.ne_none_iff_exists'.mp hdata
      exact ⟨buf, hbuf, hspoils rfl buf⟩
    · cases hstep
      exact h.fetch hpc id id fun _ => .inr ⟨_, rfl, hspoils rfl _⟩
  · cases hstep
    refine h.fetch hpc id id fun ⟨⟨hsize, hbuf⟩, _⟩ => ⟨_, rfl, ?_⟩
    rw [StoredChunk.contents, if_pos hsize] at hcontents
    rwa [hbuf]
  · cases hstep
    exact h.fetch hpc id id fun _ => .inr ⟨_, rfl, hspoils rfl _⟩
  · cases hstep
    exact h.ready hpc id id fun hdata => ⟨.inr hdata, .inr ⟨trivial, hdata⟩⟩
  · cases hstep
    exact h.ready hpc id id fun hdata => ⟨hdata, .inl trivial⟩
  · cases hstep
    exact h.returns hpc
  · cases hstep

/-- **Every step keeps the invariant**: the bytes of the chunk are good, and what a failed fetch leaves, if there is one. -/
lemma Inv.step {a : LoadAction T} (hcontents : good image.contents) (hsafe : a.Safe ∨ ∀ buf, good buf) (hstep : s.step image a = some s') : s'.Inv image good := by
  cases a with
  | thread t e =>
    refine h.stepAt hcontents (fun hspoils => hsafe.resolve_left fun hsafe => ?_) rfl hstep
    cases hspoils.symm.trans hsafe
  | evict =>
    rw [LoadState.step] at hstep
    split_ifs at hstep with hlinked
    cases hstep
    exact h.evict hlinked

end

omit [DecidableEq T] in
lemma inv_start : (start T).Inv image good :=
  ⟨⟨.inl rfl, fun _ => .inl trivial⟩,
    ⟨fun _ h => absurd rfl h, (sum_const_zero).symm, fun h => by cases h⟩, fun r hr => by cases hr⟩

end LoadState

/-- **Every call that returns has the contents of the chunk**, if no fetch fails after its buffer was allocated. -/
theorem reachable_returned {T : Type} [Fintype T] [DecidableEq T] {image : StoredChunk} {s : LoadState T}
    (h : s.Reachable image) : ∀ r ∈ s.returned, r.2 = some image.contents := by
  have hinv : s.Inv image (· = image.contents) :=
    h.invariant LoadState.inv_start fun _ _ _ hinv hsafe hstep => hinv.step rfl (.inl hsafe) hstep
  intro r hr
  obtain ⟨buf, hbuf, rfl⟩ := hinv.returned r hr
  exact hbuf

def oneByte : StoredChunk := ⟨1, 1, [7], id⟩

def twoThreads : List (LoadAction (Fin 2)) :=
  [.thread 0 .pin, .thread 1 .pin, .thread 0 .getData, .thread 0 .enter, .thread 0 .cached, .thread 0 .check,
    .thread 1 .getData, .thread 1 .enter]

def retriedRun : List (LoadAction (Fin 2)) :=
  twoThreads ++ [.thread 0 .allocateFails, .thread 0 .ready, .thread 1 .wake, .thread 1 .check,
    .thread 1 (.allocate [0]), .thread 1 .read, .thread 1 .ready, .thread 1 .returns]

def spoiledRun : List (LoadAction (Fin 2)) :=
  twoThreads ++ [.thread 0 (.allocate [0]), .thread 0 (.readFails [0]), .thread 0 .ready, .thread 1 .wake,
    .thread 1 .check, .thread 1 .returns]

theorem retriedRun_returns : ∃ s, runActions (LoadState.step oneByte) (LoadState.start (Fin 2)) retriedRun = some s ∧
    s.returned.length = 1 ∧ ∀ r ∈ s.returned, r.2 = some oneByte.contents := by
  have hsafe : ∀ a ∈ retriedRun, a.Safe := by decide
  obtain ⟨s, hs⟩ : ∃ s, runActions (LoadState.step oneByte) (LoadState.start (Fin 2)) retriedRun = some s := ⟨_, rfl⟩
  have hlen := congrArg (Option.map fun s => s.returned.length) hs
  refine ⟨s, hs, (Option.some_inj.mp hlen).symm, reachable_returned (Reaches.run .start (fun a ha _ => hsafe a ha) hs)⟩

/-- The call that returns does not. -/
theorem spoiledRun_returns : ∃ s, runActions (LoadState.step oneByte) (LoadState.start (Fin 2)) spoiledRun = some s ∧
    s.returned = [(1, some [0])] ∧ oneByte.contents ≠ [0] :=
  ⟨_, rfl, rfl, by decide⟩

namespace LoadState

/-- **One thread loads, the others keep out**, in every run, whatever fails. While a chunk is raw one thread is in the middle of
a load and all others are outside of it. Else nobody is loading, and who reads has a buffer; so every call that returned got
one. The chunk is not thrown out between pin and unpin. -/
theorem reaches_exclusive {T : Type} [Fintype T] [DecidableEq T] {image : StoredChunk} {s : LoadState T}
    (h : Reaches (step image) (fun _ _ => True) (start T) s) :
    (s.raw = true → ∃ t, ¬ (s.pc t).Outside ∧ s.pc t ≠ .returning ∧ ∀ u, u ≠ t → (s.pc u).Outside) ∧
      (s.raw = false → ∀ t, (s.pc t).Outside ∨ (s.pc t).Reader ∧ s.data ≠ none) ∧
      (∀ r ∈ s.returned, r.2 ≠ none) ∧ ∀ t, 0 < s.pins t → s.step image .evict = none := by
  have hinv : s.Inv image fun _ => True :=
    h.invariant inv_start fun _ _ _ hinv _ hstep => hinv.step trivial (.inr fun _ => trivial) hstep
  have hfilled {data : Option Buffer} (hdata : Filled (fun _ => True) data) : data ≠ none := by
    obtain ⟨buf, rfl, -⟩ := hdata
    exact Option.some_ne_none _
  have hphase := hinv.phase
  refine ⟨fun hraw => ?_, fun hraw t => ?_, fun r hr => hfilled (hinv.returned r hr), fun t hpos => ?_⟩
  · rw [hraw] at hphase
    obtain ⟨t, hl, hothers⟩ := hphase
    refine ⟨t, hl.not_outside, fun hpc => ?_, hothers⟩
    rw [hpc] at hl
    exact hl
  · rw [hraw] at hphase
    exact (hphase.2 t).imp_right fun ⟨hreader, hdata⟩ => ⟨hreader, hfilled hdata⟩
  · have hle := hinv.pinned.pins_le t
    refine if_neg fun hlinked => ?_
    have := hinv.pinned.linked hlinked
    omega

theorem spoiledRun_exclusive : ∃ s, runActions (step oneByte) (start (Fin 2)) spoiledRun = some s ∧
    s.returned.length = 1 ∧ ∀ r ∈ s.returned, r.2 ≠ none := by
  obtain ⟨s, hs⟩ : ∃ s, runActions (step oneByte) (start (Fin 2)) spoiledRun = some s := ⟨_, rfl⟩
  have hlen := congrArg (Option.map fun s => s.returned.length) hs
  have hexclusive := reaches_exclusive (Reaches.run .start (fun _ _ _ => trivial) hs)
  exact ⟨s, hs, (Option.some_inj.mp hlen).symm, hexclusive.2.2.1⟩

end LoadState

end SciDB.Smgr
