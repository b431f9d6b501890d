import SciDB.Lib.Runs

/-!
# Double-buffered input

A job reads a file into two buffers in turn, and a scanner takes characters from them; `_loaded` says whose a buffer is. A step
is what a thread does under one lock, or between two. `Event::wait` returns when the condition variable wakes it: by a signal, or
without one (`wakeScanner`, `wakeLoader`), and neither thread looks at `_loaded` again.

The query stays valid, and the destructor is left out. `fread` gives less than it was asked for only at the end or at an error.
When a call throws, no more calls are made.
-/

namespace SciDB.Util

open SciDB.Lib List Function

/-- A `Buffer`. -/
structure FileBuffer where
  loaded : Bool
  buffer : List UInt8
  fromUnget : UInt8
  index : ℤ
  loaderIsWaiting : Bool
  scannerIsWaiting : Bool
  readFileError : ℕ
deriving DecidableEq, Repr

inductive LoaderPc where
  | notStarted
  | head (i : Bool)
  | waiting (i : Bool)
  | woken (i : Bool)
  | finished
deriving DecidableEq, Repr

/-- Where the scanner is. -/
inductive ScannerPc where
  | idle
  | starting
  | initWaiting
  | initWoken
  | releasing
  | switching
  | waiting
  | woken
  | failed
deriving DecidableEq, Repr

def LoaderPc.signal : LoaderPc → LoaderPc
  | .waiting i => .woken i
  | pc => pc

def ScannerPc.signal : ScannerPc → ScannerPc
  | .initWaiting => .initWoken
  | .waiting => .woken
  | pc => pc

/-- A bound on the scanner's steps. -/
def ScannerPc.rank : ScannerPc → ℕ
  | .releasing => 10
  | .starting | .switching => 3
  | .initWoken | .woken => 2
  | .initWaiting | .waiting => 1
  | .idle | .failed => 0

/-- A bound on the steps that the loader takes before it fills a buffer or waits. -/
def LoaderPc.rank : LoaderPc → ℕ
  | .head _ | .woken _ => 1
  | _ => 0

lemma ScannerPc.rank_signal (pc : ScannerPc) : pc.signal.rank ≤ pc.rank + 1 := by
  cases pc <;> decide

lemma LoaderPc.rank_signal (pc : LoaderPc) : pc.signal.rank ≤ pc.rank + 1 := by
  cases pc <;> simp [signal, rank]

/-- What a call of `myGetc` gives: a `char`, or an exception. -/
inductive Got where
  | char (c : UInt8)
  | thrown (readFileError : ℕ)
deriving DecidableEq, Repr

/-- `EOF` returned as a `char`, which is the byte 255. -/
def Got.eof : Got := .char 255

/-- Two threads and buffers. -/
structure BufferedFileInput where
  initialized : Bool
  which : Bool
  buffers : Bool → FileBuffer
  unread : List UInt8
  loader : LoaderPc
  scanner : ScannerPc
  /-- What the calls gave, without what was given back. -/
  log : List Got
  ungot : Bool

namespace BufferedFileInput

/-- The constructor. -/
def create (bytes : List UInt8) : BufferedFileInput where
  initialized := false
  which := false
  buffers _ :=
    { loaded := false, buffer := [], fromUnget := 0, index := 0, loaderIsWaiting := false, scannerIsWaiting := false,
      readFileError := 0 }
  unread := bytes
  loader := .notStarted
  scanner := .idle
  log := []
  ungot := false

variable (s : BufferedFileInput)

/-- A buffer changes. -/
def setBuffer (i : Bool) (b : FileBuffer) : BufferedFileInput :=
  { s with buffers := Function.update s.buffers i b }

@[simp]
lemma setBuffer_self (i : Bool) (b : FileBuffer) : (s.setBuffer i b).buffers i = b := by
  simp [setBuffer]

lemma setBuffer_of_ne {i j : Bool} (h : j ≠ i) (b : FileBuffer) : (s.setBuffer i b).buffers j = s.buffers j := by
  simp [setBuffer, h]

/-- A call of `myGetc` returns. -/
def answer (got : Got) : BufferedFileInput :=
  { s with scanner := .idle, log := s.log ++ [got], ungot := false }

def raise (readFileError : ℕ) : BufferedFileInput :=
  { s with scanner := .failed, log := s.log ++ [.thrown readFileError] }

variable (bufferSize : ℕ)

/-- `myGetc` after the initialization, up to the first lock of `myGetcNonInlinedPart`. -/
def serve (s : BufferedFileInput) : BufferedFileInput :=
  let theBuffer := s.buffers s.which
  if 0 ≤ theBuffer.index then
    match theBuffer.buffer[theBuffer.index.toNat]? with
    | some c => (s.setBuffer s.which { theBuffer with index := theBuffer.index + 1 }).answer (.char c)
    | none => if theBuffer.index < bufferSize then s.answer .eof else { s with scanner := .releasing }
  else s.answer (.char theBuffer.fromUnget)

/-- The end of `initialize`. -/
def checkFirst (s : BufferedFileInput) : BufferedFileInput :=
  if (s.buffers false).readFileError ≠ 0 then s.raise (s.buffers false).readFileError else s.serve bufferSize

/-- The end of `myGetcNonInlinedPart`. The buffer that is checked is the one that was left. -/
def checkSwitched (s : BufferedFileInput) : BufferedFileInput :=
  let theBuffer := s.buffers !s.which
  if theBuffer.readFileError ≠ 0 then s.raise theBuffer.readFileError else s.serve bufferSize

/-- The loader fills a buffer. Then comes the end if `err` is 0, and a read error otherwise. -/
def fill (bufferSize err : ℕ) (s : BufferedFileInput) (i : Bool) : BufferedFileInput :=
  let theBuffer := s.buffers i
  let data := s.unread.take bufferSize
  let short := decide (data.length < bufferSize)
  let s' := s.setBuffer i { theBuffer with
    loaded := true
    buffer := data
    index := 0
    loaderIsWaiting := false
    readFileError := if short && err != 0 then err else theBuffer.readFileError }
  { s' with
    unread := s.unread.drop bufferSize
    scanner := if theBuffer.scannerIsWaiting then s.scanner.signal else s.scanner
    loader := if short then .finished else .head !i }

/-- A step. -/
inductive Action where
  | getc
  | ungetc (c : UInt8)
  | scan
  | load
  /-- A wait of the scanner ends without a signal. -/
  | wakeScanner
  /-- A wait of the loader ends without a signal. -/
  | wakeLoader
deriving DecidableEq, Repr

/-- What a step does. -/
def step (bufferSize err : ℕ) (s : BufferedFileInput) : Action → Option BufferedFileInput
  | .getc =>
    match s.scanner, s.initialized with
    | .idle, false => some { s with initialized := true, loader := .head false, scanner := .starting }
    | .idle, true => some (s.serve bufferSize)
    | _, _ => none
  | .ungetc c =>
    match s.scanner, s.initialized with
    | .idle, true =>
      let theBuffer := s.buffers s.which
      let s' := if 0 < theBuffer.index then s.setBuffer s.which { theBuffer with index := theBuffer.index - 1 }
        else s.setBuffer s.which { theBuffer with fromUnget := c, index := theBuffer.index - 1 }
      some { s' with log := s.log.dropLast, ungot := true }
    | _, _ => none
  | .scan =>
    let theBuffer := s.buffers s.which
    match s.scanner with
    | .starting =>
      if (s.buffers false).loaded then some (s.checkFirst bufferSize)
      else some { s.setBuffer false { s.buffers false with scannerIsWaiting := true } with scanner := .initWaiting }
    | .initWoken =>
      some ((s.setBuffer false { s.buffers false with scannerIsWaiting := false }).checkFirst bufferSize)
    | .releasing =>
      some { s.setBuffer s.which { theBuffer with loaded := false } with
        loader := if theBuffer.loaderIsWaiting then s.loader.signal else s.loader
        which := !s.which
        scanner := .switching }
    | .switching =>
      if theBuffer.loaded then some (s.checkSwitched bufferSize)
      else some { s.setBuffer s.which { theBuffer with scannerIsWaiting := true } with scanner := .waiting }
    | .woken =>
      some ((s.setBuffer s.which { theBuffer with scannerIsWaiting := false }).checkSwitched bufferSize)
    | _ => none
  | .load =>
    match s.loader with
    | .head i =>
      if (s.buffers i).loaded then
        some { s.setBuffer i { s.buffers i with loaderIsWaiting := true } with loader := .waiting i }
      else some (s.fill bufferSize err i)
    | .woken i => some (s.fill bufferSize err i)
    | _ => none
  | .wakeScanner =>
    match s.scanner with
    | .initWaiting | .waiting => some { s with scanner := s.scanner.signal }
    | _ => none
  | .wakeLoader =>
    match s.loader with
    | .waiting i => some { s with loader := .woken i }
    | _ => none

/-- `myUngetc` after a call of `myGetc`, with the character it returned, if that was not `EOF`. -/
def Restricted : Action → Prop
  | .ungetc c => s.log.getLast? = some (.char c) ∧ Got.char c ≠ .eof ∧ s.ungot = false
  | _ => True

/-- Waits end by signals only. -/
def Signalled : Action → Prop
  | .wakeScanner | .wakeLoader => False
  | _ => True

section Invariant

variable (bytes : List UInt8) (bufferSize err : ℕ)

/-- What is read in turn `k`. -/
def piece (k : ℕ) : List UInt8 := (bytes.drop (k * bufferSize)).take bufferSize

/-- The first `n` bytes. -/
def chars (n : ℕ) : List Got := (bytes.take n).map .char

structure Filled (k : ℕ) (b : FileBuffer) : Prop where
  loaded : b.loaded = true
  buffer : b.buffer = piece bytes bufferSize k
  error : b.readFileError = if (piece bytes bufferSize k).length < bufferSize then err else 0

/-- A buffer is to be filled. -/
structure Vacant (b : FileBuffer) : Prop where
  loaded : b.loaded = false
  error : b.readFileError = 0

/-- Where the loader is after `f` turns, when the scanner is at the piece `u`. -/
inductive LoaderAt (u f : ℕ) (s : BufferedFileInput) : LoaderPc → Prop where
  | notStarted (hinit : s.initialized = false) (hf : f = 0) : LoaderAt u f s .notStarted
  | head (hf : f * bufferSize ≤ bytes.length) : LoaderAt u f s (.head f.bodd)
  | waiting (hf : f * bufferSize ≤ bytes.length) (hu : f = u + 2)
      (hflag : (s.buffers f.bodd).loaderIsWaiting = true) : LoaderAt u f s (.waiting f.bodd)
  | woken (hf : f * bufferSize ≤ bytes.length) (hu : f < u + 2) : LoaderAt u f s (.woken f.bodd)
  | finished (k : ℕ) (hf : f = k + 1) (hle : k * bufferSize ≤ bytes.length) (hlt : bytes.length < f * bufferSize) :
      LoaderAt u f s .finished

/-- The loader after `f` turns. -/
structure Loading (u f : ℕ) (s : BufferedFileInput) : Prop where
  le : u ≤ f
  ahead : f ≤ u + 2
  which : s.which = u.bodd
  unread : s.unread = bytes.drop (f * bufferSize)
  filled : ∀ k, u ≤ k → k < f → Filled bytes bufferSize err k (s.buffers k.bodd)
  vacant : ∀ k, f ≤ k → k < u + 2 → Vacant (s.buffers k.bodd)
  next : ∀ k, u < k → k < f → (s.buffers k.bodd).index = 0
  loader : LoaderAt bytes bufferSize u f s s.loader

/-- Where the scanner is. -/
inductive ScannerAt (u f : ℕ) (s : BufferedFileInput) : ScannerPc → Prop where
  | new (hinit : s.initialized = false) (hu : u = 0) (hf : f = 0) (hlog : s.log = []) (hloader : s.loader = .notStarted) :
      ScannerAt u f s .idle
  | idle (j m : ℕ) (hinit : s.initialized = true) (hu : u < f) (hindex : (s.buffers u.bodd).index = j)
      (hj : j ≤ (piece bytes bufferSize u).length)
      (hlog : s.log = chars bytes (u * bufferSize + j) ++ List.replicate m .eof)
      (heof : 0 < m → j = (piece bytes bufferSize u).length ∧ j < bufferSize)
      (hungot : s.ungot = false → 0 < j ∨ 0 < m) : ScannerAt u f s .idle
  | starting (hinit : s.initialized = true) (hu : u = 0) (hlog : s.log = [])
      (hindex : u < f → (s.buffers u.bodd).index = 0) : ScannerAt u f s .starting
  | initWaiting (hinit : s.initialized = true) (hu : u = 0) (hlog : s.log = []) (hf : f = 0)
      (hflag : (s.buffers u.bodd).scannerIsWaiting = true) : ScannerAt u f s .initWaiting
  | initWoken (hinit : s.initialized = true) (hu : u = 0) (hlog : s.log = []) (hf : u < f)
      (hindex : (s.buffers u.bodd).index = 0) : ScannerAt u f s .initWoken
  | releasing (hinit : s.initialized = true) (hf : u < f) (hfull : (u + 1) * bufferSize ≤ bytes.length)
      (hlog : s.log = chars bytes ((u + 1) * bufferSize)) : ScannerAt u f s .releasing
  | switching (hinit : s.initialized = true) (hfull : u * bufferSize ≤ bytes.length)
      (hlog : s.log = chars bytes (u * bufferSize)) (hindex : u < f → (s.buffers u.bodd).index = 0) :
      ScannerAt u f s .switching
  | waiting (hinit : s.initialized = true) (hfull : u * bufferSize ≤ bytes.length)
      (hlog : s.log = chars bytes (u * bufferSize)) (hf : f = u)
      (hflag : (s.buffers u.bodd).scannerIsWaiting = true) : ScannerAt u f s .waiting
  | woken (hinit : s.initialized = true) (hfull : u * bufferSize ≤ bytes.length)
      (hlog : s.log = chars bytes (u * bufferSize)) (hf : u < f)
      (hindex : (s.buffers u.bodd).index = 0) : ScannerAt u f s .woken
  | failed (n : ℕ) (hinit : s.initialized = true) (hn : n ≤ bytes.length) (herr : err ≠ 0)
      (hlog : s.log = chars bytes n ++ [.thrown err]) : ScannerAt u f s .failed

/-- Both are somewhere. -/
def Inv (u f : ℕ) (s : BufferedFileInput) : Prop :=
  Loading bytes bufferSize err u f s ∧ ScannerAt bytes bufferSize err u f s s.scanner

end Invariant

variable {bytes : List UInt8} {bufferSize err u f : ℕ} {s s' : BufferedFileInput}

lemma bodd_ne_of_next {k l : ℕ} (h : k + 1 = l ∨ l + 1 = k) : k.bodd ≠ l.bodd := by
  rcases h with rfl | rfl <;> simp [Nat.bodd_succ]

lemma length_piece (k : ℕ) : (piece bytes bufferSize k).length = min bufferSize (bytes.length - k * bufferSize) := by
  rw [piece, length_take, length_drop]

lemma length_piece_lt_iff {k : ℕ} (h : k * bufferSize ≤ bytes.length) :
    (piece bytes bufferSize k).length < bufferSize ↔ bytes.length < (k + 1) * bufferSize := by
  rw [length_piece, Nat.succ_mul]
  omega

lemma inv_create (bytes : List UInt8) : Inv bytes bufferSize err 0 0 (create bytes) := by
  refine ⟨⟨le_rfl, by omega, rfl, ?_, fun k _ hk => absurd hk (Nat.not_lt_zero k), fun k _ _ => ⟨rfl, rfl⟩,
    fun k _ hk => absurd hk (Nat.not_lt_zero k), .notStarted rfl rfl⟩, .new rfl rfl rfl rfl rfl⟩
  rw [zero_mul, drop_zero]
  rfl

section

variable (h : Loading bytes bufferSize err u f s)

include h

lemma Loading.congr (hwhich : s'.which = s.which) (hunread : s'.unread = s.unread)
    (hbuffers : ∀ i, (s'.buffers i).loaded = (s.buffers i).loaded ∧ (s'.buffers i).buffer = (s.buffers i).buffer ∧
      (s'.buffers i).readFileError = (s.buffers i).readFileError)
    (hindex : ∀ i, i ≠ u.bodd → (s'.buffers i).index = (s.buffers i).index)
    (hloader : LoaderAt bytes bufferSize u f s' s'.loader) : Loading bytes bufferSize err u f s' := by
  refine ⟨h.le, h.ahead, hwhich.trans h.which, hunread.trans h.unread, fun k hk hkf => ?_, fun k hk hku => ?_,
    fun k hk hkf => ?_, hloader⟩
  · obtain ⟨hloaded, hbuffer, herror⟩ := hbuffers k.bodd
    have hfilled := h.filled k hk hkf
    exact ⟨hloaded.trans hfilled.loaded, hbuffer.trans hfilled.buffer, herror.trans hfilled.error⟩
  · obtain ⟨hloaded, _, herror⟩ := hbuffers k.bodd
    have hvacant := h.vacant k hk hku
    exact ⟨hloaded.trans hvacant.loaded, herror.trans hvacant.error⟩
  · have hne : k.bodd ≠ u.bodd := bodd_ne_of_next (.inr (by have := h.ahead; omega))
    exact (hindex _ hne).trans (h.next k hk hkf)

lemma Loading.full {k : ℕ} (hk : k < f) : k * bufferSize ≤ bytes.length := by
  have hloader := h.loader
  generalize s.loader = pc at hloader
  cases hloader with
  | notStarted _ hf => omega
  | head hf | waiting hf | woken hf => exact (Nat.mul_le_mul_right bufferSize hk.le).trans hf
  | finished l hf hle _ => exact (Nat.mul_le_mul_right bufferSize (by omega)).trans hle

open BufferedFileInput

lemma Loading.touch {b : FileBuffer} (pc : ScannerPc) (log : List Got) (ungot : Bool)
    (hloaded : b.loaded = (s.buffers u.bodd).loaded) (hbuffer : b.buffer = (s.buffers u.bodd).buffer)
    (hwaiting : b.loaderIsWaiting = (s.buffers u.bodd).loaderIsWaiting)
    (herror : b.readFileError = (s.buffers u.bodd).readFileError) :
    Loading bytes bufferSize err u f { s.setBuffer u.bodd b with scanner := pc, log := log, ungot := ungot } := by
  refine h.congr rfl rfl (fun i => ?_) (fun i hi => congrArg FileBuffer.index (setBuffer_of_ne s hi b)) ?_
  · by_cases hi : i = u.bodd
    · rw [hi]
      refine ⟨?_, ?_, ?_⟩
      · exact (congrArg FileBuffer.loaded (setBuffer_self s u.bodd b)).trans hloaded
      · exact (congrArg FileBuffer.buffer (setBuffer_self s u.bodd b)).trans hbuffer
      · exact (congrArg FileBuffer.readFileError (setBuffer_self s u.bodd b)).trans herror
    · rw [show buffers _ i = s.buffers i from setBuffer_of_ne s hi b]
      exact ⟨rfl, rfl, rfl⟩
  · have hloader := h.loader
    show LoaderAt bytes bufferSize u f _ s.loader
    generalize s.loader = pc at hloader
    cases hloader with
    | notStarted hinit hf => exact .notStarted hinit hf
    | head hf => exact .head hf
    | woken hf hu => exact .woken hf hu
    | finished k hf hle hlt => exact .finished k hf hle hlt
    | waiting hf hu hflag =>
      refine .waiting hf hu ?_
      have hbodd : f.bodd = u.bodd := by simp [hu]
      rw [hbodd] at hflag ⊢
      exact ((congrArg FileBuffer.loaderIsWaiting (setBuffer_self s u.bodd b)).trans hwaiting).trans hflag

lemma Loading.move {pc : ScannerPc} {log : List Got} {ungot : Bool} :
    Loading bytes bufferSize err u f { s with scanner := pc, log := log, ungot := ungot } := by
  have htouch := h.touch (b := s.buffers u.bodd) pc log ungot rfl rfl rfl rfl
  rwa [setBuffer, update_eq_self] at htouch

lemma Loading.serve {j m : ℕ} (hinit : s.initialized = true) (hu : u < f) (hindex : (s.buffers u.bodd).index = j)
    (hj : j ≤ (piece bytes bufferSize u).length) (hlog : s.log = chars bytes (u * bufferSize + j) ++ replicate m .eof)
    (heof : 0 < m → j = (piece bytes bufferSize u).length ∧ j < bufferSize) :
    Inv bytes bufferSize err u f (s.serve bufferSize) := by
  have hbuffer := (h.filled u le_rfl hu).buffer
  cases hget : (piece bytes bufferSize u)[j]? with
  | some c =>
    have hlt := (List.getElem?_eq_some_iff.mp hget).1
    have hm : m = 0 := by
      by_contra hm
      omega
    rw [hm, replicate_zero, append_nil] at hlog
    have hserve : s.serve bufferSize =
        (s.setBuffer u.bodd { s.buffers u.bodd with index := (j : ℤ) + 1 }).answer (.char c) := by
      simp [BufferedFileInput.serve, h.which, hindex, hbuffer, hget]
    rw [hserve]
    refine ⟨h.touch _ _ _ rfl rfl rfl rfl, .idle (j + 1) 0 hinit hu ?_ hlt ?_ (fun h => absurd h (lt_irrefl 0)) fun _ => .inl j.succ_pos⟩
    · exact (congrArg FileBuffer.index (setBuffer_self s u.bodd _)).trans (by push_cast; rfl)
    · have hbyte : bytes[u * bufferSize + j]? = some c := by
        rwa [piece, getElem?_take_of_lt (by rw [length_piece] at hlt; omega), getElem?_drop] at hget
      show s.log ++ [.char c] = _
      rw [hlog, replicate_zero, append_nil, ← add_assoc, chars, chars, take_add_one, hbyte, map_append]
      rfl
  | none =>
    have hend : j = (piece bytes bufferSize u).length := le_antisymm hj (getElem?_eq_none_iff.mp hget)
    have hlen : (piece bytes bufferSize u).length ≤ bufferSize := by
      rw [length_piece]
      exact min_le_left _ _
    by_cases hshort : j < bufferSize
    · have hserve : s.serve bufferSize = s.answer .eof := by
        simp [BufferedFileInput.serve, h.which, hindex, hbuffer, hget, hshort]
      rw [hserve]
      refine ⟨h.move, ?_⟩
      refine .idle j (m + 1) hinit hu hindex hj ?_ (fun _ => ⟨hend, hshort⟩) fun _ => .inr m.succ_pos
      show s.log ++ [.eof] = _
      rw [hlog, append_assoc, replicate_succ']
    · have hserve : s.serve bufferSize = { s with scanner := .releasing } := by
        simp [BufferedFileInput.serve, h.which, hindex, hbuffer, hget, hshort]
      rw [hserve]
      have hjB : j = bufferSize := by omega
      have hm : m = 0 := by
        by_contra hm
        exact hshort (heof (pos_of_ne_zero hm)).2
      refine ⟨h.move, .releasing hinit hu ?_ ?_⟩
      · rw [length_piece] at hend
        rw [Nat.succ_mul]
        rcases Nat.eq_zero_or_pos bufferSize with hzero | hpos
        · rw [hzero, mul_zero]
          exact Nat.zero_le _
        · omega
      · show s.log = _
        rw [hlog, hm, replicate_zero, append_nil, hjB, Nat.succ_mul]

end

lemma serve_scanner (hsize : 0 < bufferSize) (hindex : (s.buffers s.which).index = 0) :
    (s.serve bufferSize).scanner = .idle := by
  rw [serve, hindex, if_pos le_rfl]
  split
  · rfl
  · rw [if_pos (by exact_mod_cast hsize)]
    rfl

lemma ScannerAt.congr {pc : ScannerPc} (h : ScannerAt bytes bufferSize err u f s pc) (hinit : s'.initialized = s.initialized)
    (hlog : s'.log = s.log) (hungot : s'.ungot = s.ungot) (hindex : (s'.buffers u.bodd).index = (s.buffers u.bodd).index)
    (hflag : (s'.buffers u.bodd).scannerIsWaiting = (s.buffers u.bodd).scannerIsWaiting)
    (hloader : s.loader = .notStarted → s'.loader = .notStarted) : ScannerAt bytes bufferSize err u f s' pc := by
  cases h with
  | new hinit' hu hf hlog' hloader' => exact .new (hinit.trans hinit') hu hf (hlog.trans hlog') (hloader hloader')
  | idle j m hinit' hu hindex' hj hlog' heof hungot' =>
    exact .idle j m (hinit.trans hinit') hu (hindex.trans hindex') hj (hlog.trans hlog') heof fun h => hungot' (hungot ▸ h)
  | starting hinit' hu hlog' hindex' =>
    exact .starting (hinit.trans hinit') hu (hlog.trans hlog') fun hf => hindex.trans (hindex' hf)
  | initWaiting hinit' hu hlog' hf hflag' =>
    exact .initWaiting (hinit.trans hinit') hu (hlog.trans hlog') hf (hflag.trans hflag')
  | initWoken hinit' hu hlog' hf hindex' =>
    exact .initWoken (hinit.trans hinit') hu (hlog.trans hlog') hf (hindex.trans hindex')
  | releasing hinit' hf hfull hlog' => exact .releasing (hinit.trans hinit') hf hfull (hlog.trans hlog')
  | switching hinit' hfull hlog' hindex' =>
    exact .switching (hinit.trans hinit') hfull (hlog.trans hlog') fun hf => hindex.trans (hindex' hf)
  | waiting hinit' hfull hlog' hf hflag' =>
    exact .waiting (hinit.trans hinit') hfull (hlog.trans hlog') hf (hflag.trans hflag')
  | woken hinit' hfull hlog' hf hindex' =>
    exact .woken (hinit.trans hinit') hfull (hlog.trans hlog') hf (hindex.trans hindex')
  | failed n hinit' hn herr hlog' => exact .failed n (hinit.trans hinit') hn herr (hlog.trans hlog')

section

variable (h : Inv bytes bufferSize err u f s)

include h

open ScannerPc

lemma Inv.fill (hinit : s.initialized = true) (hf : f * bufferSize ≤ bytes.length) (hu : f < u + 2) :
    Inv bytes bufferSize err u (f + 1) (s.fill bufferSize err f.bodd) := by
  obtain ⟨hloading, hscanner⟩ := h
  have hle := hloading.le
  have hvacant := hloading.vacant f le_rfl hu
  have hdata : s.unread.take bufferSize = piece bytes bufferSize f := by rw [hloading.unread, piece]
  have hself : (s.fill bufferSize err f.bodd).buffers f.bodd = { s.buffers f.bodd with
      loaded := true
      buffer := piece bytes bufferSize f
      index := 0
      loaderIsWaiting := false
      readFileError := if (piece bytes bufferSize f).length < bufferSize then err else 0 } := by
    have herror := hvacant.error
    by_cases hshort : (piece bytes bufferSize f).length < bufferSize
    · by_cases herr : err = 0
      · simp [BufferedFileInput.fill, setBuffer, hdata, herror, herr]
      · simp [BufferedFileInput.fill, setBuffer, hdata, hshort, herr]
    · simp [BufferedFileInput.fill, setBuffer, hdata, hshort, herror]
  have hother : ∀ i, i ≠ f.bodd → (s.fill bufferSize err f.bodd).buffers i = s.buffers i := fun i hi => setBuffer_of_ne s hi _
  have hcurrent : u < f → (s.fill bufferSize err f.bodd).buffers u.bodd = s.buffers u.bodd := fun huf =>
    hother _ (bodd_ne_of_next (.inl (by omega)))
  refine ⟨⟨Nat.le_succ_of_le hle, hu, hloading.which, ?_, fun k hk hkf => ?_, fun k hk hku => ?_, fun k hk hkf => ?_, ?_⟩, ?_⟩
  · show s.unread.drop bufferSize = _
    rw [hloading.unread, drop_drop, Nat.succ_mul]
  · by_cases hkf' : k = f
    · rw [hkf', hself]
      exact ⟨rfl, rfl, rfl⟩
    · rw [hother _ (bodd_ne_of_next (.inl (by omega)))]
      exact hloading.filled k hk (by omega)
  · rw [hother _ (bodd_ne_of_next (.inr (by omega)))]
    exact hloading.vacant k (by omega) hku
  · by_cases hkf' : k = f
    · rw [hkf', hself]
    · rw [hother _ (bodd_ne_of_next (.inl (by omega)))]
      exact hloading.next k hk (by omega)
  · show LoaderAt bytes bufferSize u (f + 1) _ (if _ then _ else _)
    rw [hdata]
    by_cases hshort : (piece bytes bufferSize f).length < bufferSize
    · rw [if_pos (decide_eq_true hshort)]
      exact .finished f rfl hf ((length_piece_lt_iff hf).mp hshort)
    · rw [if_neg (by simpa using hshort), ← Nat.bodd_succ]
      exact .head (not_lt.mp fun hlt => hshort ((length_piece_lt_iff hf).mpr hlt))
  · show ScannerAt bytes bufferSize err u (f + 1) _ (if _ then _ else _)
    have hindex : u ≤ f → (u < f → (s.buffers u.bodd).index = 0) →
        ((s.fill bufferSize err f.bodd).buffers u.bodd).index = 0 := by
      intro hle hold
      rcases hle.lt_or_eq with hlt | rfl
      · rw [hcurrent hlt]
        exact hold hlt
      · rw [hself]
    generalize hpc : s.scanner = pc at hscanner
    cases hscanner with
    | new hinit' => exact absurd (hinit.symm.trans hinit') nofun
    | idle j m _ huf hindex' hj hlog heof hungot =>
      simp only [signal, ite_self]
      exact .idle j m hinit (Nat.lt_succ_of_lt huf) (by rw [hcurrent huf]; exact hindex') hj hlog heof hungot
    | starting _ hu' hlog hindex' =>
      simp only [signal, ite_self]
      exact .starting hinit hu' hlog fun _ => hindex hle hindex'
    | initWaiting _ hu' hlog hf' hflag =>
      have hflag' : (s.buffers f.bodd).scannerIsWaiting = true := by rwa [hf', ← hu']
      rw [if_pos hflag']
      exact .initWoken hinit hu' hlog (by omega) (hindex hle fun hlt => absurd hlt (by omega))
    | initWoken _ hu' hlog huf hindex' =>
      simp only [signal, ite_self]
      exact .initWoken hinit hu' hlog (by omega) (hindex hle fun _ => hindex')
    | releasing _ huf hfull hlog =>
      simp only [signal, ite_self]
      exact .releasing hinit (by omega) hfull hlog
    | switching _ hfull hlog hindex' =>
      simp only [signal, ite_self]
      exact .switching hinit hfull hlog fun _ => hindex hle hindex'
    | waiting _ hfull hlog hf' hflag =>
      have hflag' : (s.buffers f.bodd).scannerIsWaiting = true := by rwa [hf']
      rw [if_pos hflag']
      exact .woken hinit hfull hlog (by omega) (hindex hle fun hlt => absurd hlt (by omega))
    | woken _ hfull hlog huf hindex' =>
      simp only [signal, ite_self]
      exact .woken hinit hfull hlog (by omega) (hindex hle fun _ => hindex')
    | failed n _ hn herr hlog =>
      simp only [signal, ite_self]
      exact .failed n hinit hn herr hlog

lemma Inv.initialized (hloader : s.loader ≠ .notStarted) : s.initialized = true := by
  have hscanner := h.2
  generalize s.scanner = pc at hscanner
  cases hscanner with
  | new _ _ _ _ hnot => exact absurd hnot hloader
  | _ => assumption

lemma Inv.load (hs : step bufferSize err s .load = some s') :
    Inv bytes bufferSize err u f s' ∧ s'.scanner = s.scanner ∧ s'.loader.rank < s.loader.rank ∨
      Inv bytes bufferSize err u (f + 1) s' ∧ f < u + 2 ∧ (s'.scanner = s.scanner ∨ s'.scanner = s.scanner.signal) ∧
        s'.loader.rank ≤ s.loader.rank := by
  have hfill : ∀ i, 1 ≤ s.loader.rank → ((s.fill bufferSize err i).scanner = s.scanner ∨
      (s.fill bufferSize err i).scanner = s.scanner.signal) ∧ (s.fill bufferSize err i).loader.rank ≤ s.loader.rank := by
    intro i hrank
    refine ⟨?_, le_trans ?_ hrank⟩
    · rw [BufferedFileInput.fill]
      dsimp only
      split_ifs
      · exact .inr rfl
      · exact .inl rfl
    · rw [BufferedFileInput.fill]
      dsimp only
      split_ifs
      · exact Nat.zero_le 1
      · exact le_rfl
  have hloader := h.1.loader
  have hinitialized := h.initialized
  rw [step] at hs
  generalize hpc : s.loader = pc at hs hloader hinitialized hfill
  cases hloader with
  | notStarted | finished | waiting => exact nomatch hs
  | head hf =>
    dsimp only at hs
    split_ifs at hs with hloaded
    · cases hs
      have hu : f = u + 2 := by
        by_contra hne
        have := h.1.ahead
        rw [(h.1.vacant f le_rfl (by omega)).loaded] at hloaded
        exact nomatch hloaded
      refine .inl ⟨⟨h.1.congr rfl rfl (fun i => ?_) (fun i hi => ?_) ?_, ?_⟩, rfl, Nat.one_pos⟩
      · by_cases hi : i = f.bodd <;> simp [setBuffer, update, hi]
      · have hi' : i ≠ f.bodd := by simpa [hu] using hi
        exact congrArg FileBuffer.index (setBuffer_of_ne s hi' _)
      · exact .waiting hf hu (congrArg FileBuffer.loaderIsWaiting (setBuffer_self s f.bodd _))
      · refine h.2.congr rfl rfl rfl ?_ ?_ (fun hnot => absurd (hpc.symm.trans hnot) nofun)
        · by_cases hi : u.bodd = f.bodd <;> simp [setBuffer, update, hi]
        · by_cases hi : u.bodd = f.bodd <;> simp [setBuffer, update, hi]
    · cases hs
      have hu : f < u + 2 := by
        by_contra hle
        have hu : f = u + 2 := by have := h.1.ahead; omega
        have hfilled := (h.1.filled u le_rfl (by omega)).loaded
        rw [hu] at hloaded
        exact hloaded (by simpa [Nat.bodd_add] using hfilled)
      exact .inr ⟨h.fill (hinitialized nofun) hf hu, hu, hfill _ le_rfl⟩
  | woken hf hu =>
    cases hs
    exact .inr ⟨h.fill (hinitialized nofun) hf hu, hu, hfill _ le_rfl⟩

end

lemma Loading.serve_first (hsize : 0 < bufferSize) (h : Loading bytes bufferSize err u f s) (hinit : s.initialized = true)
    (hf : u < f) (hindex : (s.buffers u.bodd).index = 0) (hlog : s.log = chars bytes (u * bufferSize)) :
    Inv bytes bufferSize err u f (s.serve bufferSize) ∧ (s.serve bufferSize).scanner = .idle := by
  refine ⟨h.serve (j := 0) (m := 0) hinit hf hindex (Nat.zero_le _) ?_ fun h => absurd h (lt_irrefl 0),
    serve_scanner hsize (h.which ▸ hindex)⟩
  rw [hlog]
  simp

lemma Loading.checkFirst (hsize : 0 < bufferSize) (h : Loading bytes bufferSize err 0 f s) (hinit : s.initialized = true)
    (hf : 0 < f) (hindex : (s.buffers false).index = 0) (hlog : s.log = []) :
    Inv bytes bufferSize err 0 f (s.checkFirst bufferSize) ∧ ((s.checkFirst bufferSize).scanner = .failed ∨
        (s.checkFirst bufferSize).scanner = .idle ∧ (err = 0 ∨ bufferSize ≤ bytes.length)) := by
  have herror := (h.filled 0 le_rfl hf).error
  rw [BufferedFileInput.checkFirst]
  split_ifs with hzero
  · refine ⟨⟨h.move, ?_⟩, .inl rfl⟩
    rw [show s.buffers false = s.buffers (Nat.bodd 0) from rfl, herror] at hzero ⊢
    split_ifs at hzero ⊢ with hshort
    · exact .failed 0 hinit (Nat.zero_le _) hzero (by rw [raise, hlog]; rfl)
    · exact absurd rfl hzero
  · obtain ⟨hinv, hidle⟩ := h.serve_first hsize hinit hf hindex (by rw [hlog, zero_mul]; rfl)
    refine ⟨hinv, .inr ⟨hidle, ?_⟩⟩
    rw [show s.buffers false = s.buffers (Nat.bodd 0) from rfl, herror, not_ne_iff] at hzero
    split_ifs at hzero with hshort
    · exact .inl hzero
    · rw [length_piece_lt_iff (by simp)] at hshort
      exact .inr (by simpa using hshort)

lemma Loading.checkSwitched (hsize : 0 < bufferSize) (h : Loading bytes bufferSize err u f s)
    (hinit : s.initialized = true) (hf : u < f) (hfull : u * bufferSize ≤ bytes.length) (hindex : (s.buffers u.bodd).index = 0)
    (hlog : s.log = chars bytes (u * bufferSize)) : Inv bytes bufferSize err u f (s.checkSwitched bufferSize) ∧
      ((s.checkSwitched bufferSize).scanner = .failed ∨ (s.checkSwitched bufferSize).scanner = .idle ∧
          (err = 0 ∨ ((s.buffers !s.which).loaded = true → (u + 2) * bufferSize ≤ bytes.length))) := by
  have hnext : s.buffers (!s.which) = s.buffers (u + 1).bodd := by rw [h.which, Nat.bodd_succ]
  obtain ⟨hinv, hidle⟩ := h.serve_first hsize hinit hf hindex hlog
  rw [BufferedFileInput.checkSwitched, hnext]
  by_cases hloaded : u + 1 < f
  · have hfilled := h.filled (u + 1) (Nat.le_succ u) hloaded
    have hfull' := h.full hloaded
    split_ifs with hzero
    · refine ⟨⟨h.move, ?_⟩, .inl rfl⟩
      rw [hfilled.error] at hzero ⊢
      split_ifs at hzero ⊢ with hshort
      · exact .failed _ hinit hfull hzero (by rw [raise, hlog])
      · exact absurd rfl hzero
    · refine ⟨hinv, .inr ⟨hidle, ?_⟩⟩
      rw [hfilled.error, not_ne_iff] at hzero
      split_ifs at hzero with hshort
      · exact .inl hzero
      · rw [length_piece_lt_iff hfull', not_lt] at hshort
        exact .inr fun _ => hshort
  · have hvacant := h.vacant (u + 1) (not_lt.mp hloaded) (Nat.lt_succ_self _)
    rw [if_neg (by rw [hvacant.error]; exact fun h => h rfl)]
    refine ⟨hinv, .inr ⟨hidle, .inr ?_⟩⟩
    rw [hvacant.loaded]
    exact nofun

lemma Loading.release (h : Loading bytes bufferSize err u f s) (hinit : s.initialized = true) (hf : u < f)
    (hfull : (u + 1) * bufferSize ≤ bytes.length) (hlog : s.log = chars bytes ((u + 1) * bufferSize)) :
    Inv bytes bufferSize err (u + 1) f { s.setBuffer u.bodd { s.buffers u.bodd with loaded := false } with
        loader := if (s.buffers u.bodd).loaderIsWaiting then s.loader.signal else s.loader
        which := !u.bodd
        scanner := .switching } := by
  have hahead := h.ahead
  have hfilled := h.filled u le_rfl hf
  have hother : ∀ k, k = u + 1 → (s.setBuffer u.bodd { s.buffers u.bodd with loaded := false }).buffers k.bodd =
      s.buffers k.bodd := fun k hk => setBuffer_of_ne s (bodd_ne_of_next (.inr hk.symm)) _
  refine ⟨⟨hf, by omega, (Nat.bodd_succ u).symm, h.unread, fun k hk hkf => ?_, fun k hk hku => ?_, fun k hk hkf => ?_, ?_⟩,
    .switching hinit hfull hlog fun hf' => ?_⟩
  · rw [show buffers _ k.bodd = _ from hother k (by omega)]
    exact h.filled k (by omega) hkf
  · by_cases hk' : k = u + 1
    · rw [show buffers _ k.bodd = _ from hother k hk']
      exact h.vacant k hk (by omega)
    · have hbodd : k.bodd = u.bodd := by simp [show k = u + 2 by omega]
      rw [hbodd, show buffers _ u.bodd = _ from setBuffer_self s u.bodd _]
      refine ⟨rfl, hfilled.error.trans (if_neg ?_)⟩
      rw [length_piece_lt_iff (h.full hf)]
      exact not_lt.mpr hfull
  · omega
  · have hloader := h.loader
    generalize s.loader = pc at hloader
    cases hloader with
    | notStarted _ hf' => omega
    | head hf' =>
      simp only [LoaderPc.signal, ite_self]
      exact .head hf'
    | waiting hf' hu hflag =>
      have hflag' : (s.buffers u.bodd).loaderIsWaiting = true := by
        rw [hu] at hflag
        simpa using hflag
      rw [if_pos hflag']
      exact .woken hf' (by omega)
    | woken hf' hu =>
      simp only [LoaderPc.signal, ite_self]
      exact .woken hf' (by omega)
    | finished k hk hle hlt =>
      simp only [LoaderPc.signal, ite_self]
      exact .finished k hk hle hlt
  · rw [show buffers _ (u + 1).bodd = _ from hother (u + 1) rfl]
    exact h.next (u + 1) (Nat.lt_succ_self u) hf'

/-- How the scanner goes on. -/
inductive Scanned (bytes : List UInt8) (bufferSize err u : ℕ) (s s' : BufferedFileInput) : ℕ → Prop where
  | startsWaiting (h : s.scanner = .starting) (h' : s'.scanner = .initWaiting) : Scanned bytes bufferSize err u s s' u
  | waits (h : s.scanner = .switching) (h' : s'.scanner = .waiting) : Scanned bytes bufferSize err u s s' u
  | fails (h : 0 < s.scanner.rank ∧ s.scanner ≠ .releasing) (h' : s'.scanner = .failed) : Scanned bytes bufferSize err u s s' u
  | starts (h : s.scanner = .starting ∨ s.scanner = .initWoken) (h' : s'.scanner = .idle) (hu : u = 0)
      (hok : err = 0 ∨ bufferSize ≤ bytes.length) :
      Scanned bytes bufferSize err u s s' u
  | releases (h : s.scanner = .releasing) (h' : s'.scanner = .switching) : Scanned bytes bufferSize err u s s' (u + 1)
  | switches (h : s.scanner = .switching ∧ (s.buffers s.which).loaded = true ∨ s.scanner = .woken) (h' : s'.scanner = .idle)
      (hok : err = 0 ∨ ((s.buffers !s.which).loaded = true → (u + 2) * bufferSize ≤ bytes.length)) :
      Scanned bytes bufferSize err u s s' u

lemma Inv.scan (hsize : 0 < bufferSize) (h : Inv bytes bufferSize err u f s) (hs : step bufferSize err s .scan = some s') :
    ∃ u', Inv bytes bufferSize err u' f s' ∧ Scanned bytes bufferSize err u s s' u' := by
  obtain ⟨hloading, hscanner⟩ := h
  have hle := hloading.le
  have hwhich := hloading.which
  rw [step] at hs
  generalize hpc : s.scanner = pc at hs hscanner
  cases hscanner with
  | new | idle | initWaiting | waiting | failed => cases hs
  | starting hinit hu hlog hindex =>
    subst hu
    dsimp only at hs
    split_ifs at hs with hloaded
    · cases hs
      have hf : 0 < f := by
        by_contra hf
        have hvacant := (hloading.vacant 0 (by omega) (by omega)).loaded
        cases hloaded.symm.trans hvacant
      obtain ⟨hinv, hfailed | ⟨hidle, hok⟩⟩ := hloading.checkFirst hsize hinit hf (hindex hf) hlog
      · exact ⟨0, hinv, .fails (by rw [hpc]; decide) hfailed⟩
      · exact ⟨0, hinv, .starts (.inl hpc) hidle rfl hok⟩
    · cases hs
      have hf : f = 0 := by
        by_contra hf
        exact hloaded (hloading.filled 0 le_rfl (pos_of_ne_zero hf)).loaded
      refine ⟨0, ⟨hloading.touch .initWaiting s.log s.ungot rfl rfl rfl rfl, .initWaiting hinit rfl hlog hf ?_⟩,
        .startsWaiting hpc rfl⟩
      exact congrArg FileBuffer.scannerIsWaiting (setBuffer_self s false _)
  | initWoken hinit hu hlog hf hindex =>
    subst hu
    cases hs
    have htouch := hloading.touch (b := { s.buffers (Nat.bodd 0) with scannerIsWaiting := false }) s.scanner s.log s.ungot
      rfl rfl rfl rfl
    obtain ⟨hinv, hfailed | ⟨hidle, hok⟩⟩ := htouch.checkFirst hsize hinit hf
      ((congrArg FileBuffer.index (setBuffer_self s false _)).trans hindex) hlog
    · exact ⟨0, hinv, .fails (by rw [hpc]; decide) hfailed⟩
    · exact ⟨0, hinv, .starts (.inr hpc) hidle rfl hok⟩
  | releasing hinit hf hfull hlog =>
    rw [hwhich] at hs
    cases hs
    exact ⟨u + 1, hloading.release hinit hf hfull hlog, .releases hpc rfl⟩
  | switching hinit hfull hlog hindex =>
    rw [hwhich] at hs
    dsimp only at hs
    split_ifs at hs with hloaded
    · cases hs
      have hf : u < f := by
        by_contra hf
        have hvacant := (hloading.vacant u (by omega) (by omega)).loaded
        cases hloaded.symm.trans hvacant
      obtain ⟨hinv, hfailed | ⟨hidle, hok⟩⟩ := hloading.checkSwitched hsize hinit hf hfull (hindex hf) hlog
      · exact ⟨u, hinv, .fails (by rw [hpc]; decide) hfailed⟩
      · exact ⟨u, hinv, .switches (.inl ⟨hpc, by rw [hwhich]; exact hloaded⟩) hidle hok⟩
    · cases hs
      have hf : f = u := by
        by_contra hf
        exact hloaded (hloading.filled u le_rfl (by omega)).loaded
      refine ⟨u, ⟨hloading.touch .waiting s.log s.ungot rfl rfl rfl rfl, .waiting hinit hfull hlog hf ?_⟩, .waits hpc rfl⟩
      exact congrArg FileBuffer.scannerIsWaiting (setBuffer_self s u.bodd _)
  | woken hinit hfull hlog hf hindex =>
    rw [hwhich] at hs
    cases hs
    have htouch := hloading.touch (b := { s.buffers u.bodd with scannerIsWaiting := false }) s.scanner s.log s.ungot
      rfl rfl rfl rfl
    obtain ⟨hinv, hresult⟩ := htouch.checkSwitched hsize hinit hf hfull
      ((congrArg FileBuffer.index (setBuffer_self s u.bodd _)).trans hindex) hlog
    have hother : ((s.setBuffer u.bodd { s.buffers u.bodd with scannerIsWaiting := false }).buffers !s.which) =
        s.buffers !s.which := setBuffer_of_ne s (by simp [hwhich]) _
    rcases hresult with hfailed | ⟨hidle, hok⟩
    · exact ⟨u, hinv, .fails (by rw [hpc]; decide) hfailed⟩
    · refine ⟨u, hinv, .switches (.inr hpc) hidle (hok.imp_right fun himp hloaded => himp ?_)⟩
      exact (congrArg FileBuffer.loaded hother).trans hloaded

end BufferedFileInput

end SciDB.Util
