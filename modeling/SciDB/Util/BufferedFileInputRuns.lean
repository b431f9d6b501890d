import SciDB.Util.BufferedFileInput

/-!
# What the scanner gets

The bytes of the file come in order, and then `EOF`. Three things are in the way: a byte 255 is `EOF` already
(`getc_premature`), so is what a scanner gets that wakes up too early, and a read error is looked for in the wrong buffer after a
switch (`secondFill_eof`).
-/

namespace SciDB.Util

open SciDB.Lib List

namespace BufferedFileInput

variable {bytes : List UInt8} {bufferSize err u f : ℕ} {s s' : BufferedFileInput}

lemma Inv.getc (h : Inv bytes bufferSize err u f s) (hs : step bufferSize err s .getc = some s') :
    Inv bytes bufferSize err u f s' := by
  obtain ⟨hloading, hscanner⟩ := h
  rw [step] at hs
  generalize hpc : s.scanner = pc at hs hscanner
  cases hscanner with
  | new hinit hu hf hlog hloader =>
    rw [hinit] at hs
    cases hs
    refine ⟨hloading.congr rfl rfl (fun _ => ⟨rfl, rfl, rfl⟩) (fun _ _ => rfl) ?_, .starting rfl hu hlog fun hlt => ?_⟩
    · subst hf
      exact .head (by simp)
    · omega
  | idle j m hinit hu hindex hj hlog heof =>
    rw [hinit] at hs
    cases hs
    exact hloading.serve hinit hu hindex hj hlog heof
  | _ => cases hs

lemma dropLast_chars {n : ℕ} (h : n + 1 ≤ bytes.length) : (chars bytes (n + 1)).dropLast = chars bytes n := by
  rw [chars, chars, take_add_one, getElem?_eq_getElem h, map_append]
  exact dropLast_concat

lemma Inv.ungetc {c : UInt8} (h : Inv bytes bufferSize err u f s) (hok : Restricted s (.ungetc c))
    (hs : step bufferSize err s (.ungetc c) = some s') : Inv bytes bufferSize err u f s' := by
  obtain ⟨hloading, hscanner⟩ := h
  obtain ⟨hlast, hchar, hungot'⟩ := hok
  rw [step] at hs
  generalize hpc : s.scanner = pc at hs hscanner
  cases hscanner with
  | new hinit =>
    rw [hinit] at hs
    cases hs
  | idle j m hinit hu hindex hj hlog heof hungot =>
    have hm : m = 0 := by
      by_contra hm
      obtain ⟨m, rfl⟩ := Nat.exists_eq_succ_of_ne_zero hm
      rw [hlog, replicate_succ', ← append_assoc, getLast?_concat] at hlast
      exact hchar (Option.some.inj hlast).symm
    have hpos : 0 < j := (hungot hungot').resolve_right (by omega)
    obtain ⟨j, rfl⟩ := Nat.exists_eq_succ_of_ne_zero hpos.ne'
    rw [hm, replicate_zero, append_nil] at hlog
    rw [hinit, hloading.which] at hs
    dsimp only at hs
    rw [if_pos (by rw [hindex]; exact_mod_cast hpos)] at hs
    cases hs
    have hlen : u * bufferSize + j + 1 ≤ bytes.length := by
      rw [length_piece] at hj
      omega
    refine ⟨?_, ?_⟩
    · exact hloading.touch s.scanner s.log.dropLast true rfl rfl rfl rfl
    · show ScannerAt bytes bufferSize err u f _ s.scanner
      rw [hpc]
      refine .idle j 0 hinit hu ?_ (by omega) ?_ (fun h => absurd h (lt_irrefl 0)) fun h => by cases h
      · refine (congrArg FileBuffer.index (setBuffer_self s u.bodd _)).trans ?_
        rw [hindex]
        push_cast
        omega
      · show s.log.dropLast = _
        rw [hlog, replicate_zero, append_nil]
        exact dropLast_chars hlen
  | _ => cases hs

lemma inv_of_reaches {ok : BufferedFileInput → Action → Prop} (hsize : 0 < bufferSize)
    (hok : ∀ s a, ok s a → Restricted s a ∧ Signalled a) (h : Reaches (step bufferSize err) ok (create bytes) s) :
    ∃ u f, Inv bytes bufferSize err u f s := by
  refine h.invariant (I := fun s => ∃ u f, Inv bytes bufferSize err u f s) ⟨0, 0, inv_create bytes⟩ ?_
  rintro s s' a ⟨u, f, hinv⟩ ha hs
  cases a with
  | getc => exact ⟨u, f, hinv.getc hs⟩
  | ungetc c => exact ⟨u, f, hinv.ungetc (hok _ _ ha).1 hs⟩
  | scan =>
    obtain ⟨u', hinv', _⟩ := hinv.scan hsize hs
    exact ⟨u', f, hinv'⟩
  | load =>
    rcases hinv.load hs with ⟨hinv', _⟩ | ⟨hinv', _⟩
    · exact ⟨u, f, hinv'⟩
    · exact ⟨u, f + 1, hinv'⟩
  | wakeScanner | wakeLoader => exact (hok _ _ ha).2.elim

lemma serve_loader (bufferSize : ℕ) (s : BufferedFileInput) : (s.serve bufferSize).loader = s.loader := by
  rw [serve]
  split_ifs <;> try split
  all_goals rfl

lemma scan_loader (hs : step bufferSize err s .scan = some s') :
    s'.loader = s.loader ∨ s.scanner = .releasing ∧ s'.loader.rank ≤ s.loader.rank + 1 := by
  rw [step] at hs
  generalize hpc : s.scanner = pc at hs
  cases pc with
  | idle | initWaiting | waiting | failed => cases hs
  | starting =>
    dsimp only at hs
    split_ifs at hs <;> cases hs
    · rw [checkFirst]
      split_ifs
      · exact .inl rfl
      · exact .inl (serve_loader _ _)
    · exact .inl rfl
  | initWoken =>
    cases hs
    rw [checkFirst]
    split_ifs
    · exact .inl rfl
    · exact .inl (serve_loader _ _)
  | releasing =>
    cases hs
    refine .inr ⟨rfl, ?_⟩
    split_ifs
    · exact s.loader.rank_signal
    · exact Nat.le_succ _
  | switching =>
    dsimp only at hs
    split_ifs at hs <;> cases hs
    · rw [checkSwitched]
      split_ifs
      · exact .inl rfl
      · exact .inl (serve_loader _ _)
    · exact .inl rfl
  | woken =>
    cases hs
    rw [checkSwitched]
    split_ifs
    · exact .inl rfl
    · exact .inl (serve_loader _ _)

/-- A bound on the steps of the two threads to the end of a call. -/
def weight (u f : ℕ) (s : BufferedFileInput) : ℕ := 4 * (u + 2 - f) + s.loader.rank + s.scanner.rank

lemma Inv.weight_lt (hsize : 0 < bufferSize) (h : Inv bytes bufferSize err u f s) {a : Action} (ha : a = .scan ∨ a = .load)
    (hs : step bufferSize err s a = some s') : ∃ u' f', Inv bytes bufferSize err u' f' s' ∧ weight u' f' s' < weight u f s := by
  rcases ha with rfl | rfl
  · obtain ⟨u', hinv, hscanned⟩ := h.scan hsize hs
    refine ⟨u', f, hinv, ?_⟩
    have hloader := scan_loader hs
    have hle := h.1.le
    rw [weight, weight]
    cases hscanned with
    | startsWaiting hpc hpc' | waits hpc hpc' =>
      rw [hpc] at hloader ⊢
      rw [hpc', hloader.resolve_right nofun]
      exact Nat.add_lt_add_left (by decide) _
    | fails hpc hpc' =>
      rw [hpc', hloader.resolve_right fun h => hpc.2 h.1]
      exact Nat.add_lt_add_left hpc.1 _
    | starts hpc hpc' =>
      have hrank : 0 < s.scanner.rank ∧ s.scanner ≠ .releasing := by
        rcases hpc with hpc | hpc <;> rw [hpc] <;> decide
      rw [hpc', hloader.resolve_right fun h => hrank.2 h.1]
      exact Nat.add_lt_add_left hrank.1 _
    | switches hpc hpc' =>
      have hrank : 0 < s.scanner.rank ∧ s.scanner ≠ .releasing := by
        rcases hpc with ⟨hpc, _⟩ | hpc <;> rw [hpc] <;> decide
      rw [hpc', hloader.resolve_right fun h => hrank.2 h.1]
      exact Nat.add_lt_add_left hrank.1 _
    | releases hpc hpc' =>
      have hrank : s'.loader.rank ≤ s.loader.rank + 1 := by
        rcases hloader with hloader | ⟨_, hloader⟩
        · rw [hloader]
          exact Nat.le_succ _
        · exact hloader
      rw [hpc, hpc']
      simp only [ScannerPc.rank]
      omega
  · rcases h.load hs with ⟨hinv, hscanner, hrank⟩ | ⟨hinv, hu, hscanner, hrank⟩
    · refine ⟨u, f, hinv, ?_⟩
      rw [weight, weight, hscanner]
      omega
    · refine ⟨u, f + 1, hinv, ?_⟩
      have hsignal := s.scanner.rank_signal
      have hle : s'.scanner.rank ≤ s.scanner.rank + 1 := by
        rcases hscanner with hscanner | hscanner <;> rw [hscanner]
        · exact Nat.le_succ _
        · exact hsignal
      rw [weight, weight]
      omega

lemma Inv.bounded (hsize : 0 < bufferSize) (h : Inv bytes bufferSize err u f s) :
    ∃ bound, ∀ as : List Action, (∀ a ∈ as, a = .scan ∨ a = .load) → ∀ s', runActions (step bufferSize err) s as = some s' →
      as.length ≤ bound := by
  refine ⟨weight u f s, fun as has s' hrun => length_le_of_ranked
    (R := fun n s => ∃ u f, Inv bytes bufferSize err u f s ∧ weight u f s = n) ?_ ⟨u, f, h, rfl⟩ hrun⟩
  rintro _ s s' a ha ⟨u, f, hinv, rfl⟩ hs
  obtain ⟨u', f', hinv', hlt⟩ := hinv.weight_lt hsize (has a ha) hs
  exact ⟨_, hlt, u', f', hinv', rfl⟩

section

variable (h : Inv bytes bufferSize err u f s)

include h

lemma Inv.exists_load (hinit : s.initialized = true) (hf : f < u + 2) (hfull : f * bufferSize ≤ bytes.length) :
    ∃ s', step bufferSize err s .load = some s' := by
  have hloader := h.1.loader
  rw [step]
  generalize s.loader = pc at hloader
  cases hloader with
  | notStarted hinit' => cases hinit.symm.trans hinit'
  | head =>
    dsimp only
    split_ifs <;> exact ⟨_, rfl⟩
  | waiting _ hu => omega
  | woken => exact ⟨_, rfl⟩
  | finished _ _ _ hlt => omega

lemma Inv.exists_step (hidle : s.scanner ≠ .idle) (hfailed : s.scanner ≠ .failed) :
    (∃ s', step bufferSize err s .scan = some s') ∨ ∃ s', step bufferSize err s .load = some s' := by
  have hscanner := h.2
  have hload := h.exists_load
  rw [step]
  generalize s.scanner = pc at hscanner hidle hfailed
  cases hscanner with
  | new | idle => exact absurd rfl hidle
  | failed => exact absurd rfl hfailed
  | starting | switching =>
    split_ifs <;> exact .inl ⟨_, rfl⟩
  | initWoken | releasing | woken => exact .inl ⟨_, rfl⟩
  | initWaiting hinit hu _ hf => exact .inr (hload hinit (by omega) (by simp [hf]))
  | waiting hinit hfull _ hf => exact .inr (hload hinit (by omega) (by rwa [hf]))

lemma Inv.answered (hfailed : s.scanner ≠ .failed) : ∃ n m, s.log = chars bytes n ++ replicate m .eof ∧ n ≤ bytes.length ∧
      (0 < m → n = bytes.length ∧ s.scanner = .idle ∧ s.initialized = true ∧ bytes.length < (u + 1) * bufferSize) := by
  have hfull := fun hu => h.1.full (k := u) hu
  have hscanner := h.2
  have hnone : ∀ n, s.log = chars bytes n → n ≤ bytes.length → ∃ n m, s.log = chars bytes n ++ replicate m .eof ∧
      n ≤ bytes.length ∧
      (0 < m → n = bytes.length ∧ s.scanner = .idle ∧ s.initialized = true ∧ bytes.length < (u + 1) * bufferSize) :=
    fun n hlog hn => ⟨n, 0, by rw [hlog, replicate_zero, append_nil], hn, fun h => absurd h (lt_irrefl 0)⟩
  generalize hpc : s.scanner = pc at hscanner hfailed hnone
  cases hscanner with
  | new _ _ _ hlog | starting _ _ hlog | initWaiting _ _ hlog | initWoken _ _ hlog => exact hnone 0 hlog (Nat.zero_le _)
  | releasing _ _ hn hlog | switching _ hn hlog | waiting _ hn hlog | woken _ hn hlog => exact hnone _ hlog hn
  | failed => exact absurd rfl hfailed
  | idle j m hinit hu _ hj hlog heof =>
    rw [length_piece] at hj heof
    refine ⟨_, m, hlog, by omega, fun hm => ?_⟩
    refine ⟨by omega, rfl, hinit, ?_⟩
    rw [Nat.succ_mul]
    omega

end

lemma length_chars {n : ℕ} (h : n ≤ bytes.length) : (chars bytes n).length = n := by
  rw [chars, length_map, length_take_of_le h]

lemma log_eq {n m : ℕ} (hn : n ≤ bytes.length) (hm : 0 < m → n = bytes.length) :
    chars bytes n ++ replicate m .eof = (bytes.map Got.char ++ replicate (n + m) Got.eof).take (n + m) := by
  rcases Nat.eq_zero_or_pos m with rfl | hpos
  · rw [replicate_zero, append_nil, add_zero, take_append_of_le_length (by simpa using hn), chars, map_take]
  · rw [hm hpos, take_append, take_of_length_le (by simp), chars, take_length]
    simp

lemma eof_notMem_chars (hbytes : 255 ∉ bytes) (n : ℕ) : Got.eof ∉ chars bytes n := by
  intro h
  obtain ⟨c, hc, heq⟩ := mem_map.mp h
  cases heq
  exact hbytes (mem_of_mem_take hc)

/-- **The bytes of the file come in order, and then `EOF`**, if there is no read error and waits end by signals; `EOF` is not
returned before the end if no byte is 255. -/
theorem getc_faithful (hsize : 0 < bufferSize)
    (h : Reaches (step bufferSize 0) (fun s a => Restricted s a ∧ Signalled a) (create bytes) s) :
    s.log = (bytes.map Got.char ++ List.replicate s.log.length Got.eof).take s.log.length ∧
      (255 ∉ bytes → Got.eof ∈ s.log → bytes.length < s.log.length) ∧
      (s.scanner ≠ .idle → (∃ s', step bufferSize 0 s .scan = some s') ∨ ∃ s', step bufferSize 0 s .load = some s') ∧
      ∃ bound, ∀ as : List Action, (∀ a ∈ as, a = .scan ∨ a = .load) → ∀ s', runActions (step bufferSize 0) s as = some s' →
        as.length ≤ bound := by
  obtain ⟨u, f, hinv⟩ := inv_of_reaches hsize (fun _ _ => id) h
  have hfailed : s.scanner ≠ .failed := by
    intro hpc
    have hscanner := hinv.2
    rw [hpc] at hscanner
    cases hscanner with
    | failed _ _ _ herr => exact herr rfl
  obtain ⟨n, m, hlog, hn, hm⟩ := hinv.answered hfailed
  have hlength : s.log.length = n + m := by rw [hlog, length_append, length_chars hn, length_replicate]
  refine ⟨?_, fun hbytes heof => ?_, fun hidle => hinv.exists_step hidle hfailed, hinv.bounded hsize⟩
  · rw [hlength, hlog]
    exact log_eq hn fun hpos => (hm hpos).1
  · rw [hlog] at heof
    have hmem := (mem_append.mp heof).resolve_left (eof_notMem_chars hbytes n)
    have hpos : 0 < m := pos_of_ne_zero (mem_replicate.mp hmem).1
    have := (hm hpos).1
    omega

theorem twoBytes_faithful : ∃ s, Reaches (step 1 0) (fun s a => Restricted s a ∧ Signalled a) (create [7, 8]) s ∧
    s.log.length = 3 ∧ s.log = [.char 7, .char 8, .eof] := by
  obtain ⟨s, hs, hlength⟩ : ∃ s, Reaches (step 1 0) (fun s a => Restricted s a ∧ Signalled a) (create [7, 8]) s ∧
      s.log.length = 3 :=
    ⟨_, Reaches.start.run (by simp [Restricted, Signalled])
      (show runActions _ _ [.getc, .load, .load, .scan, .getc, .scan, .scan, .getc, .scan, .load, .scan] = some _ from rfl), rfl⟩
  refine ⟨s, hs, hlength, ?_⟩
  rw [(getc_faithful Nat.one_pos hs).1, hlength]
  rfl

/-- **`EOF` before the end**: for the byte 255, and for a scanner that wakes up while the first buffer is not loaded. -/
theorem getc_premature :
    (∃ s, Reaches (step 2 0) (fun s a => Restricted s a ∧ Signalled a) (create [255, 7]) s ∧ s.log = [.eof]) ∧
      ∃ s, Reaches (step 2 0) Restricted (create [7]) s ∧ s.scanner = .idle ∧ s.log = [.eof] := by
  refine ⟨⟨_, Reaches.start.run (by simp [Restricted, Signalled])
    (show runActions _ _ [.getc, .load, .scan] = some _ from rfl), rfl⟩, ?_⟩
  exact ⟨_, Reaches.start.run (by simp [Restricted])
    (show runActions _ _ [.getc, .scan, .wakeScanner, .scan] = some _ from rfl), rfl, rfl⟩

/-- After a switch, the loader has filled again the buffer that was left. -/
def LoaderAhead (s : BufferedFileInput) : Action → Prop
  | .scan =>
    s.scanner = .switching ∧ (s.buffers s.which).loaded = true ∨ s.scanner = .woken → (s.buffers !s.which).loaded = true
  | _ => True

/-- Only full pieces were seen. -/
def Full (bytes : List UInt8) (bufferSize u : ℕ) (s : BufferedFileInput) : Prop :=
  match s.scanner with
  | .idle => s.initialized = true → (u + 2) * bufferSize ≤ bytes.length
  | .releasing => (u + 2) * bufferSize ≤ bytes.length
  | .switching | .waiting | .woken => (u + 1) * bufferSize ≤ bytes.length
  | _ => True

lemma full_of_le (h : (u + 2) * bufferSize ≤ bytes.length) (s : BufferedFileInput) : Full bytes bufferSize u s := by
  have hle : (u + 1) * bufferSize ≤ bytes.length := (Nat.mul_le_mul_right _ (Nat.le_succ _)).trans h
  rw [Full]
  split
  · exact fun _ => h
  · exact h
  all_goals first | exact hle | trivial

section

variable (h : Full bytes bufferSize u s)

include h

lemma Full.scan {u' : ℕ} (herr : err ≠ 0) (hsecond : bytes.length < bufferSize ∨ 2 * bufferSize ≤ bytes.length)
    (hscanned : Scanned bytes bufferSize err u s s' u') (hahead : LoaderAhead s .scan) : Full bytes bufferSize u' s' := by
  rw [Full] at h
  cases hscanned with
  | startsWaiting _ hpc' | fails _ hpc' =>
    rw [Full, hpc']
    trivial
  | waits hpc hpc' =>
    rw [hpc] at h
    rwa [Full, hpc']
  | starts _ _ hu hok =>
    refine full_of_le ?_ s'
    have hlen := hok.resolve_left herr
    rw [hu, zero_add]
    exact hsecond.resolve_left (not_lt.mpr hlen)
  | releases hpc hpc' =>
    rw [hpc] at h
    rwa [Full, hpc']
  | switches hpc _ hok => exact full_of_le (hok.resolve_left herr (hahead hpc)) s'

lemma Full.getc (hs : step bufferSize err s .getc = some s') : Full bytes bufferSize u s' := by
  rw [Full] at h
  rw [step] at hs
  split at hs
  · cases hs
    trivial
  · rename_i hpc hinit
    rw [hpc] at h
    exact full_of_le (h hinit) s'
  · cases hs

lemma Full.ungetc {c : UInt8} (hs : step bufferSize err s (.ungetc c) = some s') : Full bytes bufferSize u s' := by
  rw [Full] at h
  rw [step] at hs
  split at hs
  · rename_i hpc hinit
    rw [hpc] at h
    exact full_of_le (h hinit) s'
  · cases hs

lemma Full.load (hinit : s.initialized = true) (hscanner : s'.scanner = s.scanner ∨ s'.scanner = s.scanner.signal) :
    Full bytes bufferSize u s' := by
  rw [Full] at h ⊢
  generalize hpc : s.scanner = pc at h hscanner
  rcases hscanner with hpc' | hpc' <;> rw [hpc']
  · cases pc with
    | idle => exact fun _ => h hinit
    | _ => exact h
  · cases pc with
    | idle => exact fun _ => h hinit
    | initWaiting => trivial
    | _ => exact h

end

lemma load_started (hs : step bufferSize err s .load = some s') : s.loader ≠ .notStarted := by
  intro hpc
  rw [step, hpc] at hs
  cases hs

lemma Inv.exists_ahead (h : Inv bytes bufferSize err u f s) (hfull : Full bytes bufferSize u s) (hidle : s.scanner ≠ .idle)
    (hfailed : s.scanner ≠ .failed) : ∃ a s', (a = .scan ∨ a = .load) ∧ LoaderAhead s a ∧ step bufferSize err s a = some s' := by
  by_cases hahead : LoaderAhead s .scan
  · rcases h.exists_step hidle hfailed with ⟨s', hs⟩ | ⟨s', hs⟩
    · exact ⟨.scan, s', .inl rfl, hahead, hs⟩
    · exact ⟨.load, s', .inr rfl, trivial, hs⟩
  · rw [LoaderAhead, Classical.not_imp] at hahead
    obtain ⟨hpc, hvacant⟩ := hahead
    have hf : f < u + 2 := by
      by_contra hle
      have hfilled := (h.1.filled (u + 1) (Nat.le_succ u) (by omega)).loaded
      rw [Nat.bodd_succ, ← h.1.which] at hfilled
      exact hvacant hfilled
    have hscanner := h.2
    rw [Full] at hfull
    have hready : s.initialized = true ∧ u < f ∧ (u + 1) * bufferSize ≤ bytes.length := by
      rcases hpc with ⟨hpc, hloaded⟩ | hpc
      · rw [hpc] at hfull hscanner
        cases hscanner with
        | switching hinit =>
          refine ⟨hinit, ?_, hfull⟩
          by_contra hle
          have hvacant' := (h.1.vacant u (not_lt.mp hle) (by omega)).loaded
          rw [← h.1.which] at hvacant'
          exact absurd (hloaded.symm.trans hvacant') nofun
      · rw [hpc] at hfull hscanner
        cases hscanner with
        | woken hinit _ _ hlt => exact ⟨hinit, hlt, hfull⟩
    obtain ⟨hinit, hlt, hlen⟩ := hready
    obtain ⟨s', hs⟩ := h.exists_load hinit hf (by rwa [show f = u + 1 by omega])
    exact ⟨.load, s', .inr rfl, trivial, hs⟩

lemma Inv.bytesOnly (hinv : Inv bytes bufferSize err u f s) (hfull : Full bytes bufferSize u s) :
    ∃ n ≤ bytes.length, s.scanner ≠ .failed ∧ s.log = chars bytes n ∨
      s.scanner = .failed ∧ s.log = chars bytes n ++ [.thrown err] := by
  by_cases hfailed : s.scanner = .failed
  · have hscanner := hinv.2
    rw [hfailed] at hscanner
    cases hscanner with
    | failed n _ hn _ hlog => exact ⟨n, hn, .inr ⟨hfailed, hlog⟩⟩
  · obtain ⟨n, m, hlog, hn, hm⟩ := hinv.answered hfailed
    refine ⟨n, hn, .inl ⟨hfailed, ?_⟩⟩
    have hzero : m = 0 := by
      by_contra hne
      obtain ⟨_, hpc, hinit, hlt⟩ := hm (Nat.pos_of_ne_zero hne)
      rw [Full, hpc] at hfull
      have hle := hfull hinit
      rw [Nat.add_mul] at hlt hle
      omega
    rw [hlog, hzero, replicate_zero, append_nil]

/-- **A read error is thrown**, if the loader is ahead and the second fill is not the one that fails. -/
theorem readError_throws (hsize : 0 < bufferSize) (herr : err ≠ 0) (hbytes : 255 ∉ bytes)
    (hsecond : bytes.length < bufferSize ∨ 2 * bufferSize ≤ bytes.length)
    (h : Reaches (step bufferSize err) (fun s a => (Restricted s a ∧ Signalled a) ∧ LoaderAhead s a) (create bytes) s) :
    Got.eof ∉ s.log ∧ (∃ n ≤ bytes.length, s.scanner ≠ .failed ∧ s.log = chars bytes n ∨
        s.scanner = .failed ∧ s.log = chars bytes n ++ [.thrown err]) ∧ (s.scanner ≠ .idle → s.scanner ≠ .failed →
        ∃ a s', (a = .scan ∨ a = .load) ∧ LoaderAhead s a ∧ step bufferSize err s a = some s') ∧
      ∃ bound, ∀ as : List Action, (∀ a ∈ as, a = .scan ∨ a = .load) →
        ∀ s', runActions (step bufferSize err) s as = some s' → as.length ≤ bound := by
  obtain ⟨u, f, hinv, hfull⟩ : ∃ u f, Inv bytes bufferSize err u f s ∧ Full bytes bufferSize u s := by
    refine h.invariant (I := fun s => ∃ u f, Inv bytes bufferSize err u f s ∧ Full bytes bufferSize u s)
      ⟨0, 0, inv_create bytes, nofun⟩ ?_
    rintro s s' a ⟨u, f, hinv, hfull⟩ ⟨hok, hahead⟩ hs
    cases a with
    | getc => exact ⟨u, f, hinv.getc hs, hfull.getc hs⟩
    | ungetc c => exact ⟨u, f, hinv.ungetc hok.1 hs, hfull.ungetc hs⟩
    | scan =>
      obtain ⟨u', hinv', hscanned⟩ := hinv.scan hsize hs
      exact ⟨u', f, hinv', hfull.scan herr hsecond hscanned hahead⟩
    | load =>
      have hinit := hinv.initialized (load_started hs)
      rcases hinv.load hs with ⟨hinv', hscanner, _⟩ | ⟨hinv', _, hscanner, _⟩
      · exact ⟨u, f, hinv', hfull.load hinit (.inl hscanner)⟩
      · exact ⟨u, f + 1, hinv', hfull.load hinit hscanner⟩
    | wakeScanner | wakeLoader => exact hok.2.elim
  have hlog := hinv.bytesOnly hfull
  refine ⟨?_, hlog, hinv.exists_ahead hfull, hinv.bounded hsize⟩
  obtain ⟨n, -, ⟨-, hlog⟩ | ⟨-, hlog⟩⟩ := hlog
  · rw [hlog]
    exact eof_notMem_chars hbytes n
  · rw [hlog, mem_append, not_or]
    exact ⟨eof_notMem_chars hbytes n, by simp [Got.eof]⟩

theorem firstFill_throws :
    ∃ s, Reaches (step 2 5) (fun s a => (Restricted s a ∧ Signalled a) ∧ LoaderAhead s a) (create [7]) s ∧
      s.scanner = .failed ∧ ∃ n ≤ 1, s.log = chars [7] n ++ [.thrown 5] := by
  obtain ⟨s, hs, hfailed⟩ : ∃ s, Reaches (step 2 5) (fun s a => (Restricted s a ∧ Signalled a) ∧ LoaderAhead s a) (create [7]) s ∧
      s.scanner = .failed := by
    have hcalled : Reaches (step 2 5) (fun s a => (Restricted s a ∧ Signalled a) ∧ LoaderAhead s a) (create [7]) _ :=
      .step (a := .getc) .start ⟨⟨trivial, trivial⟩, trivial⟩ rfl
    have hloaded := hcalled.step (a := Action.load) ⟨⟨trivial, trivial⟩, trivial⟩ rfl
    refine ⟨_, hloaded.step (a := Action.scan) ⟨⟨trivial, trivial⟩, ?_⟩ rfl, rfl⟩
    rintro (⟨hpc, _⟩ | hpc) <;> exact nomatch hpc
  obtain ⟨n, hn, ⟨hnot, _⟩ | ⟨_, hlog⟩⟩ := (readError_throws Nat.two_pos (by decide) (by decide) (.inl (by decide)) hs).2.1
  · exact absurd hfailed hnot
  · exact ⟨s, hs, hfailed, n, hn, hlog⟩

end BufferedFileInput

/-- The second fill fails: the error is not noticed, and `EOF` is returned after the first byte. -/
theorem secondFill_eof : ((runActions (BufferedFileInput.step 1 5) (.create [7])
      [.getc, .load, .load, .scan, .getc, .scan, .scan]).map BufferedFileInput.log) = some [.char 7, .eof] := by
  decide

end SciDB.Util
