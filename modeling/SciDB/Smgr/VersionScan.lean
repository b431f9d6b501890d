import SciDB.Smgr.RemoveVersions
import SciDB.Smgr.Rollback

/-!
# Scanning a version

What repeated calls of `findNextChunk` find. It jumps by adding the chunk interval to the last coordinate, so nothing may stand
between a chunk and the next place of the grid (`OnGrid`), and the sum must not leave `int64` (`PlacesFit`): else the scan goes
back, and does not end.
-/

namespace SciDB.Smgr

open SciDB.Lib List Option

/-- The keys of a chunk map are positions of chunks. -/
structure OnGrid (interval : ℤ) (m : InnerChunkMap) : Prop where
  interval_lt : interval < 2 ^ 63
  nonempty : ∀ e ∈ m.entries, e.1.coords ≠ []
  same_length : ∀ e ∈ m.entries, ∀ e' ∈ m.entries, e.1.coords.length = e'.1.coords.length
  aligned : ∀ e ∈ m.entries, ∀ e' ∈ m.entries, ∀ x ∈ e.1.coords.getLast?, ∀ y ∈ e'.1.coords.getLast?, interval ∣ y - x
  int64 : ∀ e ∈ m.entries, ∀ x ∈ e.1.coords.getLast?, IsInt64 x

/-- The place behind each chunk of the attribute, in the version or an earlier one, is an `int64`. -/
def PlacesFit (interval : ℤ) (m : InnerChunkMap) (attId : ℕ) (v : ArrayID) : Prop :=
  ∀ e ∈ m.entries, e.1.attId = attId → e.1.arrId ≤ v → ∀ x ∈ e.1.coords.getLast?, x + interval < 2 ^ 63

/-- The version `v` has a chunk with this address for which the instance is responsible. -/
def HasChunk (m : InnerChunkMap) (v : ArrayID) (responsible : ChunkHeader → Bool) (a : StorageAddress) : Prop :=
  a.arrId ≤ v ∧ (∀ e ∈ m.entries, a.sameBaseAddr e.1 → e.1.arrId ≤ v → e.1.arrId ≤ a.arrId) ∧
    ∃ hdr, (a, .normal hdr) ∈ m.entries ∧ responsible hdr = true

namespace CachedStorage

/-- Calls of `findNextChunk` from an address on, until it finds none. -/
def scanChunks (s : CachedStorage) (desc : ArrayDesc) (responsible : ChunkHeader → Bool) :
    ℕ → StorageAddress → Option (List StorageAddress)
  | 0, _ => none
  | fuel + 1, address =>
    match s.findNextChunk desc responsible address with
    | none => none
    | some (false, _) => some []
    | some (true, found) => (scanChunks s desc responsible fuel found).map (found :: ·)

end CachedStorage

lemma length_bumpLast (interval : ℤ) : ∀ xs : List ℤ, (bumpLast interval xs).length = xs.length
  | [] => rfl
  | [_] => rfl
  | x :: y :: xs => by
    rw [bumpLast, length_cons, length_bumpLast interval (y :: xs)]
    rfl

lemma lt_bumpLast {interval : ℤ} (hpos : 0 < interval) : ∀ {xs : List ℤ}, xs ≠ [] →
    (∀ x ∈ xs.getLast?, -2 ^ 63 ≤ x ∧ x + interval < 2 ^ 63) → xs < bumpLast interval xs
  | [x], _, hfit => by
    obtain ⟨h1, h2⟩ := hfit x rfl
    rw [bumpLast, int64_eq ⟨by omega, h2⟩, cons_lt_cons_iff]
    exact Or.inl (by omega)
  | x :: y :: xs, _, hfit => by
    rw [bumpLast, cons_lt_cons_iff]
    exact Or.inr ⟨rfl, lt_bumpLast hpos (cons_ne_nil y xs) (by simpa using hfit)⟩

lemma bumpLast_le {interval : ℤ} (hpos : 0 < interval) : ∀ {xs ys : List ℤ}, xs.length = ys.length →
    (∀ x ∈ xs.getLast?, ∀ y ∈ ys.getLast?, interval ∣ y - x) → (∀ x ∈ xs.getLast?, -2 ^ 63 ≤ x ∧ x + interval < 2 ^ 63) →
    xs < ys → bumpLast interval xs ≤ ys
  | [], _, _, _, _, hlt => hlt.le
  | [x], [y], _, hgrid, hfit, hlt => by
    obtain ⟨h1, h2⟩ := hfit x rfl
    have hxy : x < y := by simpa [cons_lt_cons_iff] using hlt
    have hle := Int.le_of_dvd (by omega) (hgrid x rfl y rfl)
    rw [bumpLast, int64_eq ⟨by omega, h2⟩, ← not_lt, cons_lt_cons_iff]
    rintro (h | ⟨-, h⟩)
    · omega
    · exact lt_irrefl _ h
  | x :: x' :: xs, y :: y' :: ys, hlen, hgrid, hfit, hlt => by
    rw [bumpLast, ← not_lt, cons_lt_cons_iff]
    rw [cons_lt_cons_iff] at hlt
    rintro (h | ⟨rfl, h⟩)
    · rcases hlt with hlt | ⟨rfl, -⟩ <;> omega
    · have hrest := hlt.resolve_left (lt_irrefl _)
      exact not_le.mpr h (bumpLast_le hpos (by simpa using hlen) (by simpa using hgrid) (by simpa using hfit) hrest.2)

variable {m : InnerChunkMap} {a b : StorageAddress} {interval : ℤ} {responsible : ChunkHeader → Bool}
  {e : StorageAddress × InnerChunkMapEntry} {r : Bool × StorageAddress}

open StorageAddress

lemma OnGrid.fits (h : OnGrid interval m) (he : e ∈ m.entries) (hx : ∀ x ∈ e.1.coords.getLast?, x + interval < 2 ^ 63) :
    ∀ x ∈ e.1.coords.getLast?, -2 ^ 63 ≤ x ∧ x + interval < 2 ^ 63 := fun x hlast => ⟨(h.int64 e he x hlast).1, hx x hlast⟩

lemma OnGrid.lt_bump (h : OnGrid interval m) (hpos : 0 < interval) (he : e ∈ m.entries) (hatt : e.1.attId = a.attId)
    (hx : ∀ x ∈ e.1.coords.getLast?, x + interval < 2 ^ 63) : e.1 < { a with coords := bumpLast interval e.1.coords } := by
  rw [lt_iff]
  exact .inr ⟨hatt, .inr ⟨(length_bumpLast interval e.1.coords).symm,
    .inl (lt_bumpLast hpos (h.nonempty e he) (h.fits he hx))⟩⟩

lemma OnGrid.bumpLast_le (h : OnGrid interval m) (hpos : 0 < interval) {e' : StorageAddress × InnerChunkMapEntry}
    (he : e ∈ m.entries) (he' : e' ∈ m.entries) (hx : ∀ x ∈ e.1.coords.getLast?, x + interval < 2 ^ 63)
    (hlt : e.1.coords < e'.1.coords) : bumpLast interval e.1.coords ≤ e'.1.coords :=
  Smgr.bumpLast_le hpos (h.same_length e he e' he') (h.aligned e he e' he') (h.fits he hx) hlt

/-- The entries that are ahead. -/
def ahead (m : InnerChunkMap) (a : StorageAddress) : ℕ := (m.entries.filter fun e => a ≤ e.1).length

lemma ahead_lt {b : StorageAddress} (he : e ∈ m.entries) (hae : a ≤ e.1) (hb : e.1 < b) : ahead m b < ahead m a := by
  have hsub : (m.entries.filter fun e => b ≤ e.1).Sublist (m.entries.filter fun e => a ≤ e.1) := by
    refine monotone_filter_right m.entries fun x hx => ?_
    simp only [decide_eq_true_eq] at hx ⊢
    exact hae.trans (hb.le.trans hx)
  refine lt_of_le_of_ne hsub.length_le fun heq => ?_
  have hmem : e ∈ m.entries.filter fun e => a ≤ e.1 := mem_filter.mpr ⟨he, decide_eq_true hae⟩
  rw [← hsub.eq_of_length heq, mem_filter] at hmem
  exact absurd (of_decide_eq_true hmem.2) (not_le.mpr hb)

lemma findNextLoop_ends (hgrid : OnGrid interval m) (hpos : 0 < interval) (fuel : ℕ) : ∀ a : StorageAddress,
      PlacesFit interval m a.attId a.arrId → ahead m a < fuel → ∃ r, findNextLoop responsible interval m fuel a = some r := by
  induction fuel with
  | zero => intro a _ h; exact absurd h (Nat.not_lt_zero _)
  | succ fuel ih =>
    intro a hfit h
    rw [findNextLoop]
    cases hn : nextEntry m a with
    | none => exact ⟨_, rfl⟩
    | some e =>
      obtain ⟨hmem, hs, -⟩ := nextEntry_eq_some_iff.mp hn
      have hlt := ahead_lt hmem hs.1 (hgrid.lt_bump hpos hmem hs.2.1 (hfit e hmem hs.2.1 hs.2.2))
      obtain ⟨r, hr⟩ := ih { a with coords := bumpLast interval e.1.coords } hfit (by omega)
      obtain ⟨found, entry⟩ := e
      cases entry with
      | normal hdr =>
        simp only
        split_ifs
        · exact ⟨_, rfl⟩
        · exact ⟨r, hr⟩
      | tombstone _ => exact ⟨r, hr⟩
      | invalid _ => exact ⟨r, hr⟩

lemma OnGrid.moved_le_iff (h : OnGrid interval m) (hpos : 0 < interval) {e' : StorageAddress × InnerChunkMapEntry} {v : ArrayID}
    (he : e ∈ m.entries) (he' : e' ∈ m.entries) (hatt : e.1.attId = e'.1.attId) (hv : e'.1.arrId ≤ v)
    (hx : ∀ x ∈ e.1.coords.getLast?, x + interval < 2 ^ 63) :
    ⟨e.1.attId, bumpLast interval e.1.coords, v⟩ ≤ e'.1 ↔ e.1.coords < e'.1.coords := by
  have hlen := h.same_length e he e' he'
  have hbump := lt_bumpLast hpos (h.nonempty e he) (h.fits he hx)
  rw [← not_lt, lt_iff]
  rw [length_bumpLast, hatt]
  constructor
  · intro hnot
    by_contra hle
    exact hnot (.inr ⟨rfl, .inr ⟨hlen.symm, .inl ((not_lt.mp hle).trans_lt hbump)⟩⟩)
  · rintro hlt (hatt' | ⟨-, hlen' | ⟨-, hlt' | ⟨-, hv'⟩⟩⟩)
    · exact lt_irrefl _ hatt'
    · exact hlen'.ne hlen.symm
    · exact absurd (h.bumpLast_le hpos he he' hx hlt) (not_le.mpr hlt')
    · exact absurd hv (not_le.mpr hv')

/-- The first chunk from `a` on. -/
def FindsFrom (m : InnerChunkMap) (responsible : ChunkHeader → Bool) (a : StorageAddress) (r : Bool × StorageAddress) : Prop :=
  if r.1 then
    HasChunk m a.arrId responsible r.2 ∧ r.2.attId = a.attId ∧ a ≤ r.2 ∧
      ∀ b, HasChunk m a.arrId responsible b → b.attId = a.attId → a ≤ b → r.2 ≤ b
  else ∀ b, HasChunk m a.arrId responsible b → b.attId = a.attId → ¬a ≤ b

lemma newest_of_nextEntry (h : nextEntry m a = some e) {e' : StorageAddress × InnerChunkMapEntry} (he' : e' ∈ m.entries)
    (hsame : e.1.sameBaseAddr e'.1) (hv : e'.1.arrId ≤ a.arrId) : e'.1.arrId ≤ e.1.arrId := by
  obtain ⟨hmem, hs, hmin⟩ := nextEntry_eq_some_iff.mp h
  rcases le_total e.1 e'.1 with hle | hle
  · exact (le_iff_of_sameBaseAddr hsame).mp hle
  · have hae' : a ≤ e'.1 := by
      by_contra hnot
      -- then `a` is between the two, and so at their place
      have hplace := sameBaseAddr_of_between hsame.symm (not_le.mp hnot).le hs.1
      exact hnot ((le_iff_of_sameBaseAddr hplace.symm).mpr hv)
    exact (le_iff_of_sameBaseAddr hsame).mp (hmin e' he' ⟨hae', hsame.1.symm.trans hs.2.1, hv⟩)

lemma FindsFrom.pass (hgrid : OnGrid interval m) (hfit : PlacesFit interval m a.attId a.arrId) (hpos : 0 < interval)
    (hnext : nextEntry m a = some e) (hnot : ¬HasChunk m a.arrId responsible e.1)
    (h : FindsFrom m responsible { a with coords := bumpLast interval e.1.coords } r) : FindsFrom m responsible a r := by
  obtain ⟨hmem, hs, hmin⟩ := nextEntry_eq_some_iff.mp hnext
  have hx := hfit e hmem hs.2.1 hs.2.2
  have hmoved : a ≤ { a with coords := bumpLast interval e.1.coords } :=
    hs.1.trans (hgrid.lt_bump hpos hmem hs.2.1 hx).le
  -- a chunk of the version from `a` on is at a later place
  have hlater : ∀ b, HasChunk m a.arrId responsible b → b.attId = a.attId → a ≤ b →
      { a with coords := bumpLast interval e.1.coords } ≤ b := by
    intro b hb hatt hab
    obtain ⟨hv, hmax, hdr, hbmem, -⟩ := id hb
    have heb : e.1 ≤ b := hmin _ hbmem ⟨hab, hatt, hv⟩
    have hne : e.1.coords ≠ b.coords := fun hcoords => by
      have hsame : b.sameBaseAddr e.1 := ⟨hatt.trans hs.2.1.symm, hcoords.symm⟩
      have hle := hmax e hmem hsame hs.2.2
      have hge := (le_iff_of_sameBaseAddr hsame.symm).mp heb
      exact hnot (StorageAddress.ext hsame.1 hsame.2 (le_antisymm hge hle) ▸ hb)
    have hlt : e.1.coords < b.coords := by
      refine lt_of_le_of_ne (not_lt.mp fun hlt => not_lt.mpr heb ?_) hne
      exact lt_iff.mpr (.inr ⟨hatt.trans hs.2.1.symm, .inr ⟨hgrid.same_length _ hbmem e hmem, .inl hlt⟩⟩)
    have hiff := @OnGrid.moved_le_iff m interval e hgrid hpos (b, .normal hdr) a.arrId hmem hbmem (hs.2.1.trans hatt.symm) hv hx
    rw [hs.2.1] at hiff
    exact hiff.mpr hlt
  obtain ⟨found, address⟩ := r
  cases found with
  | true =>
    obtain ⟨hchunk, hatt, hle, hleast⟩ := h
    exact ⟨hchunk, hatt, hmoved.trans hle, fun b hb hbatt hab => hleast b hb hbatt (hlater b hb hbatt hab)⟩
  | false => exact fun b hb hbatt hab => h b hb hbatt (hlater b hb hbatt hab)

lemma findNextLoop_finds (hgrid : OnGrid interval m) (hfit : PlacesFit interval m a.attId a.arrId) (hpos : 0 < interval) {fuel : ℕ}
    (h : findNextLoop responsible interval m fuel a = some r) : FindsFrom m responsible a r := by
  induction fuel generalizing a with
  | zero => cases h
  | succ fuel ih =>
    rw [findNextLoop] at h
    cases hnext : nextEntry m a with
    | none =>
      rw [hnext] at h
      cases h
      rintro b ⟨hv, -, hdr, hbmem, -⟩ hatt hab
      exact nextEntry_eq_none_iff.mp hnext _ hbmem ⟨hab, hatt, hv⟩
    | some e =>
      obtain ⟨hmem, hs, hmin⟩ := nextEntry_eq_some_iff.mp hnext
      rw [hnext] at h
      have hpass : (∀ hdr, e.2 = .normal hdr → responsible hdr = false) →
          findNextLoop responsible interval m fuel { a with coords := bumpLast interval e.1.coords } = some r →
          FindsFrom m responsible a r := fun hskip hloop => by
        refine FindsFrom.pass hgrid hfit hpos hnext (fun hchunk => ?_) (ih hfit hloop)
        obtain ⟨-, -, hdr, hmem', hresp⟩ := hchunk
        have := hskip hdr (OrdMap.eq_of_mem hmem hmem')
        rw [hresp] at this
        cases this
      obtain ⟨found, entry⟩ := e
      cases entry with
      | normal hdr =>
        simp only at h
        split_ifs at h with hresp
        · cases h
          refine ⟨⟨hs.2.2, fun e' he' hsame hv => newest_of_nextEntry hnext he' hsame hv, hdr, hmem, hresp⟩, hs.2.1, hs.1, ?_⟩
          rintro b ⟨hv, -, hdr', hbmem, -⟩ hatt hab
          exact hmin _ hbmem ⟨hab, hatt, hv⟩
        · exact hpass (fun hdr' heq => by cases heq; simpa using hresp) h
      | tombstone _ => exact hpass (fun _ heq => by cases heq) h
      | invalid _ => exact hpass (fun _ heq => by cases heq) h

section Scan

variable {s : CachedStorage} {desc : ArrayDesc}

/-- All chunks from `a` on. -/
def ScansFrom (m : InnerChunkMap) (responsible : ChunkHeader → Bool) (a : StorageAddress) (found : List StorageAddress) : Prop :=
  found.Pairwise (fun b c => b.coords < c.coords) ∧
    ∀ b, b ∈ found ↔ HasChunk m a.arrId responsible b ∧ b.attId = a.attId ∧ a ≤ b

lemma ScansFrom.cons (hgrid : OnGrid desc.chunkInterval m) (hfit : PlacesFit desc.chunkInterval m a.attId a.arrId)
    {first : StorageAddress} {found : List StorageAddress} (hfirst : FindsFrom m responsible a (true, first))
    (h : ScansFrom m responsible ⟨a.attId, bumpLast desc.chunkInterval first.coords, a.arrId⟩ found) :
    ScansFrom m responsible a (first :: found) := by
  obtain ⟨hchunk, hatt, hle, hleast⟩ := hfirst
  obtain ⟨hsorted, hfound⟩ := h
  obtain ⟨hv, hmax, hdr, hmem, hresp⟩ := id hchunk
  have hx := hfit _ hmem hatt hv
  -- behind the first chunk are those at later places
  have hbehind : ∀ b, HasChunk m a.arrId responsible b → b.attId = a.attId →
      (⟨a.attId, bumpLast desc.chunkInterval first.coords, a.arrId⟩ ≤ b ↔ first.coords < b.coords) := by
    rintro b ⟨hbv, -, hdr', hbmem, -⟩ hbatt
    have hiff := @OnGrid.moved_le_iff m desc.chunkInterval (first, .normal hdr) hgrid desc.interval_pos (b, .normal hdr') a.arrId
      hmem hbmem (hatt.trans hbatt.symm) hbv hx
    rwa [← hatt]
  refine ⟨pairwise_cons.mpr ⟨fun b hb => ?_, hsorted⟩, fun b => ?_⟩
  · obtain ⟨hbchunk, hbatt, hab⟩ := (hfound b).mp hb
    exact (hbehind b hbchunk hbatt).mp hab
  · rw [mem_cons, hfound]
    constructor
    · rintro (rfl | ⟨hbchunk, hbatt, hab⟩)
      · exact ⟨hchunk, hatt, hle⟩
      · refine ⟨hbchunk, hbatt, hle.trans ?_⟩
        exact (hgrid.lt_bump (a := a) desc.interval_pos hmem hatt hx).le.trans hab
    · rintro ⟨hbchunk, hbatt, hab⟩
      obtain ⟨hbv, hbmax, hdr', hbmem, -⟩ := id hbchunk
      have hfb : first ≤ b := hleast b hbchunk hbatt hab
      by_cases hcoords : first.coords = b.coords
      · -- both are the newest of one place
        have hsame : first.sameBaseAddr b := ⟨hatt.trans hbatt.symm, hcoords⟩
        have hge := hmax _ hbmem hsame hbv
        have hle' := hbmax _ hmem hsame.symm hv
        exact .inl (StorageAddress.ext hsame.1.symm hsame.2.symm (le_antisymm hge hle'))
      · refine .inr ⟨hbchunk, hbatt, (hbehind b hbchunk hbatt).mpr (lt_of_le_of_ne (not_lt.mp fun hlt => ?_) hcoords)⟩
        exact not_lt.mpr hfb (lt_iff.mpr (.inr ⟨hbatt.trans hatt.symm, .inr ⟨hgrid.same_length _ hbmem _ hmem, .inl hlt⟩⟩))

lemma exists_scanChunks (hm : s.chunkMap.find? desc.uaId = some m) (hgrid : OnGrid desc.chunkInterval m) (attId : ℕ)
    (hfit : PlacesFit desc.chunkInterval m attId desc.id) (fuel : ℕ) : ∀ address : StorageAddress, address.attId = attId →
      ahead m ⟨attId, bumpLast desc.chunkInterval address.coords, desc.id⟩ < fuel →
      ∃ found, s.scanChunks desc responsible fuel address = some found ∧
        ScansFrom m responsible ⟨attId, bumpLast desc.chunkInterval address.coords, desc.id⟩ found := by
  induction fuel with
  | zero => exact fun _ _ h => absurd h (Nat.not_lt_zero _)
  | succ fuel ih =>
    rintro address rfl hahead
    obtain ⟨⟨found, next⟩, hloop⟩ := @findNextLoop_ends m desc.chunkInterval responsible hgrid desc.interval_pos
      (m.entries.length + 1) ⟨address.attId, bumpLast desc.chunkInterval address.coords, desc.id⟩ hfit
      (Nat.lt_succ_of_le (length_filter_le _ _))
    have hcall : s.findNextChunk desc responsible address = some (found, next) := by
      rwa [CachedStorage.findNextChunk, hm]
    have hfinds := findNextLoop_finds hgrid hfit desc.interval_pos hloop
    rw [CachedStorage.scanChunks, hcall]
    cases found with
    | false => exact ⟨[], rfl, List.Pairwise.nil, fun b => iff_of_false not_mem_nil fun hb => hfinds b hb.1 hb.2.1 hb.2.2⟩
    | true =>
      obtain ⟨⟨hv, -, hdr, hmem, -⟩, hatt, hle, -⟩ := id hfinds
      have hless := ahead_lt (e := (next, .normal hdr)) hmem hle
        (hgrid.lt_bump (a := ⟨address.attId, bumpLast desc.chunkInterval address.coords, desc.id⟩) desc.interval_pos hmem hatt
          (hfit _ hmem hatt hv))
      obtain ⟨rest, hrest, hscans⟩ := ih next hatt (by dsimp only at hless ⊢; omega)
      refine ⟨next :: rest, ?_, ScansFrom.cons hgrid hfit hfinds hscans⟩
      dsimp only
      rw [hrest]
      rfl

lemma findChunk_eq_true_iff (hm : s.chunkMap.find? desc.uaId = some m) {address : StorageAddress} :
    s.findChunk desc (some responsible) address = (true, b) ↔ address.sameBaseAddr b ∧ HasChunk m desc.id responsible b := by
  rw [CachedStorage.findChunk, hm]
  dsimp only
  constructor
  · intro h
    split at h
    · next found hdr hvisible =>
      obtain ⟨hmem, hsame, hv, hmax⟩ := visible?_eq_some_iff.mp hvisible
      rw [all_some] at h
      by_cases hresp : responsible hdr = true
      case neg =>
        rw [if_neg hresp] at h
        cases h
      rw [if_pos hresp] at h
      obtain ⟨-, rfl⟩ := Prod.mk.inj h
      have hfound : address.withVersion found.arrId = found := StorageAddress.ext hsame.1 hsame.2 rfl
      rw [hfound]
      refine ⟨hsame, hv, fun e he hsame' hv' => hmax e he ?_ hv', hdr, hmem, hresp⟩
      exact hsame.trans hsame'
    · cases h
  · rintro ⟨hsame, hv, hmax, hdr, hmem, hresp⟩
    have hvisible : visible? m (address.withVersion desc.id) = some (b, .normal hdr) := by
      refine visible?_eq_some_iff.mpr ⟨hmem, hsame, hv, fun e he hsame' hv' => hmax e he ?_ hv'⟩
      exact hsame.symm.trans hsame'
    rw [hvisible]
    dsimp only
    rw [all_some, if_pos hresp]
    exact Prod.ext rfl (StorageAddress.ext hsame.1 hsame.2 rfl)

section Overflow

variable {e₀ : StorageAddress × InnerChunkMapEntry} {x₀ : ℤ} (he₀ : e₀ ∈ m.entries) (hx₀ : x₀ ∈ e₀.1.coords.getLast?)

lemma bumpLast_lt {interval x : ℤ} (hlt : interval < 2 ^ 63) (hx : IsInt64 x) (hover : 2 ^ 63 ≤ x + interval) :
    ∀ {xs : List ℤ}, x ∈ xs.getLast? → bumpLast interval xs < xs
  | [y], hlast => by
    obtain rfl : y = x := by simpa using hlast
    obtain ⟨h1, h2⟩ := hx
    rw [bumpLast, int64_wrap hover (by omega), cons_lt_cons_iff]
    exact .inl (by omega)
  | y :: z :: xs, hlast => by
    rw [bumpLast, cons_lt_cons_iff]
    exact .inr ⟨rfl, bumpLast_lt hlt hx hover (by simpa using hlast)⟩

include he₀ hx₀

lemma OnGrid.moved_le (hgrid : OnGrid interval m) (hpos : 0 < interval) (hover : 2 ^ 63 ≤ x₀ + interval) {v : ArrayID}
    (he : e ∈ m.entries) (hatt : e.1.attId = e₀.1.attId) (hv : e₀.1.arrId ≤ v) (hle : e.1.coords ≤ e₀.1.coords) :
    ⟨e.1.attId, bumpLast interval e.1.coords, v⟩ ≤ e₀.1 := by
  have hlen := hgrid.same_length e he e₀ he₀
  have hback : bumpLast interval e.1.coords ≤ e₀.1.coords := by
    by_cases hx : ∀ x ∈ e.1.coords.getLast?, x + interval < 2 ^ 63
    · refine hgrid.bumpLast_le hpos he he₀ hx (lt_of_le_of_ne hle fun heq => ?_)
      exact absurd (hx x₀ (heq ▸ hx₀)) (not_lt.mpr hover)
    · push Not at hx
      obtain ⟨x, hx, hxover⟩ := hx
      exact (bumpLast_lt hgrid.interval_lt (hgrid.int64 e he x hx) hxover hx).le.trans hle
  rw [← not_lt, lt_iff, length_bumpLast]
  rintro (h | ⟨-, h | ⟨-, h | ⟨-, h⟩⟩⟩)
  · exact h.ne hatt.symm
  · exact h.ne hlen.symm
  · exact not_lt.mpr hback h
  · exact not_le.mpr h hv

lemma findNextLoop_stays (hgrid : OnGrid interval m) (hpos : 0 < interval) (hover : 2 ^ 63 ≤ x₀ + interval) {fuel : ℕ} :
    ∀ {a : StorageAddress}, Sees a e₀ → findNextLoop responsible interval m fuel a = some r →
      r.1 = true ∧ r.2.attId = a.attId ∧ Sees ⟨a.attId, bumpLast interval r.2.coords, a.arrId⟩ e₀ := by
  induction fuel with
  | zero => exact fun _ h => by cases h
  | succ fuel ih =>
    intro a ha h
    rw [findNextLoop] at h
    cases hnext : nextEntry m a with
    | none => exact absurd ha (nextEntry_eq_none_iff.mp hnext e₀ he₀)
    | some e =>
      obtain ⟨hmem, hs, hmin⟩ := nextEntry_eq_some_iff.mp hnext
      have hatt : e.1.attId = e₀.1.attId := hs.2.1.trans ha.2.1.symm
      have hcoords : e.1.coords ≤ e₀.1.coords := not_lt.mp fun hlt => not_lt.mpr (hmin e₀ he₀ ha)
        (lt_iff.mpr (.inr ⟨hatt.symm, .inr ⟨hgrid.same_length e₀ he₀ e hmem, .inl hlt⟩⟩))
      have hmoved : Sees ⟨a.attId, bumpLast interval e.1.coords, a.arrId⟩ e₀ :=
        ⟨hs.2.1 ▸ hgrid.moved_le he₀ hx₀ hpos hover hmem hatt ha.2.2 hcoords, ha.2⟩
      rw [hnext] at h
      obtain ⟨found, entry⟩ := e
      cases entry with
      | normal hdr =>
        simp only at h
        split_ifs at h
        · cases h
          exact ⟨rfl, hs.2.1, hmoved⟩
        · exact (ih hmoved h :)
      | tombstone _ => exact (ih hmoved h :)
      | invalid _ => exact (ih hmoved h :)

/-- **The scan never passes a chunk behind which the place overflows.** -/
lemma scanChunks_eq_none (hm : s.chunkMap.find? desc.uaId = some m) (hgrid : OnGrid desc.chunkInterval m)
    (hover : 2 ^ 63 ≤ x₀ + desc.chunkInterval) (fuel : ℕ) : ∀ address : StorageAddress,
      Sees ⟨address.attId, bumpLast desc.chunkInterval address.coords, desc.id⟩ e₀ →
      s.scanChunks desc responsible fuel address = none := by
  induction fuel with
  | zero => exact fun _ _ => rfl
  | succ fuel ih =>
    intro address hsees
    rw [CachedStorage.scanChunks, CachedStorage.findNextChunk, hm]
    dsimp only
    cases hloop : findNextLoop responsible desc.chunkInterval m (m.entries.length + 1)
        ⟨address.attId, bumpLast desc.chunkInterval address.coords, desc.id⟩ with
    | none => rfl
    | some r =>
      obtain ⟨found, next⟩ := r
      obtain ⟨hfound, hatt, hnext⟩ := findNextLoop_stays he₀ hx₀ hgrid desc.interval_pos hover hsees hloop
      obtain rfl : found = true := hfound
      dsimp only at hatt hnext ⊢
      rw [ih next (hatt.symm ▸ hnext)]
      rfl

end Overflow

/-- **The scan of a version is exact**, if and only if the places behind the chunks of the version are `int64`. -/
theorem findNextChunk_scan (hm : s.chunkMap.find? desc.uaId = some m) (hgrid : OnGrid desc.chunkInterval m)
    (responsible : ChunkHeader → Bool) (attId : ℕ) :
    (∃ found, s.scanChunks desc responsible (m.entries.length + 1) ⟨attId, [], desc.id⟩ = some found ∧
      found.Pairwise (fun b c => b.coords < c.coords) ∧ (∀ b, b ∈ found ↔ b.attId = attId ∧ HasChunk m desc.id responsible b) ∧
      ∀ coords arrId b, s.findChunk desc (some responsible) ⟨attId, coords, arrId⟩ = (true, b) ↔
        b ∈ found ∧ b.coords = coords) ↔ PlacesFit desc.chunkInterval m attId desc.id := by
  have hbefore : ∀ e ∈ m.entries, e.1.attId = attId → (⟨attId, [], desc.id⟩ : StorageAddress) ≤ e.1 := by
    intro e he hatt
    have hlt : (⟨attId, [], desc.id⟩ : StorageAddress) < e.1 :=
      lt_iff.mpr (.inr ⟨hatt.symm, .inl (length_pos_iff.mpr (hgrid.nonempty e he))⟩)
    exact hlt.le
  constructor
  · rintro ⟨found, hscan, -⟩ e he hatt hv x hx
    by_contra hover
    rw [scanChunks_eq_none he hx hm hgrid (not_lt.mp hover) _ _ ⟨hbefore e he hatt, hatt, hv⟩] at hscan
    cases hscan
  intro hfit
  obtain ⟨found, hscan, hsorted, hfound⟩ := @exists_scanChunks m responsible s desc hm hgrid attId hfit (m.entries.length + 1)
    ⟨attId, [], desc.id⟩ rfl (Nat.lt_succ_of_le (length_filter_le _ _))
  have hmem : ∀ b, b ∈ found ↔ b.attId = attId ∧ HasChunk m desc.id responsible b := fun b => by
    rw [hfound]
    constructor
    · exact fun h => ⟨h.2.1, h.1⟩
    · rintro ⟨hatt, hchunk⟩
      obtain ⟨-, -, hdr, hbmem, -⟩ := id hchunk
      exact ⟨hchunk, hatt, hbefore _ hbmem hatt⟩
  refine ⟨found, hscan, hsorted, hmem, fun coords arrId b => ?_⟩
  rw [hmem, findChunk_eq_true_iff hm]
  constructor
  · exact fun h => ⟨⟨h.1.1.symm, h.2⟩, h.1.2.symm⟩
  · exact fun h => ⟨⟨h.1.1.symm, h.2.symm⟩, h.1.2⟩

def twoPlaces : InnerChunkMap where
  entries := [(⟨0, [0], 1⟩, .normal .zero), (⟨0, [10], 3⟩, .tombstone 0), (⟨0, [10], 1⟩, .normal .zero)]
  sorted := by simp [StorageAddress.lt_iff, List.cons_lt_cons_iff]

def twoPlacesStorage : CachedStorage where
  hdr := ⟨0, 0⟩
  freeHeaders := ∅
  chunkMap := OrdMap.empty.assign 7 twoPlaces
  hd := ⟨0, ⟨0, 0⟩, fun _ => ⟨.zero, []⟩⟩
  calls := []

theorem twoPlaces_scan : ∃ found, twoPlacesStorage.scanChunks ⟨7, 2, 10, by decide⟩ (fun _ => true) 4 ⟨0, [], 2⟩ = some found ∧
      ⟨0, [0], 1⟩ ∈ found ∧ ⟨0, [10], 1⟩ ∈ found := by
  have hgrid : OnGrid 10 twoPlaces := by
    refine ⟨by decide, by simp [twoPlaces], by simp [twoPlaces], by simp [twoPlaces], by simp [twoPlaces, IsInt64]⟩
  obtain ⟨found, hscan, -, hmem, -⟩ := (@findNextChunk_scan twoPlaces twoPlacesStorage ⟨7, 2, 10, by decide⟩
    (OrdMap.find?_assign_self _ _ _) hgrid (fun _ => true) 0).mpr (by simp [PlacesFit, twoPlaces])
  refine ⟨found, hscan, (hmem _).mpr ⟨rfl, ?_⟩, (hmem _).mpr ⟨rfl, ?_⟩⟩
  · simp [HasChunk, twoPlaces, sameBaseAddr]
  · simp [HasChunk, twoPlaces, sameBaseAddr]

/-- An array from 1 on with one chunk of the greatest interval. -/
def oneChunkStorage : CachedStorage where
  hdr := ⟨0, 0⟩
  freeHeaders := ∅
  chunkMap := OrdMap.empty.assign 7 (OrdMap.empty.assign ⟨0, [1], 1⟩ (.normal .zero))
  hd := ⟨0, ⟨0, 0⟩, fun _ => ⟨.zero, []⟩⟩
  calls := []

/-- **The place behind the only chunk overflows**: the scan finds the chunk again and again. -/
theorem oneChunk_again :
    oneChunkStorage.findNextChunk ⟨7, 1, 2 ^ 63 - 1, by decide⟩ (fun _ => true) ⟨0, [1], 1⟩ = some (true, ⟨0, [1], 1⟩) ∧
      ∀ fuel, oneChunkStorage.scanChunks ⟨7, 1, 2 ^ 63 - 1, by decide⟩ (fun _ => true) fuel ⟨0, [], 1⟩ = none := by
  have hfirst : oneChunkStorage.findNextChunk ⟨7, 1, 2 ^ 63 - 1, by decide⟩ (fun _ => true) ⟨0, [], 1⟩ =
      some (true, ⟨0, [1], 1⟩) := by decide +kernel
  have hagain : oneChunkStorage.findNextChunk ⟨7, 1, 2 ^ 63 - 1, by decide⟩ (fun _ => true) ⟨0, [1], 1⟩ =
      some (true, ⟨0, [1], 1⟩) := by decide +kernel
  have hscan : ∀ fuel, oneChunkStorage.scanChunks ⟨7, 1, 2 ^ 63 - 1, by decide⟩ (fun _ => true) fuel ⟨0, [1], 1⟩ = none := by
    intro fuel
    induction fuel with
    | zero => rfl
    | succ fuel ih =>
      rw [CachedStorage.scanChunks, hagain]
      dsimp only
      rw [ih, map_none]
  refine ⟨hagain, fun fuel => ?_⟩
  cases fuel with
  | zero => rfl
  | succ fuel =>
    rw [CachedStorage.scanChunks, hfirst]
    dsimp only
    rw [hscan, map_none]

lemma findChunk_eq_true_iff_inner {address : StorageAddress} : s.findChunk desc (some responsible) address = (true, b) ↔
    address.sameBaseAddr b ∧ HasChunk (s.inner desc.uaId) desc.id responsible b := by
  cases hm : s.chunkMap.find? desc.uaId with
  | none =>
    rw [CachedStorage.findChunk, CachedStorage.inner, hm]
    refine iff_of_false (fun h => by cases h) ?_
    rintro ⟨-, -, -, hdr, hmem, -⟩
    cases hmem
  | some m =>
    rw [findChunk_eq_true_iff hm, CachedStorage.inner, hm]
    rfl

lemma HasChunk.congr {v : ArrayID} {m' : InnerChunkMap} (h : HasChunk m v responsible b)
    (hm : ∀ a : StorageAddress, a.arrId ≤ v → m'.find? a = m.find? a) : HasChunk m' v responsible b := by
  obtain ⟨hv, hmax, hdr, hmem, hresp⟩ := h
  have hold : ∀ e : StorageAddress × InnerChunkMapEntry, e.1.arrId ≤ v → (e ∈ m'.entries ↔ e ∈ m.entries) := by
    intro e he
    rw [← OrdMap.find?_eq_some_iff, ← OrdMap.find?_eq_some_iff, hm e.1 he]
  exact ⟨hv, fun e he hsame hle => hmax e ((hold e hle).mp he) hsame hle, hdr, (hold _ hv).mpr hmem, hresp⟩

end Scan

section Run

variable {cfg : LogConfig} {s : LoggedStorage} {ops : List WriteOp}

lemma find?_run_of_newer {g : ArrayUAID} {v : ArrayID} (hops : ∀ op ∈ ops, op.By fun a => a.uaId = g → v < a.id)
    (ha : a.arrId ≤ v) : ((run cfg s ops).inner g).find? a = (s.inner g).find? a := by
  induction ops generalizing s with
  | nil => rfl
  | cons op ops ih =>
    rw [run_cons, ih (forall_mem_of_forall_mem_cons hops)]
    have hspec := op.exec_spec cfg s
    have hop := hops op mem_cons_self
    cases hadd : op.addition? s with
    | none =>
      rw [hadd] at hspec
      rw [CachedStorage.inner, hspec.map]
      rfl
    | some x =>
      rw [hadd] at hspec
      rw [hspec.map, if_neg]
      rintro ⟨rfl, rfl⟩
      exact not_le.mpr (hop.addition hadd rfl) (x.arrId_eq ▸ ha)

/-- **A reader of a version does not see later ones**: no writes of newer versions of the array, nor any of other arrays,
change what is found, wherever they stop. -/
theorem findChunk_run {desc : ArrayDesc} (hops : ∀ op ∈ ops, op.By fun a => a.uaId = desc.uaId → desc.id < a.id)
    (responsible : ChunkHeader → Bool) (address b : StorageAddress) :
    (run cfg s ops).findChunk desc (some responsible) address = (true, b) ↔
      s.findChunk desc (some responsible) address = (true, b) := by
  rw [findChunk_eq_true_iff_inner, findChunk_eq_true_iff_inner]
  have hfind : ∀ a : StorageAddress, a.arrId ≤ desc.id → ((run cfg s ops).inner desc.uaId).find? a = _ := fun a ha =>
    find?_run_of_newer hops ha
  exact and_congr_right fun _ => ⟨fun h => h.congr fun a ha => (hfind a ha).symm, fun h => h.congr hfind⟩

theorem sampleWrite_unseen : (run sampleLog (run sampleLog emptyStorage [sampleWrite sampleVersion 0])
    [sampleWrite ⟨7, 9, 2⟩ 0]).findChunk ⟨7, 8, 1, by decide⟩ (some fun _ => true) ⟨0, [0], 0⟩ = (true, ⟨0, [0], 8⟩) :=
  (findChunk_run (by simp [sampleWrite, WriteOp.By]) _ _ _).mpr (by decide +kernel)

end Run

end SciDB.Smgr
