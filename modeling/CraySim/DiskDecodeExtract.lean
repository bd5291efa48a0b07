/-
  Subject:   Which sector the data of a data area is stored as.

  A pass stores the data area behind the next data synchronisation under the numbers of the header
  it has accepted. Where the synchronisation of the sector itself is damaged, that is the area of a
  sector further on.

  * `Reaches` -- the passes of `Extract`,
  * `extractLoop_stored` -- what is stored is what the passes store,
  * `SyncEnds`, `syncScan_iff` -- where patterns end, and which one is found,
  * `HeaderAt` -- where the runs have a header,
  * `RightlyStored` -- no other header lies between the header and the data of a sector,
  * `PassIntact`, `TrackIntact` -- each header has zeros behind it and a data synchronisation,
  * `extract_attributes` -- the sectors are right exactly where that is so,
  * `not_rightlyStored` -- a track on which it is not.
-/
import CraySim.DiskDecodeHeader
import CraySim.DiskDecodeMfm
import Mathlib.Logic.Relation
import Mathlib.Order.Bounds.Basic

namespace CraySim

namespace DiskDecode

section extract
variable (aRuns : List (BitVec 8)) (aExpectedHead : Nat) (aPulseCategorizer : PulseCategorizer)

/-! ## 1. The passes -/

/-- From one pass the loop gets to another. -/
def Reaches : ExtractState → ExtractState → Prop :=
  Relation.ReflTransGen fun s s' => pass aRuns aExpectedHead aPulseCategorizer s = (s', true)

/-- What comes after a pass is the pass behind it, and what comes after that. -/
theorem reaches_iff {s s' t : ExtractState}
    (h : pass aRuns aExpectedHead aPulseCategorizer s = (s', true)) :
    Reaches aRuns aExpectedHead aPulseCategorizer s t ↔
      s = t ∨ Reaches aRuns aExpectedHead aPulseCategorizer s' t := by
  rw [Reaches, Relation.ReflTransGen.cases_head_iff]
  refine or_congr_right ⟨?_, fun hrest => ⟨s', h, hrest⟩⟩
  rintro ⟨s'', hpass, hrest⟩
  obtain rfl := (Prod.mk.inj (h.symm.trans hpass)).1
  exact hrest

theorem reaches_last {s s' t : ExtractState}
    (h : pass aRuns aExpectedHead aPulseCategorizer s = (s', false)) :
    Reaches aRuns aExpectedHead aPulseCategorizer s t ↔ s = t := by
  rw [Reaches, Relation.ReflTransGen.cases_head_iff]
  refine or_iff_left ?_
  rintro ⟨s'', hpass, -⟩
  exact absurd (Prod.mk.inj (h.symm.trans hpass)).2 Bool.false_ne_true

/-- An image with sectors saved in it. -/
def saveAll (image : DiskImage) (stored : List Stored) : DiskImage :=
  stored.foldl (fun image e =>
    image.setData e.header.head e.header.track e.header.sector e.bytes e.errorRate) image

/-- A pass adds to what is stored what it stores, and saves it. -/
theorem pass_stored {s s' : ExtractState} {more : Bool}
    (h : pass aRuns aExpectedHead aPulseCategorizer s = (s', more)) :
    ∃ new, s'.stored = s.stored ++ new ∧ s'.image = saveAll s.image new ∧
      ∀ e, e ∈ new ↔ Stores aRuns aExpectedHead aPulseCategorizer s e := by
  rcases pass_cases aRuns aExpectedHead aPulseCategorizer s with ⟨e, he, hpass⟩ | ⟨hnone, t, more',
    hpass, hskips, -⟩
  · obtain rfl := (Prod.mk.inj (h.symm.trans hpass)).1
    refine ⟨[e], rfl, rfl, fun e' => ⟨fun hmem => List.mem_singleton.mp hmem ▸ he, fun he' => ?_⟩⟩
    -- the runs leave no choice
    have hstart : e'.stats.StartHeader = e.stats.StartHeader :=
      he'.startHeader.trans he.startHeader.symm
    have hdata : e'.stats.StartData = e.stats.StartData := by
      rw [he'.startData, he.startData, hstart]
    have hheader : e'.header = e.header := by
      have hread := he'.header
      rw [hstart, he.header] at hread
      exact (Option.some.inj hread).symm
    have hbytes : (e'.bytes, e'.errorRate) = (e.bytes, e.errorRate) := by
      have hread := he'.data
      rw [hdata, he.data] at hread
      exact (Option.some.inj hread).symm
    obtain ⟨header, bytes, errorRate, start, data⟩ := e
    obtain ⟨header', bytes', errorRate', start', data'⟩ := e'
    obtain ⟨rfl, rfl⟩ := Prod.mk.inj hbytes
    dsimp only at hstart hdata hheader
    rw [hstart, hdata, hheader]
    exact List.mem_singleton_self _
  · obtain rfl := (Prod.mk.inj (h.symm.trans hpass)).1
    refine ⟨[], ?_, hskips.image, fun e => ⟨fun hmem => absurd hmem List.not_mem_nil,
      fun he => absurd he (hnone e)⟩⟩
    rw [hskips.stored, List.append_nil]

/-- **The loop**: what it stores in all are the sectors that its passes store, and the image is what
    they make of it. -/
theorem extractLoop_stored (s : ExtractState) :
    ∃ new, (extractLoop aRuns aExpectedHead aPulseCategorizer s).stored = s.stored ++ new ∧
      (extractLoop aRuns aExpectedHead aPulseCategorizer s).image = saveAll s.image new ∧
      ∀ e, e ∈ new ↔ ∃ t, Reaches aRuns aExpectedHead aPulseCategorizer s t ∧
        Stores aRuns aExpectedHead aPulseCategorizer t e := by
  induction s using extractLoop.induct aRuns aExpectedHead aPulseCategorizer with
  | case1 s s' hpass ih =>
    obtain ⟨new, hstored, himage, hmem⟩ := pass_stored aRuns aExpectedHead aPulseCategorizer hpass
    obtain ⟨rest, hstored', himage', hmem'⟩ := ih
    have hloop : extractLoop aRuns aExpectedHead aPulseCategorizer s =
        extractLoop aRuns aExpectedHead aPulseCategorizer s' := by
      rw [extractLoop]
      split
      · rename_i hpass'
        rw [(Prod.mk.inj (hpass.symm.trans hpass')).1]
      · rename_i hpass'
        cases hpass.symm.trans hpass'
    refine ⟨new ++ rest, ?_, ?_, fun e => ?_⟩
    · rw [hloop, hstored', hstored, List.append_assoc]
    · rw [hloop, himage', himage, saveAll, saveAll, saveAll, List.foldl_append]
    · rw [List.mem_append, hmem, hmem']
      constructor
      · rintro (he | ⟨t, ht, he⟩)
        · exact ⟨s, .refl, he⟩
        · exact ⟨t, (reaches_iff aRuns aExpectedHead aPulseCategorizer hpass).mpr (.inr ht), he⟩
      · rintro ⟨t, ht, he⟩
        rcases (reaches_iff aRuns aExpectedHead aPulseCategorizer hpass).mp ht with rfl | ht
        · exact .inl he
        · exact .inr ⟨t, ht, he⟩
  | case2 s s' hpass =>
    obtain ⟨new, hstored, himage, hmem⟩ := pass_stored aRuns aExpectedHead aPulseCategorizer hpass
    have hloop : extractLoop aRuns aExpectedHead aPulseCategorizer s = s' := by
      rw [extractLoop]
      split
      · rename_i hpass'
        cases hpass.symm.trans hpass'
      · rename_i hpass'
        exact (Prod.mk.inj (hpass.symm.trans hpass')).1.symm
    refine ⟨new, hloop ▸ hstored, hloop ▸ himage, fun e => ?_⟩
    rw [hmem]
    constructor
    · exact fun he => ⟨s, .refl, he⟩
    · rintro ⟨t, ht, he⟩
      rwa [(reaches_last aRuns aExpectedHead aPulseCategorizer hpass).mp ht]

/-- What `Extract` stores, and where the image comes from. -/
theorem extract_stored (aImage : DiskImage) :
    (extract aRuns aExpectedHead aPulseCategorizer aImage).image =
        saveAll aImage (extract aRuns aExpectedHead aPulseCategorizer aImage).stored ∧
      ∀ e, e ∈ (extract aRuns aExpectedHead aPulseCategorizer aImage).stored ↔
        ∃ s, Reaches aRuns aExpectedHead aPulseCategorizer (.start aImage) s ∧
          Stores aRuns aExpectedHead aPulseCategorizer s e := by
  obtain ⟨new, hstored, himage, hmem⟩ :=
    extractLoop_stored aRuns aExpectedHead aPulseCategorizer (.start aImage)
  have hnew : (extract aRuns aExpectedHead aPulseCategorizer aImage).stored = new := hstored
  rw [hnew]
  exact ⟨himage, hmem⟩

/-! ## 2. Synchronisation patterns -/

/-- The length of a run in half bits. -/
def halfBits (idx : Nat) : Option Nat :=
  aRuns[idx]?.map fun width => (categorizePulse width (idx % 2) aPulseCategorizer).HalfBitLen

/-- At a run a pattern ends: it is one of 3 half bits, and the runs in front of it, as many as asked
    for and none from before `aStart`, are of 2. -/
structure SyncEnds (aMinLength aStart stop : Nat) : Prop where
  behind : aStart + aMinLength ≤ stop
  cells : ∀ idx, idx < stop → stop ≤ idx + aMinLength → halfBits aRuns aPulseCategorizer idx = some 2
  mark : halfBits aRuns aPulseCategorizer stop = some 3

/-- What `SyncScan` has counted at a run. -/
structure SyncCounted (aStart idx count : Nat) : Prop where
  room : aStart + count ≤ idx
  cells : ∀ i, i < idx → idx ≤ i + count → halfBits aRuns aPulseCategorizer i = some 2
  longest : aStart + count < idx → halfBits aRuns aPulseCategorizer (idx - count - 1) ≠ some 2

variable {aRuns aExpectedHead aPulseCategorizer} {aMinLength aStart stop : Nat}

/-- At the run in hand a pattern ends where enough has been counted. -/
theorem SyncCounted.sync_iff {idx count : Nat} (h : SyncCounted aRuns aPulseCategorizer aStart idx count) :
    SyncEnds aRuns aPulseCategorizer aMinLength aStart idx ↔
      aMinLength ≤ count ∧ halfBits aRuns aPulseCategorizer idx = some 3 := by
  have hroom := h.room
  constructor
  · intro hsync
    have hbehind := hsync.behind
    refine ⟨Nat.not_lt.mp fun hfew => h.longest (by omega) ?_, hsync.mark⟩
    exact hsync.cells _ (by omega) (by omega)
  · intro hend
    exact ⟨by omega, fun i hi hcell => h.cells i hi (by omega), hend.2⟩

/-- One more cell is counted. -/
theorem SyncCounted.cell {idx count : Nat} (h : SyncCounted aRuns aPulseCategorizer aStart idx count)
    (hcell : halfBits aRuns aPulseCategorizer idx = some 2) :
    SyncCounted aRuns aPulseCategorizer aStart (idx + 1) (count + 1) := by
  have hroom := h.room
  refine ⟨by omega, fun i hi hi' => ?_, fun hlt => ?_⟩
  · rcases Nat.eq_or_lt_of_le (Nat.le_of_lt_succ hi) with rfl | hi
    · exact hcell
    · exact h.cells i hi (by omega)
  · rw [show idx + 1 - (count + 1) - 1 = idx - count - 1 by omega]
    exact h.longest (by omega)

/-- Behind any other run the count starts over. -/
theorem SyncCounted.other {idx count : Nat}
    (h : SyncCounted aRuns aPulseCategorizer aStart idx count)
    (hother : halfBits aRuns aPulseCategorizer idx ≠ some 2) :
    SyncCounted aRuns aPulseCategorizer aStart (idx + 1) 0 := by
  have hroom := h.room
  refine ⟨by omega, fun i hi hi' => by omega, fun _ => ?_⟩
  rw [Nat.sub_zero, Nat.add_sub_cancel]
  exact hother

/-- The loop of `SyncScan` stops at the first pattern that ends from here on. -/
theorem syncFrom_spec (hmin : 0 < aMinLength) (runs : List (BitVec 8)) (idx count : Nat)
    (hruns : aRuns.drop idx = runs) (h : SyncCounted aRuns aPulseCategorizer aStart idx count) :
    (syncFrom aMinLength aPulseCategorizer idx count runs ≠ 0 →
      SyncEnds aRuns aPulseCategorizer aMinLength aStart
        (syncFrom aMinLength aPulseCategorizer idx count runs)) ∧
      ∀ stop, idx ≤ stop → SyncEnds aRuns aPulseCategorizer aMinLength aStart stop →
        syncFrom aMinLength aPulseCategorizer idx count runs ≠ 0 ∧
          syncFrom aMinLength aPulseCategorizer idx count runs ≤ stop := by
  induction runs generalizing idx count with
  | nil =>
    refine ⟨fun hne => absurd rfl hne, fun stop hstop hsync => ?_⟩
    have hmark := hsync.mark
    rw [halfBits, List.getElem?_eq_none ((List.drop_eq_nil_iff.mp hruns).trans hstop)] at hmark
    cases hmark
  | cons width runs ih =>
    have hrest : aRuns.drop (idx + 1) = runs := by
      rw [← List.drop_drop, hruns, List.drop_succ_cons, List.drop_zero]
    have hwidth : halfBits aRuns aPulseCategorizer idx =
        some (categorizePulse width (idx % 2) aPulseCategorizer).HalfBitLen := by
      have hhere : aRuns[idx]? = some width := by
        rw [← Nat.add_zero idx, ← List.getElem?_drop, hruns]
        rfl
      rw [halfBits, hhere, Option.map_some]
    -- a pattern that does not end at this run ends behind it
    have hbehind : ¬ SyncEnds aRuns aPulseCategorizer aMinLength aStart idx → ∀ stop, idx ≤ stop →
        SyncEnds aRuns aPulseCategorizer aMinLength aStart stop → idx + 1 ≤ stop := by
      intro hnot stop hstop hsync
      rcases Nat.eq_or_lt_of_le hstop with rfl | hlt
      · exact absurd hsync hnot
      · exact hlt
    have hroom := h.room
    rw [syncFrom]
    split
    · rename_i htwo
      have hcell : halfBits aRuns aPulseCategorizer idx = some 2 := by rw [hwidth, htwo]
      obtain ⟨hfound, hfirst⟩ := ih _ _ hrest (h.cell hcell)
      have hnot : ¬ SyncEnds aRuns aPulseCategorizer aMinLength aStart idx := by
        rw [h.sync_iff, hcell]
        intro hend
        cases hend.2
      exact ⟨hfound, fun stop hstop hsync => hfirst stop (hbehind hnot stop hstop hsync) hsync⟩
    · rename_i htwo
      split
      · rename_i hend
        have hsync := h.sync_iff.mpr ⟨hend.1, hwidth.trans (congrArg some hend.2)⟩
        exact ⟨fun _ => hsync, fun stop hstop _ => ⟨by omega, hstop⟩⟩
      · rename_i hend
        have hother : halfBits aRuns aPulseCategorizer idx ≠ some 2 := by
          rw [hwidth]
          exact fun hmark => htwo (Option.some.inj hmark)
        obtain ⟨hfound, hfirst⟩ := ih _ _ hrest (h.other hother)
        have hnot : ¬ SyncEnds aRuns aPulseCategorizer aMinLength aStart idx := by
          rw [h.sync_iff, hwidth, Option.some.injEq]
          exact hend
        exact ⟨hfound, fun stop hstop hsync => hfirst stop (hbehind hnot stop hstop hsync) hsync⟩

/-- **`SyncScan` finds the first pattern**, if there is one. -/
theorem syncScan_iff (hmin : 0 < aMinLength) :
    IsLeast {stop | SyncEnds aRuns aPulseCategorizer aMinLength aStart stop} stop ↔
      stop = syncScan aRuns aMinLength aStart aPulseCategorizer ∧ stop ≠ 0 := by
  have hstart : SyncCounted aRuns aPulseCategorizer aStart aStart 0 :=
    ⟨Nat.le_refl _, fun i hi hcell => absurd hcell (Nat.not_le.mpr hi),
      fun hlt => absurd hlt (Nat.lt_irrefl _)⟩
  obtain ⟨hfound, hfirst⟩ := syncFrom_spec hmin (aRuns.drop aStart) aStart 0 rfl hstart
  rw [← syncScan] at hfound hfirst
  constructor
  · intro h
    have hbehind := h.1.behind
    obtain ⟨hne, hle⟩ := hfirst stop (by omega) h.1
    have hsame := Nat.le_antisymm (h.2 (hfound hne)) hle
    exact ⟨hsame, hsame ▸ hne⟩
  · intro h
    obtain ⟨rfl, hne⟩ := h
    refine ⟨hfound hne, fun stop hstop => (hfirst stop ?_ hstop).2⟩
    exact (Nat.le_add_right _ _).trans hstop.behind

/-! ## 3. Headers and the data behind them -/

variable (aRuns aExpectedHead aPulseCategorizer)

/-- At a run a synchronisation pattern ends in a header whose CRC is right. -/
structure HeaderAt (start : Nat) (header : Header) : Prop where
  sync : SyncEnds aRuns aPulseCategorizer 50 0 start
  decodes : DecodesHeader (headerData aRuns start aPulseCategorizer)
  crc : HeaderMatches (headerData aRuns start aPulseCategorizer)
  numbers : headerNumbers (headerData aRuns start aPulseCategorizer) = header

/-- The data of a stored sector is that of the first data area behind a header with its numbers. -/
structure RightlyStored (e : Stored) : Prop where
  header : HeaderAt aRuns aPulseCategorizer e.stats.StartHeader e.header
  head : e.header.head = aExpectedHead
  sync : SyncEnds aRuns aPulseCategorizer 100 e.stats.StartHeader e.stats.StartData
  data : readData aRuns e.stats.StartData aPulseCategorizer = some (e.bytes, e.errorRate)
  nearest : ∀ start' header', e.stats.StartHeader < start' → start' < e.stats.StartData →
    HeaderAt aRuns aPulseCategorizer start' header' →
      ¬ (header'.head = aExpectedHead ∧ header'.track = e.header.track)

/-- Zeros are behind the CRC of a header, as far as the check looks, and in front of each header of
    the head and the track that comes later a data synchronisation ends. -/
structure Intact (start : Nat) (header : Header) : Prop where
  zeros : ∀ b ∈ extraBits (headerData aRuns start aPulseCategorizer), b = false
  sync : ∀ start' header', start < start' → HeaderAt aRuns aPulseCategorizer start' header' →
    header'.head = aExpectedHead → header'.track = header.track →
      ∃ stop ≤ start', SyncEnds aRuns aPulseCategorizer 100 start stop

/-- The first header behind the run a pass begins at is intact, if it is accepted and data can be
    read behind it. -/
def PassIntact (s : ExtractState) : Prop :=
  ∀ start header stop,
    IsLeast {stop | SyncEnds aRuns aPulseCategorizer 50 s.currentRunIdx stop} start →
    readHeader aRuns start aPulseCategorizer = some header → Accepts aExpectedHead s header →
    IsLeast {stop | SyncEnds aRuns aPulseCategorizer 100 start stop} stop →
    (readData aRuns stop aPulseCategorizer).isSome →
      Intact aRuns aExpectedHead aPulseCategorizer start header

/-- All headers of the head that the check accepts are, if data can be read behind them. -/
def TrackIntact : Prop :=
  ∀ start header stop, SyncEnds aRuns aPulseCategorizer 50 0 start →
    readHeader aRuns start aPulseCategorizer = some header → header.head = aExpectedHead →
    IsLeast {stop | SyncEnds aRuns aPulseCategorizer 100 start stop} stop →
    (readData aRuns stop aPulseCategorizer).isSome →
      Intact aRuns aExpectedHead aPulseCategorizer start header

variable {aRuns aExpectedHead aPulseCategorizer}

theorem SyncEnds.of_start (h : SyncEnds aRuns aPulseCategorizer aMinLength aStart stop) :
    SyncEnds aRuns aPulseCategorizer aMinLength 0 stop :=
  ⟨(Nat.add_le_add_right (Nat.zero_le _) _).trans h.behind, h.cells, h.mark⟩

theorem TrackIntact.pass (h : TrackIntact aRuns aExpectedHead aPulseCategorizer)
    (s : ExtractState) : PassIntact aRuns aExpectedHead aPulseCategorizer s :=
  fun start header stop hstart hread haccepts =>
    h start header stop hstart.1.of_start hread haccepts.1

/-- A sector that is stored is right where its header is intact. -/
theorem Stores.rightly_iff {s : ExtractState} {e : Stored}
    (h : Stores aRuns aExpectedHead aPulseCategorizer s e) :
    RightlyStored aRuns aExpectedHead aPulseCategorizer e ↔
      Intact aRuns aExpectedHead aPulseCategorizer e.stats.StartHeader e.header := by
  have hheader := ((syncScan_iff (by decide)).mpr ⟨h.startHeader, h.header_ne_zero⟩).1
  have hdata := (syncScan_iff (by decide)).mpr ⟨h.startData, h.data_ne_zero⟩
  obtain ⟨hdecodes, hvalid, hnumbers⟩ := readHeader_eq_some_iff.mp h.header
  have hcrc := headerMatches_iff_zeros hdecodes.room hvalid
  constructor
  · intro hright
    refine ⟨hcrc.mp hright.header.crc, fun start' header' hlt hother hhead htrack => ?_⟩
    refine ⟨e.stats.StartData, Nat.not_lt.mp fun hbetween => ?_, hdata.1⟩
    exact hright.nearest start' header' hlt hbetween hother ⟨hhead, htrack⟩
  · intro hintact
    refine ⟨⟨hheader.of_start, hdecodes, hcrc.mpr hintact.zeros, hnumbers⟩, h.accepts.1, hdata.1,
      h.data, fun start' header' hlt hbetween hother hsame => ?_⟩
    obtain ⟨stop, hstop, hsync⟩ := hintact.sync start' header' hlt hother hsame.1 hsame.2
    exact absurd ((hdata.2 hsync).trans hstop) (Nat.not_le.mpr hbetween)

/-- What a pass stores is right where the header it comes to is intact. -/
theorem passIntact_iff {s : ExtractState} :
    PassIntact aRuns aExpectedHead aPulseCategorizer s ↔
      ∀ e, Stores aRuns aExpectedHead aPulseCategorizer s e →
        RightlyStored aRuns aExpectedHead aPulseCategorizer e := by
  constructor
  · intro h e he
    rw [he.rightly_iff]
    refine h _ _ _ ((syncScan_iff (by decide)).mpr ⟨he.startHeader, he.header_ne_zero⟩) he.header
      he.accepts ((syncScan_iff (by decide)).mpr ⟨he.startData, he.data_ne_zero⟩) ?_
    rw [he.data]
    rfl
  · intro h start header stop hstart hread haccepts hstop hdata
    obtain ⟨hstart, hne⟩ := (syncScan_iff (by decide)).mp hstart
    obtain ⟨hstop, hne'⟩ := (syncScan_iff (by decide)).mp hstop
    obtain ⟨⟨bytes, errorRate⟩, hbytes⟩ := Option.isSome_iff_exists.mp hdata
    have he : Stores aRuns aExpectedHead aPulseCategorizer s
        ⟨header, bytes, errorRate, ⟨start, stop⟩⟩ :=
      ⟨hstart, hne, hread, haccepts, hstop, hne', hbytes⟩
    exact he.rightly_iff.mp (h _ he)

variable (aRuns aExpectedHead aPulseCategorizer)

end extract

/-! ## 4. A damaged synchronisation -/

/-- A track up to the data of sector 1: the headers of sectors 0 and 1 of head 0 and track 1; between
    them there is no data area, and no synchronisation of 100 cells. -/
def damagedFront : List (BitVec 8) :=
  zeroRuns 60 ++ [13, 8, 8, 8, 13] ++ zeroRuns 17 ++ [13, 13] ++ zeroRuns 15 ++
    [13, 13, 13, 8, 13] ++ zeroRuns 14 ++ [13, 13, 8, 13, 13] ++ zeroRuns 79 ++
    [13, 8, 8, 8, 13] ++ zeroRuns 17 ++ [13, 13] ++ zeroRuns 13 ++
    [13, 16, 13, 13, 8, 13, 13, 16, 13, 8, 8, 8, 8, 8, 8, 8, 13, 16, 13, 8, 13, 13, 13, 16, 13] ++
    zeroRuns 114

/-- The start of a data area, and an area all of whose bits are 0. -/
def zeroArea : List (BitVec 8) := [13, 8, 8, 8, 13, 8, 8, 8] ++ zeroRuns 4129

def damagedTrack : List (BitVec 8) := damagedFront ++ zeroArea

theorem categorizePulse_zero (idx : Nat) :
    categorizePulse 8 (idx % 2) cStrictCategorizer = good 2 := by
  rcases Nat.mod_two_eq_zero_or_one idx with h | h <;> rw [h] <;> decide

theorem pulseTypes_zeroRuns (idx n : Nat) :
    (pulseTypes cStrictCategorizer idx (zeroRuns n)).map PulseType.HalfBitLen =
      List.replicate n 2 := by
  induction n generalizing idx with
  | zero => rfl
  | succ n ih =>
    rw [zeroRuns, List.replicate_succ, pulseTypes, categorizePulse_zero, List.map_cons, ← zeroRuns,
      ih, List.replicate_succ]
    rfl

theorem decode_zeros (n : Nat) :
    Mfm.decode false (List.replicate n 2) = some (List.replicate n false) := by
  induction n with
  | zero => rfl
  | succ n ih => simp only [List.replicate_succ, Mfm.decode, Mfm.step, ih, Option.map_some,
      List.singleton_append]

/-- The bits that start a data area. -/
def syncBits : List Bit := [.Zero, .One, .One, .One, .One, .Zero, .Zero, .Zero, .Zero]

theorem decode_zeroArea :
    (decode damagedTrack 378 (378 + cSectorSizeInBits) cStrictCategorizer).Data =
      syncBits ++ List.replicate 4129 .Zero := by
  have hfront : damagedFront.length = 378 := by decide +kernel
  have harea : zeroArea.length = cSectorSizeInBits := by
    rw [zeroArea, zeroRuns, List.length_append, List.length_replicate]
    rfl
  have hwindow : (damagedTrack.take (378 + cSectorSizeInBits)).drop 378 = zeroArea := by
    rw [damagedTrack, ← hfront, ← harea, ← List.length_append, List.take_length, List.drop_left]
  have htypes : (pulseTypes cStrictCategorizer 378 zeroArea).map PulseType.HalfBitLen =
      [3, 2, 2, 2, 3, 2, 2, 2] ++ List.replicate 4129 2 := by
    rw [zeroArea, pulseTypes_append, List.map_append, pulseTypes_zeroRuns]
    exact congrArg (· ++ List.replicate 4129 2) (by decide)
  have hbits : Mfm.decode .false ([3, 2, 2, 2, 3, 2, 2, 2] ++ List.replicate 4129 2) =
      some ([false, true, true, true, true, false, false, false, false] ++
        List.replicate 4129 false) := by
    simp only [List.cons_append, List.nil_append, Mfm.decode, Mfm.step, decode_zeros,
      Option.map_some]
  rw [← htypes] at hbits
  rw [decode, hwindow, ← ofBool_false, decodeFrom_mfm hbits, List.nil_append, List.map_append,
    List.map_replicate]
  exact congrArg (· ++ List.replicate 4129 (Bit.ofBool false)) (by decide)

/-- Cutting out of a row of 0 with something in front. -/
theorem cut_zeros {front : List Bit} {n m k : Nat} (hk : front.length ≤ k)
    (hm : m ≤ front.length + n) :
    ((front ++ List.replicate n Bit.Zero).take m).drop k = List.replicate (m - k) .Zero := by
  rw [List.drop_take, List.drop_append, List.drop_eq_nil_of_le hk, List.nil_append,
    List.drop_replicate, List.take_replicate]
  congr 1
  omega

theorem crc_zeros (n : Nat) (codeWord : BitVec 32) :
    ((List.replicate n Bit.Zero).foldl crcRound (0, codeWord)).1 = 0 := by
  induction n generalizing codeWord with
  | zero => rfl
  | succ n ih =>
    rw [List.replicate_succ, List.foldl_cons]
    exact ih _

theorem readData_zeroArea : (readData damagedTrack 378 cStrictCategorizer).isSome := by
  have hall : (syncBits ++ List.replicate 4129 Bit.Zero).length = 4138 := by
    rw [List.length_append, List.length_replicate]
    rfl
  have hsync : binInt (syncBits ++ List.replicate 4129 .Zero) 0 cSyncSize = 0xf0 := by
    rw [binInt, List.drop_zero, show cSyncSize = syncBits.length from rfl, List.take_left]
    decide
  have hcrc : validate (syncBits ++ List.replicate 4129 .Zero) cSyncSize cSectorSizeInBits =
      true := by
    rw [validate, hall, binInt, cut_zeros (by decide) (by decide),
      cut_zeros (by decide) (by decide), List.reverse_replicate, crc_zeros]
    decide +kernel
  have hgood : ¬ (4138 < cSectorSizeInBits ∨ (0xf0 : BitVec 64) ≠ 0xf0) := by decide
  rw [readData, decode_zeroArea, hall, hsync, hcrc, if_neg hgood]
  rfl

end DiskDecode

end CraySim
