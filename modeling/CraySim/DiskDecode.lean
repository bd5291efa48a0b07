/-
  Subject:   Recovering the sectors of a track from the pulses of a disk.

  `disk_decode.cpp`. A run is the length of a pulse in samples; the levels of the signal alternate,
  beginning with 0. A header and the data behind it start with a synchronisation pattern, which ends
  at the first change of the bit, and end with a CRC of 32 bits.

  * `PulseCategorizer`, `categorizePulse` -- the length of a pulse in half bits,
  * `syncScan`, `decode` -- finding a pattern, and the bits behind it,
  * `binInt`, `validate`, `toBytes` -- bits as numbers, and the CRC,
  * `Sector`, `DiskImage` -- what is recovered.

  The bit time, which `Decode` is given and does not look at, and the printing are left out.
-/
import CraySim.Lib.WordField
import Mathlib.Data.Fin.VecNotation
import Mathlib.Logic.Function.Basic

namespace CraySim

namespace DiskDecode

/-! ## 1. Pulses -/

/-- `Bit_e`. -/
inductive Bit where
  | Zero
  | One
  | Undef
  deriving DecidableEq, Repr

/-- `PulseType_s`: the length in half bits, 0 for an invalid pulse. -/
structure PulseType where
  HalfBitLen : Nat
  Error : Bool
  deriving DecidableEq, Repr

/-- `PulseCategorizer_s`: a table for each level of the signal. -/
structure PulseCategorizer where
  Pulses : Fin 2 → List PulseType
  PulseTableSize : Nat
  length_pulses : ∀ level, (Pulses level).length = PulseTableSize
  size_pos : 0 < PulseTableSize

/-- Entries of the tables: invalid, good, and good but suspicious. -/
def none' : PulseType := ⟨0, true⟩
def good (aHalfBitLen : Nat) : PulseType := ⟨aHalfBitLen, false⟩
def bad (aHalfBitLen : Nat) : PulseType := ⟨aHalfBitLen, true⟩

def cPulses0_Strict : List PulseType :=
  [none', none', none', none', none', none', bad 2, good 2, good 2, bad 2, none', good 3, good 3,
    good 3, none', good 4, good 4, good 4, bad 4, none', none']

def cPulses1_Strict : List PulseType :=
  [none', none', none', none', none', none', bad 2, good 2, good 2, good 2, bad 2, none', good 3,
    good 3, good 3, none', good 4, good 4, good 4, bad 4, none']

def cPulses0_Linient : List PulseType :=
  [none', none', none', none', none', none', bad 2, good 2, good 2, bad 2, bad 3, good 3, good 3,
    good 3, bad 4, good 4, good 4, good 4, bad 4, none', none']

def cPulses1_Linient : List PulseType :=
  [none', none', none', none', none', none', bad 2, good 2, good 2, good 2, bad 2, bad 3, good 3,
    good 3, good 3, bad 4, good 4, good 4, good 4, bad 4, none']

def cStrictCategorizer : PulseCategorizer where
  Pulses := ![cPulses0_Strict, cPulses1_Strict]
  PulseTableSize := cPulses0_Strict.length
  length_pulses := by decide
  size_pos := by decide

def cLinientCategorizer : PulseCategorizer where
  Pulses := ![cPulses0_Linient, cPulses1_Linient]
  PulseTableSize := cPulses0_Strict.length
  length_pulses := by decide
  size_pos := by decide

def categorizePulse (aPulseWidth : BitVec 8) (aSignalLevel : Nat)
    (aPulseCategorizer : PulseCategorizer) : PulseType :=
  let width := if aPulseCategorizer.PulseTableSize ≤ aPulseWidth.toNat then
    aPulseCategorizer.PulseTableSize - 1 else aPulseWidth.toNat
  (aPulseCategorizer.Pulses (Fin.ofNat 2 aSignalLevel)).getD width none'

/-! ## 2. Synchronisation and bits -/

/-- The loop of `SyncScan` over the runs from `idx` on. -/
def syncFrom (aMinLength : Nat) (aPulseCategorizer : PulseCategorizer) :
    Nat → Nat → List (BitVec 8) → Nat
  | _, _, [] => 0
  | idx, count, width :: runs =>
    let pulseType := categorizePulse width (idx % 2) aPulseCategorizer
    if pulseType.HalfBitLen = 2 then
      syncFrom aMinLength aPulseCategorizer (idx + 1) (count + 1) runs
    else if aMinLength ≤ count ∧ pulseType.HalfBitLen = 3 then idx
    else syncFrom aMinLength aPulseCategorizer (idx + 1) 0 runs

/-- `SyncScan`: the run that ends a synchronisation pattern, or 0. -/
def syncScan (aRuns : List (BitVec 8)) (aMinLength aStart : Nat)
    (aPulseCategorizer : PulseCategorizer) : Nat :=
  syncFrom aMinLength aPulseCategorizer aStart 0 (aRuns.drop aStart)

/-- `DecodeResults_s`. -/
structure DecodeResults where
  Data : List Bit
  ErrorRate : Nat
  deriving DecidableEq, Repr

/-- The loop of `Decode` over the runs from `idx` on. -/
def decodeFrom (aPulseCategorizer : PulseCategorizer) :
    Nat → Bit → DecodeResults → List (BitVec 8) → DecodeResults
  | _, _, retVal, [] => retVal
  | idx, lastBit, retVal, width :: runs =>
    let pulseType := categorizePulse width (idx % 2) aPulseCategorizer
    let errorRate := if pulseType.Error then retVal.ErrorRate + 1 else retVal.ErrorRate
    match pulseType.HalfBitLen with
    | 0 => retVal
    | 2 => decodeFrom aPulseCategorizer (idx + 1) lastBit ⟨retVal.Data ++ [lastBit], errorRate⟩ runs
    | 3 =>
      if lastBit = .Zero then
        decodeFrom aPulseCategorizer (idx + 1) .One ⟨retVal.Data ++ [lastBit, .One], errorRate⟩ runs
      else decodeFrom aPulseCategorizer (idx + 1) .Zero ⟨retVal.Data ++ [.Zero], errorRate⟩ runs
    | 4 =>
      if lastBit ≠ .One then ⟨retVal.Data, errorRate⟩
      else
        decodeFrom aPulseCategorizer (idx + 1) lastBit ⟨retVal.Data ++ [.Zero, lastBit], errorRate⟩
          runs
    | _ => ⟨retVal.Data, errorRate⟩

def decode (aRuns : List (BitVec 8)) (aStartIdx aEndIdx : Nat)
    (aPulseCategorizer : PulseCategorizer) : DecodeResults :=
  decodeFrom aPulseCategorizer aStartIdx .Zero ⟨[], 0⟩ ((aRuns.take aEndIdx).drop aStartIdx)

def binInt (aString : List Bit) (aStartIdx aEndIdx : Nat) : BitVec 64 :=
  ((aString.take aEndIdx).drop aStartIdx).foldl
    (fun retVal c => (retVal <<< 1) + (if c = .One then 1 else 0)) 0

def cCrcSize : Nat := 32

def polynom : BitVec 32 := 1 <<< 23 ||| 1 <<< 21 ||| 1 <<< 11 ||| 1 <<< 2 ||| 1 <<< 0

/-- One round of `Validate`, for `LocalCrc` and `CodeWord`. -/
def crcRound (crc : BitVec 32 × BitVec 32) (c : Bit) : BitVec 32 × BitVec 32 :=
  (if c = .One then crc.1 ^^^ crc.2 else crc.1,
    if crc.2 >>> 31 = 1 then (crc.2 <<< 1) ^^^ polynom else crc.2 <<< 1)

/-- `Validate`: the CRC of the bits, from the last to the first, is the number behind them. -/
def validate (aData : List Bit) (aStartIdx aEndIdx : Nat) : Bool :=
  let endIdx := min aEndIdx aData.length
  let payload := (aData.take (endIdx - cCrcSize)).drop aStartIdx
  let localCrc := (payload.reverse.foldl crcRound (0, polynom)).1
  let streamCrc := (binInt aData (endIdx - 32) endIdx).setWidth 32
  streamCrc == localCrc

/-- Eight bits as a byte, the first one on the left. -/
def byteOf (bits : List Bit) : BitVec 8 :=
  bits.foldl (fun byte c => (byte <<< 1) ||| (if c = .One then 1 else 0)) 0

def toBytes (aBits : List Bit) (aStartIdx aEndIdx : Nat) : List (BitVec 8) :=
  (List.range ((min aEndIdx aBits.length - aStartIdx + 7) / 8)).map fun k =>
    byteOf ((aBits.drop (aStartIdx + 8 * k)).take 8)

/-! ## 3. The image -/

/-- `SectorInfo_c`: what a sector may hold, with how often it was found. -/
structure SectorInfo where
  Data : List (BitVec 8)
  ErrorRate : Nat
  RecoveryCount : Nat
  deriving DecidableEq, Repr

/-- `Sector_c`. -/
abbrev Sector := List SectorInfo

def Sector.setData (aData : List (BitVec 8)) (aErrorRate : Nat) : Sector → Sector
  | [] => [⟨aData, aErrorRate, 1⟩]
  | info :: rest =>
    if info.Data = aData then
      { info with
        ErrorRate := min info.ErrorRate aErrorRate
        RecoveryCount := info.RecoveryCount + 1 } :: rest
    else info :: setData aData aErrorRate rest

/-- `DiskImage_c`, the part that holds the sectors. -/
structure DiskImage where
  mHeads : Nat
  mTracks : Nat
  mSectors : Nat
  mSectorData : List Sector
  length_sectorData : mSectorData.length = mHeads * mTracks * mSectors

namespace DiskImage

/-- `SetSize` of a new image. -/
def new (aHeads aTracks aSectors : Nat) : DiskImage where
  mHeads := aHeads
  mTracks := aTracks
  mSectors := aSectors
  mSectorData := List.replicate (aHeads * aTracks * aSectors) []
  length_sectorData := List.length_replicate

def isValidIdx (image : DiskImage) (aHead aTrack aSector : Nat) : Bool :=
  !(decide (image.mHeads ≤ aHead) || decide (image.mTracks < aTrack || aTrack = 0) ||
    decide (image.mSectors ≤ aSector))

/-- Where `GetSector` finds a sector. -/
def sectorIdx (image : DiskImage) (aHead aTrack aSector : Nat) : Nat :=
  aSector + (aTrack - 1) * image.mSectors + aHead * image.mTracks * image.mSectors

/-- `GetSector(aHead, aTrack, aSector).SetData(aData, aErrorRate)`, for a valid index. -/
def setData (image : DiskImage) (aHead aTrack aSector : Nat) (aData : List (BitVec 8))
    (aErrorRate : Nat) : DiskImage :=
  { image with
    mSectorData := image.mSectorData.modify (image.sectorIdx aHead aTrack aSector)
      (Sector.setData aData aErrorRate)
    length_sectorData := by rw [List.length_modify, image.length_sectorData] }

end DiskImage

/-! ## 4. Headers and data areas -/

def cSyncSize : Nat := 9
def cHeaderReservedSize : Nat := 4
def cHeaderTrackSize : Nat := 12
def cHeaderHeadSize : Nat := 10
def cHeaderSectorSize : Nat := 6
def cHeaderDataSize : Nat :=
  cHeaderReservedSize + cHeaderTrackSize + cHeaderHeadSize + cHeaderSectorSize
def cHeaderTrackOfs : Nat := cHeaderReservedSize
def cHeaderHeadOfs : Nat := cHeaderReservedSize + cHeaderTrackSize
def cHeaderSectorOfs : Nat := cHeaderReservedSize + cHeaderTrackSize + cHeaderHeadSize
def cHeaderSize : Nat := cSyncSize + cHeaderDataSize + cCrcSize
def cSectorDataSize : Nat := 4096
def cSectorSizeInBits : Nat := cSyncSize + cSectorDataSize + cCrcSize

/-- The numbers in a header. -/
structure Header where
  head : Nat
  track : Nat
  sector : Nat
  deriving DecidableEq, Repr

/-- The header that starts at a run, if there is one whose CRC is right. -/
def readHeader (aRuns : List (BitVec 8)) (headerStart : Nat)
    (aPulseCategorizer : PulseCategorizer) : Option Header :=
  let data := (decode aRuns headerStart (headerStart + cHeaderSize) aPulseCategorizer).Data
  let field := fun ofs size => (binInt data (cSyncSize + ofs) (cSyncSize + ofs + size)).toNat
  if data.length < cHeaderSize ∨ binInt data 0 cSyncSize ≠ 0xf0 then none
  else if !validate data cSyncSize (cSyncSize + cHeaderSize) then none
  else
    some
      { track := field cHeaderTrackOfs cHeaderTrackSize
        head := field cHeaderHeadOfs cHeaderHeadSize
        sector := field cHeaderSectorOfs cHeaderSectorSize }

/-- The bytes of the data area that starts at a run, if its CRC is right, and the error rate. -/
def readData (aRuns : List (BitVec 8)) (dataStart : Nat) (aPulseCategorizer : PulseCategorizer) :
    Option (List (BitVec 8) × Nat) :=
  let results := decode aRuns dataStart (dataStart + cSectorSizeInBits) aPulseCategorizer
  if results.Data.length < cSectorSizeInBits ∨ binInt results.Data 0 cSyncSize ≠ 0xf0 then none
  else if !validate results.Data cSyncSize cSectorSizeInBits then none
  else some (toBytes results.Data cSyncSize (cSyncSize + cSectorDataSize), results.ErrorRate)

/-! ## 5. Extraction -/

/-- `SectorStats_s`. -/
structure SectorStats where
  StartHeader : Nat
  StartData : Nat
  deriving DecidableEq, Repr

/-- A sector as it is stored: its numbers, its data, and the runs it comes from. -/
structure Stored where
  header : Header
  bytes : List (BitVec 8)
  errorRate : Nat
  stats : SectorStats
  deriving DecidableEq, Repr

/-- The variables of `Extract`; `stored` is what it has stored, in order. -/
structure ExtractState where
  currentRunIdx : Nat
  track : Nat
  sectorCnt : Nat
  lastSector : Int
  image : DiskImage
  sectors : Nat → List SectorStats
  stored : List Stored

/-- The variables in the beginning. -/
def ExtractState.start (aImage : DiskImage) : ExtractState where
  currentRunIdx := 0
  track := 0
  sectorCnt := 0
  lastSector := -1
  image := aImage
  sectors := fun _ => []
  stored := []

section extract
variable (aRuns : List (BitVec 8)) (aExpectedHead : Nat) (aPulseCategorizer : PulseCategorizer)

/-- The sector numbers of a track follow one another, from sector 0 or a gap on. -/
def continues (lastSector : Int) (sector : Nat) : Bool :=
  lastSector = -1 || sector = 0 || lastSector + 1 = sector

/-- Saves the data of a sector. -/
def ExtractState.store (s : ExtractState) (e : Stored) : ExtractState :=
  { s with
    currentRunIdx := e.stats.StartData
    sectorCnt := s.sectorCnt + 1
    lastSector := e.header.sector
    image := s.image.setData e.header.head e.header.track e.header.sector e.bytes e.errorRate
    sectors := Function.update s.sectors e.header.sector (s.sectors e.header.sector ++ [e.stats])
    stored := s.stored ++ [e] }

/-- The part of a pass that looks for the data behind a header. -/
def passData (headerStart : Nat) (header : Header) (s : ExtractState) : ExtractState × Bool :=
  let dataStart := syncScan aRuns 100 headerStart aPulseCategorizer
  if dataStart = 0 then (s, false)
  else
    match readData aRuns dataStart aPulseCategorizer with
    | none => (s, true)
    | some (bytes, errorRate) => (s.store ⟨header, bytes, errorRate, ⟨headerStart, dataStart⟩⟩, true)

/-- The part of a pass that checks a header. -/
def passHeader (headerStart : Nat) (header : Header) (s : ExtractState) : ExtractState × Bool :=
  if header.head ≠ aExpectedHead then (s, true)
  else if s.track ≠ 0 ∧ s.track ≠ header.track then (s, true)
  else if !s.image.isValidIdx header.head header.track header.sector then (s, true)
  else if !continues s.lastSector header.sector then ({ s with lastSector := -1 }, true)
  else passData aRuns aPulseCategorizer headerStart header { s with track := header.track }

/-- One pass of the loop, and whether there is another one. -/
def pass (s : ExtractState) : ExtractState × Bool :=
  let headerStart := syncScan aRuns 50 s.currentRunIdx aPulseCategorizer
  if headerStart = 0 then (s, false)
  else
    let s := { s with currentRunIdx := headerStart }
    match readHeader aRuns headerStart aPulseCategorizer with
    | none => (s, true)
    | some header => passHeader aRuns aExpectedHead aPulseCategorizer headerStart header s

theorem syncFrom_bounds (aMinLength idx count : Nat) (runs : List (BitVec 8))
    (h : syncFrom aMinLength aPulseCategorizer idx count runs ≠ 0) :
    idx + aMinLength ≤ syncFrom aMinLength aPulseCategorizer idx count runs + count ∧
      syncFrom aMinLength aPulseCategorizer idx count runs < idx + runs.length := by
  induction runs generalizing idx count with
  | nil => exact absurd rfl h
  | cons width runs ih =>
    rw [List.length_cons]
    rw [syncFrom] at h ⊢
    split at h
    · rename_i htwo
      have hrest := ih (idx + 1) (count + 1) h
      rw [if_pos htwo]
      omega
    · rename_i htwo
      rw [if_neg htwo]
      split at h
      · rename_i hend
        rw [if_pos hend]
        omega
      · rename_i hend
        have hrest := ih (idx + 1) 0 h
        rw [if_neg hend]
        omega

/-- Where a pattern ends: behind it, and among the runs. -/
theorem syncScan_bounds {aMinLength aStart : Nat}
    (h : syncScan aRuns aMinLength aStart aPulseCategorizer ≠ 0) :
    aStart + aMinLength ≤ syncScan aRuns aMinLength aStart aPulseCategorizer ∧
      syncScan aRuns aMinLength aStart aPulseCategorizer < aRuns.length := by
  have hbounds := syncFrom_bounds aPulseCategorizer aMinLength aStart 0 (aRuns.drop aStart) h
  rw [List.length_drop] at hbounds
  rw [syncScan] at h ⊢
  omega

/-- The header that a pass accepts. -/
def Accepts (s : ExtractState) (header : Header) : Prop :=
  header.head = aExpectedHead ∧ (s.track ≠ 0 → s.track = header.track) ∧
    s.image.isValidIdx header.head header.track header.sector = true ∧
    continues s.lastSector header.sector = true

/-- What a pass stores, if it stores something. -/
structure Stores (s : ExtractState) (e : Stored) : Prop where
  startHeader : e.stats.StartHeader = syncScan aRuns 50 s.currentRunIdx aPulseCategorizer
  header_ne_zero : e.stats.StartHeader ≠ 0
  header : readHeader aRuns e.stats.StartHeader aPulseCategorizer = some e.header
  accepts : Accepts aExpectedHead s e.header
  startData : e.stats.StartData = syncScan aRuns 100 e.stats.StartHeader aPulseCategorizer
  data_ne_zero : e.stats.StartData ≠ 0
  data : readData aRuns e.stats.StartData aPulseCategorizer = some (e.bytes, e.errorRate)

/-- A pass that stores nothing: the image is as it was, and if it is not the last pass, the next one
    starts at the header that was found. -/
structure Skips (s s' : ExtractState) (more : Bool) : Prop where
  image : s'.image = s.image
  stored : s'.stored = s.stored
  sectors : s'.sectors = s.sectors
  advances : more = true → s'.currentRunIdx = s.currentRunIdx

/-- A header that is not accepted is passed over. -/
theorem passHeader_rejects (headerStart : Nat) {header : Header} {s : ExtractState}
    (h : ¬ Accepts aExpectedHead s header) : ∃ s',
      passHeader aRuns aExpectedHead aPulseCategorizer headerStart header s = (s', true) ∧
        Skips s s' true := by
  rw [passHeader]
  split
  · exact ⟨s, rfl, rfl, rfl, rfl, fun _ => rfl⟩
  · rename_i hhead
    split
    · exact ⟨s, rfl, rfl, rfl, rfl, fun _ => rfl⟩
    · rename_i htrack
      split
      · exact ⟨s, rfl, rfl, rfl, rfl, fun _ => rfl⟩
      · rename_i hvalid
        split
        · exact ⟨_, rfl, rfl, rfl, rfl, fun _ => rfl⟩
        · rename_i hcontinues
          refine absurd ⟨not_not.mp hhead, fun hne => ?_, by simpa using hvalid,
            by simpa using hcontinues⟩ h
          exact not_not.mp fun hother => htrack ⟨hne, hother⟩

theorem passHeader_accepts {headerStart : Nat} {header : Header} {s : ExtractState}
    (h : Accepts aExpectedHead s header) :
    passHeader aRuns aExpectedHead aPulseCategorizer headerStart header s =
      passData aRuns aPulseCategorizer headerStart header { s with track := header.track } := by
  obtain ⟨hhead, htrack, hvalid, hcontinues⟩ := h
  have hsame : ¬ (s.track ≠ 0 ∧ s.track ≠ header.track) := fun hother =>
    hother.2 (htrack hother.1)
  rw [passHeader, if_neg (not_not.mpr hhead), if_neg hsame, hvalid, hcontinues]
  rfl

/-- **What a pass does**: it stores a sector, or it skips. -/
theorem pass_cases (s : ExtractState) :
    (∃ e, Stores aRuns aExpectedHead aPulseCategorizer s e ∧
      pass aRuns aExpectedHead aPulseCategorizer s =
        (({ s with track := e.header.track } : ExtractState).store e, true)) ∨
      (∀ e, ¬ Stores aRuns aExpectedHead aPulseCategorizer s e) ∧
        ∃ s' more, pass aRuns aExpectedHead aPulseCategorizer s = (s', more) ∧
          Skips { s with currentRunIdx := syncScan aRuns 50 s.currentRunIdx aPulseCategorizer } s'
            more ∧
          (more = true → syncScan aRuns 50 s.currentRunIdx aPulseCategorizer ≠ 0) := by
  rw [pass]
  dsimp only
  by_cases hzero : syncScan aRuns 50 s.currentRunIdx aPulseCategorizer = 0
  · rw [if_pos hzero]
    exact .inr ⟨fun e he => he.header_ne_zero (he.startHeader.trans hzero), s, false, rfl,
      ⟨rfl, rfl, rfl, (absurd · Bool.false_ne_true)⟩, (absurd · Bool.false_ne_true)⟩
  rw [if_neg hzero]
  rcases hheader : readHeader aRuns (syncScan aRuns 50 s.currentRunIdx aPulseCategorizer)
    aPulseCategorizer with _ | header
  · refine .inr ⟨fun e he => ?_, _, true, rfl, ⟨rfl, rfl, rfl, fun _ => rfl⟩, fun _ => hzero⟩
    have hread := he.header
    rw [he.startHeader, hheader] at hread
    cases hread
  have hfound : ∀ e, Stores aRuns aExpectedHead aPulseCategorizer s e → e.header = header := by
    intro e he
    have hread := he.header
    rw [he.startHeader, hheader] at hread
    exact (Option.some.inj hread).symm
  dsimp only
  by_cases haccepts : Accepts aExpectedHead s header
  · rw [passHeader_accepts aRuns aExpectedHead aPulseCategorizer
      (s := { s with currentRunIdx := syncScan aRuns 50 s.currentRunIdx aPulseCategorizer }) haccepts,
      passData]
    dsimp only
    by_cases hnone : syncScan aRuns 100 (syncScan aRuns 50 s.currentRunIdx aPulseCategorizer)
      aPulseCategorizer = 0
    · rw [if_pos hnone]
      exact .inr ⟨fun e he => he.data_ne_zero (he.startData.trans (he.startHeader ▸ hnone)), _,
        false, rfl, ⟨rfl, rfl, rfl, fun _ => rfl⟩, (absurd · Bool.false_ne_true)⟩
    rw [if_neg hnone]
    rcases hdata : readData aRuns (syncScan aRuns 100 (syncScan aRuns 50 s.currentRunIdx
      aPulseCategorizer) aPulseCategorizer) aPulseCategorizer with _ | ⟨bytes, errorRate⟩
    · refine .inr ⟨fun e he => ?_, _, true, rfl, ⟨rfl, rfl, rfl, fun _ => rfl⟩, fun _ => hzero⟩
      have hread := he.data
      rw [he.startData, he.startHeader, hdata] at hread
      cases hread
    · exact .inl ⟨⟨header, bytes, errorRate, _, _⟩,
        ⟨rfl, hzero, hheader, haccepts, rfl, hnone, hdata⟩, rfl⟩
  · obtain ⟨s', hpass, hskips⟩ := passHeader_rejects aRuns aExpectedHead aPulseCategorizer
      (syncScan aRuns 50 s.currentRunIdx aPulseCategorizer)
      (s := { s with currentRunIdx := syncScan aRuns 50 s.currentRunIdx aPulseCategorizer })
      haccepts
    refine .inr ⟨fun e he => haccepts (hfound e he ▸ he.accepts), s', true, hpass, hskips,
      fun _ => hzero⟩

theorem pass_advances {s s' : ExtractState}
    (h : pass aRuns aExpectedHead aPulseCategorizer s = (s', true)) :
    s.currentRunIdx < s'.currentRunIdx ∧ s'.currentRunIdx < aRuns.length := by
  rcases pass_cases aRuns aExpectedHead aPulseCategorizer s with ⟨e, he, hpass⟩ | ⟨-, t, more, hpass,
    hskips, hne⟩
  · have hheader := syncScan_bounds aRuns aPulseCategorizer (he.startHeader ▸ he.header_ne_zero)
    have hdata := syncScan_bounds aRuns aPulseCategorizer (he.startData ▸ he.data_ne_zero)
    rw [← he.startHeader] at hheader
    rw [← he.startData] at hdata
    obtain rfl := (Prod.mk.inj (h.symm.trans hpass)).1
    rw [ExtractState.store]
    dsimp only
    omega
  · obtain ⟨rfl, rfl⟩ := Prod.mk.inj (h.symm.trans hpass)
    have hheader := syncScan_bounds aRuns aPulseCategorizer (hne rfl)
    rw [hskips.advances rfl]
    dsimp only
    omega

/-- The loop of `Extract`. -/
def extractLoop (s : ExtractState) : ExtractState :=
  match _h : pass aRuns aExpectedHead aPulseCategorizer s with
  | (s', true) => extractLoop s'
  | (s', false) => s'
  termination_by aRuns.length - s.currentRunIdx
  decreasing_by
    have hadvance := pass_advances aRuns aExpectedHead aPulseCategorizer _h
    omega

/-- `Extract`: the image, and `TrackStats`. -/
def extract (aImage : DiskImage) : ExtractState :=
  extractLoop aRuns aExpectedHead aPulseCategorizer (.start aImage)

end extract

end DiskDecode

end CraySim
