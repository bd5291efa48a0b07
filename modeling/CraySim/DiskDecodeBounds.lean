/-
  Subject:   The loops of `Extract` end, and what they access is there.

  The functions of `DiskDecode.lean` once more, with every access checked and every `while` loop
  given a number of rounds. Where nothing goes wrong they are the functions of that file.

  * `access`, `DecodeExn` -- an access, and what may go wrong,
  * `syncScanIn`, `decodeIn`, `binIntIn`, `validateIn`, `toBytesIn`, `getSectorIn`,
  * `readHeaderIn`, `readDataIn`, `passIn`, `extractIn` -- the functions with their accesses,
  * `syncScanIn_eq`, …, `passIn_eq` -- nothing goes wrong in a pass,
  * `extract_inBounds` -- nor in `Extract`, which ends.
-/
import CraySim.DiskDecodeCrc

namespace CraySim

namespace DiskDecode

/-! ## 1. Accesses -/

/-- What may go wrong. -/
inductive DecodeExn where
  /-- `std::range_error`, which `GetSector` throws. -/
  | rangeError (aText : String)
  /-- There is no such element. -/
  | undefinedBehaviour
  /-- No exception of the source: the rounds were not enough. -/
  | outOfRounds
  deriving DecidableEq, Repr

/-- `l[i]`. -/
def access {α : Type} (l : List α) (i : Nat) : Except DecodeExn α :=
  match l[i]? with
  | some a => .ok a
  | none => .error .undefinedBehaviour

theorem ok_bind {α β : Type} (a : α) (f : α → Except DecodeExn β) : (Except.ok a >>= f) = f a := rfl

theorem access_eq {α : Type} {l : List α} {i : Nat} {a : α} (h : l[i]? = some a) :
    access l i = .ok a := by
  rw [access, h]

/-- A loop over the elements with indices `i`, …, `i + n - 1`. -/
theorem foldlM_access {α β : Type} (f : β → α → β) (l : List α) (n : Nat) : ∀ (i : Nat) (acc : β),
    i + n ≤ l.length →
      (List.range' i n).foldlM (fun acc i => (access l i).map (f acc)) acc =
        .ok (((l.take (i + n)).drop i).foldl f acc) := by
  induction n with
  | zero =>
    intro i acc _
    rw [Nat.add_zero, List.drop_take_self]
    rfl
  | succ n ih =>
    intro i acc h
    have hi : i < l.length := by omega
    have hcut : (l.take (i + (n + 1))).drop i = l[i] :: (l.take (i + 1 + n)).drop (i + 1) := by
      have hend : i + (n + 1) = i + 1 + n := by omega
      rw [hend, List.drop_eq_getElem_cons (by rw [List.length_take]; omega), List.getElem_take]
    rw [List.range'_succ, List.foldlM_cons, access_eq (List.getElem?_eq_getElem hi), hcut]
    exact ih (i + 1) _ (by omega)

/-! ## 2. The functions -/

/-- `CategorizePulse`. -/
def categorizePulseIn (aPulseWidth : BitVec 8) (aSignalLevel : Nat)
    (aPulseCategorizer : PulseCategorizer) : Except DecodeExn PulseType :=
  let width := if aPulseCategorizer.PulseTableSize ≤ aPulseWidth.toNat then
    aPulseCategorizer.PulseTableSize - 1 else aPulseWidth.toNat
  access (aPulseCategorizer.Pulses (Fin.ofNat 2 aSignalLevel)) width

section functions
variable (aRuns : List (BitVec 8)) (aExpectedHead : Nat) (aPulseCategorizer : PulseCategorizer)
  (rounds : Nat)

/-- The loop of `SyncScan`. -/
def syncFromIn (aMinLength : Nat) : Nat → Nat → Nat → Except DecodeExn Nat
  | 0, _, _ => .error .outOfRounds
  | rounds + 1, idx, count =>
    if aRuns.length ≤ idx then .ok 0
    else do
      let width ← access aRuns idx
      let pulseType ← categorizePulseIn width (idx % 2) aPulseCategorizer
      if pulseType.HalfBitLen = 2 then syncFromIn aMinLength rounds (idx + 1) (count + 1)
      else if aMinLength ≤ count ∧ pulseType.HalfBitLen = 3 then .ok idx
      else syncFromIn aMinLength rounds (idx + 1) 0

/-- `SyncScan`. -/
def syncScanIn (aMinLength aStart : Nat) : Except DecodeExn Nat :=
  syncFromIn aRuns aPulseCategorizer aMinLength rounds aStart 0

/-- The loop of `Decode`, for the indices it runs through. -/
def decodeFromIn : List Nat → Bit → DecodeResults → Except DecodeExn DecodeResults
  | [], _, retVal => .ok retVal
  | idx :: indices, lastBit, retVal => do
    let width ← access aRuns idx
    let pulseType ← categorizePulseIn width (idx % 2) aPulseCategorizer
    let errorRate := if pulseType.Error then retVal.ErrorRate + 1 else retVal.ErrorRate
    match pulseType.HalfBitLen with
    | 0 => .ok retVal
    | 2 => decodeFromIn indices lastBit ⟨retVal.Data ++ [lastBit], errorRate⟩
    | 3 =>
      if lastBit = .Zero then
        decodeFromIn indices .One ⟨retVal.Data ++ [lastBit, .One], errorRate⟩
      else decodeFromIn indices .Zero ⟨retVal.Data ++ [.Zero], errorRate⟩
    | 4 =>
      if lastBit ≠ .One then .ok ⟨retVal.Data, errorRate⟩
      else decodeFromIn indices lastBit ⟨retVal.Data ++ [.Zero, lastBit], errorRate⟩
    | _ => .ok ⟨retVal.Data, errorRate⟩

/-- `Decode`. -/
def decodeIn (aStartIdx aEndIdx : Nat) : Except DecodeExn DecodeResults :=
  decodeFromIn aRuns aPulseCategorizer
    (List.range' aStartIdx (min aEndIdx aRuns.length - aStartIdx)) .Zero ⟨[], 0⟩

end functions

/-- `BinInt`. -/
def binIntIn (aString : List Bit) (aStartIdx aEndIdx : Nat) : Except DecodeExn (BitVec 64) :=
  (List.range' aStartIdx (min aEndIdx aString.length - aStartIdx)).foldlM
    (fun retVal idx => (access aString idx).map fun c =>
      (retVal <<< 1) + (if c = .One then 1 else 0)) 0

/-- `Validate`. -/
def validateIn (rounds : Nat) (aData : List Bit) (aStartIdx aEndIdx : Nat) :
    Except DecodeExn Bool := do
  let endIdx := min aEndIdx aData.length
  let localCrc ←
    match validateLoop aData aStartIdx rounds (sizeSub (sizeSub endIdx cCrcSize) 1) (0, polynom) with
    | none => .error .outOfRounds
    | some (.error _) => .error .undefinedBehaviour
    | some (.ok localCrc) => .ok localCrc
  let streamCrc ← binIntIn aData (sizeSub endIdx 32) endIdx
  return streamCrc.setWidth 32 == localCrc

/-- A byte of `ToBytes`. -/
def byteIn (aBits : List Bit) (byteIdx : Nat) : Except DecodeExn (BitVec 8) :=
  (List.range' byteIdx 8).foldlM
    (fun byte idx => (access aBits idx).map fun c =>
      (byte <<< 1) ||| (if c = .One then 1 else 0)) 0

/-- `ToBytes`. -/
def toBytesIn (aBits : List Bit) (aStartIdx aEndIdx : Nat) : Except DecodeExn (List (BitVec 8)) :=
  (List.range ((min aEndIdx aBits.length - aStartIdx + 7) / 8)).mapM fun k =>
    byteIn aBits (aStartIdx + 8 * k)

/-- `GetSector`. -/
def DiskImage.getSectorIn (image : DiskImage) (aHead aTrack aSector : Nat) :
    Except DecodeExn Sector :=
  if image.mHeads ≤ aHead then .error (.rangeError "head is out of range")
  else if image.mTracks < aTrack ∨ aTrack = 0 then .error (.rangeError "track is out of range")
  else if image.mSectors ≤ aSector then .error (.rangeError "sector is out of range")
  else access image.mSectorData (image.sectorIdx aHead aTrack aSector)

section passes
variable (aRuns : List (BitVec 8)) (aExpectedHead : Nat) (aPulseCategorizer : PulseCategorizer)
  (rounds : Nat)

/-- The header that starts at a run. -/
def readHeaderIn (headerStart : Nat) : Except DecodeExn (Option Header) := do
  let results ← decodeIn aRuns aPulseCategorizer headerStart (headerStart + cHeaderSize)
  let field := fun ofs size => binIntIn results.Data (cSyncSize + ofs) (cSyncSize + ofs + size)
  if results.Data.length < cHeaderSize then return none
  else if (← binIntIn results.Data 0 cSyncSize) ≠ 0xf0 then return none
  else if !(← validateIn rounds results.Data cSyncSize (cSyncSize + cHeaderSize)) then return none
  else
    let track ← field cHeaderTrackOfs cHeaderTrackSize
    let head ← field cHeaderHeadOfs cHeaderHeadSize
    let sector ← field cHeaderSectorOfs cHeaderSectorSize
    return some { track := track.toNat, head := head.toNat, sector := sector.toNat }

/-- The data area that starts at a run. -/
def readDataIn (dataStart : Nat) : Except DecodeExn (Option (List (BitVec 8) × Nat)) := do
  let results ← decodeIn aRuns aPulseCategorizer dataStart (dataStart + cSectorSizeInBits)
  if results.Data.length < cSectorSizeInBits then return none
  else if (← binIntIn results.Data 0 cSyncSize) ≠ 0xf0 then return none
  else if !(← validateIn rounds results.Data cSyncSize cSectorSizeInBits) then return none
  else
    let bytes ← toBytesIn results.Data cSyncSize (cSyncSize + cSectorDataSize)
    return some (bytes, results.ErrorRate)

/-- `TrackStats.Sectors` has as many entries. -/
def cSectors : Nat := 32

/-- Saves the data of a sector. -/
def ExtractState.storeIn (s : ExtractState) (e : Stored) : Except DecodeExn ExtractState := do
  let _ ← s.image.getSectorIn e.header.head e.header.track e.header.sector
  if e.header.sector < cSectors then return s.store e else throw .undefinedBehaviour

/-- The part of a pass that looks for the data behind a header. -/
def passDataIn (headerStart : Nat) (header : Header) (s : ExtractState) :
    Except DecodeExn (ExtractState × Bool) := do
  let dataStart ← syncScanIn aRuns aPulseCategorizer rounds 100 headerStart
  if dataStart = 0 then return (s, false)
  else
    match ← readDataIn aRuns aPulseCategorizer rounds dataStart with
    | none => return (s, true)
    | some (bytes, errorRate) =>
      return (← s.storeIn ⟨header, bytes, errorRate, ⟨headerStart, dataStart⟩⟩, true)

/-- The part of a pass that checks a header. -/
def passHeaderIn (headerStart : Nat) (header : Header) (s : ExtractState) :
    Except DecodeExn (ExtractState × Bool) :=
  if header.head ≠ aExpectedHead then return (s, true)
  else if s.track ≠ 0 ∧ s.track ≠ header.track then return (s, true)
  else if !s.image.isValidIdx header.head header.track header.sector then return (s, true)
  else if !continues s.lastSector header.sector then return ({ s with lastSector := -1 }, true)
  else
    passDataIn aRuns aPulseCategorizer rounds headerStart header { s with track := header.track }

/-- One pass of the loop, and whether there is another one. -/
def passIn (s : ExtractState) : Except DecodeExn (ExtractState × Bool) := do
  let headerStart ← syncScanIn aRuns aPulseCategorizer rounds 50 s.currentRunIdx
  if headerStart = 0 then return (s, false)
  else
    let s := { s with currentRunIdx := headerStart }
    match ← readHeaderIn aRuns aPulseCategorizer rounds headerStart with
    | none => return (s, true)
    | some header =>
      passHeaderIn aRuns aExpectedHead aPulseCategorizer rounds headerStart header s

/-- The loop of `Extract`, for a number of passes. -/
def extractLoopIn : Nat → ExtractState → Except DecodeExn ExtractState
  | 0, _ => .error .outOfRounds
  | passes + 1, s => do
    let (s, more) ← passIn aRuns aExpectedHead aPulseCategorizer rounds s
    if more then extractLoopIn passes s else return s

/-- `Extract`, with a number of rounds for each of its loops. -/
def extractIn (aImage : DiskImage) : Except DecodeExn ExtractState :=
  extractLoopIn aRuns aExpectedHead aPulseCategorizer rounds rounds (.start aImage)

end passes

/-! ## 3. Nothing goes wrong -/

theorem categorizePulseIn_eq (aPulseWidth : BitVec 8) (aSignalLevel : Nat)
    (aPulseCategorizer : PulseCategorizer) :
    categorizePulseIn aPulseWidth aSignalLevel aPulseCategorizer =
      .ok (categorizePulse aPulseWidth aSignalLevel aPulseCategorizer) := by
  have hlength := aPulseCategorizer.length_pulses (Fin.ofNat 2 aSignalLevel)
  have hpos := aPulseCategorizer.size_pos
  rw [categorizePulseIn, categorizePulse]
  generalize hwidth : (if aPulseCategorizer.PulseTableSize ≤ aPulseWidth.toNat then
    aPulseCategorizer.PulseTableSize - 1 else aPulseWidth.toNat) = width
  have hlt : width < (aPulseCategorizer.Pulses (Fin.ofNat 2 aSignalLevel)).length := by
    rw [hlength, ← hwidth]
    split <;> omega
  rw [List.getD_eq_getElem _ _ hlt]
  exact access_eq (List.getElem?_eq_getElem hlt)

section functions
variable (aRuns : List (BitVec 8)) (aExpectedHead : Nat) (aPulseCategorizer : PulseCategorizer)

theorem syncFromIn_eq (aMinLength rounds : Nat) : ∀ idx count : Nat,
    aRuns.length - idx < rounds →
      syncFromIn aRuns aPulseCategorizer aMinLength rounds idx count =
        .ok (syncFrom aMinLength aPulseCategorizer idx count (aRuns.drop idx)) := by
  induction rounds with
  | zero => exact fun idx count h => absurd h (Nat.not_lt_zero _)
  | succ rounds ih =>
    intro idx count h
    rw [syncFromIn]
    by_cases hend : aRuns.length ≤ idx
    · rw [if_pos hend, List.drop_eq_nil_of_le hend]
      rfl
    · have hidx : idx < aRuns.length := Nat.lt_of_not_le hend
      rw [if_neg hend, access_eq (List.getElem?_eq_getElem hidx), ok_bind, categorizePulseIn_eq,
        ok_bind, ih (idx + 1) (count + 1) (by omega), ih (idx + 1) 0 (by omega),
        List.drop_eq_getElem_cons hidx, syncFrom]
      split
      · rfl
      · split <;> rfl

theorem syncScanIn_eq {rounds : Nat} (h : aRuns.length < rounds) (aMinLength aStart : Nat) :
    syncScanIn aRuns aPulseCategorizer rounds aMinLength aStart =
      .ok (syncScan aRuns aMinLength aStart aPulseCategorizer) :=
  syncFromIn_eq aRuns aPulseCategorizer aMinLength rounds aStart 0 (by omega)

theorem decodeFromIn_eq (runs : List (BitVec 8)) : ∀ (idx : Nat) (lastBit : Bit)
    (retVal : DecodeResults), (∀ k < runs.length, aRuns[idx + k]? = runs[k]?) →
      decodeFromIn aRuns aPulseCategorizer (List.range' idx runs.length) lastBit retVal =
        .ok (decodeFrom aPulseCategorizer idx lastBit retVal runs) := by
  induction runs with
  | nil => exact fun _ _ _ _ => rfl
  | cons width runs ih =>
    intro idx lastBit retVal hruns
    have hrest : ∀ k < runs.length, aRuns[idx + 1 + k]? = runs[k]? := by
      intro k hk
      have hnext := hruns (k + 1) (Nat.succ_lt_succ hk)
      rwa [List.getElem?_cons_succ, ← Nat.add_assoc, Nat.add_right_comm] at hnext
    have hwidth : aRuns[idx]? = some width := hruns 0 (Nat.succ_pos _)
    rw [List.length_cons, List.range'_succ, decodeFromIn, access_eq hwidth, ok_bind,
      categorizePulseIn_eq, ok_bind, decodeFrom]
    simp only [ih _ _ _ hrest]
    generalize (categorizePulse width (idx % 2) aPulseCategorizer).HalfBitLen = halfBitLen
    match halfBitLen with
    | 0 => rfl
    | 1 => rfl
    | 2 => rfl
    | 3 => by_cases hbit : lastBit = .Zero <;> simp only [hbit, if_true, if_false]
    | 4 =>
      by_cases hbit : lastBit = .One <;>
        simp only [hbit, ne_eq, not_true, not_false_iff, if_true, if_false]
    | n + 5 => rfl

theorem decodeIn_eq (aStartIdx aEndIdx : Nat) :
    decodeIn aRuns aPulseCategorizer aStartIdx aEndIdx =
      .ok (decode aRuns aStartIdx aEndIdx aPulseCategorizer) := by
  have hlength : ((aRuns.take aEndIdx).drop aStartIdx).length =
      min aEndIdx aRuns.length - aStartIdx := by
    rw [List.length_drop, List.length_take]
  rw [decodeIn, ← hlength, decode]
  refine decodeFromIn_eq aRuns aPulseCategorizer _ aStartIdx .Zero ⟨[], 0⟩ fun k hk => ?_
  rw [hlength] at hk
  rw [List.getElem?_drop, List.getElem?_take_of_lt (by omega)]

end functions

theorem binIntIn_eq (aString : List Bit) (aStartIdx aEndIdx : Nat) :
    binIntIn aString aStartIdx aEndIdx = .ok (binInt aString aStartIdx aEndIdx) := by
  rw [binIntIn, binInt]
  by_cases hempty : min aEndIdx aString.length ≤ aStartIdx
  · rw [Nat.sub_eq_zero_of_le hempty, List.drop_eq_nil_of_le (by rwa [List.length_take])]
    rfl
  · have hclamp : aString.take aEndIdx = aString.take (min aEndIdx aString.length) := by
      rw [← List.take_take, List.take_length]
    have hend : aStartIdx + (min aEndIdx aString.length - aStartIdx) =
        min aEndIdx aString.length := by omega
    rw [foldlM_access (fun (retVal : BitVec 64) c => (retVal <<< 1) + (if c = .One then 1 else 0))
      aString _ aStartIdx 0 (by omega), hend, hclamp]

/-- The range of a check that starts behind the first bit. -/
theorem validateIn_eq {aData : List Bit} {aStartIdx aEndIdx rounds : Nat}
    (h : GoodRange aData aStartIdx aEndIdx) (hrounds : aEndIdx ≤ rounds) :
    validateIn rounds aData aStartIdx aEndIdx = .ok (validate aData aStartIdx aEndIdx) := by
  have hroom := h.room
  rw [validateIn]
  simp only
  rw [h.loop (Nat.min_le_left _ _ |>.trans hrounds), binIntIn_eq, sizeSub, if_pos (by omega)]
  rfl

theorem byteIn_eq {aBits : List Bit} {byteIdx : Nat} (h : byteIdx + 8 ≤ aBits.length) :
    byteIn aBits byteIdx = .ok (byteOf ((aBits.drop byteIdx).take 8)) := by
  rw [byteIn, foldlM_access (fun (byte : BitVec 8) c => (byte <<< 1) ||| (if c = .One then 1 else 0))
    aBits 8 byteIdx 0 h, byteOf, List.take_drop]

theorem mapM_eq_ok {α β : Type} {f : α → Except DecodeExn β} {g : α → β} :
    ∀ {l : List α}, (∀ a ∈ l, f a = .ok (g a)) → l.mapM f = .ok (l.map g)
  | [], _ => rfl
  | a :: l, h => by
    rw [List.mapM_cons, h a List.mem_cons_self, ok_bind,
      mapM_eq_ok fun b hb => h b (List.mem_cons_of_mem a hb)]
    rfl

theorem toBytesIn_eq {aBits : List Bit} {aStartIdx aEndIdx n : Nat}
    (hend : aEndIdx = aStartIdx + 8 * n) (h : aEndIdx ≤ aBits.length) :
    toBytesIn aBits aStartIdx aEndIdx = .ok (toBytes aBits aStartIdx aEndIdx) := by
  refine mapM_eq_ok fun k hk => byteIn_eq ?_
  rw [List.mem_range] at hk
  omega

theorem DiskImage.isValidIdx_iff {image : DiskImage} {aHead aTrack aSector : Nat} :
    image.isValidIdx aHead aTrack aSector = true ↔
      aHead < image.mHeads ∧ (1 ≤ aTrack ∧ aTrack ≤ image.mTracks) ∧ aSector < image.mSectors := by
  simp [isValidIdx]
  omega

/-- **A valid index is that of a sector.** -/
theorem DiskImage.getSectorIn_eq (image : DiskImage) {aHead aTrack aSector : Nat}
    (h : image.isValidIdx aHead aTrack aSector = true) :
    ∃ sector, image.getSectorIn aHead aTrack aSector = .ok sector := by
  obtain ⟨hhead, htrack, hsector⟩ := isValidIdx_iff.mp h
  have hlt : image.sectorIdx aHead aTrack aSector < image.mSectorData.length := by
    rw [sectorIdx, image.length_sectorData]
    calc aSector + (aTrack - 1) * image.mSectors + aHead * image.mTracks * image.mSectors
        < (aTrack - 1 + 1) * image.mSectors + aHead * image.mTracks * image.mSectors := by
          rw [Nat.add_mul (aTrack - 1) 1, Nat.one_mul]
          omega
      _ ≤ image.mTracks * image.mSectors + aHead * image.mTracks * image.mSectors :=
          Nat.add_le_add_right (Nat.mul_le_mul_right _ (by omega)) _
      _ = (aHead + 1) * image.mTracks * image.mSectors := by
          rw [Nat.add_mul, Nat.add_mul, Nat.one_mul, Nat.add_comm]
      _ ≤ image.mHeads * image.mTracks * image.mSectors :=
          Nat.mul_le_mul_right _ (Nat.mul_le_mul_right _ hhead)
  refine ⟨image.mSectorData[image.sectorIdx aHead aTrack aSector], ?_⟩
  rw [getSectorIn, if_neg (by omega), if_neg (by omega), if_neg (by omega)]
  exact access_eq (List.getElem?_eq_getElem hlt)

/-! ## 4. A pass -/

section passes
variable (aRuns : List (BitVec 8)) (aExpectedHead : Nat) (aPulseCategorizer : PulseCategorizer)

theorem readHeaderIn_eq {rounds : Nat} (h : cSyncSize + cHeaderSize ≤ rounds) (headerStart : Nat) :
    readHeaderIn aRuns aPulseCategorizer rounds headerStart =
      .ok (readHeader aRuns headerStart aPulseCategorizer) := by
  rw [readHeaderIn, decodeIn_eq, ok_bind, readHeader]
  generalize (decode aRuns headerStart (headerStart + cHeaderSize) aPulseCategorizer).Data = data
  simp only [binIntIn_eq, ok_bind]
  by_cases hshort : data.length < cHeaderSize
  · rw [if_pos hshort, if_pos (.inl hshort)]
    rfl
  · rw [if_neg hshort]
    by_cases hmark : binInt data 0 cSyncSize ≠ 0xf0
    · rw [if_pos hmark, if_pos (.inr hmark)]
      rfl
    · have hrange : GoodRange data cSyncSize (cSyncSize + cHeaderSize) := by
        refine ⟨by decide, ?_⟩
        have hsize : cHeaderSize = 73 := rfl
        have hsync : cSyncSize = 9 := rfl
        omega
      rw [if_neg hmark, if_neg (not_or.mpr ⟨hshort, hmark⟩), validateIn_eq hrange h, ok_bind]
      split <;> rfl

theorem readDataIn_eq {rounds : Nat} (h : cSectorSizeInBits ≤ rounds) (dataStart : Nat) :
    readDataIn aRuns aPulseCategorizer rounds dataStart =
      .ok (readData aRuns dataStart aPulseCategorizer) := by
  rw [readDataIn, decodeIn_eq, ok_bind, readData]
  generalize decode aRuns dataStart (dataStart + cSectorSizeInBits) aPulseCategorizer = results
  simp only [binIntIn_eq, ok_bind]
  by_cases hshort : results.Data.length < cSectorSizeInBits
  · rw [if_pos hshort, if_pos (.inl hshort)]
    rfl
  · rw [if_neg hshort]
    by_cases hmark : binInt results.Data 0 cSyncSize ≠ 0xf0
    · rw [if_pos hmark, if_pos (.inr hmark)]
      rfl
    · have hsize : cSectorSizeInBits = 4137 := rfl
      have hsync : cSyncSize = 9 := rfl
      have hrange : GoodRange results.Data cSyncSize cSectorSizeInBits :=
        ⟨by decide, by omega⟩
      have hbytes : toBytesIn results.Data cSyncSize (cSyncSize + cSectorDataSize) =
          .ok (toBytes results.Data cSyncSize (cSyncSize + cSectorDataSize)) := by
        have hdata : cSectorDataSize = 4096 := rfl
        have hend : cSyncSize + cSectorDataSize = cSyncSize + 8 * 512 := by rw [hdata]
        exact toBytesIn_eq hend (by omega)
      rw [if_neg hmark, if_neg (not_or.mpr ⟨hshort, hmark⟩), validateIn_eq hrange h, ok_bind,
        hbytes]
      split <;> rfl

variable {s : ExtractState}

theorem storeIn_eq (hsectors : s.image.mSectors ≤ cSectors) {e : Stored}
    (h : s.image.isValidIdx e.header.head e.header.track e.header.sector = true) :
    s.storeIn e = .ok (s.store e) := by
  obtain ⟨sector, hsector⟩ := s.image.getSectorIn_eq h
  have hlt := (DiskImage.isValidIdx_iff.mp h).2.2
  rw [ExtractState.storeIn, hsector, ok_bind, if_pos (by omega)]
  rfl

/-- Enough rounds for every loop of a pass. -/
def roundsOf : Nat := aRuns.length + cSectorSizeInBits + 1

theorem passDataIn_eq {rounds : Nat} (h : roundsOf aRuns ≤ rounds) (headerStart : Nat)
    {header : Header} (hsectors : s.image.mSectors ≤ cSectors)
    (hvalid : s.image.isValidIdx header.head header.track header.sector = true) :
    passDataIn aRuns aPulseCategorizer rounds headerStart header s =
      .ok (passData aRuns aPulseCategorizer headerStart header s) := by
  rw [roundsOf] at h
  rw [passDataIn, syncScanIn_eq aRuns aPulseCategorizer (by omega), ok_bind, passData]
  split
  · rfl
  · rw [readDataIn_eq aRuns aPulseCategorizer (by omega), ok_bind]
    cases readData aRuns (syncScan aRuns 100 headerStart aPulseCategorizer) aPulseCategorizer with
    | none => rfl
    | some found =>
      obtain ⟨bytes, errorRate⟩ := found
      simp only
      rw [storeIn_eq hsectors hvalid]
      rfl

theorem passHeaderIn_eq {rounds : Nat} (h : roundsOf aRuns ≤ rounds) (headerStart : Nat)
    (header : Header) (hsectors : s.image.mSectors ≤ cSectors) :
    passHeaderIn aRuns aExpectedHead aPulseCategorizer rounds headerStart header s =
      .ok (passHeader aRuns aExpectedHead aPulseCategorizer headerStart header s) := by
  rw [passHeaderIn, passHeader]
  split
  · rfl
  · split
    · rfl
    · split
      · rfl
      · rename_i hvalid
        split
        · rfl
        · exact passDataIn_eq aRuns aPulseCategorizer h headerStart hsectors (by simpa using hvalid)

/-- **Nothing goes wrong in a pass.** -/
theorem passIn_eq {rounds : Nat} (h : roundsOf aRuns ≤ rounds)
    (hsectors : s.image.mSectors ≤ cSectors) :
    passIn aRuns aExpectedHead aPulseCategorizer rounds s =
      .ok (pass aRuns aExpectedHead aPulseCategorizer s) := by
  have hrounds := h
  rw [roundsOf] at hrounds
  have hheader : cSyncSize + cHeaderSize ≤ cSectorSizeInBits := by decide
  rw [passIn, syncScanIn_eq aRuns aPulseCategorizer (by omega), ok_bind, pass]
  simp only
  split
  · rfl
  · rw [readHeaderIn_eq aRuns aPulseCategorizer (by omega), ok_bind]
    cases readHeader aRuns (syncScan aRuns 50 s.currentRunIdx aPulseCategorizer)
      aPulseCategorizer with
    | none => rfl
    | some header => exact passHeaderIn_eq aRuns aExpectedHead aPulseCategorizer h _ header hsectors

/-- A pass does not change the size of the image. -/
theorem pass_mSectors {s s' : ExtractState} {more : Bool}
    (h : pass aRuns aExpectedHead aPulseCategorizer s = (s', more)) :
    s'.image.mSectors = s.image.mSectors := by
  rcases pass_cases aRuns aExpectedHead aPulseCategorizer s with ⟨e, -, hpass⟩ | ⟨-, t, more', hpass,
    hskips, -⟩
  · obtain rfl := (Prod.mk.inj (h.symm.trans hpass)).1
    rfl
  · obtain rfl := (Prod.mk.inj (h.symm.trans hpass)).1
    rw [hskips.image]

/-! ## 5. The loop -/

theorem extractLoopIn_eq {rounds : Nat} (h : roundsOf aRuns ≤ rounds) (passes : Nat) :
    ∀ {s : ExtractState}, s.image.mSectors ≤ cSectors → aRuns.length - s.currentRunIdx < passes →
      extractLoopIn aRuns aExpectedHead aPulseCategorizer rounds passes s =
        .ok (extractLoop aRuns aExpectedHead aPulseCategorizer s) := by
  induction passes with
  | zero => exact fun _ hpasses => absurd hpasses (Nat.not_lt_zero _)
  | succ passes ih =>
    intro s hsectors hpasses
    rw [extractLoopIn, passIn_eq aRuns aExpectedHead aPulseCategorizer h hsectors, ok_bind,
      extractLoop]
    rcases hpass : pass aRuns aExpectedHead aPulseCategorizer s with ⟨s', - | -⟩
    · rfl
    · have hadvance := pass_advances aRuns aExpectedHead aPulseCategorizer hpass
      have hsame := pass_mSectors aRuns aExpectedHead aPulseCategorizer hpass
      exact ih (hsame ▸ hsectors) (by omega)

/-- **`Extract` ends: every pass that is not the last one goes on at a run further behind. Every
    access is to an element that is there, and no exception is thrown.** The statistics have room
    for the sectors of a track, as they do for the images `Extract` is called with. -/
theorem extract_inBounds (aImage : DiskImage) (himage : aImage.mSectors ≤ cSectors) :
    (∀ rounds s s', passIn aRuns aExpectedHead aPulseCategorizer rounds s = .ok (s', true) →
      s.image.mSectors ≤ cSectors → roundsOf aRuns ≤ rounds →
        s.currentRunIdx < s'.currentRunIdx ∧ s'.currentRunIdx < aRuns.length) ∧
      ∀ rounds, roundsOf aRuns ≤ rounds →
        extractIn aRuns aExpectedHead aPulseCategorizer rounds aImage =
          .ok (extract aRuns aExpectedHead aPulseCategorizer aImage) := by
  constructor
  · intro rounds s s' hpass hsectors hrounds
    rw [passIn_eq aRuns aExpectedHead aPulseCategorizer hrounds hsectors] at hpass
    exact pass_advances aRuns aExpectedHead aPulseCategorizer (Except.ok.inj hpass)
  · intro rounds hrounds
    have hlength : aRuns.length < roundsOf aRuns := by
      rw [roundsOf]
      omega
    exact extractLoopIn_eq aRuns aExpectedHead aPulseCategorizer hrounds rounds himage
      (Nat.lt_of_le_of_lt (Nat.sub_le _ _) (hlength.trans_le hrounds))

/-- A synchronisation pattern, a header of zeros and some more zeros. -/
def zeroHeader : List (BitVec 8) :=
  List.replicate 60 8 ++ [13, 8, 8, 8, 13] ++ List.replicate 80 8

/-- The law applied to it, with an image as both modes of the program make it: there is no track 0,
    and the pass goes on at the header. -/
theorem extract_inBounds_zeroHeader :
    (∃ s', passIn zeroHeader 0 cLinientCategorizer (roundsOf zeroHeader)
        (.start (.new 5 823 32)) = .ok (s', true) ∧
      0 < s'.currentRunIdx ∧ s'.currentRunIdx < zeroHeader.length) ∧
      extractIn zeroHeader 0 cLinientCategorizer (roundsOf zeroHeader) (.new 5 823 32) =
        .ok (extract zeroHeader 0 cLinientCategorizer (.new 5 823 32)) := by
  obtain ⟨hpasses, hloop⟩ :=
    extract_inBounds zeroHeader 0 cLinientCategorizer (.new 5 823 32) (by decide)
  have hmore : (pass zeroHeader 0 cLinientCategorizer (.start (.new 5 823 32))).2 = true := by
    decide +kernel
  have hpass : passIn zeroHeader 0 cLinientCategorizer (roundsOf zeroHeader)
      (.start (.new 5 823 32)) =
        .ok ((pass zeroHeader 0 cLinientCategorizer (.start (.new 5 823 32))).1, true) := by
    rw [passIn_eq zeroHeader 0 cLinientCategorizer (Nat.le_refl _) (by decide), ← hmore]
  exact ⟨⟨_, hpass, hpasses _ _ _ hpass (by decide) (Nat.le_refl _)⟩, hloop _ (Nat.le_refl _)⟩

end passes

end DiskDecode

end CraySim
