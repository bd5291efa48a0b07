/-
  Subject:   Extracting the files of a dataset, as `dataset_extractor.cpp` does it.

  The tool follows the forward indices of the control words, with accessors of its own. What stands
  behind a control word goes into the file of the host that is open; the next control word says how
  many bits of it are unused, and whether a record or a file ends.

  * `getType`, …, `getUnusedBitCnt` -- the accessors `CtrlWord_Get…`,
  * `DatasetExtractor` -- the variables of the loop, and the files of the host,
  * `saveData`, `atNext` -- the parts of a round.

  The loop ends with the file; here it is given a number of rounds. What is printed is left out, but
  for the messages about the dataset.
-/
import CraySim.DataSet
import CraySim.Lib.Program

namespace CraySim

open ByteFile

/-- How the tool ends that does not reach the end of the loop. -/
inductive DatasetExtractorExn where
  /-- `exit(1)`, or `return 1`. -/
  | exit (aText : String)
  /-- Memory outside of the file is looked at. -/
  | outside
  /-- No end of the source: the rounds were not enough. -/
  | outOfRounds
  deriving DecidableEq, Repr

/-- The messages about a dataset, with the offset that they name. -/
inductive DatasetMessage where
  /-- "Lost track at" -/
  | lostTrack (offset : Nat)
  /-- "BCW Start sequence inconsitency at" -/
  | startSequence (offset : Nat)
  /-- "BCW Sequence inconsitency at" -/
  | sequence (offset : Nat)
  deriving DecidableEq, Repr

/-- The variables of the loop; `outFile` says whether a file of the host is open. The files of the
    host stand in `outputs` with the two numbers in their names, the last one first. -/
structure DatasetExtractor where
  offset : Nat
  inDataSet : Bool
  dataSetCnt : Nat
  fileCnt : Nat
  lastSeqCnt : Int
  outFile : Bool
  outputs : List ((Nat × Nat) × List (BitVec 8))
  messages : List DatasetMessage
  deriving DecidableEq, Repr

abbrev DsExtractor := Run DatasetExtractorExn DatasetExtractor

namespace DatasetExtractor

/-! ## 1. Control words -/

/-- `CtrlWord_GetType`. -/
def getType (aCtrlWord : CInt) : CtrlWordType :=
  DsCtrlWord.typeOfCode (aCtrlWord.extractLsb' 56 8 >>> 4).toNat

/-- `CtrlWord_GetForwardWordIdx`. -/
def getForwardWordIdx (aCtrlWord : CInt) : BitVec 32 := aCtrlWord.setWidth 32 &&& 0x1ff

/-- `CtrlWord_GetBlockNumber`. -/
def getBlockNumber (aCtrlWord : CInt) : BitVec 32 := aCtrlWord.setWidth 32 >>> 9

/-- `CtrlWord_GetUnusedBitCnt`. -/
def getUnusedBitCnt (aCtrlWord : CInt) : BitVec 32 := (aCtrlWord >>> 54 &&& 63).setWidth 32

section accessors
variable (w : DsCtrlWord)

theorem toNat_getField {i j : Nat} (h : i ≤ j) (hj : j ≤ 63) (hw : j - i < 32) :
    (w.getField i j).toNat = w.mData.toNat / 2 ^ (63 - j) % 2 ^ (j - i + 1) := by
  have hwidth : 63 - i - (63 - j) + 1 = j - i + 1 := by omega
  have hlt : w.mData.toNat / 2 ^ (63 - j) % 2 ^ (j - i + 1) < 2 ^ 32 :=
    (Nat.mod_lt _ (Nat.two_pow_pos _)).trans_le (Nat.pow_le_pow_right Nat.two_pos hw)
  rw [DsCtrlWord.getField, getBitsReverse_eq_get _ h, BitVec.toNat_setWidth, WordField.toNat_get,
    hwidth, Nat.mod_eq_of_lt hlt]

/-- The tool sees the type of a control word, -/
theorem getType_eq : getType w.mData = w.getType := by
  have hlt := w.mData.isLt
  rw [getType, DsCtrlWord.getType, toNat_getField w (by decide) (by decide) (by decide),
    BitVec.toNat_ushiftRight, BitVec.extractLsb'_toNat, Nat.shiftRight_eq_div_pow,
    Nat.shiftRight_eq_div_pow]
  congr 1
  omega

/-- its forward index, -/
theorem getForwardWordIdx_eq : getForwardWordIdx w.mData = w.getForwardWordIdx := by
  have hmask : (0x1ff : BitVec 32).toNat = 2 ^ 9 - 1 := rfl
  rw [← BitVec.toNat_inj, getForwardWordIdx, DsCtrlWord.getForwardWordIdx,
    toNat_getField w (by decide) (by decide) (by decide), BitVec.toNat_and, BitVec.toNat_setWidth,
    hmask, Nat.and_two_pow_sub_one_eq_mod]
  omega

/-- the lower 23 bits of its block number, -/
theorem toNat_getBlockNumber : (getBlockNumber w.mData).toNat = w.getBlockNumber.toNat % 2 ^ 23 := by
  rw [getBlockNumber, DsCtrlWord.getBlockNumber,
    toNat_getField w (by decide) (by decide) (by decide), BitVec.toNat_ushiftRight,
    BitVec.toNat_setWidth, Nat.shiftRight_eq_div_pow]
  omega

/-- and its unused bits. -/
theorem getUnusedBitCnt_eq : getUnusedBitCnt w.mData = w.getUnusedBitCnt := by
  have hmask : (63 : CInt).toNat = 2 ^ 6 - 1 := rfl
  rw [← BitVec.toNat_inj, getUnusedBitCnt, DsCtrlWord.getUnusedBitCnt,
    toNat_getField w (by decide) (by decide) (by decide), BitVec.toNat_setWidth, BitVec.toNat_and,
    BitVec.toNat_ushiftRight, hmask, Nat.and_two_pow_sub_one_eq_mod, Nat.shiftRight_eq_div_pow]
  omega

end accessors

/-! ## 2. A round -/

/-- `SwapBytes(*(uint64_t*)(File+pos))`. -/
def wordAt (aFile : List (BitVec 8)) (pos : Nat) : DsExtractor CInt :=
  if pos + 8 ≤ aFile.length then pure (BitVec.ofNat 64 (valueBE (window aFile pos 8)))
  else Run.throw .outside

/-- What is done for a block control word. -/
def atBcw (seqCount : Nat) (s : DatasetExtractor) : DatasetExtractor :=
  { s with
    inDataSet := true
    fileCnt := if s.inDataSet then s.fileCnt else 0
    lastSeqCnt := seqCount
    messages := s.messages ++
      (if seqCount = 0 && s.inDataSet then [.startSequence s.offset] else []) ++
      (if (seqCount : Int) ≠ s.lastSeqCnt + 1 then [.sequence s.offset] else []) }

/-- `fopen`, if no file of the host is open. -/
def openOutFile (s : DatasetExtractor) : DatasetExtractor :=
  if s.outFile then s
  else { s with outFile := true, outputs := ((s.dataSetCnt, s.fileCnt), []) :: s.outputs }

/-- `fwrite` to the file of the host. -/
def append (bytes : List (BitVec 8)) (s : DatasetExtractor) : DatasetExtractor :=
  { s with
    outputs := match s.outputs with
      | [] => []
      | (name, content) :: outputs => (name, content ++ bytes) :: outputs }

/-- The data behind the control word. -/
def saveData (aFile : List (BitVec 8)) (dataSize : BitVec 32) : DsExtractor Unit := do
  if dataSize = 0 then pure ()
  else
    Run.modify openOutFile
    let s ← Run.get
    if s.offset + 8 + dataSize.toNat ≤ aFile.length then
      Run.modify (append (window aFile (s.offset + 8) dataSize.toNat))
    else Run.throw .outside

/-- The switch on the type of the next control word. -/
def atNext (type nextType : CtrlWordType) : DsExtractor Unit :=
  match nextType with
  | .BCW => pure ()
  | .EOR => do
    if (← Run.get).outFile then Run.modify (append [0x0a])
    else Run.throw (.exit "EOR encountered with no file at offset")
  | .EOF => Run.modify fun s => { s with fileCnt := s.fileCnt + 1, outFile := false }
  | .EOD => Run.modify fun s => { s with
      dataSetCnt := s.dataSetCnt + 1
      inDataSet := false
      outFile := false
      lastSeqCnt := -1 }
  | .UNK => if type ≠ .EOD then Run.throw (.exit "Internal error at offset") else pure ()

/-- The next offset. -/
def advance (type : CtrlWordType) (recordSize : BitVec 32) (s : DatasetExtractor) :
    DatasetExtractor :=
  let offset := s.offset + (8 + recordSize.toNat)
  { s with offset := if type = .EOD then (offset &&& 0xfffff000) + 0x1000 else offset }

/-- The next control word, if the one here does not end the dataset. -/
def nextWord (aFile : List (BitVec 8)) (type : CtrlWordType) (recordSize : BitVec 32) :
    DsExtractor (CtrlWordType × BitVec 32) := do
  if type = .EOD then return (.UNK, 0)
  else
    let nextCtrlWord ← wordAt aFile ((← Run.get).offset + 8 + recordSize.toNat)
    return (getType nextCtrlWord,
      if getType nextCtrlWord = .EOR then getUnusedBitCnt nextCtrlWord else 0)

/-- What a round does once the next control word is known. -/
def endRound (aFile : List (BitVec 8)) (type : CtrlWordType) (recordSize : BitVec 32)
    (next : CtrlWordType × BitVec 32) : DsExtractor Bool := do
  saveData aFile (recordSize - next.2 / 8)
  atNext type next.1
  Run.modify (advance type recordSize)
  return true

/-- A round; what is returned says whether there is another one. -/
def round (aFile : List (BitVec 8)) : DsExtractor Bool := do
  let ctrlWord ← wordAt aFile (← Run.get).offset
  if getType ctrlWord = .UNK then
    Run.modify fun s => { s with messages := s.messages ++ [.lostTrack s.offset] }
    return false
  else
    Run.modify fun s =>
      if getType ctrlWord = .BCW then atBcw (getBlockNumber ctrlWord).toNat s else s
    let next ← nextWord aFile (getType ctrlWord) (getForwardWordIdx ctrlWord * 8)
    endRound aFile (getType ctrlWord) (getForwardWordIdx ctrlWord * 8) next

/-! ## 3. `main` -/

/-- The loop. -/
def extractLoop (aFile : List (BitVec 8)) : Nat → DsExtractor Unit
  | 0 => Run.throw .outOfRounds
  | rounds + 1 => do
    if (← Run.get).offset < aFile.length then
      if ← round aFile then extractLoop aFile rounds else pure ()
    else pure ()

/-- The variables in front of the loop. -/
def start : DatasetExtractor where
  offset := 0
  inDataSet := false
  dataSetCnt := 0
  fileCnt := 0
  lastSeqCnt := -1
  outFile := false
  outputs := []
  messages := []

/-- The tool on a file. -/
def extract (rounds : Nat) (aFile : List (BitVec 8)) :
    Except DatasetExtractorExn Unit × DatasetExtractor :=
  if 256 * 1024 * 1024 < aFile.length then
    (.error (.exit "Can't use files larger than 256MB"), start)
  else extractLoop aFile rounds start

end DatasetExtractor

end CraySim
