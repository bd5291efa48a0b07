/-
  Subject:   Datasets: blocks of words, chained by control words.

  `ds_edit.cpp`. The writer keeps one block and the last control word; the word is put into the
  block when the length of what follows it is known. The reader walks the control words.

  * `DsCtrlWord` -- the fields of a control word, and its eight bytes,
  * `DataSet`, `writeRecord`, `writeEof`, `flush` -- the writer,
  * `readRecord`, `isEof`, `isEod` -- the reader, at a position of the file,
  * `extract` -- the loop over all files and records.

  The file is the list of the bytes written. Failures of the file system are left out.
-/
import CraySim.Types
import CraySim.Lib.ByteFile

namespace CraySim

open ByteFile

/-- The exceptions of the dataset code. -/
inductive DsExn where
  /-- `Generic_x() << aText`. -/
  | generic (aText : String)
  /-- `CRAY_ASSERT` failed. -/
  | assertion
  /-- No exception of the source: the bound on the rounds of a loop is reached. -/
  | diverges
  deriving DecidableEq, Repr

/-! ## 1. Control words -/

/-- `DsCtrlWord_c::CtrlWordType_e`. -/
inductive CtrlWordType where
  | BCW | EOR | EOF | EOD | UNK
  deriving DecidableEq, Repr

/-- The code of a type; `UNK` does not fit its four bits. -/
def CtrlWordType.code : CtrlWordType → BitVec 32
  | .BCW => 0o00
  | .EOR => 0o10
  | .EOF => 0o16
  | .EOD => 0o17
  | .UNK => 0o20

/-- `DsCtrlWord_c`. -/
structure DsCtrlWord where
  mData : CInt
  deriving DecidableEq, Repr

namespace DsCtrlWord

/-- `DsCtrlWord_c()`, and `Clear`. -/
def clear : DsCtrlWord := ⟨0⟩

/-- The value of four bits as a type. -/
def typeOfCode (aCtrlType : Nat) : CtrlWordType :=
  if aCtrlType = 0o00 then .BCW
  else if aCtrlType = 0o10 then .EOR
  else if aCtrlType = 0o16 then .EOF
  else if aCtrlType = 0o17 then .EOD
  else .UNK

/-- A field of a control word, as a `uint32_t`. Bit 0 is the leftmost one. -/
def getField (aStartIdx aEndIdx : Nat) (w : DsCtrlWord) : BitVec 32 :=
  (getBitsReverse w.mData aStartIdx aEndIdx).setWidth 32

def setField (aStartIdx aEndIdx : Nat) (aValue : BitVec 32) (w : DsCtrlWord) : DsCtrlWord :=
  ⟨setBitsReverse w.mData aStartIdx aEndIdx (aValue.setWidth 64)⟩

def getType (w : DsCtrlWord) : CtrlWordType := typeOfCode (w.getField 0 3).toNat

def setType (w : DsCtrlWord) (aType : CtrlWordType) : DsCtrlWord := w.setField 0 3 aType.code

def getForwardWordIdx (w : DsCtrlWord) : BitVec 32 := w.getField 55 63

def setForwardWordIdx (w : DsCtrlWord) (aValue : BitVec 32) : DsCtrlWord := w.setField 55 63 aValue

def getBlockNumber (w : DsCtrlWord) : BitVec 32 := w.getField 31 54

def setBlockNumber (w : DsCtrlWord) (aValue : BitVec 32) : DsCtrlWord := w.setField 31 54 aValue

def getUnusedBitCnt (w : DsCtrlWord) : BitVec 32 := w.getField 4 9

def setUnusedBitCnt (w : DsCtrlWord) (aValue : BitVec 32) : DsCtrlWord := w.setField 4 9 aValue

def setPreviousFileIdx (w : DsCtrlWord) (aValue : BitVec 32) : DsCtrlWord := w.setField 20 39 aValue

def setPreviousRecordIdx (w : DsCtrlWord) (aValue : BitVec 32) : DsCtrlWord :=
  w.setField 40 54 aValue

/-- `GetData`, as the bytes in memory: the most significant one comes first. -/
def bytes (w : DsCtrlWord) : List (BitVec 8) := bytesBE 8 w.mData.toNat

/-- The control word of eight bytes. -/
def ofBytes (bs : List (BitVec 8)) : DsCtrlWord := ⟨BitVec.ofNat 64 (valueBE bs)⟩

/-- A control word of a type, as the source builds the `BCW` of a new block. -/
def bcw (aBlockCnt : Nat) : DsCtrlWord :=
  ((clear.setType .BCW).setBlockNumber (BitVec.ofNat 32 aBlockCnt)).setForwardWordIdx 0

section fields
variable (w : DsCtrlWord) (v : BitVec 32)

/-- A field reads as the value written, cut to the field. -/
theorem toNat_getField_setField {i j : Nat} (h : i ≤ j) (hj : j ≤ 63) :
    ((w.setField i j v).getField i j).toNat = v.toNat % 2 ^ (j - i + 1) := by
  have hv : v.toNat % 2 ^ (j - i + 1) < 2 ^ 32 := Nat.lt_of_le_of_lt (Nat.mod_le _ _) v.isLt
  rw [getField, setField, BitVec.toNat_setWidth, toNat_getBitsReverse_setBitsReverse _ _ h hj,
    BitVec.toNat_setWidth_of_le (by decide), Nat.mod_eq_of_lt hv]

theorem getField_setField {i j k l : Nat} (hij : i ≤ j) (hkl : k ≤ l) (hj : j ≤ 63) (hl : l ≤ 63)
    (h : j < k ∨ l < i) : (w.setField k l v).getField i j = w.getField i j := by
  rw [getField, setField, getBitsReverse_setBitsReverse_of_disjoint _ _ hij hkl hj hl h, getField]

theorem getType_setType {t : CtrlWordType} (ht : t ≠ .UNK) : (w.setType t).getType = t := by
  rw [getType, setType, toNat_getField_setField _ _ (by decide) (by decide)]
  cases t <;> first | rfl | exact absurd rfl ht

end fields

section reading
variable (w : DsCtrlWord) (v : BitVec 32)

@[simp] theorem getType_setForwardWordIdx : (w.setForwardWordIdx v).getType = w.getType := by
  simp (disch := decide) only [getType, setForwardWordIdx, getField_setField]

@[simp] theorem getUnusedBitCnt_setForwardWordIdx :
    (w.setForwardWordIdx v).getUnusedBitCnt = w.getUnusedBitCnt := by
  simp (disch := decide) only [getUnusedBitCnt, setForwardWordIdx, getField_setField]

@[simp] theorem getBlockNumber_setForwardWordIdx :
    (w.setForwardWordIdx v).getBlockNumber = w.getBlockNumber := by
  simp (disch := decide) only [getBlockNumber, setForwardWordIdx, getField_setField]

theorem toNat_getForwardWordIdx_setForwardWordIdx :
    (w.setForwardWordIdx v).getForwardWordIdx.toNat = v.toNat % 512 :=
  toNat_getField_setField w v (by decide) (by decide)

@[simp] theorem getType_bcw (n : Nat) : (bcw n).getType = .BCW := by
  rw [bcw, getType_setForwardWordIdx]
  simp (disch := decide) only [getType, setBlockNumber, getField_setField]
  rfl

@[simp] theorem getForwardWordIdx_bcw (n : Nat) : (bcw n).getForwardWordIdx.toNat = 0 :=
  toNat_getForwardWordIdx_setForwardWordIdx _ 0

@[simp] theorem getUnusedBitCnt_bcw (n : Nat) : (bcw n).getUnusedBitCnt = 0 := by
  rw [bcw, getUnusedBitCnt_setForwardWordIdx]
  simp (disch := decide) only [getUnusedBitCnt, setBlockNumber, getField_setField]
  rfl

/-- A block control word carries the number of its block, cut to 24 bits. -/
theorem toNat_getBlockNumber_bcw (n : Nat) : (bcw n).getBlockNumber.toNat = n % 2 ^ 24 := by
  rw [bcw, getBlockNumber_setForwardWordIdx, setBlockNumber, getBlockNumber,
    toNat_getField_setField _ _ (by decide) (by decide), BitVec.toNat_ofNat,
    Nat.mod_mod_of_dvd _ (pow_dvd_pow 2 (by decide))]

@[simp] theorem length_bytes : w.bytes.length = 8 := length_bytesBE 8 _

/-- **Round trip** of a control word through its bytes. -/
@[simp] theorem ofBytes_bytes : ofBytes w.bytes = w := by
  rw [ofBytes, bytes, valueBE_bytesBE, Nat.mod_eq_of_lt (by simpa using w.mData.isLt),
    BitVec.ofNat_toNat, BitVec.setWidth_eq]

end reading

end DsCtrlWord

/-! ## 2. The writer -/

/-- `CRAY_ASSERT`. -/
def dsAssert (c : Prop) [Decidable c] : Except DsExn Unit :=
  if c then .ok () else .error .assertion

/-- `DataSet_c`. The last two fields are the bytes of the file, and every control word that was
    put into a block, with its position in the file: the source has no such list. -/
structure DataSet where
  mBlock : List (BitVec 8)
  mBlockOfs : Nat
  mBlockCnt : Nat
  mCurrentFileStart : Nat
  mCurrentRecordStart : Nat
  mLastCtrlWord : DsCtrlWord
  file : List (BitVec 8)
  written : List (Nat × DsCtrlWord)

namespace DataSet

def mBlockSize : Nat := 4096

/-- `Init`, on an empty file. -/
def init : DataSet where
  mBlock := List.replicate mBlockSize 0
  mBlockOfs := 0
  mBlockCnt := 0
  mCurrentFileStart := 0
  mCurrentRecordStart := 0
  mLastCtrlWord := DsCtrlWord.bcw 0
  file := []
  written := []

def writeBlock (aFullBlock : Bool) (s : DataSet) : DataSet :=
  { s with
    file := s.file ++ if aFullBlock then s.mBlock else s.mBlock.take s.mBlockOfs
    mBlock := List.replicate s.mBlock.length 0
    mBlockCnt := s.mBlockCnt + 1
    mBlockOfs := 0 }

/-- `aWord.Write(mBlock, mBlockOfs); mBlockOfs += 8;` -/
def putCtrlWord (aWord : DsCtrlWord) (s : DataSet) : Except DsExn DataSet := do
  dsAssert (s.mBlockOfs ≤ s.mBlock.length - 8)
  return { s with
    mBlock := splice s.mBlock s.mBlockOfs aWord.bytes
    mBlockOfs := s.mBlockOfs + 8
    written := s.written ++ [(mBlockSize * s.mBlockCnt + s.mBlockOfs, aWord)] }

/-- Patches the forward index of the last control word, puts the word into the block and
    clears it. -/
def putLastCtrlWord (aForward : Nat) (s : DataSet) : Except DsExn DataSet := do
  let s ← putCtrlWord (s.mLastCtrlWord.setForwardWordIdx (BitVec.ofNat 32 aForward)) s
  return { s with mLastCtrlWord := DsCtrlWord.clear }

/-- `std::copy` of bytes into the block, behind what it holds. -/
def copyToBlock (aBytes : List (BitVec 8)) (s : DataSet) : DataSet :=
  { s with mBlock := splice s.mBlock s.mBlockOfs aBytes }

/-- Writes a full block and starts the next one with its control word. -/
def startBlockIfFull (s : DataSet) : Except DsExn DataSet :=
  if s.mBlockOfs = s.mBlock.length then
    let s := writeBlock true s
    putCtrlWord (DsCtrlWord.bcw s.mBlockCnt) s
  else return s

/-- The word `WriteRecord` prepares once the record is in the block. -/
def eor (aUnusedBytes : Nat) (s : DataSet) : DsCtrlWord :=
  (((s.mLastCtrlWord.setType .EOR).setUnusedBitCnt (BitVec.ofNat 32 (aUnusedBytes * 8))).setPreviousFileIdx
    (BitVec.ofNat 32 (s.mBlockCnt - s.mCurrentFileStart))).setPreviousRecordIdx
    (BitVec.ofNat 32 (s.mBlockCnt - s.mCurrentRecordStart))

/-- The word `WriteEof` prepares. -/
def eof (s : DataSet) : DsCtrlWord :=
  (((s.mLastCtrlWord.setType .EOF).setUnusedBitCnt 0).setPreviousFileIdx
    (BitVec.ofNat 32 (s.mBlockCnt - s.mCurrentFileStart))).setPreviousRecordIdx 0

/-- The word `Flush` ends the dataset with. -/
def eod (s : DataSet) : DsCtrlWord :=
  (((s.mLastCtrlWord.setType .EOD).setUnusedBitCnt 0).setPreviousFileIdx 0).setPreviousRecordIdx 0

section words
variable (u : Nat) (s : DataSet)

@[simp] theorem getType_eor : (eor u s).getType = .EOR := by
  simp (disch := decide) only [eor, DsCtrlWord.getType, DsCtrlWord.setPreviousRecordIdx,
    DsCtrlWord.setPreviousFileIdx, DsCtrlWord.setUnusedBitCnt, DsCtrlWord.getField_setField]
  exact DsCtrlWord.getType_setType _ (by decide)

theorem getUnusedBitCnt_eor (hu : u < 8) : (eor u s).getUnusedBitCnt.toNat = 8 * u := by
  simp (disch := decide) only [eor, DsCtrlWord.getUnusedBitCnt, DsCtrlWord.setPreviousRecordIdx,
    DsCtrlWord.setPreviousFileIdx, DsCtrlWord.setUnusedBitCnt, DsCtrlWord.getField_setField,
    DsCtrlWord.toNat_getField_setField, BitVec.toNat_ofNat]
  omega

@[simp] theorem getType_eof : (eof s).getType = .EOF := by
  simp (disch := decide) only [eof, DsCtrlWord.getType, DsCtrlWord.setPreviousRecordIdx,
    DsCtrlWord.setPreviousFileIdx, DsCtrlWord.setUnusedBitCnt, DsCtrlWord.getField_setField]
  exact DsCtrlWord.getType_setType _ (by decide)

theorem getUnusedBitCnt_eof : (eof s).getUnusedBitCnt.toNat = 0 := by
  simp (disch := decide) only [eof, DsCtrlWord.getUnusedBitCnt, DsCtrlWord.setPreviousRecordIdx,
    DsCtrlWord.setPreviousFileIdx, DsCtrlWord.setUnusedBitCnt, DsCtrlWord.getField_setField,
    DsCtrlWord.toNat_getField_setField]
  rfl

@[simp] theorem getType_eod : (eod s).getType = .EOD := by
  simp (disch := decide) only [eod, DsCtrlWord.getType, DsCtrlWord.setPreviousRecordIdx,
    DsCtrlWord.setPreviousFileIdx, DsCtrlWord.setUnusedBitCnt, DsCtrlWord.getField_setField]
  exact DsCtrlWord.getType_setType _ (by decide)

theorem getUnusedBitCnt_eod : (eod s).getUnusedBitCnt.toNat = 0 := by
  simp (disch := decide) only [eod, DsCtrlWord.getUnusedBitCnt, DsCtrlWord.setPreviousRecordIdx,
    DsCtrlWord.setPreviousFileIdx, DsCtrlWord.setUnusedBitCnt, DsCtrlWord.getField_setField,
    DsCtrlWord.toNat_getField_setField]
  rfl

theorem getForwardWordIdx_eod (hs : s.mLastCtrlWord = DsCtrlWord.clear) :
    (eod s).getForwardWordIdx.toNat = 0 := by
  simp (disch := decide) only [eod, DsCtrlWord.getForwardWordIdx, DsCtrlWord.setPreviousRecordIdx,
    DsCtrlWord.setPreviousFileIdx, DsCtrlWord.setUnusedBitCnt, DsCtrlWord.setType,
    DsCtrlWord.getField_setField, hs]
  rfl

end words

/-- The `do` loop of `WriteRecord`, for a number of rounds. -/
def writeRecordLoop (aRecord : List (BitVec 8)) : Nat → Nat → DataSet → Except DsExn DataSet
  | 0, _, _ => .error .diverges
  | rounds + 1, recordOfs, s => do
    let recordLeft := aRecord.length - recordOfs
    let blockLeft := s.mBlock.length - s.mBlockOfs
    let roundedRecordLeft := ((recordLeft + 7) / 8) * 8
    if roundedRecordLeft ≤ blockLeft - 8 then
      let s ← putLastCtrlWord (roundedRecordLeft / 8) s
      let s := copyToBlock (aRecord.drop recordOfs) s
      let s ← startBlockIfFull { s with mBlockOfs := s.mBlockOfs + roundedRecordLeft }
      return { s with mLastCtrlWord := eor (roundedRecordLeft - recordLeft) s }
    else
      dsAssert (blockLeft % 8 = 0)
      let s ← putLastCtrlWord (blockLeft / 8 - 1) s
      let s := copyToBlock (window aRecord recordOfs (blockLeft - 8)) s
      let s := writeBlock true s
      writeRecordLoop aRecord rounds (recordOfs + (blockLeft - 8))
        { s with mLastCtrlWord :=
            ((s.mLastCtrlWord.setType .BCW).setBlockNumber (BitVec.ofNat 32 s.mBlockCnt)).setForwardWordIdx 0 }

/-- `WriteRecord`; `aDoSwap` is not used. A round that is not the last copies a byte at least,
    unless it is the first one. -/
def writeRecord (aRecord : List (BitVec 8)) (s : DataSet) : Except DsExn DataSet :=
  writeRecordLoop aRecord (aRecord.length + 2) 0 { s with mCurrentRecordStart := s.mBlockCnt }

def writeEof (s : DataSet) : Except DsExn DataSet := do
  dsAssert ((s.mBlock.length - s.mBlockOfs) % 8 = 0)
  dsAssert (s.mBlock.length - s.mBlockOfs ≥ 8)
  let s ← putLastCtrlWord 0 s
  let s ← startBlockIfFull s
  return { s with mLastCtrlWord := eof s, mCurrentFileStart := s.mBlockCnt }

/-- `Flush`, on a file opened for output. -/
def flush (s : DataSet) : Except DsExn DataSet := do
  let blockLeft := s.mBlock.length - s.mBlockOfs
  dsAssert (blockLeft % 8 = 0)
  dsAssert (blockLeft ≥ 8)
  let s ← putLastCtrlWord 0 s
  let s ← startBlockIfFull s
  let s ← putCtrlWord (eod s) s
  return writeBlock false { s with mLastCtrlWord := DsCtrlWord.clear }

/-- An operation on a dataset that is open for output. -/
inductive Op where
  | record (aRecord : List (BitVec 8))
  | eof
  deriving DecidableEq, Repr

def apply (s : DataSet) : Op → Except DsExn DataSet
  | .record aRecord => writeRecord aRecord s
  | .eof => writeEof s

/-- A sequence of operations on a new dataset. -/
def run (ops : List Op) : Except DsExn DataSet := ops.foldlM apply init

/-- The operations of a file: its records, then the end of file. -/
def opsOfFile (aFile : List (List (BitVec 8))) : List Op := aFile.map .record ++ [.eof]

/-- The bytes of a dataset: all the files, then `Flush`. -/
def create (aFiles : List (List (List (BitVec 8)))) : Except DsExn (List (BitVec 8)) := do
  let s ← run (aFiles.flatMap opsOfFile)
  let s ← flush s
  return s.file

end DataSet

/-! ## 3. The reader -/

namespace DataSet

/-- `DsCtrlWord_c::Read` at a position: the word, and the position behind it. -/
def readCtrlWord (aFile : List (BitVec 8)) (pos : Nat) : Except DsExn (DsCtrlWord × Nat) :=
  if pos + 8 ≤ aFile.length then .ok (DsCtrlWord.ofBytes (window aFile pos 8), pos + 8)
  else .error (.generic "Can't read from file")

/-- Reading a control word behind a known part of the file. -/
theorem readCtrlWord_append (pre rest : List (BitVec 8)) (w : DsCtrlWord) :
    readCtrlWord (pre ++ (w.bytes ++ rest)) pre.length = .ok (w, pre.length + 8) := by
  have hwindow := window_append pre w.bytes rest
  rw [DsCtrlWord.length_bytes] at hwindow
  rw [readCtrlWord, if_pos (by simp), hwindow, DsCtrlWord.ofBytes_bytes]

/-- The `switch` of `ReadRecord`: a record does not go on behind every control word. -/
def checkType : CtrlWordType → Except DsExn Unit
  | .BCW | .EOR | .EOF => .ok ()
  | .EOD => .error (.generic "End of dataset encountered")
  | .UNK => .error (.generic "Unknwon RCW encountered")

/-- `read` of data words. -/
def readData (aFile : List (BitVec 8)) (pos aSize : Nat) : Except DsExn (List (BitVec 8)) :=
  if (window aFile pos aSize).length ≠ aSize then .error (.generic "Can't read dataset ")
  else .ok (window aFile pos aSize)

/-- A record with the unused bytes of its last word cut off. -/
def trimmed (record : List (BitVec 8)) (aUnusedBitCnt : BitVec 32) : List (BitVec 8) :=
  if record.length ≥ 8 then record.take (record.length - (aUnusedBitCnt / 8).toNat) else record

/-- The `do` loop of `ReadRecord`, for a number of rounds: what is read so far, the control word
    that was read last. -/
def readRecordLoop (aFile : List (BitVec 8)) :
    Nat → List (BitVec 8) → DsCtrlWord → Nat → Except DsExn (List (BitVec 8) × Nat)
  | 0, _, _, _ => .error .diverges
  | rounds + 1, record, ctrlWord, pos => do
    checkType ctrlWord.getType
    let blockSize := (ctrlWord.getForwardWordIdx * 8).toNat
    let bytes ← readData aFile pos blockSize
    let record := record ++ bytes
    let (ctrlWord, pos) ← readCtrlWord aFile (pos + blockSize)
    if ctrlWord.getType ≠ .EOR then readRecordLoop aFile rounds record ctrlWord pos
    else
      dsAssert (record.length % 8 = 0)
      return (trimmed record ctrlWord.getUnusedBitCnt, pos - 8)

/-- `ReadRecord`: the record, and the position of the `EOR` that ends it. -/
def readRecord (aFile : List (BitVec 8)) (pos : Nat) : Except DsExn (List (BitVec 8) × Nat) := do
  let (ctrlWord, pos) ← readCtrlWord aFile pos
  readRecordLoop aFile aFile.length [] ctrlWord pos

/-- `IsEof` and `IsEod`: whether the control word here has the type, or is of the type that may
    precede it and the next word has it; and the position of the word that has it. -/
def isAt (aBefore aType : CtrlWordType) (aFile : List (BitVec 8)) (pos : Nat) :
    Except DsExn (Bool × Nat) := do
  let (ctrlWord, pos) ← readCtrlWord aFile pos
  let retVal := ctrlWord.getType = aType
  if ctrlWord.getType = aBefore then
    let (ctrlWord, pos) ← readCtrlWord aFile pos
    if ctrlWord.getType = aType then return (true, pos - 8) else return (retVal, pos - 8 - 8)
  else return (retVal, pos - 8)

def isEof (aFile : List (BitVec 8)) (pos : Nat) : Except DsExn (Bool × Nat) :=
  isAt .EOR .EOF aFile pos

def isEod (aFile : List (BitVec 8)) (pos : Nat) : Except DsExn (Bool × Nat) :=
  isAt .EOF .EOD aFile pos

/-- `do { ReadRecord } while (!IsEof);` -/
def extractFile (aFile : List (BitVec 8)) :
    Nat → Nat → Except DsExn (List (List (BitVec 8)) × Nat)
  | 0, _ => .error .diverges
  | rounds + 1, pos => do
    let (record, pos) ← readRecord aFile pos
    let (eof, pos) ← isEof aFile pos
    if eof then return ([record], pos)
    else
      let (records, pos) ← extractFile aFile rounds pos
      return (record :: records, pos)

/-- `do { a file } while (!IsEod);` -/
def extractFiles (aFile : List (BitVec 8)) :
    Nat → Nat → Except DsExn (List (List (List (BitVec 8))))
  | 0, _ => .error .diverges
  | rounds + 1, pos => do
    let (file, pos) ← extractFile aFile (aFile.length + 1) pos
    let (eod, pos) ← isEod aFile pos
    if eod then return [file]
    else
      let files ← extractFiles aFile rounds pos
      return file :: files

/-- The extraction of all files, as the driver of `extract` does it. -/
def extract (aFile : List (BitVec 8)) : Except DsExn (List (List (List (BitVec 8)))) :=
  extractFiles aFile (aFile.length + 1) 0

end DataSet

end CraySim
