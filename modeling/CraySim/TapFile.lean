/-
  Subject:   Tape images: records and file marks in a file.

  `tap_file.cpp`. A record is its data between two length words of 32 bits; a length word of zero is
  a file mark. The reader remembers what is left of the record it is in, and whether the last item
  was a mark.

  * `TapFile` -- the stream and the reader's state,
  * `getState` -- where the head is,
  * `seekToNextRecord`, `seekToPrevRecord`, `seekToBeginningOfTape` -- moving the head.

  The tape is opened in the default mode. Failures of the file system are left out.
-/
import CraySim.Types
import CraySim.Lib.Program
import CraySim.Lib.FileStream

namespace CraySim

open ByteFile

/-- The exceptions of the tape code. -/
inductive TapExn where
  /-- `Generic_x(aText)`. -/
  | generic (aText : String)
  /-- `CRAY_ASSERT` failed. -/
  | assertion
  /-- No exception of the source: the C++ behaviour is undefined from here on. -/
  | undefinedBehaviour
  deriving DecidableEq, Repr

/-- `TapFile_c::State_e`. -/
inductive TapState where
  | BeginningOfTape | EndOfTape | EndOfFile | EndOfRecord | Normal
  deriving DecidableEq, Repr

/-- `TapFile_c::Direction`. -/
inductive Direction where
  | Forward | Backward | None
  deriving DecidableEq, Repr

/-- `TapFile_c`. -/
structure TapFile where
  stream : FileStream
  mLastCmdDirection : Direction
  mCurRecordLeft : CAddr
  mCurRecordStart : Int
  mCurRecordValid : Bool
  mCurRecordEof : Bool
  deriving DecidableEq, Repr

/-- What a method of the tape does: a result or an exception, and the tape afterwards. -/
abbrev Tap := Run TapExn TapFile

namespace TapFile

/-! ## 1. The stream -/

def onStream {α : Type} (f : FileStream → α × FileStream) : Tap α := fun s =>
  (.ok (f s.stream).1, { s with stream := (f s.stream).2 })

def modifyStream (f : FileStream → FileStream) : Tap Unit :=
  Run.modify fun s => { s with stream := f s.stream }

def eof : Tap Bool := fun s => (.ok s.stream.eofbit, s)

/-- `if (fail()) throw Generic_x(aText);` -/
def throwIfFail (aText : String) : Tap Unit := fun s =>
  if s.stream.failbit then (.error (.generic aText), s) else (.ok (), s)

def tapAssert (c : Bool) : Tap Unit := if c then pure () else Run.throw .assertion

/-- `read((char*)(&Length), 4)`. Of a length that is cut by the end of the file the variable keeps
    something unspecified; the callers look at the flags first. -/
def readLength : Tap CAddr := do
  let bytes ← onStream (FileStream.read 4)
  return BitVec.ofNat 32 (valueLE bytes)

/-- The bytes of a length. -/
def lengthBytes (aLength : CAddr) : List (BitVec 8) := bytesLE 4 aLength.toNat

/-- `boost::filesystem::exists(mFileName)`. -/
def fileExists (s : TapFile) : Bool := s.stream.disk.isSome

def setDirection (aDirection : Direction) : Tap Unit :=
  Run.modify fun s => { s with mLastCmdDirection := aDirection }

def reset (s : TapFile) : TapFile :=
  { s with mCurRecordLeft := 0, mCurRecordStart := 0, mCurRecordValid := false }

/-- What `open` does once the stream is open, or failed to. -/
def opened (s : TapFile) : TapFile :=
  { reset s with
    stream := FileStream.seekTo 0 (FileStream.seekPut 0 s.stream)
    mLastCmdDirection := .None }

/-- The constructor, for the file `disk`. It leaves `mCurRecordEof` as the memory was. -/
def ofDisk (disk : Option (List (BitVec 8))) (aMemory : Bool) : TapFile :=
  opened
    { stream := FileStream.openFile
        { disk := disk, isOpen := false, pos := 0, eofbit := false, failbit := false }
      mLastCmdDirection := .None
      mCurRecordLeft := 0
      mCurRecordStart := 0
      mCurRecordValid := false
      mCurRecordEof := aMemory }

/-- `open(mFileName, mMode)`. -/
def openTape : Tap Unit := Run.modify fun s => opened { s with stream := s.stream.openFile }

/-- `open(mFileName, ios_base::out | ios_base::binary)`. -/
def createTape : Tap Unit := Run.modify fun s => opened { s with stream := s.stream.create }

/-- `close`. -/
def closeTape : Tap Unit :=
  Run.modify fun s => { reset s with stream := s.stream.close, mLastCmdDirection := .None }

/-- Makes the file anew: `open` for writing, `write(nullptr, 0)`, `close` and `open`. -/
def recreate : Tap Unit := do
  createTape
  modifyStream (FileStream.write [])
  closeTape
  openTape

def truncate : Tap Unit := do
  let oldDir := (← Run.get).mLastCmdDirection
  let curPos ← onStream FileStream.tell
  closeTape
  if curPos ≠ 0 then
    if curPos < 0 then Run.throw .undefinedBehaviour
    modifyStream (FileStream.resize curPos.toNat)
    openTape
  else recreate
  modifyStream (FileStream.seekTo curPos)
  setDirection oldDir

/-! ## 2. Where the head is -/

def getState : Tap TapState := do
  let s ← Run.get
  if !fileExists s then
    return if s.mLastCmdDirection ≠ .Forward then .BeginningOfTape else .EndOfTape
  else if !s.stream.isOpen then return .BeginningOfTape
  else if s.stream.eofbit then return .EndOfTape
  else
    let pos ← onStream FileStream.tell
    if pos = 0 then return .BeginningOfTape
    else if s.mCurRecordEof then return .EndOfFile
    else if !s.mCurRecordValid then return .EndOfRecord
    else if s.mCurRecordLeft = 0 && s.mLastCmdDirection = .Backward then return .EndOfRecord
    else return .Normal

/-- `mCurRecordValid && !mCurRecordEof`: the head is in a record. -/
def inRecord (s : TapFile) : Bool := s.mCurRecordValid && !s.mCurRecordEof

/-! ## 3. Moving the head -/

/-- The length in front of an item, if the tape does not end here. -/
def readHeader : Tap (Option CAddr) := do
  let recordSize ← readLength
  if ← eof then return none
  else
    throwIfFail "Can't read beginning of record"
    return some recordSize

/-- Skips the data of a record and compares the length behind it. -/
def skipRecord (aRecordSize : CAddr) : Tap Unit := do
  modifyStream (FileStream.seekBy aRecordSize.toNat)
  throwIfFail "Can't seek to end of record"
  let endRecordSize ← readLength
  if ← eof then Run.throw .undefinedBehaviour
  throwIfFail "Can't read end of record"
  if endRecordSize ≠ aRecordSize then Run.throw (.generic "Record size mismatch at end")

/-- The part of `SeekToNextRecord` that passes the item in front of the head. -/
def passItem : Tap Unit := do
  match ← readHeader with
  | none => pure ()
  | some recordSize =>
    if recordSize ≠ 0 then
      skipRecord recordSize
      Run.modify fun s => { s with mCurRecordEof := false, mCurRecordValid := false }
    else
      let pos ← onStream FileStream.tell
      Run.modify fun s => { s with
        mCurRecordEof := true
        mCurRecordValid := true
        mCurRecordLeft := 0
        mCurRecordStart := pos }

def seekToNextRecord : Tap Unit := do
  setDirection .Forward
  let s ← Run.get
  if !fileExists s then pure ()
  else if inRecord s then
    modifyStream (FileStream.seekBy (s.mCurRecordLeft + 4).toNat)
    throwIfFail "Can't read skip to end of record"
    Run.modify fun s => { s with mCurRecordValid := false }
  else if s.stream.eofbit then pure ()
  else passItem

/-- The part of `SeekToPrevRecord` that goes back from inside a record, or from behind a mark. -/
def backToStart : Tap Unit := do
  modifyStream (FileStream.seekTo ((← Run.get).mCurRecordStart - 4))
  throwIfFail "Can't skip to end of record"
  Run.modify reset
  if (← Run.get).mCurRecordEof then
    let recordSize ← readLength
    throwIfFail "Can't read EOF marker"
    tapAssert (recordSize == 0)
    modifyStream (FileStream.seekBy (-4))

/-- The part of `SeekToPrevRecord` that goes back over the item behind the head. -/
def backOverItem : Tap Unit := do
  Run.modify fun s => { s with mCurRecordEof := false }
  modifyStream (FileStream.seekBy (-4))
  throwIfFail "Can't seek to end of record"
  let endRecordSize ← readLength
  throwIfFail "Can't read end of record"
  if endRecordSize ≠ 0 then
    modifyStream (FileStream.seekBy (-((endRecordSize + 8).toNat : Int)))
    throwIfFail "Can't seek to beginning of record"
    let recordSize ← readLength
    throwIfFail "Can't read beginning of record"
    if endRecordSize ≠ recordSize then Run.throw (.generic "Record size mismatch")
    Run.modify reset
    modifyStream (FileStream.seekBy (-4))
  else
    Run.modify fun s => { s with mCurRecordEof := true, mCurRecordValid := false }
    modifyStream (FileStream.seekBy (-4))
    throwIfFail "Can't seek to beginning of EOF marker"

/-- `SeekToPrevRecord`. The source asks for the beginning of the tape once more before it goes back
    over an item, with the head where it was. -/
def seekToPrevRecord : Tap Unit := do
  setDirection .Backward
  let s ← Run.get
  if !fileExists s then pure ()
  else
    if s.stream.eofbit then modifyStream FileStream.clearFlags
    let pos ← onStream FileStream.tell
    if pos = 0 then Run.modify fun s => { reset s with mCurRecordEof := false }
    else if s.mCurRecordValid then backToStart
    else backOverItem

def seekToBeginningOfTape : Tap Unit := do
  setDirection .Backward
  if ← eof then modifyStream FileStream.clearFlags
  Run.modify fun s => { reset s with mCurRecordEof := false }
  modifyStream (FileStream.seekTo 0)

/-! ## 4. Moving data -/

/-- The part of `Read` that opens the item in front of the head; whether it is a record. -/
def openItem : Tap Bool := do
  match ← readHeader with
  | none => return false
  | some recordSize =>
    if recordSize ≠ 0 then
      let curPos ← onStream FileStream.tell
      skipRecord recordSize
      modifyStream (FileStream.seekTo curPos)
      throwIfFail "Can't seek back to beginning of record"
    let pos ← onStream FileStream.tell
    Run.modify fun s => { s with
      mCurRecordLeft := recordSize
      mCurRecordStart := pos
      mCurRecordValid := true
      mCurRecordEof := recordSize == 0 }
    return recordSize != 0

/-- The part of `Read` that reads from the record the head is in. -/
def readInRecord (aMaxSize : CAddr) : Tap (List (BitVec 8)) := do
  let s ← Run.get
  tapAssert s.mCurRecordValid
  tapAssert (!s.mCurRecordEof)
  let readSize := min aMaxSize.toNat s.mCurRecordLeft.toNat
  let retVal ← if readSize = 0 then pure [] else onStream (FileStream.read readSize)
  throwIfFail "Can't read from file"
  if aMaxSize.toNat ≥ s.mCurRecordLeft.toNat then
    let _ ← readLength
    throwIfFail "Can't read from end of record"
    Run.modify fun s => { s with mCurRecordValid := false }
  Run.modify fun s => { s with mCurRecordLeft := s.mCurRecordLeft - BitVec.ofNat 32 readSize }
  return retVal

def read (aMaxSize : CAddr) : Tap (List (BitVec 8)) := do
  setDirection .Forward
  let s ← Run.get
  if !fileExists s then return []
  else
    tapAssert (aMaxSize != 0)
    if inRecord s then readInRecord aMaxSize
    else if s.stream.eofbit then return []
    else if ← openItem then readInRecord aMaxSize
    else return []

/-- Looks at the item in front of the head and comes back; if its length is not the one to be
    written, the tape is cut here. -/
def truncateUnlessSame (aRecordSize : CAddr) : Tap Unit := do
  match ← readHeader with
  | none => pure ()
  | some diskRecordSize =>
    if diskRecordSize ≠ 0 then
      modifyStream (FileStream.seekBy diskRecordSize.toNat)
      throwIfFail "Can't seek to end of record"
      let endDiskRecordSize ← readLength
      throwIfFail "Can't read end of record"
      if diskRecordSize ≠ endDiskRecordSize then Run.throw (.generic "Record size mismatch at end")
      modifyStream (FileStream.seekBy (-((diskRecordSize + 4).toNat : Int)))
      throwIfFail "Can't seek to beginning of record"
    modifyStream (FileStream.seekBy (-4))
    throwIfFail "Can't seek to beginning of record"
    if diskRecordSize ≠ aRecordSize then truncate

/-- The part of `WriteRecordInternal` that writes, at the position of the head. -/
def putItem (aRecordSize : CAddr) (aData : List (BitVec 8)) : Tap Unit := do
  if ← eof then modifyStream FileStream.clearFlags
  let pos ← onStream FileStream.tell
  modifyStream (FileStream.seekPut pos)
  if ← eof then modifyStream FileStream.clearFlags
  modifyStream (FileStream.write (lengthBytes aRecordSize))
  Run.modify fun s => { s with mCurRecordStart := s.stream.tellPut, mCurRecordLeft := 0 }
  throwIfFail "Can't write beginning of record to file"
  if aRecordSize ≠ 0 then
    modifyStream (FileStream.write (aData.take aRecordSize.toNat))
    throwIfFail "Can't write record data to file"
    modifyStream (FileStream.write (lengthBytes aRecordSize))
    throwIfFail "Can't write end of record to file"
  let endPos := (← Run.get).stream.tellPut
  modifyStream (FileStream.seekTo endPos)
  modifyStream (FileStream.seekPut endPos)
  throwIfFail "Can't reposition read after write"
  Run.modify fun s => { s with
    mCurRecordEof := aRecordSize == 0
    mCurRecordValid := aRecordSize == 0 }

def writeRecordInternal (aData : List (BitVec 8)) : Tap Unit := do
  if !fileExists (← Run.get) then
    closeTape
    recreate
  let recordSize : CAddr := BitVec.ofNat 32 aData.length
  let s ← Run.get
  if s.stream.eofbit then pure ()
  else if inRecord s then
    modifyStream (FileStream.seekTo (s.mCurRecordStart - 4))
    throwIfFail "Can't seek to beginning of record"
    truncate
  else truncateUnlessSame recordSize
  putItem recordSize aData

def writeRecord (aData : List (BitVec 8)) : Tap Unit := do
  setDirection .Forward
  tapAssert (aData.length != 0)
  writeRecordInternal aData

def writeEndOfFile : Tap Unit := do
  setDirection .Forward
  writeRecordInternal []

end TapFile

end CraySim
