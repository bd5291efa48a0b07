/-
  Subject:   Tape images with some of their bytes replaced on reading.

  `poked_tap_file.cpp`. Over the tape it keeps the number of the file the head is in and the
  number of bytes of it behind the head, and replaces the bytes it is told to.

  * `PokedTapFile`, `Poked` -- the tape with the position in files, and its methods,
  * `seekToNextRecord`, `seekToPrevRecord`, `read`, `writeEndOfFile`, `seekToBeginningOfTape` -- the
    methods that are overridden; `writeRecord` is not,
  * `updateForNewFile` -- the sizes of the files, read when the tape is opened.

  The pokes of a tape are given; reading them from the configuration is left out.
-/
import CraySim.TapFile

namespace CraySim

/-- `PokedTapFile_c::PokeMap_t`: the bytes to replace in a file, by offset. -/
abbrev PokeMap := List (CInt × BitVec 8)

/-- `PokedTapFile_c`. -/
structure PokedTapFile where
  tape : TapFile
  mFileSizes : List CInt
  mCurFileIdx : CInt
  mCurFileOfs : CInt
  mCurPokeMap : Option (List PokeMap)
  deriving DecidableEq, Repr

abbrev Poked := Run TapExn PokedTapFile

namespace PokedTapFile

/-! ## 1. The tape below -/

/-- A method of `TapFile_c`. -/
def onTape {α : Type} (m : Tap α) : Poked α := fun s =>
  ((m s.tape).1, { s with tape := (m s.tape).2 })

/-- `size_t(tellg())`. -/
def tellg : Poked CInt := do
  let pos ← onTape (TapFile.onStream FileStream.tell)
  return BitVec.ofInt 64 pos

def pokedAssert (c : Bool) : Poked Unit := if c then pure () else Run.throw .assertion

/-- The position in the next file, at its start. -/
def nextFile (s : PokedTapFile) : PokedTapFile :=
  { s with mCurFileIdx := s.mCurFileIdx + 1, mCurFileOfs := 0 }

/-! ## 2. Methods -/

def seekToNextRecord : Poked Unit := do
  let pos ← tellg
  -- in a record: as if it were a full record of smaller size
  let base := if TapFile.inRecord (← Run.get).tape then pos - 4 else pos
  onTape TapFile.seekToNextRecord
  let after ← tellg
  let state ← onTape TapFile.getState
  if state = .EndOfFile ∨ state = .EndOfTape then Run.modify nextFile
  else
    pokedAssert (base + 8 ≤ after)
    Run.modify fun s => { s with mCurFileOfs := s.mCurFileOfs + (after - base - 8) }

def seekToPrevRecord : Poked Unit := do
  let pos ← tellg
  let base := if (← Run.get).tape.mCurRecordValid then pos + 4 else pos
  onTape TapFile.seekToPrevRecord
  let after ← tellg
  match ← onTape TapFile.getState with
  | .EndOfFile =>
    pokedAssert (0 < (← Run.get).mCurFileIdx)
    Run.modify fun s => { s with mCurFileIdx := s.mCurFileIdx - 1 }
    let s ← Run.get
    match s.mFileSizes[s.mCurFileIdx.toNat]? with
    | some size => Run.modify fun s => { s with mCurFileOfs := size }
    | none => Run.throw .undefinedBehaviour
  | .BeginningOfTape => Run.modify fun s => { s with mCurFileIdx := 0, mCurFileOfs := 0 }
  | _ =>
    pokedAssert (after + 8 ≤ base)
    pokedAssert ((← Run.get).mCurFileOfs ≤ base - after - 8)
    Run.modify fun s => { s with mCurFileOfs := s.mCurFileOfs - (base - after - 8) }

/-- Replaces the bytes that `aPokes` has something for; the first of them stands at `ofs`. -/
def pokeBytes (aPokes : PokeMap) (ofs : CInt) (data : List (BitVec 8)) : List (BitVec 8) :=
  data.mapIdx fun i b => (aPokes.lookup (ofs + BitVec.ofNat 64 i)).getD b

/-- The part of `Read` that looks for the pokes of the current file. -/
def poke (s : PokedTapFile) (data : List (BitVec 8)) : List (BitVec 8) :=
  match s.mCurPokeMap with
  | none => data
  | some files =>
    match files[s.mCurFileIdx.toNat]? with
    | none => data
    | some pokes => pokeBytes pokes s.mCurFileOfs data

def read (aMaxSize : CAddr) : Poked (List (BitVec 8)) := do
  let pos ← tellg
  -- outside of a record the length in front of it is read as well
  let s ← Run.get
  let base := if !s.tape.mCurRecordValid || s.tape.mCurRecordEof then pos + 4 else pos
  let data ← onTape (TapFile.read aMaxSize)
  let pos' ← tellg
  let s' ← Run.get
  let after := if !s'.tape.mCurRecordValid then pos' - 4 else pos'
  let retVal := poke s' data
  let state ← onTape TapFile.getState
  if state = .EndOfFile ∨ state = .EndOfTape then Run.modify nextFile
  else
    pokedAssert (base ≤ after)
    Run.modify fun s => { s with mCurFileOfs := s.mCurFileOfs + (after - base) }
  return retVal

/-- `WriteRecord` of the tape. -/
def writeRecord (aData : List (BitVec 8)) : Poked Unit := onTape (TapFile.writeRecord aData)

def writeEndOfFile : Poked Unit := do
  onTape TapFile.writeEndOfFile
  Run.modify fun s => { s with mCurFileIdx := s.mCurFileIdx + 1 }

def seekToBeginningOfTape : Poked Unit := do
  onTape TapFile.seekToBeginningOfTape
  Run.modify fun s => { s with mCurFileIdx := 0 }

/-- `ReOpen`, which is the one of the tape. -/
def reOpen : Poked Unit := do
  if !(← Run.get).tape.stream.isOpen then onTape TapFile.openTape

/-- `close`. -/
def closeTape : Poked Unit := do
  onTape TapFile.closeTape
  Run.modify fun s => { s with mCurFileIdx := 0, mCurFileOfs := 0 }

def getState : Poked TapState := onTape TapFile.getState

/-! ## 3. Opening a tape -/

/-- Reads a file up to the mark behind it; the size of it, or nothing at the end of the tape. -/
def scanFile : Nat → CInt → Poked (Option CInt)
  | 0, _ => Run.throw .undefinedBehaviour
  | fuel + 1, fileSize => do
    let data ← onTape (TapFile.read (BitVec.allOnes 32))
    match ← onTape TapFile.getState with
    | .EndOfTape => return none
    | .EndOfFile => return some (fileSize + BitVec.ofNat 64 data.length)
    | _ => scanFile fuel (fileSize + BitVec.ofNat 64 data.length)

/-- The files one after the other. -/
def scanFiles (rounds : Nat) : Nat → Poked Unit
  | 0 => Run.throw .undefinedBehaviour
  | fuel + 1 => do
    match ← onTape TapFile.getState with
    | .EndOfTape => pure ()
    | _ =>
      match ← scanFile rounds 0 with
      | some fileSize => Run.modify fun s => { s with mFileSizes := s.mFileSizes ++ [fileSize] }
      | none => pure ()
      scanFiles rounds fuel

/-- `UpdateForNewFile`. The loops end when the tape does; `fuel` bounds them. -/
def updateForNewFile (fuel : Nat) (aPokes : Option (List PokeMap)) : Poked Unit := do
  Run.modify fun s => { s with
    mCurFileIdx := 0
    mCurFileOfs := 0
    mCurPokeMap := aPokes
    mFileSizes := [] }
  if (← Run.get).tape.stream.good then
    seekToBeginningOfTape
    scanFiles fuel fuel
    seekToBeginningOfTape

/-- The constructor, for the file `disk`. -/
def ofDisk (disk : Option (List (BitVec 8))) (aMemory : Bool) : PokedTapFile :=
  { tape := TapFile.ofDisk disk aMemory
    mFileSizes := []
    mCurFileIdx := 0
    mCurFileOfs := 0
    mCurPokeMap := none }

end PokedTapFile

end CraySim
