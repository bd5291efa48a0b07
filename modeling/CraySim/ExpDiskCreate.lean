/-
  Subject:   Making the image of an expander disk, as `exp_disk_create.cpp` does it.

  The image is a vector of 16-bit words that the tool addresses in bytes. Logical sectors of 4096
  bytes take 32 of the 35 physical sectors of a track. The tool does not check where it writes, so
  the memory here goes on behind the end of the image.

  * `logicalSectorAddr` -- where a logical sector stands,
  * `DirEntry` -- an entry of the directory,
  * `DiskImage` -- the image, and what was placed in it,
  * `readFile`, `finalize` -- the members of `DiskImage_s`.

  What is printed is left out. A source file is given with its bytes.
-/
import CraySim.Lib.ByteFile
import CraySim.Lib.ByteStore

namespace CraySim

open ByteFile ByteStore

/-- `Generic_x`; some texts name a string of the user. -/
inductive ExpDiskExn where
  | generic (aText : String)
  | naming (aBefore : String) (aName : List (BitVec 8)) (aAfter : String)
  /-- No exception of the source: a member is read that has no value. -/
  | undefinedBehaviour
  deriving DecidableEq, Repr

namespace ExpDisk

/-- `if (c) throw e;` -/
def throwIf (c : Prop) [Decidable c] (e : ExpDiskExn) : Except ExpDiskExn Unit :=
  if c then throw e else pure ()

theorem throwIf_bind {α : Type} {c : Prop} [Decidable c] {e : ExpDiskExn}
    {m : Except ExpDiskExn α} {a : α} :
    (throwIf c e >>= fun _ => m) = .ok a ↔ ¬ c ∧ m = .ok a := by
  rw [throwIf]
  split
  · exact ⟨nofun, fun h => absurd ‹c› h.1⟩
  · exact ⟨fun h => ⟨‹¬ c›, h⟩, fun h => h.2⟩

/-! ## 1. Geometry -/

def Heads : Nat := 5
def Sectors : Nat := 35
def Tracks : Nat := 823
def SectorSize : Nat := 512
def LogicalSectorSize : Nat := SectorSize * 8
def LogicalSectors : Nat := Sectors * SectorSize / LogicalSectorSize
def SectorCount : Nat := Heads * Sectors * Tracks

/-- `Image.size()`: the image in 16-bit words. -/
def imageSize : Nat := SectorCount * SectorSize / 2

/-- `GetPhysicalSectorAddr`, in bytes. -/
def physicalSectorAddr (aSector aHead aCylinder : Nat) : Nat :=
  (aCylinder * Sectors * Heads + aHead * Sectors + aSector) * SectorSize

/-- `GetLogicalSectorAddr`. -/
def logicalSectorAddr (aLogicalSector : Nat) : Nat :=
  let physicalSector := aLogicalSector % LogicalSectors * (LogicalSectorSize / SectorSize)
  let track := aLogicalSector / LogicalSectors
  physicalSectorAddr physicalSector (track % Heads) (track / Heads)

/-! ## 2. Files and directory entries -/

/-- `FileDesc_s`, with the contents of the file `SourceFileName`. -/
structure FileDesc where
  FileName : List (BitVec 8)
  DirectoryName : List (BitVec 8)
  CreationDate : List (BitVec 8)
  CreationTime : List (BitVec 8)
  SourceFileName : List (BitVec 8)
  source : List (BitVec 8)
  StartSector : BitVec 32
  IsFixedPlacement : Bool
  SwapBytes : Bool
  deriving DecidableEq, Repr

/-- `DirEntry_s`. -/
structure DirEntry where
  Flags : BitVec 16
  DirectoryName : List (BitVec 8)
  FileName : List (BitVec 8)
  CreationDate : List (BitVec 8)
  CreationTime : List (BitVec 8)
  FileSize_High : BitVec 16
  FileSize_Low : BitVec 16
  NumOfBlocks : BitVec 16
  Entry28 : BitVec 16
  Entry29 : BitVec 16
  NumSectors : BitVec 16
  NumSectorChains : BitVec 16
  SectorChains : List (BitVec 16 × BitVec 16)
  deriving DecidableEq, Repr

/-- A string copied over `n` zeros, its bytes then swapped in pairs. -/
def nameField (n : Nat) (aName : List (BitVec 8)) : List (BitVec 8) :=
  (List.range n).map fun i => (aName[mate i]?).getD 0

namespace DirEntry

/-- The constructor for a file of so many 64-bit words. -/
def ofFile (aFileDesc : FileDesc) (aFileSize aFirstSector : Nat) : DirEntry :=
  let numSectors := BitVec.ofNat 16 ((aFileSize + SectorSize - 1) / SectorSize)
  { Flags := 0x8000
    DirectoryName := nameField 16 aFileDesc.DirectoryName
    FileName := nameField 16 aFileDesc.FileName
    CreationDate := nameField 8 aFileDesc.CreationDate
    CreationTime := nameField 8 aFileDesc.CreationTime
    FileSize_High := BitVec.ofNat 16 (aFileSize / 2 ^ 16)
    FileSize_Low := BitVec.ofNat 16 aFileSize
    NumOfBlocks := 0
    Entry28 := 0
    Entry29 := 0
    NumSectors := numSectors
    NumSectorChains := 1
    SectorChains := (BitVec.ofNat 16 aFirstSector, numSectors) :: List.replicate 13 (0, 0) }

/-- A 16-bit word in memory. -/
def wordBytes (w : BitVec 16) : List (BitVec 8) := bytesLE 2 w.toNat

/-- The entry in memory. -/
def bytes (e : DirEntry) : List (BitVec 8) :=
  wordBytes e.Flags ++ e.DirectoryName ++ e.FileName ++ e.CreationDate ++ e.CreationTime ++
    ([e.FileSize_High, e.FileSize_Low, e.NumOfBlocks, e.Entry28, e.Entry29, e.NumSectors,
      e.NumSectorChains] ++ e.SectorChains.flatMap fun c => [c.1, c.2]).flatMap wordBytes

end DirEntry

/-! ## 3. The image -/

/-- `DiskImage_s`. `placed` is a log for the statements: the first sector of every file that was
    placed, and the number of sectors that the loop went through for it. -/
structure DiskImage where
  Image : Nat → BitVec 8
  mCurrentSector : Nat
  mFileCnt : Nat
  placed : List (Nat × Nat)

namespace DiskImage

/-- The constructor. -/
def init : DiskImage where
  Image := fun _ => 0
  mCurrentSector := 6
  mFileCnt := 0
  placed := []

def copyString (aStr : List (BitVec 8)) (aMem aMaxSizeInWords : Nat) (mem : Nat → BitVec 8) :
    Nat → BitVec 8 :=
  storeBytes (storeBytes mem aMem (List.replicate (2 * aMaxSizeInWords) 0)) aMem aStr

def initVolume (aVolumeLabel aInitDate aInitTime : List (BitVec 8)) (s : DiskImage) : DiskImage :=
  let sector := physicalSectorAddr 24 0 0
  let mem := storeBytes s.Image sector [0xff, 0xff]
  let mem := copyString aVolumeLabel (sector + 2 * 1) 8 mem
  let mem := copyString aInitDate (sector + 2 * 5) 8 mem
  let mem := copyString aInitTime (sector + 2 * 9) 8 mem
  let mem := copyString aInitDate (sector + 2 * 13) 8 mem
  let mem := copyString aInitTime (sector + 2 * 17) 8 mem
  { s with Image := mem }

/-- The loop of `ReadFile`, with what is left of the source: the memory, and the sector that
    follows. A read of less than a sector is the last one. -/
def readLoop (swapBytes : Bool) (rest : List (BitVec 8)) (currentSector : Nat)
    (mem : Nat → BitVec 8) : (Nat → BitVec 8) × Nat :=
  let addr := logicalSectorAddr currentSector
  let mem := storeBytes mem addr (rest.take LogicalSectorSize)
  let mem := if swapBytes then swapPairs mem addr LogicalSectorSize else mem
  if rest.length < LogicalSectorSize then (mem, currentSector + 1)
  else readLoop swapBytes (rest.drop LogicalSectorSize) (currentSector + 1) mem
termination_by rest.length
decreasing_by
  have hlen : LogicalSectorSize ≤ rest.length := Nat.le_of_not_lt ‹_›
  have hpos : 0 < LogicalSectorSize := by decide
  rw [List.length_drop]
  exact Nat.sub_lt (Nat.lt_of_lt_of_le hpos hlen) hpos

/-- `Image.size() - mCurrentSector * LogicalSectorSize`, in 64 bits. -/
def room (s : DiskImage) : Nat :=
  (imageSize + 2 ^ 64 - s.mCurrentSector * LogicalSectorSize % 2 ^ 64) % 2 ^ 64

/-- The checks of `ReadFile`. -/
def checkRoom (aFileDesc : FileDesc) (s : DiskImage) : Except ExpDiskExn Unit := do
  throwIf (aFileDesc.source.length > s.room) (.generic "Not enough room in disk image for file")
  throwIf (aFileDesc.FileName.length > 16) (.generic "File name is too long")
  throwIf (aFileDesc.DirectoryName.length > 16) (.generic "Directory name is too long")
  throwIf (aFileDesc.CreationDate.length > 8) (.generic "Creation date is too long")
  throwIf (aFileDesc.CreationTime.length > 8) (.generic "Creation time is too long")
  throwIf (s.mFileCnt ≥ 34) (.generic "Too many files in the image")
  return ()

/-- Where the entry of a file goes. -/
def dirEntryAddr (aFileCnt : Nat) : Nat := physicalSectorAddr 8 1 0 + 8 * 2 + 120 * aFileCnt

def readFile (s : DiskImage) (aFileDesc : FileDesc) : Except ExpDiskExn DiskImage := do
  if aFileDesc.IsFixedPlacement then
    let startSector := aFileDesc.StartSector.toNat
    let (mem, currentSector) :=
      readLoop aFileDesc.SwapBytes aFileDesc.source startSector s.Image
    return { s with
      Image := mem
      placed := s.placed ++ [(startSector, currentSector - startSector)] }
  else
    checkRoom aFileDesc s
    let startSector := s.mCurrentSector
    let (mem, currentSector) :=
      readLoop aFileDesc.SwapBytes aFileDesc.source startSector s.Image
    let dirEntry := DirEntry.ofFile aFileDesc ((aFileDesc.source.length + 7) / 8) startSector
    return {
      Image := storeBytes mem (dirEntryAddr s.mFileCnt) dirEntry.bytes
      mCurrentSector := currentSector
      mFileCnt := s.mFileCnt + 1
      placed := s.placed ++ [(startSector, currentSector - startSector)] }

/-- `SectorCount-mCurrentSector`, in 64 bits. -/
def sectorsLeft (s : DiskImage) : Nat :=
  (SectorCount + 2 ^ 64 - s.mCurrentSector % 2 ^ 64) % 2 ^ 64

def finalize (s : DiskImage) : DiskImage :=
  let sector := physicalSectorAddr 0 1 0
  let mem := storeBytes s.Image (sector + 2 * 7) (bytesLE 2 1)
  let mem := storeBytes mem (sector + 2 * 8) (bytesLE 2 s.mCurrentSector)
  let mem := storeBytes mem (sector + 2 * 9) (bytesLE 2 s.sectorsLeft)
  { s with Image := swapPairs mem 0 (2 * imageSize) }

/-! ## 4. `main` -/

/-- The bytes of "EXP_DISK", "01/01/89" and "01:01:01". -/
def defaultLabel : List (BitVec 8) := [0x45, 0x58, 0x50, 0x5f, 0x44, 0x49, 0x53, 0x4b]
def initDate : List (BitVec 8) := [0x30, 0x31, 0x2f, 0x30, 0x31, 0x2f, 0x38, 0x39]
def initTime : List (BitVec 8) := [0x30, 0x31, 0x3a, 0x30, 0x31, 0x3a, 0x30, 0x31]

/-- What is checked when the name of a source file is read. -/
def checkFile (aVolumeLabel : List (BitVec 8)) (aFileDesc : FileDesc) :
    Except ExpDiskExn Unit := do
  throwIf (aVolumeLabel.length > 16) (.naming "Volume label " aVolumeLabel " is too long")
  throwIf (aFileDesc.FileName.length > 16)
    (.naming "File name " aFileDesc.FileName " is too long")
  throwIf (aFileDesc.DirectoryName.length > 16)
    (.naming "Directory name " aFileDesc.DirectoryName " is too long")
  return ()

/-- A parameter of the command line with what follows it; a source file with its bytes, if it
    exists. -/
inductive Param where
  | output (aName : List (BitVec 8))
  | label (aLabel : List (BitVec 8))
  | directory (aName : List (BitVec 8))
  | rootDirectory
  | fileName (aName : List (BitVec 8))
  | fixed (aStartSector : BitVec 32)
  | swap
  | noSwap
  | creation (aDate aTime : List (BitVec 8))
  | source (aName : List (BitVec 8)) (aSource : Option (List (BitVec 8)))

/-- The variables of `main`. -/
structure CommandLine where
  ImgFileName : List (BitVec 8)
  VolumeLabel : List (BitVec 8)
  CurrentFileDesc : FileDesc
  /-- `IsFixedPlacement` and `StartSector` of `CurrentFileDesc` have a value; `main` gives them
      none. -/
  hasPlacement : Bool
  Files : List FileDesc

def CommandLine.init : CommandLine where
  ImgFileName := []
  VolumeLabel := []
  CurrentFileDesc := ⟨[], [], [], [], [], [], 0, false, true⟩
  hasPlacement := false
  Files := []

/-- The name of a source file. -/
def sourceFile (c : CommandLine) (aName : List (BitVec 8)) (aSource : Option (List (BitVec 8))) :
    Except ExpDiskExn CommandLine := do
  let d := c.CurrentFileDesc
  let label := if c.VolumeLabel = [] then defaultLabel else c.VolumeLabel
  let f := { d with
    SourceFileName := aName
    FileName := if d.FileName = [] then aName else d.FileName
    CreationDate := if d.CreationDate = [] then initDate else d.CreationDate
    CreationTime := if d.CreationTime = [] then initTime else d.CreationTime }
  checkFile label f
  match aSource with
  | none => throw (.naming "Source file " aName " does't exist")
  | some source =>
    throwIf (c.hasPlacement = false) .undefinedBehaviour
    return { c with
      VolumeLabel := label
      CurrentFileDesc := { f with
        FileName := []
        SourceFileName := []
        CreationDate := []
        CreationTime := []
        IsFixedPlacement := false }
      Files := c.Files ++ [{ f with source := source }] }

/-- The body of the loop. -/
def param (c : CommandLine) : Param → Except ExpDiskExn CommandLine
  | .output aName => do
    throwIf (c.ImgFileName ≠ []) (.generic "Image file name is already specified")
    return { c with ImgFileName := aName }
  | .label aLabel => do
    throwIf (c.VolumeLabel ≠ []) (.generic "Volume label is already specified")
    return { c with VolumeLabel := aLabel }
  | .directory aName =>
    .ok { c with CurrentFileDesc := { c.CurrentFileDesc with DirectoryName := aName } }
  | .rootDirectory =>
    .ok { c with CurrentFileDesc := { c.CurrentFileDesc with DirectoryName := [] } }
  | .fileName aName =>
    .ok { c with CurrentFileDesc := { c.CurrentFileDesc with FileName := aName } }
  | .fixed aStartSector => .ok { c with
      CurrentFileDesc := { c.CurrentFileDesc with
        IsFixedPlacement := true
        StartSector := aStartSector }
      hasPlacement := true }
  | .swap => .ok { c with CurrentFileDesc := { c.CurrentFileDesc with SwapBytes := true } }
  | .noSwap => .ok { c with CurrentFileDesc := { c.CurrentFileDesc with SwapBytes := false } }
  | .creation aDate aTime => do
    throwIf (aDate.length ≠ 8) (.generic "Creation date length must be 8")
    throwIf (aTime.length ≠ 8) (.generic "Creation time length must be 8")
    return { c with CurrentFileDesc := { c.CurrentFileDesc with
      CreationDate := aDate
      CreationTime := aTime } }
  | .source aName aSource => sourceFile c aName aSource

/-- The loop over the command line. -/
def commandLine (ps : List Param) : Except ExpDiskExn CommandLine := ps.foldlM param .init

/-- The image of the files. -/
def build (aVolumeLabel : List (BitVec 8)) (aFiles : List FileDesc) :
    Except ExpDiskExn DiskImage := do
  let s ← aFiles.foldlM readFile (init.initVolume aVolumeLabel initDate initTime)
  return s.finalize

/-- **`main`**, up to the image that is written. -/
def main (ps : List Param) : Except ExpDiskExn DiskImage := do
  let c ← commandLine ps
  throwIf (c.ImgFileName = []) (.generic "Image file name was not specified")
  build c.VolumeLabel c.Files

/-! ## 5. Reading the image -/

/-- A word of an entry of the directory, in the image as written: most significant byte first. -/
def entryWord (image : Nat → BitVec 8) (aEntry j : Nat) : Nat :=
  256 * (image (dirEntryAddr aEntry + 2 * j)).toNat + (image (dirEntryAddr aEntry + 2 * j + 1)).toNat

/-- The recorded number of 64-bit words, -/
def entrySize (image : Nat → BitVec 8) (aEntry : Nat) : Nat :=
  65536 * entryWord image aEntry 25 + entryWord image aEntry 26

/-- the number of chains of sectors, -/
def entryChains (image : Nat → BitVec 8) (aEntry : Nat) : Nat := entryWord image aEntry 31

/-- the first sector and the length of the first chain. -/
def entryFirst (image : Nat → BitVec 8) (aEntry : Nat) : Nat := entryWord image aEntry 32

def entrySectors (image : Nat → BitVec 8) (aEntry : Nat) : Nat := entryWord image aEntry 33

/-- The bytes of the words of a file, its sectors following each other. They stand in the image in
    their own order if they were swapped when they were read, and swapped otherwise. -/
def readBack (image : Nat → BitVec 8) (aEntry : Nat) (swapBytes : Bool) : List (BitVec 8) :=
  (List.range (8 * entrySize image aEntry)).map fun k =>
    let i := if swapBytes then k else mate k
    image (logicalSectorAddr (entryFirst image aEntry + i / LogicalSectorSize) +
      i % LogicalSectorSize)

end DiskImage

end ExpDisk

end CraySim
