/-
  Subject:   The two disks of an expander channel.

  A disk moves some sectors in a row, parcel by parcel, between its image and the memory. The Ampex
  disk takes head, sector, count and cylinder through register B, and register C says which of them
  it is. The CDC disk takes the cylinder through register C, then after a pulse the upper and the
  lower bits of sector and count; it gets the count as a two's complement.

  * `IopExpDisk.Config` -- the geometry,
  * `readSectors`, `writeSectors`, `formatSectors` -- the loops of both disks,
  * `IopExpDiskAmpexDM980`, `IopExpDiskCDC9448` -- the disks, with their registers and `control`,
  * `readSectors_ok`, `writeSectors_ok`, `formatSectors_ok` -- what a transfer does.
-/
import CraySim.IopExpDevice

namespace CraySim

/-! ## 1. Transfers -/

namespace IopExpDisk

/-- The configuration of a disk; no transfer is as long as a `size_t`. -/
structure Config where
  mReadOnly : Bool
  mNumHeads : Nat
  mNumSectors : Nat
  mNumTracks : Nat
  mSectorSize : Nat
  heads_pos : 0 < mNumHeads
  sectors_pos : 0 < mNumSectors
  tracks_pos : 0 < mNumTracks
  sectorSize_pos : 0 < mSectorSize
  sectorSize_lt : mSectorSize < 2 ^ 48

variable (c : Config)

/-- The sectors of the disk. -/
def diskSectors : Nat := c.mNumSectors * c.mNumHeads * c.mNumTracks

/-- `Create`: the image, made where there is none. -/
def create (image : Option (List (BitVec 8))) : List (BitVec 8) :=
  image.getD (List.replicate (diskSectors c * c.mSectorSize) 0)

/-- The number of a sector. -/
def sectorIdx (mTrack mHead mStartSector : Nat) : Nat :=
  mTrack * c.mNumSectors * c.mNumHeads + mHead * c.mNumSectors + mStartSector

/-- The parcels of some sectors, counted in a `size_t`. -/
def parcels (mSectorCnt : Nat) : Nat := c.mSectorSize * mSectorCnt % 2 ^ 64 / 2

/-- The loop of a read. -/
def readSectors (sectorIdx mSectorCnt : Nat) (image : List (BitVec 8)) (mRegB : IopInt)
    (mem : IoMemory) : Except Exn (IopInt × IoMemory) :=
  readParcels 1 (parcels c mSectorCnt)
    ((FileStream.ready image 0).seekTo (sectorIdx * c.mSectorSize : Nat)) mRegB mem

/-- The loop of a write. -/
def writeSectors (sectorIdx mSectorCnt : Nat) (image : List (BitVec 8)) (mRegB : IopInt)
    (mem : IoMemory) : Except Exn (IopInt × FileStream) :=
  writeParcels 1 mem (parcels c mSectorCnt)
    ((FileStream.ready image 0).seekPut (sectorIdx * c.mSectorSize : Nat)) mRegB

/-- The same loop where it formats. -/
def formatSectors (sectorIdx mSectorCnt : Nat) (image : List (BitVec 8)) (mRegB : IopInt) :
    Except Exn (IopInt × FileStream) :=
  formatParcels (parcels c mSectorCnt)
    ((FileStream.ready image 0).seekPut (sectorIdx * c.mSectorSize : Nat)) mRegB

end IopExpDisk

open IopExpDevice IopExpDisk

/-! ## 2. The Ampex disk -/

/-- `IopExpDiskAmpexDM980_c`, without its statistics. -/
structure IopExpDiskAmpexDM980 where
  flags : DeviceFlags
  mRegA : IopInt
  mRegB : IopInt
  mRegC : IopInt
  mHead : Nat
  mStartSector : Nat
  mSectorCnt : Nat
  mTrack : Nat
  image : Option (List (BitVec 8))

instance : IopExpDevice IopExpDiskAmpexDM980 where
  flags d := d.flags
  withFlags d f := { d with flags := f }
  flags_withFlags _ _ := rfl

namespace IopExpDiskAmpexDM980

variable (c : Config) (scan : IopExpDiskAmpexDM980 → Except Exn Bool)

/-- The constructor. -/
def new (image : Option (List (BitVec 8))) : IopExpDiskAmpexDM980 where
  flags := .new
  mRegA := 0
  mRegB := 0
  mRegC := 0
  mHead := 0
  mStartSector := 0
  mSectorCnt := 0
  mTrack := 0
  image := image

def setRegA (aValue : IopInt) (d : IopExpDiskAmpexDM980) : IopExpDiskAmpexDM980 :=
  { d with mRegA := aValue }

def setRegB (aValue : IopInt) (d : IopExpDiskAmpexDM980) : IopExpDiskAmpexDM980 :=
  { d with mRegB := aValue }

/-- `SetRegC`: the value can select where register B goes. -/
def setRegC (aValue : IopInt) (d : IopExpDiskAmpexDM980) : IopExpDiskAmpexDM980 :=
  let d := { d with mRegC := aValue }
  match aValue.toNat with
  | 1 => { d with mHead := d.mRegB.toNat }
  | 2 => { d with mStartSector := d.mRegB.toNat }
  | 3 => { d with mSectorCnt := d.mRegB.toNat }
  | 5 => { d with mTrack := d.mRegB.toNat }
  | _ => d

/-- The end of a command. -/
def finish (x : Plugged IopExpDiskAmpexDM980) : Except Exn (Plugged IopExpDiskAmpexDM980) :=
  setIntActive scan true { x with device := { x.device with
    flags := { x.device.flags with mDone := true, mBusy := false }
    mRegA := x.device.mRegA &&& ~~~1 } }

/-- A START. -/
def start (x : Plugged IopExpDiskAmpexDM980) : Except Exn (Plugged IopExpDiskAmpexDM980) :=
  let d := x.device
  let idx := sectorIdx c d.mTrack d.mHead d.mStartSector
  match d.mRegC.toNat with
  | 0o00 => do
    let image := create c d.image
    let r ← readSectors c idx d.mSectorCnt image d.mRegB x.ioMemory
    finish scan { x with device := { d with image := some image, mRegB := r.1 }, ioMemory := r.2 }
  | 0o10 => do
    let r ← writeSectors c idx d.mSectorCnt (create c d.image) d.mRegB x.ioMemory
    finish scan { x with device := { d with image := some r.2.content, mRegB := r.1 } }
  | 0o20 => do
    let r ← formatSectors c idx d.mSectorCnt (create c d.image) d.mRegB
    finish scan { x with device := { d with image := some r.2.content, mRegB := r.1 } }
  | 0o120 => finish scan { x with device := { d with mTrack := 0, mHead := 0, mStartSector := 0 } }
  | 0o40 => finish scan x
  | _ => .ok x

def control (aControl : IopInt) (x : Plugged IopExpDiskAmpexDM980) :
    Except Exn (Plugged IopExpDiskAmpexDM980) :=
  if aControl &&& ~~~(controlStart ||| controlClear) ≠ 0 then .error .assertion
  else do
    let x ← clearInt scan aControl x
    if aControl &&& controlStart ≠ 0 then start c scan x else .ok x

/-- What the disk does on a call. -/
def perform : Call → Plugged IopExpDiskAmpexDM980 → Except Exn (IopInt × Plugged IopExpDiskAmpexDM980)
  | .setRegA v, x => silent (.ok { x with device := x.device.setRegA v })
  | .setRegB v, x => silent (.ok { x with device := x.device.setRegB v })
  | .setRegC v, x => silent (.ok { x with device := x.device.setRegC v })
  | .setIntEnabled b, x => silent (setIntEnabled scan b x)
  | .getRegA, x => .ok (x.device.mRegA, x)
  | .getRegB, x => .ok (x.device.mRegB, x)
  | .getRegC, x => .ok (x.device.mRegC, x)
  | .control a, x => silent (control c scan a x)
  | .tick, x => silent (.ok x)

end IopExpDiskAmpexDM980

/-! ## 3. The CDC disk -/

namespace IopExpDiskCDC9448

/-- `States_e`. -/
inductive State where
  | seek
  | getHighHeadSector
  | getLowHeadSector
  deriving DecidableEq, Repr

end IopExpDiskCDC9448

/-- `IopExpDiskCDC9448_96_c`, without its statistics. -/
structure IopExpDiskCDC9448 where
  flags : DeviceFlags
  mRegA : IopInt
  mRegB : IopInt
  mRegC : IopInt
  mHead : Nat
  mStartSector : Nat
  mSectorCnt : BitVec 32
  mTrack : Nat
  mState : IopExpDiskCDC9448.State
  image : Option (List (BitVec 8))

instance : IopExpDevice IopExpDiskCDC9448 where
  flags d := d.flags
  withFlags d f := { d with flags := f }
  flags_withFlags _ _ := rfl

namespace IopExpDiskCDC9448

variable (c : Config) (scan : IopExpDiskCDC9448 → Except Exn Bool)

/-- The constructor. -/
def new (image : Option (List (BitVec 8))) : IopExpDiskCDC9448 where
  flags := .new
  mRegA := 0
  mRegB := 0
  mRegC := 0
  mHead := 0
  mStartSector := 0
  mSectorCnt := 0
  mTrack := 0
  mState := .seek
  image := image

def setRegA (aValue : IopInt) (d : IopExpDiskCDC9448) : IopExpDiskCDC9448 :=
  { d with mRegA := aValue }

def setRegB (aValue : IopInt) (d : IopExpDiskCDC9448) : IopExpDiskCDC9448 :=
  { d with mRegB := aValue }

def setRegC (aValue : IopInt) (d : IopExpDiskCDC9448) : IopExpDiskCDC9448 :=
  match d.mState with
  | .seek => { d with mRegC := aValue, mTrack := aValue.toNat }
  | .getHighHeadSector =>
    { d with
      mRegC := aValue
      mStartSector := (aValue >>> 5 &&& 32).toNat
      mSectorCnt := (aValue &&& 32).setWidth 32
      mState := .getLowHeadSector }
  | .getLowHeadSector =>
    { d with
      mRegC := aValue
      mStartSector := d.mStartSector ||| (aValue >>> 5 &&& 31).toNat
      mSectorCnt := d.mSectorCnt ||| (aValue &&& 31).setWidth 32
      mHead := (aValue >>> 10 &&& 31).toNat }

/-- The count of a read: a two's complement of six bits is extended and negated. -/
def negated (mSectorCnt : BitVec 32) : BitVec 32 :=
  -(if mSectorCnt &&& 32 ≠ 0 then mSectorCnt ||| ~~~63 else mSectorCnt)

/-- An `int32_t` as a `size_t`. -/
def toSize (v : BitVec 32) : Nat := (v.signExtend 64).toNat

/-- The end of a command. -/
def finish (x : Plugged IopExpDiskCDC9448) : Except Exn (Plugged IopExpDiskCDC9448) :=
  setIntActive scan true { x with device := { x.device with
    flags := { x.device.flags with mDone := true, mBusy := false }
    mRegA := x.device.mRegA &&& ~~~0x8000 } }

/-- A START. -/
def start (x : Plugged IopExpDiskCDC9448) : Except Exn (Plugged IopExpDiskCDC9448) :=
  let d := { x.device with mState := .seek }
  let idx := sectorIdx c d.mTrack d.mHead d.mStartSector
  if x.device.mState ≠ .getLowHeadSector then .error .assertion
  else match d.mRegA.toNat with
    | 0o0000 => do
      let image := create c d.image
      let mSectorCnt := negated d.mSectorCnt
      let r ← readSectors c idx (toSize mSectorCnt) image d.mRegB x.ioMemory
      finish scan
        { x with
          device := { d with image := some image, mSectorCnt := mSectorCnt, mRegB := r.1 }
          ioMemory := r.2 }
    | 0o3400 => do
      let r ← writeSectors c idx (toSize d.mSectorCnt) (create c d.image) d.mRegB x.ioMemory
      finish scan { x with device := { d with image := some r.2.content, mRegB := r.1 } }
    | 0o3600 => do
      let r ← formatSectors c idx (toSize d.mSectorCnt) (create c d.image) d.mRegB
      finish scan { x with device := { d with image := some r.2.content, mRegB := r.1 } }
    | _ => .error .assertion

/-- The state after a CLEAR and a PULSE, where a control has them. -/
def switched (aControl : IopInt) (mState : State) : State :=
  if aControl &&& controlPulse ≠ 0 then .getHighHeadSector
  else if aControl &&& controlClear ≠ 0 then .seek
  else mState

def control (aControl : IopInt) (x : Plugged IopExpDiskCDC9448) :
    Except Exn (Plugged IopExpDiskCDC9448) := do
  let x ← clearInt scan aControl x
  let x := { x with device := { x.device with mState := switched aControl x.device.mState } }
  if aControl &&& controlStart ≠ 0 then start c scan x else .ok x

/-- What the disk does on a call. -/
def perform : Call → Plugged IopExpDiskCDC9448 → Except Exn (IopInt × Plugged IopExpDiskCDC9448)
  | .setRegA v, x => silent (.ok { x with device := x.device.setRegA v })
  | .setRegB v, x => silent (.ok { x with device := x.device.setRegB v })
  | .setRegC v, x => silent (.ok { x with device := x.device.setRegC v })
  | .setIntEnabled b, x => silent (setIntEnabled scan b x)
  | .getRegA, x => .ok (x.device.mRegA, x)
  | .getRegB, x => .ok (x.device.mRegB, x)
  | .getRegC, x => .ok (x.device.mRegC, x)
  | .control a, x => silent (control c scan a x)
  | .tick, x => silent (.ok x)

end IopExpDiskCDC9448

/-! ## 4. What a transfer does -/

namespace IopExpDisk

variable {c : Config} {image : List (BitVec 8)} {idx cnt : Nat}

theorem parcels_eq (c : Config) (h : cnt ≤ 2 ^ 16) : parcels c cnt = c.mSectorSize * cnt / 2 := by
  have hprod : c.mSectorSize * cnt < 2 ^ 64 :=
    calc c.mSectorSize * cnt ≤ c.mSectorSize * 2 ^ 16 := Nat.mul_le_mul_left _ h
      _ < 2 ^ 48 * 2 ^ 16 := Nat.mul_lt_mul_of_pos_right c.sectorSize_lt (by decide)
      _ = 2 ^ 64 := by decide
  rw [parcels, Nat.mod_eq_of_lt hprod]

/-- **A read** stores the parcels of the image. -/
theorem readSectors_ok (h : c.mSectorSize * idx + 2 * parcels c cnt ≤ image.length)
    (mRegB : IopInt) (mem : IoMemory) :
    readSectors c idx cnt image mRegB mem =
      .ok (mRegB + BitVec.ofNat 16 (parcels c cnt), mem.store mRegB
        (parcelsOf (SectorArray.block image (c.mSectorSize * idx) (2 * parcels c cnt)))) := by
  have hend : c.mSectorSize * idx + 2 * (1 * parcels c cnt) ≤ image.length := by omega
  have hrun := readParcels_ok hend mRegB mem
  rw [readSectors, FileStream.seekTo_ready, Nat.mul_comm idx, hrun, Nat.one_mul]

/-- **A write** puts the parcels of the memory over the image. -/
theorem writeSectors_ok (image : List (BitVec 8)) (idx cnt : Nat) (mRegB : IopInt)
    (mem : IoMemory) :
    writeSectors c idx cnt image mRegB mem =
      .ok (mRegB + BitVec.ofNat 16 (parcels c cnt),
        FileStream.ready (FileStream.putBytes image (c.mSectorSize * idx)
          (bytesOf (mem.load mRegB (parcels c cnt)))) (c.mSectorSize * idx + 2 * parcels c cnt)) := by
  rw [writeSectors, FileStream.seekPut_ready, Nat.mul_comm idx, writeParcels_ok, Nat.one_mul]

/-- **A format** puts zeros. -/
theorem formatSectors_ok (image : List (BitVec 8)) (idx cnt : Nat) (mRegB : IopInt) :
    formatSectors c idx cnt image mRegB =
      .ok (mRegB + BitVec.ofNat 16 (parcels c cnt),
        FileStream.ready (FileStream.putBytes image (c.mSectorSize * idx)
          (List.replicate (2 * parcels c cnt) 0)) (c.mSectorSize * idx + 2 * parcels c cnt)) := by
  rw [formatSectors, FileStream.seekPut_ready, Nat.mul_comm idx, formatParcels_ok]

end IopExpDisk

end CraySim
