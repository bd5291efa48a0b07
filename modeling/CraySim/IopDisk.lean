/-
  Subject:   The DD29 disk channel of an IOP.

  A disk is a file. A read or a write moves one sector, at the track, the head and the sector that
  were selected before; in the buffer echo mode, which a master clear turns on and the selection of
  a mode turns off, it moves the buffer of the channel instead.

  * `IopDiskDD29.Config`, `IopDiskDD29` -- the geometry, and the state with file and memory,
  * `imageOffset`, `formatOffset` -- where a sector is read and written, and where it is formatted,
  * `execOperation`, `doIo` -- the operations and the channel functions,
  * `read_ok`, `write_ok`, `format_ok` -- what they do outside the buffer echo mode.
-/
import CraySim.IoTransfer
import CraySim.Lib.EventRun

namespace CraySim

namespace IopDiskDD29

/-- The configuration of the disk, as the constructor takes it. -/
structure Config where
  mReadOnly : Bool
  mNumHeads : Nat
  mNumSectors : Nat
  mNumTracks : Nat
  mSectorSize : Nat
  heads_pos : 0 < mNumHeads
  sectors_pos : 0 < mNumSectors
  tracks_pos : 0 < mNumTracks
  sectorSize_pos : 0 < mSectorSize

/-- `Operations_e`. -/
inductive Operation where
  | read
  | write
  | format
  | idle
  deriving DecidableEq, Repr

end IopDiskDD29

open IopDiskDD29 in
/-- `IopDiskDD29_c` without its statistics, its image file, and the memory of its IOP. -/
structure IopDiskDD29 where
  mIoMemoryAddr : IopInt
  mCurrentHead : Nat
  mCurrentSector : Nat
  mCurrentTrack : Nat
  mDone : Bool
  mOperation : Operation
  mInterruptEnabled : Bool
  mMounted : Bool
  mBufferEchoMode : Bool
  mStatusResponseRegister : IopInt
  mBufferAB : Fin 512 → IopInt
  image : List (BitVec 8)
  ioMemory : IoMemory

namespace IopDiskDD29

variable (c : Config)

/-! ## 1. Operations -/

def diskSize : Nat := c.mNumHeads * c.mNumSectors * c.mNumTracks * c.mSectorSize

/-- The file the constructor makes where there is none. -/
def createdImage : List (BitVec 8) :=
  (((FileStream.ready [] 0).seekPut ((diskSize c : Int) - 2)).write [0, 0]).content

/-- `ImageOffset`, for reading and writing. -/
def imageOffset (t h s : Nat) : Nat :=
  c.mSectorSize * (t * c.mNumHeads * c.mNumSectors + h * c.mNumSectors + s)

/-- `ImageOffset`, as it is computed again for formatting. -/
def formatOffset (t h s : Nat) : Nat :=
  c.mSectorSize * (t * c.mNumHeads * c.mNumSectors + s * c.mNumHeads + h)

/-- The parcels of `mBufferAB`. -/
def cBufferSize : Nat := 512

/-- The end of an operation. -/
def finish (d : IopDiskDD29) : IopDiskDD29 := { d with mDone := true, mOperation := .idle }

/-- `ExecOperation` in the buffer echo mode. -/
def echo (d : IopDiskDD29) : Except Exn IopDiskDD29 :=
  -- `memcpy` does not wrap at the end of the memory
  if d.mOperation = .idle then .ok d
  else if 65536 < d.mIoMemoryAddr.toNat + cBufferSize then .error .undefinedBehaviour
  else match d.mOperation with
    | .read =>
      .ok (finish { d with
        ioMemory := d.ioMemory.store d.mIoMemoryAddr (List.ofFn d.mBufferAB)
        mIoMemoryAddr := d.mIoMemoryAddr + BitVec.ofNat 16 cBufferSize })
    | _ =>
      .ok (finish { d with
        mBufferAB := fun k => d.ioMemory (d.mIoMemoryAddr + BitVec.ofNat 16 k)
        mIoMemoryAddr := d.mIoMemoryAddr + BitVec.ofNat 16 cBufferSize })

def execOperation (d : IopDiskDD29) : Except Exn IopDiskDD29 :=
  if d.mBufferEchoMode then echo d
  else match d.mOperation with
    | .idle => .ok d
    | .read =>
      if !d.mMounted || d.mDone then .error .assertion
      else do
        let file := (FileStream.ready d.image 0).seekTo
          (imageOffset c d.mCurrentTrack d.mCurrentHead d.mCurrentSector)
        let r ← readParcels 4 (c.mSectorSize / 8) file d.mIoMemoryAddr d.ioMemory
        return finish { d with mIoMemoryAddr := r.1, ioMemory := r.2 }
    | .write =>
      if !d.mMounted || d.mDone || c.mReadOnly then .error .assertion
      else do
        let file := (FileStream.ready d.image 0).seekPut
          (imageOffset c d.mCurrentTrack d.mCurrentHead d.mCurrentSector)
        let r ← writeParcels 4 d.ioMemory (c.mSectorSize / 8) file d.mIoMemoryAddr
        return finish { d with mIoMemoryAddr := r.1, image := r.2.content }
    | .format =>
      if !d.mMounted || d.mDone || c.mReadOnly then .error .assertion
      else do
        let file := (FileStream.ready d.image 0).seekPut
          (formatOffset c d.mCurrentTrack d.mCurrentHead d.mCurrentSector)
        let r ← formatParcels (c.mSectorSize / 2) file d.mIoMemoryAddr
        return finish { d with mIoMemoryAddr := r.1, image := r.2.content }

/-! ## 2. Channel functions -/

/-- The sub-functions of 001. -/
def selectMode (aData : IopInt) (d : IopDiskDD29) : Except Exn IopDiskDD29 :=
  let status := fun (v : IopInt) => Except.ok (finish { d with mStatusResponseRegister := v })
  match (aData >>> 9).toNat with
  | 0 => .ok (finish { d with mMounted := false })
  | 1 => .ok (finish { d with mMounted := true, mCurrentHead := 0 })
  | 2 => .ok (finish d)
  | 3 => .ok (finish { d with mCurrentTrack := 0 })
  | 4 => .error .assertion
  | 5 => status (BitVec.ofNat 16 d.mCurrentSector)
  | 6 => status 0
  | 7 => match (aData &&& 0o777).toNat with
    | 0 => status (BitVec.ofNat 16 d.mCurrentTrack)
    | 1 =>
      if d.mMounted then
        status (BitVec.ofNat 16 d.mCurrentHead &&& 0xf ||| 0x20 |||
          if 600000000 < diskSize c then 0x40 else 0)
      else status 0
    | 2 => status 0
    | 3 => status 0
    | _ => .ok d
  | _ => .ok d

/-- The data of a read or a write asks for a special mode. -/
def special (aData : IopInt) : Bool := aData &&& 0xe0 ≠ 0

/-- The sector in the data of a read or a write. -/
def sectorOf (aData : IopInt) : Nat := (aData &&& 0o37).toNat

def doIo (aFunction : Nat) (aData : IopInt) (d : IopDiskDD29) : Except Exn (IopInt × IopDiskDD29) :=
  match aFunction with
  | 0o00 => .ok (0, { d with mOperation := .idle, mDone := false })
  | 0o01 => do
    let d ← selectMode c aData { d with mBufferEchoMode := false }
    return (0, { d with mIoMemoryAddr := aData >>> 2 })
  | 0o02 =>
    if !(d.mMounted || d.mBufferEchoMode) || special aData then .error .assertion
    else do
      let d ← execOperation c
        { d with mCurrentSector := sectorOf aData, mOperation := .read, mDone := false }
      return (0, d)
  | 0o03 =>
    if !(d.mMounted || d.mBufferEchoMode) then .error .assertion
    else do
      let operation := if special aData then .format else .write
      let d ← execOperation c
        { d with mCurrentSector := sectorOf aData, mOperation := operation, mDone := false }
      return (0, d)
  | 0o04 => .ok (0, { d with mMounted := true, mCurrentHead := aData.toNat })
  | 0o05 =>
    .ok (0, { d with
      mCurrentTrack := aData.toNat, mOperation := .idle, mStatusResponseRegister := aData <<< 5
      mDone := true })
  | 0o06 => .ok (0, { d with mInterruptEnabled := false })
  | 0o07 => .ok (0, { d with mInterruptEnabled := true })
  | 0o10 => .ok (d.mIoMemoryAddr, d)
  | 0o11 => .ok (d.mStatusResponseRegister, d)
  | 0o14 => .ok (0, { d with mIoMemoryAddr := aData })
  | 0o15 => .ok (0, { d with mStatusResponseRegister := aData })
  | _ => .ok (0, d)

def masterClear (d : IopDiskDD29) : IopDiskDD29 :=
  { d with
    mDone := false, mOperation := .idle, mInterruptEnabled := true, mIoMemoryAddr := 0
    mCurrentHead := 0, mCurrentSector := 0, mCurrentTrack := 0, mMounted := false
    mStatusResponseRegister := 0, mBufferEchoMode := true }

/-! ## 3. One operation -/

/-- A sector of the disk. -/
structure Sector where
  track : Nat
  head : Nat
  sector : Nat
  deriving DecidableEq, Repr

/-- The sector is in the geometry. -/
def OnDisk (k : Sector) : Prop :=
  k.track < c.mNumTracks ∧ k.head < c.mNumHeads ∧ k.sector < c.mNumSectors

/-- Its number. -/
def sectorIdx (k : Sector) : Nat :=
  k.track * c.mNumHeads * c.mNumSectors + k.head * c.mNumSectors + k.sector

/-- The parcels that a read or a write moves. -/
def sectorParcels : Nat := 4 * (c.mSectorSize / 8)

/-- What the image has of a sector. -/
def sectorAt (image : List (BitVec 8)) (k : Sector) : List IopInt :=
  parcelsOf (SectorArray.block image (c.mSectorSize * sectorIdx c k) (2 * sectorParcels c))

/-- The sector that is selected, for a read or a write with this data. -/
def target (aData : IopInt) (d : IopDiskDD29) : Sector :=
  { track := d.mCurrentTrack, head := d.mCurrentHead, sector := sectorOf aData }

/-- The state after an operation that moved parcels. -/
def moved (aData : IopInt) (n : Nat) (d : IopDiskDD29) : IopDiskDD29 :=
  finish { d with
    mCurrentSector := sectorOf aData, mIoMemoryAddr := d.mIoMemoryAddr + BitVec.ofNat 16 n }

variable {c} {d : IopDiskDD29} {aData : IopInt}

theorem twice_sectorParcels_le (c : Config) : 2 * sectorParcels c ≤ c.mSectorSize := by
  rw [sectorParcels]
  omega

theorem execOperation_read (hmode : d.mBufferEchoMode = false) (hop : d.mOperation = .read)
    (hmounted : d.mMounted = true) (hdone : d.mDone = false) {pos : Nat}
    (hpos : imageOffset c d.mCurrentTrack d.mCurrentHead d.mCurrentSector = pos)
    (hfile : pos + 2 * sectorParcels c ≤ d.image.length) :
    execOperation c d = .ok (finish { d with
      mIoMemoryAddr := d.mIoMemoryAddr + BitVec.ofNat 16 (sectorParcels c)
      ioMemory := d.ioMemory.store d.mIoMemoryAddr
        (parcelsOf (SectorArray.block d.image pos (2 * sectorParcels c))) }) := by
  have hrun := readParcels_ok (k := 4) (n := c.mSectorSize / 8) hfile d.mIoMemoryAddr d.ioMemory
  rw [execOperation, if_neg (by simp [hmode])]
  simp only [hop]
  rw [if_neg (by simp [hmounted, hdone]), hpos, FileStream.seekTo_ready, hrun]
  rfl

theorem execOperation_write (hmode : d.mBufferEchoMode = false) (hop : d.mOperation = .write)
    (hmounted : d.mMounted = true) (hdone : d.mDone = false) (hwritable : c.mReadOnly = false)
    {pos : Nat} (hpos : imageOffset c d.mCurrentTrack d.mCurrentHead d.mCurrentSector = pos) :
    execOperation c d = .ok (finish { d with
      mIoMemoryAddr := d.mIoMemoryAddr + BitVec.ofNat 16 (sectorParcels c)
      image := FileStream.putBytes d.image pos
        (bytesOf (d.ioMemory.load d.mIoMemoryAddr (sectorParcels c))) }) := by
  have hrun := writeParcels_ok 4 d.ioMemory d.image pos (c.mSectorSize / 8) d.mIoMemoryAddr
  rw [execOperation, if_neg (by simp [hmode])]
  simp only [hop]
  rw [if_neg (by simp [hmounted, hdone, hwritable]), hpos, FileStream.seekPut_ready, hrun]
  rfl

theorem execOperation_format (hmode : d.mBufferEchoMode = false) (hop : d.mOperation = .format)
    (hmounted : d.mMounted = true) (hdone : d.mDone = false) (hwritable : c.mReadOnly = false)
    {pos : Nat} (hpos : formatOffset c d.mCurrentTrack d.mCurrentHead d.mCurrentSector = pos) :
    execOperation c d = .ok (finish { d with
      mIoMemoryAddr := d.mIoMemoryAddr + BitVec.ofNat 16 (c.mSectorSize / 2)
      image := FileStream.putBytes d.image pos (List.replicate (2 * (c.mSectorSize / 2)) 0) }) := by
  have hrun := formatParcels_ok d.image pos (c.mSectorSize / 2) d.mIoMemoryAddr
  rw [execOperation, if_neg (by simp [hmode])]
  simp only [hop]
  rw [if_neg (by simp [hmounted, hdone, hwritable]), hpos, FileStream.seekPut_ready, hrun]
  rfl

theorem doIo_read : doIo c 0o02 aData d =
    if !(d.mMounted || d.mBufferEchoMode) || special aData then .error .assertion
    else do
      let d ← execOperation c
        { d with mCurrentSector := sectorOf aData, mOperation := .read, mDone := false }
      return (0, d) := rfl

theorem doIo_write : doIo c 0o03 aData d =
    if !(d.mMounted || d.mBufferEchoMode) then .error .assertion
    else do
      let operation := if special aData then .format else .write
      let d ← execOperation c
        { d with mCurrentSector := sectorOf aData, mOperation := operation, mDone := false }
      return (0, d) := rfl

/-- **A read** brings the sector. -/
theorem read_ok (hmode : d.mBufferEchoMode = false) (hmounted : d.mMounted = true)
    (hdata : special aData = false)
    (hfile : c.mSectorSize * sectorIdx c (target aData d) + 2 * sectorParcels c ≤ d.image.length) :
    doIo c 0o02 aData d = .ok (0, { moved aData (sectorParcels c) d with
      ioMemory := d.ioMemory.store d.mIoMemoryAddr (sectorAt c d.image (target aData d)) }) := by
  have hexec := execOperation_read (c := c)
    (d := { d with mCurrentSector := sectorOf aData, mOperation := .read, mDone := false })
    hmode rfl hmounted rfl rfl hfile
  rw [doIo_read, if_neg (by simp [hmounted, hdata]), hexec]
  rfl

/-- **A write** puts the parcels over the sector. -/
theorem write_ok (hmode : d.mBufferEchoMode = false) (hmounted : d.mMounted = true)
    (hwritable : c.mReadOnly = false) (hdata : special aData = false) :
    doIo c 0o03 aData d = .ok (0, { moved aData (sectorParcels c) d with
      image := FileStream.putBytes d.image (c.mSectorSize * sectorIdx c (target aData d))
        (bytesOf (d.ioMemory.load d.mIoMemoryAddr (sectorParcels c))) }) := by
  have hexec := execOperation_write (c := c)
    (d := { d with mCurrentSector := sectorOf aData, mOperation := .write, mDone := false })
    hmode rfl hmounted rfl hwritable rfl
  rw [doIo_write, if_neg (by simp [hmounted]), hdata]
  simp only [Bool.false_eq_true, if_false]
  rw [hexec]
  rfl

/-- **A format** puts zeros where it computes the sector to be. -/
theorem format_ok (hmode : d.mBufferEchoMode = false) (hmounted : d.mMounted = true)
    (hwritable : c.mReadOnly = false) (hdata : special aData = true) :
    doIo c 0o03 aData d = .ok (0, { moved aData (c.mSectorSize / 2) d with
      image := FileStream.putBytes d.image
        (formatOffset c d.mCurrentTrack d.mCurrentHead (sectorOf aData))
        (List.replicate (2 * (c.mSectorSize / 2)) 0) }) := by
  have hexec := execOperation_format (c := c)
    (d := { d with mCurrentSector := sectorOf aData, mOperation := .format, mDone := false })
    hmode rfl hmounted rfl hwritable rfl
  rw [doIo_write, if_neg (by simp [hmounted]), hdata]
  simp only [if_true]
  rw [hexec]
  rfl

/-- In the buffer echo mode nothing reaches the image. -/
theorem echo_ok (h : d.mIoMemoryAddr.toNat + cBufferSize ≤ 65536) :
    ∃ d', echo d = .ok d' ∧ d'.image = d.image := by
  rw [echo]
  by_cases hidle : d.mOperation = .idle
  · exact ⟨d, if_pos hidle, rfl⟩
  · have hroom : ¬ 65536 < d.mIoMemoryAddr.toNat + cBufferSize := by omega
    rw [if_neg hidle, if_neg hroom]
    split <;> (refine ⟨_, rfl, ?_⟩; simp only [finish])

theorem selectMode_ok (c : Config) (d : IopDiskDD29) (h : (aData >>> 9).toNat ≠ 4) :
    ∃ d', selectMode c aData d = .ok d' ∧ d'.image = d.image := by
  rw [selectMode]
  split
  case h_5 heq => exact absurd heq h
  case h_8 =>
    split
    case h_2 => split <;> exact ⟨_, rfl, rfl⟩
    all_goals exact ⟨_, rfl, rfl⟩
  all_goals exact ⟨_, rfl, rfl⟩

/-- A function that is neither a read nor a write does nothing to the image. -/
theorem doIo_image (c : Config) (d : IopDiskDD29) {f : Nat} (hread : f ≠ 0o02) (hwrite : f ≠ 0o03)
    (hmargin : f = 0o01 → (aData >>> 9).toNat ≠ 4) :
    ∃ r d', doIo c f aData d = .ok (r, d') ∧ d'.image = d.image := by
  rw [doIo.eq_def]
  split
  case h_2 =>
    obtain ⟨d', hmode, himage⟩ := selectMode_ok c { d with mBufferEchoMode := false } (hmargin rfl)
    exact ⟨0, { d' with mIoMemoryAddr := aData >>> 2 }, by rw [hmode]; rfl, himage⟩
  case h_3 => exact absurd rfl hread
  case h_4 => exact absurd rfl hwrite
  all_goals exact ⟨_, _, rfl, rfl⟩

/-- Nor does a read or a write in the buffer echo mode. -/
theorem doIo_echo (c : Config) (d : IopDiskDD29) {f : Nat} (hf : f = 0o02 ∨ f = 0o03)
    (hmode : d.mBufferEchoMode = true) (hread : f = 0o02 → special aData = false)
    (haddr : d.mIoMemoryAddr.toNat + cBufferSize ≤ 65536) :
    ∃ r d', doIo c f aData d = .ok (r, d') ∧ d'.image = d.image := by
  have hexec : ∀ op, ∃ d', execOperation c
      { d with mCurrentSector := sectorOf aData, mOperation := op, mDone := false } = .ok d' ∧
        d'.image = d.image := by
    intro op
    rw [execOperation, if_pos hmode]
    exact echo_ok haddr
  rcases hf with rfl | rfl
  · obtain ⟨d', hrun, himage⟩ := hexec .read
    exact ⟨0, d', by rw [doIo_read, if_neg (by simp [hmode, hread rfl]), hrun]; rfl, himage⟩
  · obtain ⟨d', hrun, himage⟩ := hexec (if special aData then .format else .write)
    refine ⟨0, d', ?_, himage⟩
    rw [doIo_write, if_neg (by simp [hmode])]
    simp only [hrun]
    rfl

end IopDiskDD29

end CraySim
