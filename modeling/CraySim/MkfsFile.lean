/-
  Subject:   Bytes appended to a file of a file system image.

  `AppendToFile` of `mkfs_unicos.cpp`. It walks along the extents to the one the file ends in, fills
  the block the file ends in, and takes a block at a time for the rest; a block that follows the
  last extent makes it longer, any other begins an extent of its own.

  * `copyBytes`, `byteAt_copyBytes` -- bytes copied into a block,
  * `extentField` -- the extents of an inode, by their number,
  * `walkExtents` -- the walk along the extents.
-/
import CraySim.MkfsDirectory
import CraySim.MkfsMap

namespace CraySim

namespace Mkfs

/-! ## 1. Bytes of a block -/

/-- `memcpy` into a block. -/
def copyBytes (block : Words) (aOfs : Nat) (aData : Chars) : Words := fun i =>
  wordOfBytes ((List.range 8).map fun j =>
    if aOfs ≤ 8 * i + j ∧ 8 * i + j < aOfs + aData.length then aData.getD (8 * i + j - aOfs) 0
    else byteAt block (8 * i + j))

theorem byteAt_copyBytes (block : Words) (aOfs : Nat) (aData : Chars) (a : Nat) :
    byteAt (copyBytes block aOfs aData) a =
      if aOfs ≤ a ∧ a < aOfs + aData.length then aData.getD (a - aOfs) 0 else byteAt block a := by
  have hlt : a % 8 < 8 := Nat.mod_lt _ (by decide)
  have hsplit : 8 * (a / 8) + a % 8 = a := Nat.div_add_mod a 8
  have hbyte : byteAt (copyBytes block aOfs aData) a =
      (copyBytes block aOfs aData (a / 8) >>> (8 * (a % 8))).setWidth 8 := rfl
  rw [hbyte]
  unfold copyBytes
  rw [byte_wordOfBytes _ _ hlt, List.getElem?_map, List.getElem?_range hlt, Option.map_some,
    Option.getD_some, hsplit]

/-! ## 2. Extents -/

/-- `cdinode::cdi_addr[aOfs]`: the extents of an inode. -/
def extentField (aOfs : Nat) (part : ExtentField) : IntField := part.field (16 + aOfs)

/-- `cdi_addr.size`. -/
def cdiAddrSize : Nat := 8

def IFREG : Nat := 0o100000

namespace DiskImage

/-- A part of an extent, as a number. -/
def readExtent (image : DiskImage) (iNode : Pointer) (aOfs : Nat) (part : ExtentField) : Nat :=
  (image.read iNode (extentField aOfs part)).toNat

/-- A part of an extent, assigned. -/
def writeExtent (image : DiskImage) (iNode : Pointer) (aOfs : Nat) (part : ExtentField)
    (aValue : Nat) : DiskImage :=
  image.write iNode (extentField aOfs part) (BitVec.ofNat _ aValue)

/-- Where the walk along the extents ends. -/
structure FileEnd where
  bytesInFileLeft : Nat
  blockDescIdx : Nat
  totalBlocks : Nat
  deriving DecidableEq, Repr

/-- The walk along the extents to the one the file ends in. -/
def walkExtents (image : DiskImage) (iNode : Pointer) (e : FileEnd) : Except MkfsExn FileEnd :=
  let currBlockCnt := image.readExtent iNode e.blockDescIdx .nblks
  if currBlockCnt * BSIZE < e.bytesInFileLeft then
    if e.blockDescIdx + 1 < cdiAddrSize then
      image.walkExtents iNode
        ⟨e.bytesInFileLeft - currBlockCnt * BSIZE, e.blockDescIdx + 1, e.totalBlocks + currBlockCnt⟩
    else .error .assertion
  else .ok e
termination_by cdiAddrSize - e.blockDescIdx

/-! ## 3. `AppendToFile` -/

/-- The variables of the function: the bytes that are left, and the place they go to. -/
structure AppendState where
  data : Chars
  blockDescIdx : Nat
  currBlock : Nat
  currBlockCnt : Nat
  currEndBlock : Nat
  totalBlocks : Nat

/-- The number behind a block, in 32 bits. -/
def nextNumber (n : Nat) : Nat := (n + 1) % 2 ^ 32

/-- The block that the file ends in is filled. -/
def fillLast (st : AppendState) (bytesInFileLeft : Nat) : Run MkfsExn DiskImage AppendState :=
  if st.currBlock = st.currEndBlock then pure st
  else do
    let ofs := bytesInFileLeft % BSIZE
    let roomLeft := min (BSIZE - ofs) st.data.length
    Run.modify fun image => image.setBlock st.currBlock
      (copyBytes (image.mStorage st.currBlock) ofs (st.data.take roomLeft))
    pure { st with data := st.data.drop roomLeft, currBlock := nextNumber st.currBlock }

/-- The loop over the blocks that are allocated already; `blocksNeeded` goes down with them. -/
def useAllocated (image : DiskImage) (st : AppendState) (blocksNeeded : Nat) :
    DiskImage × AppendState × Nat :=
  if st.currBlock = st.currEndBlock then (image, st, blocksNeeded)
  else
    let roomLeft := min BSIZE st.data.length
    let image' := image.setBlock st.currBlock
      (copyBytes (image.mStorage st.currBlock) 0 (st.data.take roomLeft))
    let st' : AppendState :=
      { st with data := st.data.drop roomLeft, currBlock := nextNumber st.currBlock }
    let blocksNeeded' := (blocksNeeded + (2 ^ 32 - 1)) % 2 ^ 32
    if st.data.drop roomLeft = [] then (image', st', blocksNeeded')
    else useAllocated image' st' blocksNeeded'
termination_by st.data.length
decreasing_by
  rename_i hmore
  have hpos := List.length_pos_of_ne_nil hmore
  rw [List.length_drop] at hpos ⊢
  have hsize : BSIZE = 4096 := rfl
  omega

/-- A new block goes to the last extent, or to one of its own. -/
def nextBlock (iNode : Pointer) (st : AppendState) (newBlock : Nat) :
    Run MkfsExn DiskImage AppendState := do
  let blockDescIdx ←
    if st.currEndBlock = newBlock then do
      crayAssert (st.blockDescIdx < cdiAddrSize)
      Run.modify fun image => image.writeExtent iNode st.blockDescIdx .nblks
        (image.readExtent iNode st.blockDescIdx .nblks + 1)
      pure st.blockDescIdx
    else do
      let blockDescIdx ←
        if st.currBlock = 0 ∧ st.currBlockCnt = 0 then do
          crayAssert (st.blockDescIdx = 0)
          pure st.blockDescIdx
        else pure (st.blockDescIdx + 1)
      crayAssert (blockDescIdx ≤ cdiAddrSize)
      crayAssert (blockDescIdx < cdiAddrSize)
      Run.modify fun image => image.writeExtent iNode blockDescIdx .blk newBlock
      Run.modify fun image => image.writeExtent iNode blockDescIdx .nblks 1
      pure blockDescIdx
  pure { st with
    blockDescIdx := blockDescIdx
    currBlock := newBlock
    currBlockCnt := 1
    currEndBlock := nextNumber newBlock
    totalBlocks := st.totalBlocks + 1 }

/-- The rounds of the loop; every one uses up bytes or takes a block for them. One that does
    neither goes on for ever, and such a loop is undefined. -/
def appendBlocks (iNode : Pointer) : Nat → AppendState → Run MkfsExn DiskImage AppendState
  | 0, st => if st.data = [] then pure st else Run.throw .undefinedBehaviour
  | rounds + 1, st =>
    if st.data = [] then pure st
    else do
      let image ← Run.get
      let used := image.useAllocated st ((st.data.length + BSIZE - 1) / BSIZE % 2 ^ 32)
      Run.modify fun _ => used.1
      if used.2.2 = 0 then appendBlocks iNode rounds used.2.1
      else do
        let newBlock := (← getFreeBlock) % 2 ^ 32
        let st' ← nextBlock iNode used.2.1 newBlock
        appendBlocks iNode rounds st'

def appendToFile (aINode : BitVec 32) (aData : Chars) : Run MkfsExn DiskImage Unit := do
  let image ← Run.get
  let iNode := image.getINode aINode.toNat
  let size := image.readINode iNode .cdi_size
  let mode := image.readINode iNode .cdi_mode &&& IFMT
  crayAssert (mode = IFDIR ∨ mode = IFREG)
  match image.walkExtents iNode ⟨size, 0, 0⟩ with
  | .error e => Run.throw e
  | .ok e => do
    let blk := image.readExtent iNode e.blockDescIdx .blk
    let currBlockCnt := image.readExtent iNode e.blockDescIdx .nblks
    let st ← fillLast
      { data := aData
        blockDescIdx := e.blockDescIdx
        currBlock := (blk + e.bytesInFileLeft / BSIZE % 2 ^ 32) % 2 ^ 32
        currBlockCnt := currBlockCnt
        currEndBlock := (blk + currBlockCnt) % 2 ^ 32
        totalBlocks := e.totalBlocks + currBlockCnt } e.bytesInFileLeft
    let image' ← Run.get
    crayAssert (st.data = [] ∨ image'.readINode iNode .cdi_blocks = st.totalBlocks)
    let st ← appendBlocks iNode (st.data.length + 1) st
    Run.modify fun image => image.writeINode iNode .cdi_blocks st.totalBlocks
    Run.modify fun image => image.writeINode iNode .cdi_size ((size + aData.length) % 2 ^ 64)

/-! ## 4. New files and directories -/

/-- `C1_EXTENT`: the technique data blocks are allocated with. -/
def C1_EXTENT : Nat := 1

/-- `nc1filsys::s_root`. -/
def s_root : IntField := ⟨14, 64, 0, 64, IntField.fits_word⟩

/-- The fields of an inode, assigned one after the other. -/
def setFields (image : DiskImage) (iNode : Pointer) (fields : List (InodeField × Nat)) :
    DiskImage :=
  fields.foldl (fun image f => image.writeINode iNode f.1 f.2) image

/-- The fields of a new file. -/
def fileFields (aUID aGID aMode : Nat) : List (InodeField × Nat) :=
  [(.cdi_mode, IFREG ||| aMode), (.cdi_nlink, 1), (.cdi_uid, aUID), (.cdi_gid, aGID),
    (.cdi_size, 0), (.cdi_nindir, 0), (.cdi_alloc, C1_EXTENT)]

def mkFile (aParentINodeIdx : BitVec 32) (aName : Chars) (aUID aGID aMode : Nat) :
    Run MkfsExn DiskImage (BitVec 32) := do
  crayAssert (aParentINodeIdx ≠ 0)
  let myINodeIdx ← getFreeINodeIdx
  let image ← Run.get
  let myINode := image.getINode myINodeIdx
  Run.modify fun image => image.setFields myINode (fileFields aUID aGID aMode)
  appendToDir aParentINodeIdx (DirEntry.new aName (BitVec.ofNat 64 myINodeIdx))
  pure (BitVec.ofNat 32 myINodeIdx)

/-- The fields of a new directory. -/
def dirFields (aUID aGID aMode : Nat) : List (InodeField × Nat) :=
  [(.cdi_mode, IFDIR ||| aMode), (.cdi_nlink, 2), (.cdi_uid, aUID), (.cdi_gid, aGID),
    (.cdi_size, 0), (.cdi_blocks, 0), (.cdi_nindir, 0), (.cdi_alloc, C1_EXTENT)]

/-- The names `.` and `..`. -/
def dotName : Chars := [0x2e]

def dotDotName : Chars := [0x2e, 0x2e]

/-- The inode of a new directory: a free one, or that of the root. -/
def dirINodeIdx (aParentINodeIdx : BitVec 32) : Run MkfsExn DiskImage Nat :=
  if aParentINodeIdx ≠ 0 then getFreeINodeIdx
  else do
    let image ← Run.get
    let myINodeIdx := (image.read getSuperBlock s_root).toNat % 2 ^ 32
    allocateINodeIdx myINodeIdx
    pure myINodeIdx

def mkDir (aParentINodeIdx : BitVec 32) (aName : Chars) (aUID aGID aMode : Nat) :
    Run MkfsExn DiskImage (BitVec 32) := do
  let myINodeIdx ← dirINodeIdx aParentINodeIdx
  let image ← Run.get
  let myINode := image.getINode myINodeIdx
  Run.modify fun image => image.setFields myINode (dirFields aUID aGID aMode)
  let my := BitVec.ofNat 32 myINodeIdx
  appendToDir my (DirEntry.new dotName (BitVec.ofNat 64 myINodeIdx))
  appendToDir my (DirEntry.new dotDotName
    (if aParentINodeIdx ≠ 0 then aParentINodeIdx.setWidth 64 else BitVec.ofNat 64 myINodeIdx))
  if aParentINodeIdx ≠ 0 then do
    appendToDir aParentINodeIdx (DirEntry.new aName (BitVec.ofNat 64 myINodeIdx))
    let image ← Run.get
    let parent := image.getINode aParentINodeIdx.toNat
    Run.modify fun image =>
      image.writeINode parent .cdi_nlink (image.readINode parent .cdi_nlink + 1)
    pure my
  else pure my

end DiskImage

end Mkfs

end CraySim
