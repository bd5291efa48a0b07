/-
  Subject:   An empty file system, as `CreateSuperBlock` makes it.

  The super block says where the parts of the image are, the dynamic block counts what is free.
  Both count from a disk that is all free; the parts in front of the data are then allocated, a
  block at a time, and two inodes that are never given out.

  * `SuperField`, `DynamicField` -- the fields that are assigned, in their order,
  * `assignAll` -- fields assigned one after the other,
  * `createSuperBlock` -- the function.
-/
import CraySim.MkfsCalls

namespace CraySim

namespace Mkfs

open FirstFit ExtentFile DiskImage

/-! ## 1. Fields -/

/-- The fields of an `nc1filsys` that are assigned, in the order they are. -/
inductive SuperField where
  | s_magic | s_fname | s_fpack | s_dev | s_fsize | s_isize | s_bigfile | s_bigunit | s_secure
  | s_time | s_dboff | s_root | s_error | s_mapoff | s_mapblks | s_nscpys | s_npart | s_ifract
  | s_sfs (part : ExtentField) | s_flag | fd_name | fd_sblk | fd_nblk
  | fd_ireg (part : ExtentField) | s_iounit | s_numiresblks | s_priparts | s_priblock | s_prinblks
  | s_secparts | s_secblock | s_secnblks | s_sbdbparts | s_rootdparts | s_nudparts | s_nsema
  | s_priactive | s_sfs_arbiterid
  deriving DecidableEq, Repr

/-- `NC1MAXPART`, and where the descriptors of the partitions end. -/
def NC1MAXPART : Nat := 64

def s_part_end : Nat := 23 + 6 * NC1MAXPART

theorem IntField.fits_first_half : 0 < 32 ∧ 0 + 32 ≤ 64 ∧ 32 ≤ 64 := by decide

theorem IntField.fits_narrow : 0 < 64 ∧ 0 + 64 ≤ 64 ∧ 32 ≤ 64 := by decide

/-- A field that is a word. -/
def wordField (tOfs : Nat) : IntField := ⟨tOfs, 64, 0, 64, IntField.fits_word⟩

/-- Where a field is. -/
def SuperField.field : SuperField → IntField
  | .s_magic => wordField 0
  | .s_fname => wordField 1
  | .s_fpack => wordField 2
  | .s_dev => wordField 3
  | .s_fsize => wordField 4
  | .s_isize => wordField 5
  | .s_bigfile => wordField 6
  | .s_bigunit => wordField 7
  | .s_secure => wordField 8
  | .s_time => wordField 12
  | .s_dboff => DiskImage.s_dboff
  | .s_root => DiskImage.s_root
  | .s_error => wordField 15
  | .s_mapoff => DiskImage.s_mapoff
  | .s_mapblks => DiskImage.s_mapblks
  | .s_nscpys => DiskImage.s_nscpys
  | .s_npart => wordField 19
  | .s_ifract => wordField 20
  | .s_sfs part => part.field 21
  | .s_flag => wordField 22
  | .fd_name => wordField 23
  | .fd_sblk => ⟨23 + 1, 32, 0, 32, IntField.fits_first_half⟩
  | .fd_nblk => ⟨23 + 1, 32, 32, 32, IntField.fits_half⟩
  | .fd_ireg part => part.field (23 + 2)
  | .s_iounit => wordField s_part_end
  | .s_numiresblks => wordField (s_part_end + 1)
  | .s_priparts => wordField (s_part_end + 2)
  | .s_priblock => wordField (s_part_end + 3)
  | .s_prinblks => wordField (s_part_end + 4)
  | .s_secparts => wordField (s_part_end + 5)
  | .s_secblock => wordField (s_part_end + 6)
  | .s_secnblks => wordField (s_part_end + 7)
  | .s_sbdbparts => wordField (s_part_end + 8)
  | .s_rootdparts => wordField (s_part_end + 9)
  | .s_nudparts => wordField (s_part_end + 10)
  | .s_nsema => wordField (s_part_end + 11)
  | .s_priactive => wordField (s_part_end + 12)
  | .s_sfs_arbiterid => wordField (s_part_end + 13)

/-- The fields in front of the file system name, the name, the pack name with what follows, and the
    partition name with the rest. -/
def superFields : List (List SuperField) :=
  [[.s_magic], [.s_fname],
    [.s_fpack, .s_dev, .s_fsize, .s_isize, .s_bigfile, .s_bigunit, .s_secure, .s_time, .s_dboff,
      .s_root, .s_error, .s_mapoff, .s_mapblks, .s_nscpys, .s_npart, .s_ifract, .s_sfs .nblks,
      .s_sfs .blk, .s_flag],
    [.fd_name, .fd_sblk, .fd_nblk, .fd_ireg .nblks, .fd_ireg .blk, .s_iounit, .s_numiresblks,
      .s_priparts, .s_priblock, .s_prinblks, .s_secparts, .s_secblock, .s_secnblks, .s_sbdbparts,
      .s_rootdparts, .s_nudparts, .s_nsema, .s_priactive, .s_sfs_arbiterid]]

/-- The fields of an `nc1dblock` that are assigned, in the order they are. -/
inductive DynamicField where
  | db_magic | db_tfree | db_ifree | db_ninode | db_state | db_time | db_type | db_spart | db_ifptr
  | db_actype | db_flag | fd_flag | fd_ireg | bmp_name | bmp_id | bmp_base | bmp_next | bmp_total
  | bmp_avail | bmp_want | bmp_first | bmp_last | bmp_units | bmp_tnobim
  deriving DecidableEq, Repr

/-- Where `db_fpm` is. -/
def db_fpm : Nat := db_part_end + 6

/-- Where a field is. -/
def DynamicField.field : DynamicField → IntField
  | .db_magic => wordField 0
  | .db_tfree => DiskImage.db_tfree
  | .db_ifree => DiskImage.db_ifree
  | .db_ninode => DiskImage.db_ninode
  | .db_state => wordField 4
  | .db_time => wordField 5
  | .db_type => wordField 6
  | .db_spart => wordField 7
  | .db_ifptr => wordField 8
  | .db_actype => wordField 9
  | .db_flag => ⟨10, 32, 0, 64, IntField.fits_narrow⟩
  | .fd_flag => ⟨21, 32, 0, 64, IntField.fits_narrow⟩
  | .fd_ireg => db_part_fd_ireg
  | .bmp_name => wordField db_fpm
  | .bmp_id => wordField (db_fpm + 1)
  | .bmp_base => wordField (db_fpm + 2)
  | .bmp_next => wordField (db_fpm + 4)
  | .bmp_total => wordField (db_fpm + 5)
  | .bmp_avail => db_fpm_bmp_avail
  | .bmp_want => wordField (db_fpm + 7)
  | .bmp_first => wordField (db_fpm + 8)
  | .bmp_last => wordField (db_fpm + 9)
  | .bmp_units => wordField (db_fpm + 10)
  | .bmp_tnobim => wordField (db_fpm + 11)

/-- The fields in front of `bmp_begin`, and those behind it. -/
def dynamicFields : List DynamicField :=
  [.db_magic, .db_tfree, .db_ifree, .db_ninode, .db_state, .db_time, .db_type, .db_spart, .db_ifptr,
    .db_actype, .db_flag, .fd_flag, .fd_ireg, .bmp_name, .bmp_id, .bmp_base]

def dynamicFields' : List DynamicField :=
  [.bmp_next, .bmp_total, .bmp_avail, .bmp_want, .bmp_first, .bmp_last, .bmp_units, .bmp_tnobim]

/-- Fields, assigned one after the other. -/
def assignAll {F : Type} (place : F → IntField) (value : F → Nat) (p : Pointer) (fields : List F)
    (image : DiskImage) : DiskImage :=
  fields.foldl (fun image f => image.write p (place f) (BitVec.ofNat _ (value f))) image

/-! ## 2. Values -/

/-- `NC1NSUPER`: the copies of the super block. -/
def NC1NSUPER : Nat := 10

/-- What the function is called with. -/
structure FsParams where
  mDiskSizeInBlocks : Nat
  aFsName : Chars
  aPackName : Chars
  aPartName : Chars
  aMajorDev : BitVec 8
  aMinorDev : BitVec 8
  aINodeRatio : Nat

namespace FsParams

variable (c : FsParams)

def mapSize : Nat := c.mDiskSizeInBlocks / 64

def mapBlockCnt : Nat := (c.mapSize + cBlockSize - 1) / cBlockSize

def mapStart : Nat := SUPERB + NC1NSUPER

def dynamicBlockStart : Nat := mapStart + c.mapBlockCnt

def iNodeCnt : Nat := min (c.mDiskSizeInBlocks / c.aINodeRatio) (cBlockSize * 64)

def iNodeBlockCnt : Nat := 1 + (c.iNodeCnt * 32 + cBlockSize - 1) / cBlockSize

def iNodeStart : Nat := c.dynamicBlockStart + 1

def sfsStart : Nat := c.iNodeStart + c.iNodeBlockCnt

def sfsBlockCnt : Nat := 1

/-- The word of a `StrField_T`: its bytes are not swapped. -/
def strValue (aValue : Chars) : Nat := (swapBytes (wordOfBytes aValue)).toNat

/-- What is assigned to the super block. -/
def superValue : SuperField → Nat
  | .s_magic => 0x6e6331667331636e
  | .s_fname => strValue c.aFsName
  | .s_fpack => strValue c.aPackName
  | .s_dev => c.aMajorDev.toNat <<< 8 ||| c.aMinorDev.toNat
  | .s_fsize => c.mDiskSizeInBlocks
  | .s_isize => c.iNodeCnt
  | .s_bigfile => 0x8000
  | .s_bigunit => 21
  | .s_secure => 0xcd076d1771d670cd
  | .s_time => 895339878
  | .s_dboff => c.dynamicBlockStart
  | .s_root => 2
  | .s_error => 0
  | .s_mapoff => mapStart
  | .s_mapblks => c.mapBlockCnt
  | .s_nscpys => NC1NSUPER
  | .s_npart => 1
  | .s_ifract => c.aINodeRatio
  | .s_sfs .nblks => sfsBlockCnt
  | .s_sfs .blk => c.sfsStart
  | .s_flag => 0o2 ||| 0o20000
  | .fd_name => strValue c.aPartName
  | .fd_sblk => 0
  | .fd_nblk => c.mDiskSizeInBlocks
  | .fd_ireg .nblks => c.iNodeBlockCnt
  | .fd_ireg .blk => c.iNodeStart
  | .s_iounit => 0
  | .s_numiresblks => 0
  | .s_priparts => 2 ^ 63
  | .s_priblock => 0
  | .s_prinblks => c.mDiskSizeInBlocks
  | .s_secparts => 0
  | .s_secblock => 0
  | .s_secnblks => 0
  | .s_sbdbparts => 2 ^ 63
  | .s_rootdparts => 2 ^ 63
  | .s_nudparts => 0
  | .s_nsema => 0
  | .s_priactive => 2 ^ 63
  | .s_sfs_arbiterid => 0

/-- What is assigned to the dynamic block. The first two inodes are not accounted for. -/
def dynamicValue : DynamicField → Nat
  | .db_magic => 0x6e6331646231636e
  | .db_tfree => c.mDiskSizeInBlocks
  | .db_ifree => c.iNodeCnt
  | .db_ninode => 2 ^ 64 - 2
  | .db_state => 0
  | .db_time => 895339878
  | .db_type => 0
  | .db_spart => 0
  | .db_ifptr => 0
  | .db_actype => 0
  | .db_flag => 0o40
  | .fd_flag => 0o10 ||| 0o20 ||| 0o100
  | .fd_ireg => c.iNodeCnt
  | .bmp_name => 0x00465245454D4150
  | .bmp_id => 0o5252525
  | .bmp_base => 0
  | .bmp_next => 0
  | .bmp_total => c.mDiskSizeInBlocks
  | .bmp_avail => c.mDiskSizeInBlocks
  | .bmp_want => 0
  | .bmp_first => 0
  | .bmp_last => 0
  | .bmp_units => 1
  | .bmp_tnobim => c.mDiskSizeInBlocks

end FsParams

namespace DiskImage

/-! ## 3. `CreateSuperBlock` -/

/-- The fields of the super block; a name of more than eight bytes is rejected. -/
def assignSuper (c : FsParams) : Run MkfsExn DiskImage Unit := do
  let assign (fields : List SuperField) : Run MkfsExn DiskImage Unit :=
    Run.modify (assignAll SuperField.field c.superValue getSuperBlock fields)
  assign (superFields.getD 0 [])
  crayAssert (c.aFsName.length ≤ 8)
  assign (superFields.getD 1 [])
  crayAssert (c.aPackName.length ≤ 8)
  assign (superFields.getD 2 [])
  crayAssert (c.aPartName.length ≤ 8)
  assign (superFields.getD 3 [])

/-- `bmp_begin`, a pointer: such a type has no digits, and the bits that are assigned start at the
    first one and end in front of it. -/
def clearBegin (p : Pointer) (image : DiskImage) : DiskImage :=
  let w := p.ofs + (db_fpm + 3)
  image.setBlock p.block (Function.update (image.mStorage p.block) w
    (swapBytes (setBits (swapBytes (image.mStorage p.block w)) 63 64 0)))

/-- The fields of the dynamic block. -/
def assignDynamic (c : FsParams) : Run MkfsExn DiskImage Unit := do
  let image ← Run.get
  let dynamicBlock := image.getDynamicBlock
  Run.modify (assignAll DynamicField.field c.dynamicValue dynamicBlock dynamicFields)
  Run.modify (clearBegin dynamicBlock)
  Run.modify (assignAll DynamicField.field c.dynamicValue dynamicBlock dynamicFields')

/-- The block that only SFS uses. -/
def fillSfs (c : FsParams) (image : DiskImage) : DiskImage :=
  image.setBlock c.sfsStart (Function.update (Function.update (image.mStorage c.sfsStart) 0
    (swapBytes 0x7366733131736673)) 0xCB (swapBytes 0x7366733131736673))

/-- Blocks, or inodes, allocated one after the other. -/
def allocateEach (allocate : Nat → Run MkfsExn DiskImage Unit) :
    List Nat → Run MkfsExn DiskImage Unit
  | [] => pure ()
  | n :: rest => do
    allocate n
    allocateEach allocate rest

/-- The blocks in front of the data, in the order they are allocated. -/
def systemBlocks (c : FsParams) : List Nat :=
  0 :: (List.range' SUPERB NC1NSUPER ++ List.range' FsParams.mapStart c.mapBlockCnt ++
    [c.dynamicBlockStart] ++ List.range' c.sfsStart FsParams.sfsBlockCnt ++
      List.range' c.iNodeStart c.iNodeBlockCnt)

def createSuperBlock (c : FsParams) : Run MkfsExn DiskImage Unit := do
  assignSuper c
  assignDynamic c
  Run.modify (fillSfs c)
  allocateEach allocateBlock (systemBlocks c)
  let image ← Run.get
  allocateEach allocateINodeIdx (List.range (image.read getSuperBlock s_root).toNat)

/-! ## 4. The program -/

/-- `RT_UID`, `RT_GID` and `RT_MODE`. -/
def RT_UID : Nat := 0

def RT_GID : Nat := 0

def RT_MODE : Nat := 0o755

/-- `lost+found`. -/
def lostFound : Chars := [0x6c, 0x6f, 0x73, 0x74, 0x2b, 0x66, 0x6f, 0x75, 0x6e, 0x64]

def makeFs (c : FsParams) : Run MkfsExn DiskImage Unit := do
  createSuperBlock c
  let rootINodeIdx ← mkDir 0 [] RT_UID RT_GID RT_MODE
  let _ ← mkDir rootINodeIdx lostFound RT_UID RT_GID RT_MODE
  pure ()

/-- The files of the command line, copied into the root directory. -/
def copyFiles : List (Chars × Chars) → Run MkfsExn DiskImage Unit
  | [] => pure ()
  | (aName, localFile) :: rest => do
    copyFile 2 aName localFile RT_UID RT_GID RT_MODE
    copyFiles rest

/-- `Finalize`: the copies of the super block. -/
def finalize (image : DiskImage) : DiskImage :=
  (List.range' 1 ((image.read getSuperBlock s_nscpys).toNat - 1)).foldl
    (fun image i => image.setBlock (SUPERB + i) (image.mStorage SUPERB)) image

/-- What `WriteToDisk` writes. -/
def writeToDisk (mDiskSizeInBlocks : Nat) (image : DiskImage) : List CInt :=
  (List.range mDiskSizeInBlocks).flatMap fun block =>
    (List.range cBlockSize).map (image.mStorage block)

/-- An image no block of which was used. -/
def empty : DiskImage := ⟨fun _ _ => 0⟩

/-- The steps of the program, from the arguments of `MakeFs` to the words it writes. -/
def mkfs (c : FsParams) (files : List (Chars × Chars)) : Run MkfsExn DiskImage (List CInt) := do
  makeFs c
  copyFiles files
  Run.modify finalize
  let image ← Run.get
  pure (writeToDisk c.mDiskSizeInBlocks image)

/-- What `main` finds on the command line: a size in bytes, and names, empty where they are not given. -/
structure Options where
  ImgFileName : Chars
  FsName : Chars
  PartitionName : Chars
  ImageSize : BitVec 64
  FileCopyList : List (Chars × Chars)
  MajorDev : BitVec 8
  MinorDev : BitVec 8

namespace Options

variable (o : Options)

/-- `rootfs` where no name is given. -/
def fsName : Chars :=
  if o.FsName = [] then [0x72, 0x6f, 0x6f, 0x74, 0x66, 0x73] else o.FsName

/-- `root` where no name is given. -/
def partitionName : Chars :=
  if o.PartitionName = [] then [0x72, 0x6f, 0x6f, 0x74] else o.PartitionName

/-- The call of `MakeFs`, with its default ratio; the size is rounded up to blocks. -/
def params : FsParams where
  mDiskSizeInBlocks := ((o.ImageSize + 4095) / 4096).toNat
  aFsName := o.fsName
  aPackName := o.fsName
  aPartName := o.partitionName
  aMajorDev := o.MajorDev
  aMinorDev := o.MinorDev
  aINodeRatio := 4

end Options

/-- `main`, behind the loop over the command line. -/
def main (o : Options) : Run MkfsExn DiskImage (List CInt) :=
  if o.ImgFileName = [] then Run.throw (.generic "Image file name was not specified")
  else if 7 < o.fsName.length then Run.throw (.generic "File system name is too long")
  else if 7 < o.partitionName.length then Run.throw (.generic "Pack name is too long")
  else if o.ImageSize = 0 then Run.throw (.generic "Image size must be specified")
  else if o.ImageSize.toNat < 1024 * 1024 then
    Run.throw (.generic "Image size must be at least a megabyte")
  else mkfs o.params o.FileCopyList

end DiskImage

end Mkfs

end CraySim
