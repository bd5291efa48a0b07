/-
  Subject:   The blocks of a file system image, and how one is allocated.

  `DiskImage_c` of `mkfs_unicos.cpp`: blocks of 512 words. Where the maps, the dynamic block and the
  inodes are is said in the super block; what is in use is said in the maps.

  * `DiskImage`, `Pointer` -- the blocks, and the places in them,
  * `getFreeEntry`, `allocateInMap` -- the maps,
  * `allocateBlock`, `getFreeBlock` -- the blocks,
  * `getFreeEntry_free` -- what is found free is,
  * `getFreeBlock_some` -- what an allocation changes.
-/
import CraySim.Lib.Program
import CraySim.MkfsInode

namespace CraySim

namespace Mkfs

/-! ## 1. Blocks -/

/-- `cBlockSize`, in words. -/
def cBlockSize : Nat := 512

def BSIZE : Nat := cBlockSize * 8

/-- `SUPERB`: the number of the super block. -/
def SUPERB : Nat := 1

/-- `DiskImage_c::mStorage`. A block that was not used yet is created as zeros. -/
structure DiskImage where
  mStorage : Nat → Words

/-- A word in a block. -/
structure Pointer where
  block : Nat
  ofs : Nat
  deriving DecidableEq, Repr

/-- What may go wrong. -/
inductive MkfsExn where
  /-- `CRAY_ASSERT` failed. -/
  | assertion
  /-- `Generic_x(aText)`. -/
  | generic (aText : String)
  /-- Something outside a block was read or written. -/
  | undefinedBehaviour
  deriving DecidableEq, Repr

def crayAssert {S : Type} (aCond : Prop) [Decidable aCond] : Run MkfsExn S Unit :=
  if aCond then pure () else Run.throw .assertion

theorem crayAssert_true {S : Type} {aCond : Prop} [Decidable aCond] (h : aCond) (s : S) :
    crayAssert aCond s = (.ok (), s) := by
  rw [crayAssert, if_pos h, Run.pure_apply]

theorem crayAssert_false {S : Type} {aCond : Prop} [Decidable aCond] (h : ¬ aCond) (s : S) :
    crayAssert aCond s = (.error .assertion, s) := by
  rw [crayAssert, if_neg h, Run.throw_apply]

namespace DiskImage

/-- A field of the record at a place. -/
def read (image : DiskImage) (p : Pointer) (f : IntField) : BitVec f.digits :=
  f.get (image.mStorage p.block) p.ofs

/-- A block with other contents. -/
def setBlock (image : DiskImage) (block : Nat) (words : Words) : DiskImage :=
  ⟨Function.update image.mStorage block words⟩

/-- A field of the record at a place, assigned. -/
def write (image : DiskImage) (p : Pointer) (f : IntField) (aValue : BitVec f.digits) : DiskImage :=
  image.setBlock p.block (f.assign (image.mStorage p.block) p.ofs aValue)

theorem setBlock_self (image : DiskImage) (block : Nat) (words : Words) :
    (image.setBlock block words).mStorage block = words := by
  simp only [setBlock, Function.update_self]

theorem setBlock_of_ne (image : DiskImage) {block block' : Nat} (words : Words)
    (h : block' ≠ block) : (image.setBlock block words).mStorage block' = image.mStorage block' :=
  Function.update_of_ne h _ _

theorem write_of_ne (image : DiskImage) (p : Pointer) (f : IntField) (aValue : BitVec f.digits)
    {block : Nat} (h : block ≠ p.block) :
    (image.write p f aValue).mStorage block = image.mStorage block :=
  image.setBlock_of_ne _ h

theorem toNat_read_write (image : DiskImage) (p : Pointer) (f : IntField)
    (aValue : BitVec f.digits) :
    ((image.write p f aValue).read p f).toNat = aValue.toNat % 2 ^ f.tSize := by
  rw [read, write, setBlock_self, IntField.toNat_get_assign]

theorem read_write_of_apart (image : DiskImage) (p : Pointer) (f g : IntField)
    (aValue : BitVec f.digits) (h : f.Apart g) :
    (image.write p f aValue).read p g = image.read p g := by
  rw [read, write, setBlock_self, IntField.get_assign_of_apart _ _ _ _ _ h, read]

/-! ## 2. The super block and the dynamic block -/

/-- `nc1filsys::s_dboff`. -/
def s_dboff : IntField := ⟨13, 64, 0, 64, IntField.fits_word⟩

/-- `nc1filsys::s_mapoff`. -/
def s_mapoff : IntField := ⟨16, 64, 0, 64, IntField.fits_word⟩

/-- `nc1filsys::s_mapblks`. -/
def s_mapblks : IntField := ⟨17, 64, 0, 64, IntField.fits_word⟩

/-- `nc1filsys::s_part[0].fd_ireg[0].blk`. -/
def s_part_fd_ireg_blk : IntField := ⟨23 + 2, 32, 32, 32, IntField.fits_half⟩

/-- `nc1dblock::db_tfree`. -/
def db_tfree : IntField := ⟨1, 64, 0, 64, IntField.fits_word⟩

/-- `nc1dblock::db_part_end`. -/
def db_part_end : Nat := 21 + 5 * 64

/-- `nc1dblock::db_fpm.bmp_avail`. -/
def db_fpm_bmp_avail : IntField := ⟨db_part_end + 6 + 6, 64, 0, 64, IntField.fits_word⟩

def getSuperBlock : Pointer := ⟨SUPERB, 0⟩

def getDynamicBlock (image : DiskImage) : Pointer := ⟨(image.read getSuperBlock s_dboff).toNat, 0⟩

/-- Where the map of the blocks starts, and its size in blocks. -/
def mapStart (image : DiskImage) : Nat := (image.read getSuperBlock s_mapoff).toNat

def mapBlockCnt (image : DiskImage) : Nat := (image.read getSuperBlock s_mapblks).toNat

/-! ## 3. Maps -/

def getMapBit (aBitIdx : Nat) : CInt := (1 : CInt) <<< ((7 - aBitIdx % 8) + (aBitIdx / 8) * 8)

/-- `GetFreeEntry`, where there is one. -/
def getFreeEntry (image : DiskImage) (aMapStart aMapBlockCnt : Nat) : Option Nat :=
  (List.range aMapBlockCnt).findSome? fun page =>
    (List.range cBlockSize).findSome? fun idx =>
      if image.mStorage (aMapStart + page) idx ≠ BitVec.allOnes 64 then
        (List.range 64).findSome? fun bit =>
          if image.mStorage (aMapStart + page) idx &&& getMapBit bit = 0 then
            some ((page * cBlockSize + idx) * 64 + bit)
          else none
      else none

def allocateInMap (aIdx aMapStart : Nat) : Run MkfsExn DiskImage Unit := do
  let image ← Run.get
  let mapPage := aIdx / 64 / cBlockSize
  let mapOfs := aIdx / 64 % cBlockSize
  let allocationMap := image.mStorage (aMapStart + mapPage)
  crayAssert (allocationMap mapOfs &&& getMapBit (aIdx % 64) = 0)
  Run.modify fun image => image.setBlock (aMapStart + mapPage)
    (Function.update allocationMap mapOfs (allocationMap mapOfs ||| getMapBit (aIdx % 64)))

def allocateBlock (aBlock : Nat) : Run MkfsExn DiskImage Unit := do
  let image ← Run.get
  let dynamicBlock := image.getDynamicBlock
  allocateInMap aBlock image.mapStart
  Run.modify fun image => image.write dynamicBlock db_fpm_bmp_avail
    (image.read dynamicBlock db_fpm_bmp_avail - 1)
  Run.modify fun image => image.write dynamicBlock db_tfree (image.read dynamicBlock db_tfree - 1)

def getFreeBlock : Run MkfsExn DiskImage Nat := do
  let image ← Run.get
  match image.getFreeEntry image.mapStart image.mapBlockCnt with
  | none => Run.throw (.generic "Disk is full")
  | some retVal => do
    allocateBlock retVal
    pure retVal

def getINode (image : DiskImage) (aINodeIdx : Nat) : Pointer :=
  let iNodeStartBlock := (image.read getSuperBlock s_part_fd_ireg_blk).toNat + 1
  ⟨iNodeStartBlock + aINodeIdx / (cBlockSize / 32), aINodeIdx % (cBlockSize / 32) * 32⟩

/-! ## 4. What an allocation does -/

/-- A block is free by the map. -/
def IsFree (image : DiskImage) (aBlock : Nat) : Prop :=
  aBlock / 64 / cBlockSize < image.mapBlockCnt ∧
    image.mStorage (image.mapStart + aBlock / 64 / cBlockSize) (aBlock / 64 % cBlockSize) &&&
      getMapBit (aBlock % 64) = 0

instance (image : DiskImage) (aBlock : Nat) : Decidable (image.IsFree aBlock) :=
  inferInstanceAs (Decidable (_ ∧ _))

/-- **What is found free is.** -/
theorem getFreeEntry_free {image : DiskImage} {n : Nat}
    (h : image.getFreeEntry image.mapStart image.mapBlockCnt = some n) : image.IsFree n := by
  obtain ⟨page, hpage, h⟩ := List.exists_of_findSome?_eq_some h
  obtain ⟨idx, hidx, h⟩ := List.exists_of_findSome?_eq_some h
  split at h
  · obtain ⟨bit, hbit, h⟩ := List.exists_of_findSome?_eq_some h
    rw [List.mem_range] at hpage hidx hbit
    split at h
    · rename_i hfree
      have hn := Option.some.inj h
      have hword : n / 64 = page * cBlockSize + idx := by omega
      have hbit' : n % 64 = bit := by omega
      have hpage' : (page * cBlockSize + idx) / cBlockSize = page := by
        rw [Nat.mul_comm, Nat.mul_add_div (by decide), Nat.div_eq_of_lt hidx, Nat.add_zero]
      have hidx' : (page * cBlockSize + idx) % cBlockSize = idx := by
        rw [Nat.mul_comm, Nat.mul_add_mod, Nat.mod_eq_of_lt hidx]
      rw [IsFree, hword, hbit', hpage', hidx']
      exact ⟨hpage, hfree⟩
    · exact nomatch h
  · exact nomatch h

theorem allocateInMap_free (image : DiskImage) {aIdx aMapStart : Nat}
    (h : image.mStorage (aMapStart + aIdx / 64 / cBlockSize) (aIdx / 64 % cBlockSize) &&&
      getMapBit (aIdx % 64) = 0) :
    ∃ words, allocateInMap aIdx aMapStart image =
      (.ok (), image.setBlock (aMapStart + aIdx / 64 / cBlockSize) words) := by
  rw [allocateInMap, Run.bind_apply_ok (Run.get_apply image),
    Run.bind_apply_ok (crayAssert_true h image)]
  exact ⟨_, rfl⟩

/-- Two images have the same blocks, except for the maps and the dynamic block. -/
def SameBeside (image image' : DiskImage) : Prop :=
  ∀ block, (∀ page < image.mapBlockCnt, block ≠ image.mapStart + page) →
    block ≠ image.getDynamicBlock.block → image'.mStorage block = image.mStorage block

/-- **`GetFreeBlock` changes the map and the dynamic block.** -/
theorem getFreeBlock_some {image : DiskImage} {n : Nat}
    (h : image.getFreeEntry image.mapStart image.mapBlockCnt = some n) :
    ∃ image', getFreeBlock image = (.ok n, image') ∧ image.SameBeside image' := by
  obtain ⟨hpage, hfree⟩ := getFreeEntry_free h
  obtain ⟨words, hmap⟩ := allocateInMap_free image hfree
  have hblock : ∃ image', allocateBlock n image = (.ok (), image') ∧ image.SameBeside image' := by
    rw [allocateBlock, Run.bind_apply_ok (Run.get_apply image), Run.bind_apply_ok hmap,
      Run.bind_apply_ok (Run.modify_apply _ _), Run.modify_apply]
    refine ⟨_, rfl, fun block hmaps hdynamic => ?_⟩
    rw [write_of_ne _ _ _ _ hdynamic, write_of_ne _ _ _ _ hdynamic,
      setBlock_of_ne _ _ (hmaps _ hpage)]
  obtain ⟨image', hrun, hsame⟩ := hblock
  refine ⟨image', ?_, hsame⟩
  rw [getFreeBlock, Run.bind_apply_ok (Run.get_apply image), h]
  exact Run.bind_apply_ok hrun

theorem getFreeBlock_none {image : DiskImage}
    (h : image.getFreeEntry image.mapStart image.mapBlockCnt = none) :
    getFreeBlock image = (.error (.generic "Disk is full"), image) := by
  rw [getFreeBlock, Run.bind_apply_ok (Run.get_apply image), h]
  rfl

end DiskImage

end Mkfs

end CraySim
