/-
  Subject:   What the maps of a file system image give out.

  A map has a bit for every block, or for every inode. The search of `GetFreeEntry` passes over
  words that are full and goes through the bits of the others; what it finds is the least number
  whose bit is not set. The counters of the dynamic block are changed far from the bits they count.

  * `mapBit`, `getFreeEntry_eq` -- a bit of a map, and what the search finds,
  * `allocateINodeIdx`, `getFreeINodeIdx` -- the inodes,
  * `Geometry`, `Formatted` -- where the parts of an image are,
  * `getFreeBlock_eq`, `getFreeINodeIdx_eq` -- the two allocations in one equation each,
  * `BlockLedger`, `INodeLedger` -- the maps and counters agree with what is in use,
  * `BlockLedger.takeBlock`, `INodeLedger.takeINode` -- and do so behind an allocation.
-/
import CraySim.Lib.FirstFit
import CraySim.MkfsImage

namespace CraySim

namespace Mkfs

open FirstFit

namespace DiskImage

/-! ## 1. Bits -/

/-- The place of a number in its word of the map. -/
def mapPos (aBitIdx : Nat) : Nat := (7 - aBitIdx % 8) + aBitIdx / 8 * 8

theorem mapPos_lt {b : Nat} (hb : b < 64) : mapPos b < 64 := by
  unfold mapPos
  omega

theorem mapPos_inj {a b : Nat} (h : mapPos a = mapPos b) : a = b := by
  unfold mapPos at h
  omega

theorem getLsbD_getMapBit {b i : Nat} (hi : i < 64) :
    (getMapBit b).getLsbD i = decide (i = mapPos b) := by
  have hone : ∀ j, (1 : CInt).getLsbD j = decide (j = 0) := by
    intro j
    rw [show (1 : CInt) = 1#64 from rfl, BitVec.getLsbD_one]
    simp
  show (((1 : CInt) <<< mapPos b).getLsbD i) = _
  rw [BitVec.getLsbD_shiftLeft, hone, decide_eq_true hi, Bool.true_and]
  by_cases h : i < mapPos b
  · rw [decide_eq_true h, show decide (i = mapPos b) = false from decide_eq_false (by omega)]
    rfl
  · rw [decide_eq_false h, Bool.not_false, Bool.true_and]
    exact decide_eq_decide.mpr (by omega)

theorem and_getMapBit {w : CInt} {b : Nat} (hb : b < 64) :
    w &&& getMapBit b = 0 ↔ w.getLsbD (mapPos b) = false := by
  constructor
  · intro h
    have hbit := congrArg (fun x : CInt => x.getLsbD (mapPos b)) h
    simp only [BitVec.getLsbD_and, getLsbD_getMapBit (mapPos_lt hb), decide_true,
      Bool.and_true] at hbit
    exact hbit.trans BitVec.getLsbD_zero
  · intro h
    apply BitVec.eq_of_getLsbD_eq
    intro i hi
    rw [BitVec.getLsbD_and, getLsbD_getMapBit hi]
    by_cases heq : i = mapPos b
    · rw [heq, h]
      exact (Bool.false_and _).trans BitVec.getLsbD_zero.symm
    · rw [decide_eq_false heq, Bool.and_false]
      exact BitVec.getLsbD_zero.symm

/-- The bit of a number in the map that starts with a block. -/
def mapBit (image : DiskImage) (aMapStart n : Nat) : Bool :=
  image.mStorage (aMapStart + n / 64 / cBlockSize) (n / 64 % cBlockSize) &&& getMapBit (n % 64) != 0

theorem mapBit_eq_false_iff {image : DiskImage} {aMapStart n : Nat} :
    image.mapBit aMapStart n = false ↔
      image.mStorage (aMapStart + n / 64 / cBlockSize) (n / 64 % cBlockSize) &&&
        getMapBit (n % 64) = 0 := by
  unfold mapBit
  rw [bne_eq_false_iff_eq]

theorem mapBit_eq (image : DiskImage) (aMapStart n : Nat) :
    image.mapBit aMapStart n =
      (image.mStorage (aMapStart + n / 64 / cBlockSize) (n / 64 % cBlockSize)).getLsbD
        (mapPos (n % 64)) := by
  have hlt : n % 64 < 64 := Nat.mod_lt _ (by decide)
  cases hbit : (image.mStorage (aMapStart + n / 64 / cBlockSize)
      (n / 64 % cBlockSize)).getLsbD (mapPos (n % 64)) with
  | false => exact mapBit_eq_false_iff.mpr ((and_getMapBit hlt).mpr hbit)
  | true =>
    refine Bool.eq_true_of_not_eq_false fun hf => ?_
    rw [(and_getMapBit hlt).mp (mapBit_eq_false_iff.mp hf)] at hbit
    cases hbit

theorem mapBit_congr {image image' : DiskImage} {aMapStart n : Nat}
    (h : image'.mStorage (aMapStart + n / 64 / cBlockSize) (n / 64 % cBlockSize) =
      image.mStorage (aMapStart + n / 64 / cBlockSize) (n / 64 % cBlockSize)) :
    image'.mapBit aMapStart n = image.mapBit aMapStart n := by
  unfold mapBit
  rw [h]

theorem entry_parts {page idx bit : Nat} (hidx : idx < cBlockSize) (hbit : bit < 64) :
    ((page * cBlockSize + idx) * 64 + bit) / 64 / cBlockSize = page ∧
      ((page * cBlockSize + idx) * 64 + bit) / 64 % cBlockSize = idx ∧
      ((page * cBlockSize + idx) * 64 + bit) % 64 = bit := by
  have hword : ((page * cBlockSize + idx) * 64 + bit) / 64 = page * cBlockSize + idx := by omega
  refine ⟨?_, ?_, by omega⟩
  · rw [hword, Nat.mul_comm, Nat.mul_add_div (by decide), Nat.div_eq_of_lt hidx, Nat.add_zero]
  · rw [hword, Nat.mul_comm, Nat.mul_add_mod, Nat.mod_eq_of_lt hidx]

theorem allOnes_not_free {b : Nat} (hb : b < 64) : BitVec.allOnes 64 &&& getMapBit b ≠ 0 := by
  intro h
  have hbit := (and_getMapBit hb).mp h
  rw [BitVec.getLsbD_allOnes, decide_eq_true (mapPos_lt hb)] at hbit
  cases hbit

theorem findSome?_congr {α β : Type} {l : List α} {f g : α → Option β} (h : ∀ a ∈ l, f a = g a) :
    l.findSome? f = l.findSome? g := by
  induction l with
  | nil => rfl
  | cons a l ih =>
    rw [List.findSome?_cons, List.findSome?_cons, h a List.mem_cons_self,
      ih fun b hb => h b (List.mem_cons_of_mem _ hb)]

/-- **`GetFreeEntry` finds the least free number of the map.** -/
theorem getFreeEntry_eq (image : DiskImage) (aMapStart aMapBlockCnt : Nat) :
    image.getFreeEntry aMapStart aMapBlockCnt =
      firstFree (image.mapBit aMapStart) (aMapBlockCnt * cBlockSize * 64) := by
  rw [firstFree_eq_findSome?, ← findSome?_rows _ (aMapBlockCnt * cBlockSize) 64,
    ← findSome?_rows _ aMapBlockCnt cBlockSize]
  unfold getFreeEntry
  refine findSome?_congr fun page _ => findSome?_congr fun idx hidx => ?_
  have hsame : ((List.range 64).findSome? fun bit =>
      if image.mStorage (aMapStart + page) idx &&& getMapBit bit = 0 then
        some ((page * cBlockSize + idx) * 64 + bit) else none) =
      (List.range 64).findSome? fun bit =>
        if image.mapBit aMapStart ((page * cBlockSize + idx) * 64 + bit) = false then
          some ((page * cBlockSize + idx) * 64 + bit) else none := by
    refine findSome?_congr fun bit hbit => ?_
    obtain ⟨hpage, hword, hb⟩ := @entry_parts page idx bit (List.mem_range.mp hidx)
      (List.mem_range.mp hbit)
    simp only [mapBit_eq_false_iff, hpage, hword, hb]
  rw [← hsame]
  split
  · rfl
  · rename_i hfull
    refine (List.findSome?_eq_none_iff.mpr fun bit hbit => if_neg ?_).symm
    rw [Decidable.not_not.mp hfull]
    exact allOnes_not_free (List.mem_range.mp hbit)

/-- The map with the bit of a number. -/
def markMap (image : DiskImage) (aMapStart n : Nat) : DiskImage :=
  image.setBlock (aMapStart + n / 64 / cBlockSize)
    (Function.update (image.mStorage (aMapStart + n / 64 / cBlockSize)) (n / 64 % cBlockSize)
      (image.mStorage (aMapStart + n / 64 / cBlockSize) (n / 64 % cBlockSize) |||
        getMapBit (n % 64)))

/-- **`AllocateInMap` in one equation.** -/
theorem allocateInMap_eq (image : DiskImage) (aIdx aMapStart : Nat) :
    allocateInMap aIdx aMapStart image =
      if image.mapBit aMapStart aIdx = false then (.ok (), image.markMap aMapStart aIdx)
      else (.error .assertion, image) := by
  unfold allocateInMap
  rw [Run.bind_apply_ok (Run.get_apply image)]
  split
  · rename_i h
    rw [Run.bind_apply_ok (crayAssert_true (mapBit_eq_false_iff.mp h) image)]
    rfl
  · rename_i h
    exact Run.bind_apply_error
      (crayAssert_false (fun hf => h (mapBit_eq_false_iff.mpr hf)) image)

theorem mapBit_markMap (image : DiskImage) (aMapStart n m : Nat) :
    (image.markMap aMapStart n).mapBit aMapStart m = mark (image.mapBit aMapStart) n m := by
  by_cases hpage : m / 64 / cBlockSize = n / 64 / cBlockSize
  · by_cases hword : m / 64 % cBlockSize = n / 64 % cBlockSize
    · have hm : m / 64 = n / 64 := by
        rw [← Nat.div_add_mod (m / 64) cBlockSize, ← Nat.div_add_mod (n / 64) cBlockSize, hpage,
          hword]
      rw [mapBit_eq, markMap, hpage, hword, setBlock_self, Function.update_self,
        BitVec.getLsbD_or, getLsbD_getMapBit (mapPos_lt (Nat.mod_lt _ (by decide)))]
      have hold : (image.mStorage (aMapStart + n / 64 / cBlockSize)
          (n / 64 % cBlockSize)).getLsbD (mapPos (m % 64)) = image.mapBit aMapStart m := by
        rw [mapBit_eq, hpage, hword]
      have hbit : decide (mapPos (m % 64) = mapPos (n % 64)) = (m == n) := by
        by_cases heq : m = n
        · rw [heq, beq_self_eq_true, decide_eq_true rfl]
        · rw [beq_false_of_ne heq]
          refine decide_eq_false fun h => heq ?_
          have := mapPos_inj h
          omega
      rw [hold, hbit]
      rfl
    · have hne : m ≠ n := fun h => hword (by rw [h])
      rw [mark_of_ne hne, mapBit_eq, mapBit_eq, markMap, hpage, setBlock_self,
        Function.update_of_ne hword]
  · have hne : m ≠ n := fun h => hpage (by rw [h])
    rw [mark_of_ne hne]
    exact mapBit_congr (congrFun (setBlock_of_ne _ _ (by omega)) _)

theorem markMap_of_ne (image : DiskImage) {aMapStart n block : Nat}
    (h : block ≠ aMapStart + n / 64 / cBlockSize) :
    (image.markMap aMapStart n).mStorage block = image.mStorage block :=
  setBlock_of_ne _ _ h

/-! ## 2. Where the parts are -/

/-- `nc1dblock::db_ifree`. -/
def db_ifree : IntField := ⟨2, 64, 0, 64, IntField.fits_word⟩

/-- `nc1dblock::db_ninode`. -/
def db_ninode : IntField := ⟨3, 64, 0, 64, IntField.fits_word⟩

/-- `nc1dblock::db_part[0].fd_ireg[0]`. -/
def db_part_fd_ireg : IntField := ⟨21 + 1, 64, 0, 64, IntField.fits_word⟩

/-- `nc1filsys::s_nscpys`. -/
def s_nscpys : IntField := ⟨18, 64, 0, 64, IntField.fits_word⟩

/-- The first block of the inodes, which is their map. -/
def iNodeStart (image : DiskImage) : Nat := (image.read getSuperBlock s_part_fd_ireg_blk).toNat

def allocateINodeIdx (aINodeIdx : Nat) : Run MkfsExn DiskImage Unit := do
  let image ← Run.get
  let dynamicBlock := image.getDynamicBlock
  allocateInMap aINodeIdx image.iNodeStart
  Run.modify fun image => image.write dynamicBlock db_ifree (image.read dynamicBlock db_ifree - 1)
  Run.modify fun image => image.write dynamicBlock db_ninode (image.read dynamicBlock db_ninode + 1)
  Run.modify fun image =>
    image.write dynamicBlock db_part_fd_ireg (image.read dynamicBlock db_part_fd_ireg - 1)

def getFreeINodeIdx : Run MkfsExn DiskImage Nat := do
  let image ← Run.get
  match image.getFreeEntry image.iNodeStart 1 with
  | none => Run.throw (.generic "Disk is full")
  | some retVal => do
    allocateINodeIdx retVal
    pure (retVal % 2 ^ 32)

end DiskImage

/-- **The parts of an image**, one behind the other: the super block with its copies, the map of the
    blocks, the dynamic block, the inodes with their map in front, and the rest, with the data. -/
structure Geometry where
  superCnt : Nat
  mapStart : Nat
  mapBlockCnt : Nat
  dynamicBlock : Nat
  iNodeStart : Nat
  iNodeBlockCnt : Nat
  dataStart : Nat
  super_lt : SUPERB < mapStart
  super_le : SUPERB + superCnt ≤ mapStart
  map_le : mapStart + mapBlockCnt ≤ dynamicBlock
  dynamic_lt : dynamicBlock < iNodeStart
  iNode_le : iNodeStart + iNodeBlockCnt ≤ dataStart
  iNode_pos : 0 < iNodeBlockCnt
  iNode_bound : iNodeBlockCnt ≤ 1 + cBlockSize * 64 / 16
  data_le : dataStart ≤ mapBlockCnt * cBlockSize * 64
  numbers : mapBlockCnt * cBlockSize * 64 < 2 ^ 32

namespace Geometry

variable (g : Geometry)

/-- How many blocks the map has bits for. -/
def capacity : Nat := g.mapBlockCnt * cBlockSize * 64

/-- The inode is in the blocks of the inodes. -/
def HasINode (i : Nat) : Prop := i / 16 + 1 < g.iNodeBlockCnt

theorem HasINode.lt {g : Geometry} {i : Nat} (h : g.HasINode i) : i < cBlockSize * 64 := by
  have hbound := g.iNode_bound
  have hsize : cBlockSize = 512 := rfl
  unfold HasINode at h
  rw [hsize] at hbound ⊢
  omega

/-- The blocks an allocation changes: a block of the map, and the dynamic block. -/
def Administers (block : Nat) : Prop :=
  (g.mapStart ≤ block ∧ block < g.mapStart + g.mapBlockCnt) ∨ block = g.dynamicBlock

end Geometry

/-- The super block says where the parts are. -/
structure Formatted (g : Geometry) (image : DiskImage) : Prop where
  mapStart : image.mapStart = g.mapStart
  mapBlockCnt : image.mapBlockCnt = g.mapBlockCnt
  dynamicBlock : image.getDynamicBlock = ⟨g.dynamicBlock, 0⟩
  iNodeStart : image.iNodeStart = g.iNodeStart
  superCnt : (image.read DiskImage.getSuperBlock DiskImage.s_nscpys).toNat = g.superCnt

theorem Formatted.congr_words {g : Geometry} {image image' : DiskImage} (h : Formatted g image)
    (hsame : ∀ w < cBlockSize, image'.mStorage SUPERB w = image.mStorage SUPERB w) :
    Formatted g image' := by
  have hread : ∀ f : IntField, f.tOfs < cBlockSize →
      image'.read DiskImage.getSuperBlock f = image.read DiskImage.getSuperBlock f :=
    fun f hf => IntField.get_congr (by
      show image'.mStorage SUPERB (0 + f.tOfs) = image.mStorage SUPERB (0 + f.tOfs)
      rw [Nat.zero_add]
      exact hsame _ hf)
  constructor
  · unfold DiskImage.mapStart
    rw [hread _ (by decide)]
    exact h.mapStart
  · unfold DiskImage.mapBlockCnt
    rw [hread _ (by decide)]
    exact h.mapBlockCnt
  · unfold DiskImage.getDynamicBlock
    rw [hread _ (by decide)]
    exact h.dynamicBlock
  · unfold DiskImage.iNodeStart
    rw [hread _ (by decide)]
    exact h.iNodeStart
  · rw [hread _ (by decide)]
    exact h.superCnt

theorem Formatted.congr {g : Geometry} {image image' : DiskImage} (h : Formatted g image)
    (hsame : image'.mStorage SUPERB = image.mStorage SUPERB) : Formatted g image' :=
  h.congr_words fun w _ => congrFun hsame w

namespace DiskImage

/-! ## 3. The two allocations -/

/-- An image with other counters. -/
def addTo (image : DiskImage) (p : Pointer) (f : IntField) (d : BitVec f.digits) : DiskImage :=
  image.write p f (image.read p f + d)

/-- The image with a block less. -/
def takeBlock (image : DiskImage) (g : Geometry) (n : Nat) : DiskImage :=
  ((image.markMap g.mapStart n).addTo ⟨g.dynamicBlock, 0⟩ db_fpm_bmp_avail (-1)).addTo
    ⟨g.dynamicBlock, 0⟩ db_tfree (-1)

/-- The image with an inode less. -/
def takeINode (image : DiskImage) (g : Geometry) (i : Nat) : DiskImage :=
  (((image.markMap g.iNodeStart i).addTo ⟨g.dynamicBlock, 0⟩ db_ifree (-1)).addTo
    ⟨g.dynamicBlock, 0⟩ db_ninode 1).addTo ⟨g.dynamicBlock, 0⟩ db_part_fd_ireg (-1)

section allocate
variable {g : Geometry} {image : DiskImage}

theorem allocateBlock_eq (h : Formatted g image) (aBlock : Nat) :
    allocateBlock aBlock image =
      if image.mapBit g.mapStart aBlock = false then (.ok (), image.takeBlock g aBlock)
      else (.error .assertion, image) := by
  unfold allocateBlock
  rw [Run.bind_apply_ok (Run.get_apply image), h.mapStart, h.dynamicBlock]
  have hmap := allocateInMap_eq image aBlock g.mapStart
  split
  · rename_i hfree
    rw [if_pos hfree] at hmap
    rw [Run.bind_apply_ok hmap]
    unfold takeBlock addTo
    simp only [← BitVec.sub_eq_add_neg]
    rfl
  · rename_i hused
    rw [if_neg hused] at hmap
    exact Run.bind_apply_error hmap

theorem allocateINodeIdx_eq (h : Formatted g image) (i : Nat) :
    allocateINodeIdx i image =
      if image.mapBit g.iNodeStart i = false then (.ok (), image.takeINode g i)
      else (.error .assertion, image) := by
  unfold allocateINodeIdx
  rw [Run.bind_apply_ok (Run.get_apply image), h.iNodeStart, h.dynamicBlock]
  have hmap := allocateInMap_eq image i g.iNodeStart
  split
  · rename_i hfree
    rw [if_pos hfree] at hmap
    rw [Run.bind_apply_ok hmap]
    unfold takeINode addTo
    simp only [← BitVec.sub_eq_add_neg]
    rfl
  · rename_i hused
    rw [if_neg hused] at hmap
    exact Run.bind_apply_error hmap

/-- **`GetFreeBlock` in one equation.** -/
theorem getFreeBlock_eq (h : Formatted g image) :
    getFreeBlock image =
      match firstFree (image.mapBit g.mapStart) g.capacity with
      | none => (.error (.generic "Disk is full"), image)
      | some n => (.ok n, image.takeBlock g n) := by
  unfold getFreeBlock
  rw [Run.bind_apply_ok (Run.get_apply image), h.mapStart, h.mapBlockCnt, getFreeEntry_eq]
  unfold Geometry.capacity
  cases hfound : firstFree (image.mapBit g.mapStart) (g.mapBlockCnt * cBlockSize * 64) with
  | none => rfl
  | some n =>
    have halloc := allocateBlock_eq h n
    rw [if_pos (firstFree_eq_some_iff.mp hfound).2.1] at halloc
    exact Run.bind_apply_ok halloc

/-- **`GetFreeINodeIdx` in one equation.** -/
theorem getFreeINodeIdx_eq (h : Formatted g image) :
    getFreeINodeIdx image =
      match firstFree (image.mapBit g.iNodeStart) (cBlockSize * 64) with
      | none => (.error (.generic "Disk is full"), image)
      | some i => (.ok i, image.takeINode g i) := by
  unfold getFreeINodeIdx
  rw [Run.bind_apply_ok (Run.get_apply image), h.iNodeStart, getFreeEntry_eq, Nat.one_mul]
  cases hfound : firstFree (image.mapBit g.iNodeStart) (cBlockSize * 64) with
  | none => rfl
  | some i =>
    obtain ⟨hlt, hfree, -⟩ := firstFree_eq_some_iff.mp hfound
    have hsmall : i % 2 ^ 32 = i := Nat.mod_eq_of_lt (Nat.lt_trans hlt (by decide))
    have halloc := allocateINodeIdx_eq h i
    rw [if_pos hfree] at halloc
    refine (Run.bind_apply_ok halloc).trans ?_
    rw [hsmall]
    rfl

end allocate

/-! ## 4. What an allocation changes -/

section frames
variable {g : Geometry} {image : DiskImage} {p : Pointer} {f : IntField} {d : BitVec f.digits}

theorem addTo_of_ne {block : Nat} (h : block ≠ p.block) :
    (image.addTo p f d).mStorage block = image.mStorage block :=
  write_of_ne _ _ _ _ h

theorem read_addTo (hsize : f.tSize = f.digits) :
    (image.addTo p f d).read p f = image.read p f + d := by
  apply BitVec.eq_of_toNat_eq
  unfold addTo
  rw [toNat_read_write, hsize, Nat.mod_eq_of_lt (BitVec.isLt _)]

theorem read_addTo_of_apart {f' : IntField} (h : f.Apart f') :
    (image.addTo p f d).read p f' = image.read p f' :=
  read_write_of_apart _ _ _ _ _ h

theorem read_congr {image' : DiskImage} (h : image'.mStorage p.block = image.mStorage p.block)
    (f : IntField) : image'.read p f = image.read p f := by
  unfold read
  rw [h]

/-- The place of a number in the map of the blocks. -/
theorem mapBlock_lt {n : Nat} (hn : n < g.capacity) : n / 64 / cBlockSize < g.mapBlockCnt := by
  unfold Geometry.capacity at hn
  have hsize : cBlockSize = 512 := rfl
  rw [hsize] at hn ⊢
  omega

theorem mapBlock_administered {n : Nat} (hn : n < g.capacity) :
    g.Administers (g.mapStart + n / 64 / cBlockSize) :=
  Or.inl ⟨Nat.le_add_right _ _, Nat.add_lt_add_left (mapBlock_lt hn) _⟩

theorem mapBlock_ne_dynamic {n : Nat} (hn : n < g.capacity) :
    g.mapStart + n / 64 / cBlockSize ≠ g.dynamicBlock := by
  have hlt := mapBlock_lt hn
  have hle := g.map_le
  omega

/-- A number of the map of the inodes stands in its first block. -/
theorem iNodeMap_block {i : Nat} (hi : i < cBlockSize * 64) : i / 64 / cBlockSize = 0 := by
  have hsize : cBlockSize = 512 := rfl
  rw [hsize] at hi ⊢
  omega

theorem takeBlock_of_ne {n block : Nat} (hn : n < g.capacity) (h : ¬ g.Administers block) :
    (image.takeBlock g n).mStorage block = image.mStorage block := by
  have hdyn : block ≠ g.dynamicBlock := fun he => h (Or.inr he)
  unfold takeBlock
  rw [addTo_of_ne hdyn, addTo_of_ne hdyn]
  exact markMap_of_ne _ fun he => h (he ▸ mapBlock_administered hn)

theorem takeBlock_mapBit {n m : Nat} (hm : m < g.capacity) :
    (image.takeBlock g n).mapBit g.mapStart m = mark (image.mapBit g.mapStart) n m := by
  have hdyn := mapBlock_ne_dynamic hm
  rw [← mapBit_markMap]
  unfold takeBlock
  refine mapBit_congr ?_
  rw [addTo_of_ne hdyn, addTo_of_ne hdyn]

theorem read_markMap {n aMapStart : Nat} (h : p.block ≠ aMapStart + n / 64 / cBlockSize) :
    (image.markMap aMapStart n).read p f = image.read p f :=
  read_congr (markMap_of_ne _ h) _

/-- A field of the dynamic block, behind the allocation of a block. -/
theorem takeBlock_read {n : Nat} (hn : n < g.capacity) :
    (image.takeBlock g n).read ⟨g.dynamicBlock, 0⟩ db_tfree =
        image.read ⟨g.dynamicBlock, 0⟩ db_tfree + (-1) ∧
      (image.takeBlock g n).read ⟨g.dynamicBlock, 0⟩ db_fpm_bmp_avail =
        image.read ⟨g.dynamicBlock, 0⟩ db_fpm_bmp_avail + (-1) ∧
      ∀ f' : IntField, db_tfree.Apart f' → db_fpm_bmp_avail.Apart f' →
        (image.takeBlock g n).read ⟨g.dynamicBlock, 0⟩ f' =
          image.read ⟨g.dynamicBlock, 0⟩ f' := by
  have hdyn := (mapBlock_ne_dynamic hn).symm
  refine ⟨?_, ?_, fun f' h1 h2 => ?_⟩
  · unfold takeBlock
    rw [read_addTo rfl, read_addTo_of_apart (by decide), read_markMap hdyn]
  · unfold takeBlock
    rw [read_addTo_of_apart (by decide), read_addTo rfl, read_markMap hdyn]
  · unfold takeBlock
    rw [read_addTo_of_apart h1, read_addTo_of_apart h2, read_markMap hdyn]

theorem takeINode_of_ne {i block : Nat} (hi : i < cBlockSize * 64) (hdyn : block ≠ g.dynamicBlock)
    (h : block ≠ g.iNodeStart) : (image.takeINode g i).mStorage block = image.mStorage block := by
  unfold takeINode
  rw [addTo_of_ne hdyn, addTo_of_ne hdyn, addTo_of_ne hdyn]
  refine markMap_of_ne _ ?_
  rw [iNodeMap_block hi]
  exact h

theorem takeINode_mapBit (i j : Nat) :
    (image.takeINode g i).mapBit g.iNodeStart j = mark (image.mapBit g.iNodeStart) i j := by
  have hdyn : g.iNodeStart + j / 64 / cBlockSize ≠ g.dynamicBlock :=
    Nat.ne_of_gt (Nat.lt_of_lt_of_le g.dynamic_lt (Nat.le_add_right _ _))
  rw [← mapBit_markMap]
  unfold takeINode
  refine mapBit_congr ?_
  rw [addTo_of_ne hdyn, addTo_of_ne hdyn, addTo_of_ne hdyn]

/-- A field of the dynamic block, behind the allocation of an inode. -/
theorem takeINode_read (i : Nat) :
    (image.takeINode g i).read ⟨g.dynamicBlock, 0⟩ db_ifree =
        image.read ⟨g.dynamicBlock, 0⟩ db_ifree + (-1) ∧
      (image.takeINode g i).read ⟨g.dynamicBlock, 0⟩ db_ninode =
        image.read ⟨g.dynamicBlock, 0⟩ db_ninode + 1 ∧
      (image.takeINode g i).read ⟨g.dynamicBlock, 0⟩ db_part_fd_ireg =
        image.read ⟨g.dynamicBlock, 0⟩ db_part_fd_ireg + (-1) ∧
      ∀ f' : IntField, db_ifree.Apart f' → db_ninode.Apart f' → db_part_fd_ireg.Apart f' →
        (image.takeINode g i).read ⟨g.dynamicBlock, 0⟩ f' =
          image.read ⟨g.dynamicBlock, 0⟩ f' := by
  have hdyn : (⟨g.dynamicBlock, 0⟩ : Pointer).block ≠ g.iNodeStart + i / 64 / cBlockSize :=
    Nat.ne_of_lt (Nat.lt_of_lt_of_le g.dynamic_lt (Nat.le_add_right _ _))
  refine ⟨?_, ?_, ?_, fun f' h1 h2 h3 => ?_⟩
  · unfold takeINode
    rw [read_addTo_of_apart (by decide), read_addTo_of_apart (by decide), read_addTo rfl,
      read_markMap hdyn]
  · unfold takeINode
    rw [read_addTo_of_apart (by decide), read_addTo rfl, read_addTo_of_apart (by decide),
      read_markMap hdyn]
  · unfold takeINode
    rw [read_addTo rfl, read_addTo_of_apart (by decide), read_addTo_of_apart (by decide),
      read_markMap hdyn]
  · unfold takeINode
    rw [read_addTo_of_apart h3, read_addTo_of_apart h2, read_addTo_of_apart h1, read_markMap hdyn]

end frames

end DiskImage

/-! ## 5. The ledgers -/

open DiskImage

/-- How many blocks, and how many inodes, the maps count as used. -/
def DiskImage.usedBlocks (image : DiskImage) (g : Geometry) : Nat :=
  usedCount (image.mapBit g.mapStart) g.capacity

def DiskImage.usedINodes (image : DiskImage) (g : Geometry) : Nat :=
  usedCount (image.mapBit g.iNodeStart) (cBlockSize * 64)

/-- A counter of the dynamic block. -/
def DiskImage.counter (image : DiskImage) (g : Geometry) (f : IntField) : Nat :=
  (image.read ⟨g.dynamicBlock, 0⟩ f).toNat

/-- **The map of the blocks and its counters agree with the blocks in use**: those in front of the
    data, and the owned ones, with no gap. -/
structure BlockLedger (g : Geometry) (diskSize : Nat) (image : DiskImage) (owned : Nat → Prop) :
    Prop where
  used_iff : ∀ n < g.capacity, image.mapBit g.mapStart n = true ↔ n < g.dataStart ∨ owned n
  dense : ∀ n < g.capacity, image.mapBit g.mapStart n = true →
    ∀ m < n, image.mapBit g.mapStart m = true
  tfree : (image.counter g db_tfree + image.usedBlocks g) % 2 ^ 64 = diskSize % 2 ^ 64
  avail : (image.counter g db_fpm_bmp_avail + image.usedBlocks g) % 2 ^ 64 = diskSize % 2 ^ 64

/-- **So do the map of the inodes and its counters**; the first two inodes are never given out and
    are not counted as allocated. -/
structure INodeLedger (g : Geometry) (iNodeCnt : Nat) (image : DiskImage) (owned : Nat → Prop) :
    Prop where
  used_iff : ∀ i < cBlockSize * 64, image.mapBit g.iNodeStart i = true ↔ i < 2 ∨ owned i
  ifree : (image.counter g db_ifree + image.usedINodes g) % 2 ^ 64 = iNodeCnt % 2 ^ 64
  ninode : (image.counter g db_ninode + 2) % 2 ^ 64 = image.usedINodes g % 2 ^ 64
  ireg : (image.counter g db_part_fd_ireg + image.usedINodes g) % 2 ^ 64 = iNodeCnt % 2 ^ 64

section ledgers
variable {g : Geometry} {diskSize iNodeCnt n i : Nat} {image image' : DiskImage}
  {owned : Nat → Prop}

theorem takeBlock_usedBlocks (hfound : firstFree (image.mapBit g.mapStart) g.capacity = some n) :
    (image.takeBlock g n).usedBlocks g = image.usedBlocks g + 1 := by
  obtain ⟨hn, hfree, -⟩ := firstFree_eq_some_iff.mp hfound
  unfold DiskImage.usedBlocks
  rw [← usedCount_mark hn hfree]
  exact usedCount_congr fun m hm => takeBlock_mapBit hm

theorem takeINode_usedINodes (hi : i < cBlockSize * 64)
    (hfree : image.mapBit g.iNodeStart i = false) :
    (image.takeINode g i).usedINodes g = image.usedINodes g + 1 := by
  unfold DiskImage.usedINodes
  rw [← usedCount_mark hi hfree]
  exact usedCount_congr fun j _ => takeINode_mapBit i j

theorem BlockLedger.fresh (h : BlockLedger g diskSize image owned)
    (hfound : firstFree (image.mapBit g.mapStart) g.capacity = some n) :
    n < g.capacity ∧ g.dataStart ≤ n ∧ ¬ owned n := by
  obtain ⟨hn, hfree, -⟩ := firstFree_eq_some_iff.mp hfound
  have hnot := (h.used_iff n hn).not.mp (by rw [hfree]; exact Bool.false_ne_true)
  exact ⟨hn, Nat.le_of_not_lt fun hlt => hnot (Or.inl hlt), fun ho => hnot (Or.inr ho)⟩

/-- With no gap, the first free block is the number of those in use. -/
theorem BlockLedger.usedBlocks_eq (h : BlockLedger g diskSize image owned)
    (hfound : firstFree (image.mapBit g.mapStart) g.capacity = some n) :
    image.usedBlocks g = n := usedCount_eq_firstFree h.dense hfound

/-- **Another image owns some blocks more.** -/
theorem BlockLedger.usedBlocks_add {diskSize' : Nat} {owned' : Nat → Prop} {l : List Nat}
    (h : BlockLedger g diskSize image owned) (h' : BlockLedger g diskSize' image' owned')
    (hnodup : l.Nodup) (hl : ∀ b ∈ l, g.dataStart ≤ b ∧ b < g.capacity ∧ ¬ owned b)
    (hiff : ∀ b, owned' b ↔ owned b ∨ b ∈ l) :
    image'.usedBlocks g = image.usedBlocks g + l.length := by
  refine usedCount_add hnodup (fun b hb => ?_) fun b hb => ?_
  · obtain ⟨hlow, hhigh, hnot⟩ := hl b hb
    refine ⟨hhigh, Bool.eq_false_of_not_eq_true fun hused => ?_⟩
    rcases (h.used_iff b hhigh).mp hused with hlt | ho
    · omega
    · exact hnot ho
  · rw [h'.used_iff b hb, h.used_iff b hb, hiff, or_assoc]

/-- A counter of what is free goes down with each one more that is used; one of what is used goes
    up. -/
theorem counted_down {x y : BitVec 64} {used used' total : Nat} (hread : y = x + (-1))
    (hused : used' = used + 1) (h : (x.toNat + used) % 2 ^ 64 = total % 2 ^ 64) :
    (y.toNat + used') % 2 ^ 64 = total % 2 ^ 64 := by
  have hdown : (-1 : BitVec 64).toNat = 2 ^ 64 - 1 := rfl
  rw [hread, hused, BitVec.toNat_add, hdown]
  omega

theorem counted_up {x y : BitVec 64} {used used' : Nat} (hread : y = x + 1)
    (hused : used' = used + 1) (h : (x.toNat + 2) % 2 ^ 64 = used % 2 ^ 64) :
    (y.toNat + 2) % 2 ^ 64 = used' % 2 ^ 64 := by
  have hup : (1 : BitVec 64).toNat = 1 := rfl
  rw [hread, hused, BitVec.toNat_add, hup]
  omega

/-- **An allocation of a block** keeps the ledger. -/
theorem BlockLedger.takeBlock (h : BlockLedger g diskSize image owned)
    (hfound : firstFree (image.mapBit g.mapStart) g.capacity = some n) :
    BlockLedger g diskSize (image.takeBlock g n) fun b => owned b ∨ b = n := by
  obtain ⟨hn, -, hleast⟩ := firstFree_eq_some_iff.mp hfound
  obtain ⟨htfree, havail, -⟩ := @takeBlock_read g image n hn
  have hcount := takeBlock_usedBlocks hfound
  refine ⟨fun m hm => ?_, fun m hm hused k hk => ?_, ?_, ?_⟩
  · rw [takeBlock_mapBit hm]
    unfold mark
    rw [Bool.or_eq_true, h.used_iff m hm, beq_iff_eq, or_assoc]
  · rw [takeBlock_mapBit hm] at hused
    rw [takeBlock_mapBit (Nat.lt_trans hk hm)]
    by_cases hmn : m = n
    · subst hmn
      rw [mark_of_ne (Nat.ne_of_lt hk)]
      exact hleast k hk
    · rw [mark_of_ne hmn] at hused
      unfold mark
      rw [h.dense m hm hused k hk, Bool.true_or]
  · exact counted_down htfree hcount h.tfree
  · exact counted_down havail hcount h.avail

/-- **An allocation of an inode** keeps its ledger. -/
theorem INodeLedger.takeINode (h : INodeLedger g iNodeCnt image owned) (hi : i < cBlockSize * 64)
    (hfree : image.mapBit g.iNodeStart i = false) :
    INodeLedger g iNodeCnt (image.takeINode g i) fun j => owned j ∨ j = i := by
  obtain ⟨hifree, hninode, hireg, -⟩ := @takeINode_read g image i
  have hcount := takeINode_usedINodes hi hfree
  refine ⟨fun j hj => ?_, ?_, ?_, ?_⟩
  · rw [takeINode_mapBit]
    unfold mark
    rw [Bool.or_eq_true, h.used_iff j hj, beq_iff_eq, or_assoc]
  · exact counted_down hifree hcount h.ifree
  · exact counted_up hninode hcount h.ninode
  · exact counted_down hireg hcount h.ireg

/-- A change beside the map and its counters keeps the ledger. -/
theorem BlockLedger.congr_map (h : BlockLedger g diskSize image owned)
    (hsame : ∀ page < g.mapBlockCnt, ∀ w < cBlockSize,
      image'.mStorage (g.mapStart + page) w = image.mStorage (g.mapStart + page) w)
    (htfree : image'.counter g db_tfree = image.counter g db_tfree)
    (havail : image'.counter g db_fpm_bmp_avail = image.counter g db_fpm_bmp_avail) :
    BlockLedger g diskSize image' owned := by
  have hmap : ∀ m < g.capacity, image'.mapBit g.mapStart m = image.mapBit g.mapStart m :=
    fun m hm => mapBit_congr
      (hsame _ (mapBlock_lt hm) _ (Nat.mod_lt _ (by decide)))
  have hcount : image'.usedBlocks g = image.usedBlocks g := usedCount_congr hmap
  refine ⟨fun m hm => ?_, fun m hm hused k hk => ?_, ?_, ?_⟩
  · rw [hmap m hm]
    exact h.used_iff m hm
  · rw [hmap m hm] at hused
    rw [hmap k (Nat.lt_trans hk hm)]
    exact h.dense m hm hused k hk
  · rw [htfree, hcount]
    exact h.tfree
  · rw [havail, hcount]
    exact h.avail

theorem BlockLedger.congr (h : BlockLedger g diskSize image owned)
    (hsame : ∀ block, g.Administers block → image'.mStorage block = image.mStorage block) :
    BlockLedger g diskSize image' owned := by
  have hread : ∀ f, image'.counter g f = image.counter g f := fun f =>
    congrArg BitVec.toNat
      (read_congr (p := ⟨g.dynamicBlock, 0⟩) (hsame _ (Or.inr rfl)) f)
  exact h.congr_map (fun page hpage w _ => congrFun (hsame _ (Or.inl ⟨Nat.le_add_right _ _,
    Nat.add_lt_add_left hpage _⟩)) w) (hread _) (hread _)

theorem BlockLedger.of_iff {owned' : Nat → Prop} (h : BlockLedger g diskSize image owned)
    (hiff : ∀ b, owned' b ↔ owned b) : BlockLedger g diskSize image owned' :=
  ⟨fun n hn => (h.used_iff n hn).trans (or_congr_right (hiff n).symm), h.dense, h.tfree, h.avail⟩

theorem INodeLedger.of_iff {owned' : Nat → Prop} (h : INodeLedger g iNodeCnt image owned)
    (hiff : ∀ i, owned' i ↔ owned i) : INodeLedger g iNodeCnt image owned' :=
  ⟨fun i hi => (h.used_iff i hi).trans (or_congr_right (hiff i).symm), h.ifree, h.ninode, h.ireg⟩

theorem INodeLedger.congr (h : INodeLedger g iNodeCnt image owned)
    (hdynamic : ∀ f ∈ [db_ifree, db_ninode, db_part_fd_ireg],
      image'.counter g f = image.counter g f)
    (hsame : ∀ w < cBlockSize, image'.mStorage g.iNodeStart w = image.mStorage g.iNodeStart w) :
    INodeLedger g iNodeCnt image' owned := by
  have hmap : ∀ j < cBlockSize * 64, image'.mapBit g.iNodeStart j = image.mapBit g.iNodeStart j := by
    intro j hj
    refine mapBit_congr ?_
    rw [iNodeMap_block hj]
    exact hsame _ (Nat.mod_lt _ (by decide))
  have hcount : image'.usedINodes g = image.usedINodes g := usedCount_congr hmap
  refine ⟨fun j hj => ?_, ?_, ?_, ?_⟩
  · rw [hmap j hj]
    exact h.used_iff j hj
  · rw [hdynamic db_ifree (by simp), hcount]
    exact h.ifree
  · rw [hdynamic db_ninode (by simp), hcount]
    exact h.ninode
  · rw [hdynamic db_part_fd_ireg (by simp), hcount]
    exact h.ireg

end ledgers

end Mkfs

end CraySim
