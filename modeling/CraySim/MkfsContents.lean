/-
  Subject:   The bytes of a file in an image, and a block more for them.

  The extents of an inode name the blocks of its file, and the bytes fill them one after the other;
  only the last block may have room.

  * `HasExtents`, `HasFile` -- what an inode says, and what its blocks hold,
  * `HasExtents.walk` -- the walk finds the last extent,
  * `Owning`, `OnlyNode` -- the blocks of a file, and what else there is,
  * `Appending` -- the image while bytes are appended,
  * `Appending.put` -- bytes into a block,
  * `Appending.grow`, `Appending.nextBlock` -- a block more.
-/
import CraySim.Lib.ExtentFile
import CraySim.MkfsFile

namespace CraySim

namespace Mkfs

open FirstFit ExtentFile DiskImage

/-! ## 1. Inodes and their blocks -/

theorem InodeField.tOfs_lt (f : InodeField) : f.field.tOfs < 32 := by
  cases f with
  | cdi_at part | cdi_mt part | cdi_ct part => cases part <;> decide
  | cdi_addr aOfs part =>
    cases part <;> exact Nat.lt_trans (Nat.add_lt_add_left aOfs.isLt 16) (by decide)
  | cdi_slock aOfs => exact Nat.lt_trans (Nat.add_lt_add_left aOfs.isLt 24) (by decide)
  | _ => decide

theorem extentField_tOfs (j : Nat) (part : ExtentField) : (extentField j part).tOfs = 16 + j := by
  cases part <;> rfl

theorem extentField_digits (j : Nat) (part : ExtentField) :
    (extentField j part).digits = 32 ∧ (extentField j part).tSize = 32 := by
  cases part <;> exact ⟨rfl, rfl⟩

/-- The words of an inode are the same. -/
def SameINode (p : Pointer) (image image' : DiskImage) : Prop :=
  ∀ w < 32, image'.mStorage p.block (p.ofs + w) = image.mStorage p.block (p.ofs + w)

/-- The bytes of the blocks. -/
def DiskImage.bytes (image : DiskImage) : Nat → Nat → BitVec 8 := fun b o =>
  byteAt (image.mStorage b) o

section same
variable {image image' : DiskImage} {p : Pointer}

theorem SameINode.read (h : SameINode p image image') {f : IntField} (hf : f.tOfs < 32) :
    image'.read p f = image.read p f := IntField.get_congr (h f.tOfs hf)

theorem SameINode.readINode (h : SameINode p image image') (f : InodeField) :
    image'.readINode p f = image.readINode p f :=
  congrArg BitVec.toNat (h.read f.tOfs_lt)

end same

/-- **The extents of an inode.** -/
structure HasExtents (image : DiskImage) (p : Pointer) (exts : List Extent) : Prop where
  size : exts.length ≤ cdiAddrSize
  extent : ∀ j (h : j < exts.length),
    image.readExtent p j .blk = exts[j].first ∧ image.readExtent p j .nblks = exts[j].cnt
  none : exts = [] → image.readExtent p 0 .blk = 0 ∧ image.readExtent p 0 .nblks = 0

theorem HasExtents.congr {image image' : DiskImage} {p : Pointer} {exts : List Extent}
    (h : HasExtents image p exts)
    (hsame : ∀ j < cdiAddrSize, image'.mStorage p.block (p.ofs + (16 + j)) =
      image.mStorage p.block (p.ofs + (16 + j))) : HasExtents image' p exts := by
  have hread : ∀ j < cdiAddrSize, ∀ part, image'.readExtent p j part = image.readExtent p j part :=
    fun j hj part => congrArg BitVec.toNat (IntField.get_congr (by
      rw [extentField_tOfs]
      exact hsame j hj))
  refine ⟨h.size, fun j hj => ?_, fun hnil => ?_⟩
  · have hj8 : j < cdiAddrSize := Nat.lt_of_lt_of_le hj h.size
    rw [hread j hj8, hread j hj8]
    exact h.extent j hj
  · rw [hread 0 (by decide), hread 0 (by decide)]
    exact h.none hnil

/-- The elements of a file need its blocks, all of them. -/
def Filled (exts : List Extent) (len : Nat) : Prop :=
  len ≤ BSIZE * (blocks exts).length ∧ BSIZE * (blocks exts).length < len + BSIZE

/-- **A regular file**: what its inode says, and what its blocks hold. -/
structure HasFile (image : DiskImage) (p : Pointer) (exts : List Extent) (content : Chars) :
    Prop where
  mode : image.readINode p .cdi_mode &&& IFMT = IFREG
  extents : HasExtents image p exts
  pos : ∀ e ∈ exts, 0 < e.cnt
  size : image.readINode p .cdi_size = content.length
  blockCnt : image.readINode p .cdi_blocks = (blocks exts).length
  filled : Filled exts content.length
  holds : Holds BSIZE image.bytes (blocks exts) content

theorem HasFile.congr {image image' : DiskImage} {p : Pointer} {exts : List Extent}
    {content : Chars} (h : HasFile image p exts content) (hsame : SameINode p image image')
    (hblocks : ∀ b ∈ blocks exts, ∀ w < cBlockSize, image'.mStorage b w = image.mStorage b w) :
    HasFile image' p exts content where
  mode := by rw [hsame.readINode, h.mode]
  extents := h.extents.congr fun j hj => hsame _ (by
    have hsize : cdiAddrSize = 8 := rfl
    omega)
  pos := h.pos
  size := by rw [hsame.readINode, h.size]
  blockCnt := by rw [hsame.readINode, h.blockCnt]
  filled := h.filled
  holds := h.holds.congr (by decide) fun b hb o ho => by
    have hw : o / 8 < cBlockSize := Nat.div_lt_of_lt_mul (by rw [Nat.mul_comm]; exact ho)
    unfold bytes byteAt
    rw [hblocks b hb _ hw]

/-! ## 2. The walk -/

section walk
variable {image : DiskImage} {p : Pointer}

/-- From an extent on, the walk ends at the last one. -/
theorem walk_from {len : Nat} (rest pre : List Extent) (last : Extent)
    (h : HasExtents image p (pre ++ rest ++ [last])) (hlast : 0 < last.cnt)
    (hfilled : Filled (pre ++ rest ++ [last]) len) :
    image.walkExtents p ⟨len - BSIZE * (blocks pre).length, pre.length, (blocks pre).length⟩ =
      .ok ⟨len - BSIZE * (blocks (pre ++ rest)).length, (pre ++ rest).length,
        (blocks (pre ++ rest)).length⟩ := by
  obtain ⟨hle, hlt⟩ := hfilled
  rw [blocks_concat, List.length_append, Extent.length_blocks] at hle hlt
  induction rest generalizing pre with
  | nil =>
    rw [List.append_nil] at h hle hlt ⊢
    have hcnt : image.readExtent p pre.length .nblks = last.cnt := by
      rw [(h.extent pre.length (by simp)).2]
      simp
    rw [walkExtents, hcnt]
    refine if_neg ?_
    have hmul : BSIZE * ((blocks pre).length + last.cnt) =
        BSIZE * (blocks pre).length + last.cnt * BSIZE := by
      rw [Nat.mul_add, Nat.mul_comm BSIZE last.cnt]
    show ¬ last.cnt * BSIZE < len - BSIZE * (blocks pre).length
    omega
  | cons e rest ih =>
    have hassoc : pre ++ e :: rest = pre ++ [e] ++ rest := by simp
    rw [hassoc] at h hle hlt ⊢
    have hsize := h.size
    have hcnt : image.readExtent p pre.length .nblks = e.cnt := by
      rw [(h.extent pre.length (by simp)).2]
      simp
    have hpre : (blocks (pre ++ [e])).length = (blocks pre).length + e.cnt := by
      rw [blocks_concat, List.length_append, Extent.length_blocks]
    have hmore : (blocks (pre ++ [e] ++ rest)).length =
        (blocks pre).length + e.cnt + (blocks rest).length := by
      rw [blocks_append, List.length_append, hpre]
    have hstep := ih (pre ++ [e]) h hle hlt
    rw [hpre] at hstep
    rw [hmore] at hlt
    have hmul : BSIZE * ((blocks pre).length + e.cnt) =
        BSIZE * (blocks pre).length + e.cnt * BSIZE := by
      rw [Nat.mul_add, Nat.mul_comm BSIZE e.cnt]
    have hbound : BSIZE * ((blocks pre).length + e.cnt) + BSIZE * 1 ≤
        BSIZE * ((blocks pre).length + e.cnt + (blocks rest).length + last.cnt) := by
      rw [← Nat.mul_add]
      exact Nat.mul_le_mul_left _ (by omega)
    have hsub : len - BSIZE * (blocks pre).length - e.cnt * BSIZE =
        len - BSIZE * ((blocks pre).length + e.cnt) := by omega
    rw [walkExtents, hcnt]
    simp only
    rw [if_pos (by omega), if_pos ?_, hsub]
    · rw [List.length_append, List.length_singleton] at hstep
      exact hstep
    · simp only [List.length_append, List.length_singleton] at hsize
      omega

/-- **The walk finds the last extent.** -/
theorem HasExtents.walk {len : Nat} {init : List Extent} {last : Extent}
    (h : HasExtents image p (init ++ [last])) (hlast : 0 < last.cnt)
    (hfilled : Filled (init ++ [last]) len) :
    image.walkExtents p ⟨len, 0, 0⟩ =
      .ok ⟨len - BSIZE * (blocks init).length, init.length, (blocks init).length⟩ :=
  walk_from init [] last h hlast hfilled

theorem walk_nil (image : DiskImage) (p : Pointer) :
    image.walkExtents p ⟨0, 0, 0⟩ = .ok ⟨0, 0, 0⟩ := by
  rw [walkExtents]
  exact if_neg (Nat.not_lt_zero _)

end walk

/-! ## 3. The image while bytes are appended -/

/-- Where an inode is. -/
def Geometry.iNode (g : Geometry) (i : Nat) : Pointer :=
  ⟨g.iNodeStart + 1 + i / (cBlockSize / 32), i % (cBlockSize / 32) * 32⟩

theorem Formatted.getINode_eq {g : Geometry} {image : DiskImage} (h : Formatted g image) (i : Nat) :
    image.getINode i = g.iNode i := by
  have hstart := h.iNodeStart
  unfold DiskImage.iNodeStart at hstart
  unfold getINode Geometry.iNode
  rw [hstart]

/-- The inodes are behind their map, in front of the data. -/
theorem Geometry.HasINode.between {g : Geometry} {i : Nat} (h : g.HasINode i) :
    g.iNodeStart < (g.iNode i).block ∧ (g.iNode i).block < g.dataStart := by
  have hle := g.iNode_le
  unfold HasINode at h
  have hsize : cBlockSize / 32 = 16 := rfl
  have hblock : (g.iNode i).block = g.iNodeStart + 1 + i / 16 := rfl
  omega

theorem Geometry.not_administers {g : Geometry} {b : Nat} (h : g.iNodeStart ≤ b) :
    ¬ g.Administers b := by
  have hmap := g.map_le
  have hdynamic := g.dynamic_lt
  unfold Administers
  omega

theorem Geometry.super_lt_iNode (g : Geometry) : SUPERB < g.iNodeStart := by
  have hsuper := g.super_lt
  have hmap := g.map_le
  have hdynamic := g.dynamic_lt
  omega

theorem Geometry.iNode_lt_data (g : Geometry) : g.iNodeStart < g.dataStart := by
  have hle := g.iNode_le
  have hpos := g.iNode_pos
  omega

/-- The super block is none of those an allocation changes. -/
theorem Geometry.super_not_administered (g : Geometry) : ¬ g.Administers SUPERB := by
  have hsuper := g.super_lt
  have hmap := g.map_le
  unfold Administers
  omega

/-- **The blocks of a file**: the map counts them beside those of the others. -/
structure Owning (g : Geometry) (diskSize : Nat) (image : DiskImage) (others : Nat → Prop)
    (exts : List Extent) : Prop where
  formatted : Formatted g image
  ledger : BlockLedger g diskSize image fun b => others b ∨ b ∈ blocks exts
  apart : ∀ b ∈ blocks exts, ¬ others b
  nodup : (blocks exts).Nodup
  place : ∀ b ∈ blocks exts, g.dataStart ≤ b ∧ b < g.capacity

theorem Owning.length_le {g : Geometry} {diskSize : Nat} {image : DiskImage} {others : Nat → Prop}
    {exts : List Extent} (h : Owning g diskSize image others exts) :
    (blocks exts).length < 2 ^ 32 :=
  Nat.lt_of_le_of_lt (length_le_of_lt h.nodup fun b hb => (h.place b hb).2) g.numbers

/-- The blocks of a file make one run, and the next block that is given out follows it. -/
def Contiguous (g : Geometry) (image : DiskImage) (exts : List Extent) : Prop :=
  ∀ init last, exts = init ++ [last] → init = [] ∧ last.next = image.usedBlocks g

theorem contiguous_nil (g : Geometry) (image : DiskImage) : Contiguous g image [] :=
  fun init _ h => absurd h.symm (List.append_ne_nil_of_right_ne_nil init (List.cons_ne_nil _ _))

theorem Contiguous.grow {g : Geometry} {image image' : DiskImage} {exts : List Extent}
    (h : Contiguous g image exts) (hused : image'.usedBlocks g = image.usedBlocks g + 1) :
    Contiguous g image' (ExtentFile.grow exts (image.usedBlocks g)) := by
  intro init last heq
  rcases List.eq_nil_or_concat' exts with rfl | ⟨init', last', rfl⟩
  · rw [grow_nil] at heq
    obtain ⟨rfl, hlast⟩ := List.append_inj' ((List.nil_append _).trans heq) rfl
    obtain rfl := List.singleton_inj.mp hlast
    exact ⟨rfl, hused.symm⟩
  · obtain ⟨rfl, hnext⟩ := h init' last' rfl
    rw [← hnext, grow_merge] at heq
    obtain ⟨rfl, hlast⟩ := List.append_inj' heq rfl
    obtain rfl := List.singleton_inj.mp hlast
    refine ⟨rfl, ?_⟩
    rw [hused, ← hnext]
    exact Nat.add_assoc _ _ _ |>.symm

theorem Contiguous.congr {g : Geometry} {image image' : DiskImage} {exts : List Extent}
    (h : Contiguous g image exts) (hused : image'.usedBlocks g = image.usedBlocks g) :
    Contiguous g image' exts := by
  intro init last heq
  rw [hused]
  exact h init last heq

/-- **The blocks in use, when the blocks of a file change.** -/
theorem Owning.usedBlocks_eq {g : Geometry} {diskSize : Nat} {image image' : DiskImage}
    {others : Nat → Prop} {exts : List Extent} {bs : List Nat} {exts' : List Extent}
    (h : Owning g diskSize image others exts) (h' : Owning g diskSize image' others exts')
    (hblocks : blocks exts' = blocks exts ++ bs) :
    image'.usedBlocks g = image.usedBlocks g + bs.length := by
  have hnodup := h'.nodup
  rw [hblocks, List.nodup_append] at hnodup
  refine h.ledger.usedBlocks_add h'.ledger hnodup.2.1 (fun b hb => ?_) fun b => ?_
  · have hmem : b ∈ blocks exts' := by
      rw [hblocks]
      exact List.mem_append_right _ hb
    obtain ⟨hlow, hhigh⟩ := h'.place b hmem
    refine ⟨hlow, hhigh, ?_⟩
    rintro (ho | hold)
    · exact h'.apart b hmem ho
    · exact hnodup.2.2 b hold b hb rfl
  · rw [hblocks, List.mem_append, or_assoc]

/-- **Nothing changes but a file**: its inode, its blocks, and what an allocation changes. -/
structure OnlyNode (g : Geometry) (p : Pointer) (exts : List Extent) (image0 image : DiskImage) :
    Prop where
  beside : ∀ b, ¬ g.Administers b → b ≠ p.block → b ∉ blocks exts →
    image.mStorage b = image0.mStorage b
  words : ∀ w, w < p.ofs ∨ p.ofs + 32 ≤ w → image.mStorage p.block w = image0.mStorage p.block w
  counters : ∀ f, db_tfree.Apart f → db_fpm_bmp_avail.Apart f →
    image.counter g f = image0.counter g f

/-- **The image while bytes are appended to the file of an inode**: the extents and the bytes the
    file has so far, and what is as it was. -/
structure Appending (g : Geometry) (diskSize : Nat) (p : Pointer) (others : Nat → Prop)
    (image0 image : DiskImage) (exts : List Extent) (content : Chars) : Prop
    extends Owning g diskSize image others exts where
  extents : HasExtents image p exts
  pos : ∀ e ∈ exts, 0 < e.cnt
  holds : Holds BSIZE image.bytes (blocks exts) content
  beside : ∀ b, ¬ g.Administers b → b ≠ p.block → b ∉ blocks exts →
    image.mStorage b = image0.mStorage b
  words : ∀ w, w < p.ofs + 16 ∨ p.ofs + 24 ≤ w →
    image.mStorage p.block w = image0.mStorage p.block w
  counters : ∀ f, db_tfree.Apart f → db_fpm_bmp_avail.Apart f →
    image.counter g f = image0.counter g f

section appending
variable {g : Geometry} {diskSize n : Nat} {p : Pointer} {others : Nat → Prop}
  {image0 image : DiskImage} {exts : List Extent} {content : Chars}

theorem counter_setBlock {b : Nat} (words : Words) (hb : b ≠ g.dynamicBlock) (f : IntField) :
    (image.setBlock b words).counter g f = image.counter g f :=
  congrArg BitVec.toNat (read_congr (p := ⟨g.dynamicBlock, 0⟩)
    (setBlock_of_ne _ _ fun h => hb h.symm) f)

/-- **Bytes go into a block of the file.** -/
theorem Appending.put (h : Appending g diskSize p others image0 image exts content)
    (hp : p.block < g.dataStart) {b : Nat} {data : Chars}
    (hb : (blocks exts)[content.length / BSIZE]? = some b)
    (hfits : content.length % BSIZE + data.length ≤ BSIZE) :
    Appending g diskSize p others image0
      (image.setBlock b (copyBytes (image.mStorage b) (content.length % BSIZE) data)) exts
      (content ++ data) := by
  have hmem := List.mem_of_getElem? hb
  have hlow : g.iNodeStart < b := Nat.lt_of_lt_of_le g.iNode_lt_data (h.place b hmem).1
  have hadmin : ¬ g.Administers b := Geometry.not_administers (Nat.le_of_lt hlow)
  have hpb : p.block ≠ b := Nat.ne_of_lt (Nat.lt_of_lt_of_le hp (h.place b hmem).1)
  have hsuper : SUPERB ≠ b := Nat.ne_of_lt (Nat.lt_trans g.super_lt_iNode hlow)
  refine ⟨⟨h.formatted.congr (setBlock_of_ne _ _ hsuper), h.ledger.congr fun b' hb' => ?_,
    h.apart, h.nodup, h.place⟩, h.extents.congr fun w _ => ?_, h.pos, ?_,
    fun b' hb' hpb' hnot => ?_, fun w hw => ?_, fun f h1 h2 => ?_⟩
  · refine setBlock_of_ne _ _ ?_
    rintro rfl
    exact hadmin hb'
  · rw [setBlock_of_ne _ _ hpb]
  · refine h.holds.put (by decide) h.nodup hb hfits (fun b' _ hne o _ => ?_) (fun o ho => ?_)
      fun j hj => ?_
    · unfold bytes
      rw [setBlock_of_ne _ _ hne]
    · unfold bytes
      rw [setBlock_self, byteAt_copyBytes, if_neg (by omega)]
    · unfold bytes
      rw [setBlock_self, byteAt_copyBytes, if_pos (by omega), Nat.add_sub_cancel_left,
        List.getD_eq_getElem _ _ hj]
  · rw [setBlock_of_ne _ _ (by rintro rfl; exact hnot hmem)]
    exact h.beside b' hb' hpb' hnot
  · rw [setBlock_of_ne _ _ hpb]
    exact h.words w hw
  · rw [counter_setBlock _ (fun he => hadmin (Or.inr he))]
    exact h.counters f h1 h2

/-! ## 4. A block more -/

section extents
variable {j j' v : Nat} {part part' : ExtentField}

theorem readExtent_writeExtent (hv : v < 2 ^ 32) :
    (image.writeExtent p j part v).readExtent p j part = v := by
  obtain ⟨hdigits, hsize⟩ := extentField_digits j part
  unfold readExtent writeExtent
  rw [toNat_read_write, BitVec.toNat_ofNat, hdigits, hsize, Nat.mod_mod, Nat.mod_eq_of_lt hv]

theorem readExtent_writeExtent_of_ne (h : j ≠ j' ∨ part ≠ part') :
    (image.writeExtent p j part v).readExtent p j' part' = image.readExtent p j' part' := by
  refine congrArg BitVec.toNat (read_write_of_apart _ _ _ _ _ ?_)
  by_cases hj : j = j'
  · subst hj
    refine Or.inr ?_
    cases part <;> cases part' <;> first
      | exact Or.inl (Nat.le_refl 32)
      | exact Or.inr (Nat.le_refl 32)
      | exact absurd rfl (h.resolve_left (fun hne => hne rfl))
  · refine Or.inl ?_
    rw [extentField_tOfs, extentField_tOfs]
    omega

theorem writeExtent_of_ne {b : Nat} (h : b ≠ p.block) :
    (image.writeExtent p j part v).mStorage b = image.mStorage b := write_of_ne _ _ _ _ h

theorem writeExtent_word {w : Nat} (h : w ≠ p.ofs + (16 + j)) :
    (image.writeExtent p j part v).mStorage p.block w = image.mStorage p.block w := by
  unfold writeExtent write
  rw [setBlock_self, IntField.assign_of_ne]
  rw [extentField_tOfs]
  exact h

end extents

/-- A new extent. -/
def newExtent (image : DiskImage) (p : Pointer) (j n : Nat) : DiskImage :=
  (image.writeExtent p j .blk n).writeExtent p j .nblks 1

theorem HasExtents.add (h : HasExtents image p exts) (hroom : exts.length < cdiAddrSize)
    (hn : n < 2 ^ 32) : HasExtents (newExtent image p exts.length n) p (exts ++ [⟨n, 1⟩]) := by
  refine ⟨?_, fun j hj => ?_, fun hnil => absurd hnil (by simp)⟩
  · rw [List.length_append, List.length_singleton]
    exact hroom
  · unfold newExtent
    rw [List.length_append, List.length_singleton] at hj
    by_cases hlast : j = exts.length
    · subst hlast
      rw [readExtent_writeExtent_of_ne (Or.inr (by decide)), readExtent_writeExtent hn,
        readExtent_writeExtent (by decide), List.getElem_concat_length rfl]
      exact ⟨rfl, rfl⟩
    · have hlt : j < exts.length := by omega
      have hne : exts.length ≠ j := fun he => hlast he.symm
      rw [readExtent_writeExtent_of_ne (Or.inl hne), readExtent_writeExtent_of_ne (Or.inl hne),
        readExtent_writeExtent_of_ne (Or.inl hne), readExtent_writeExtent_of_ne (Or.inl hne),
        List.getElem_append_left hlt]
      exact h.extent j hlt

theorem HasExtents.longer {init : List Extent} {last : Extent}
    (h : HasExtents image p (init ++ [last])) (hcnt : last.cnt + 1 < 2 ^ 32) :
    HasExtents (image.writeExtent p init.length .nblks
      (image.readExtent p init.length .nblks + 1)) p
        (init ++ [{ last with cnt := last.cnt + 1 }]) := by
  have hlast := h.extent init.length (by simp)
  rw [List.getElem_concat_length rfl] at hlast
  have hsize := h.size
  rw [List.length_append, List.length_singleton] at hsize
  refine ⟨?_, fun j hj => ?_, fun hnil => absurd hnil (by simp)⟩
  · rw [List.length_append, List.length_singleton]
    exact hsize
  · rw [List.length_append, List.length_singleton] at hj
    by_cases hj' : j = init.length
    · subst hj'
      rw [readExtent_writeExtent_of_ne (Or.inr (by decide)), hlast.2, readExtent_writeExtent hcnt,
        List.getElem_concat_length rfl]
      exact ⟨hlast.1, rfl⟩
    · have hlt : j < init.length := by omega
      have hne : init.length ≠ j := fun he => hj' he.symm
      have hold := h.extent j (by simp; omega)
      rw [List.getElem_append_left hlt] at hold
      rw [readExtent_writeExtent_of_ne (Or.inl hne), readExtent_writeExtent_of_ne (Or.inl hne),
        List.getElem_append_left hlt]
      exact hold

/-- **A block more**: it is taken from the map and noted in the inode. -/
theorem Appending.grow (h : Appending g diskSize p others image0 image exts content)
    (hp : g.iNodeStart < p.block ∧ p.block < g.dataStart)
    (hfound : firstFree (image.mapBit g.mapStart) g.capacity = some n) {image' : DiskImage}
    (hext : HasExtents image' p (grow exts n))
    (hother : ∀ b, b ≠ p.block → image'.mStorage b = (image.takeBlock g n).mStorage b)
    (hwords : ∀ w, w < p.ofs + 16 ∨ p.ofs + 24 ≤ w →
      image'.mStorage p.block w = (image.takeBlock g n).mStorage p.block w) :
    Appending g diskSize p others image0 image' (ExtentFile.grow exts n) content := by
  obtain ⟨hn, hdata, hfresh⟩ := h.ledger.fresh hfound
  have hpa : ¬ g.Administers p.block := Geometry.not_administers (Nat.le_of_lt hp.1)
  have hmem : ∀ b, b ∈ blocks (ExtentFile.grow exts n) ↔ b ∈ blocks exts ∨ b = n := by
    intro b
    rw [blocks_grow, List.mem_append, List.mem_singleton]
  -- blocks that are neither administered nor that of the inode
  have hkeep : ∀ b, ¬ g.Administers b → b ≠ p.block → image'.mStorage b = image.mStorage b :=
    fun b hb hpb => (hother b hpb).trans (takeBlock_of_ne hn hb)
  have hfile : ∀ b ∈ blocks exts, image'.mStorage b = image.mStorage b := fun b hb =>
    hkeep b (Geometry.not_administers
        (Nat.le_of_lt (Nat.lt_of_lt_of_le g.iNode_lt_data (h.place b hb).1)))
      (Nat.ne_of_gt (Nat.lt_of_lt_of_le hp.2 (h.place b hb).1))
  have hadmin : ∀ b, g.Administers b → image'.mStorage b = (image.takeBlock g n).mStorage b := by
    intro b hb
    refine hother b ?_
    rintro rfl
    exact hpa hb
  refine ⟨⟨h.formatted.congr ?_, ?_, fun b hb => ?_, ?_, fun b hb => ?_⟩, hext, grow_pos h.pos, ?_,
    fun b hb hpb hnot => ?_, fun w hw => ?_, fun f h1 h2 => ?_⟩
  · exact hkeep SUPERB g.super_not_administered
      (Nat.ne_of_lt (Nat.lt_trans g.super_lt_iNode hp.1))
  · have hledger := (h.ledger.takeBlock hfound).congr hadmin
    refine hledger.of_iff fun b => ?_
    rw [hmem, or_assoc]
  · rcases (hmem b).mp hb with hold | rfl
    · exact h.apart b hold
    · exact fun ho => hfresh (Or.inl ho)
  · rw [blocks_grow]
    refine List.nodup_append.mpr ⟨h.nodup, List.nodup_singleton n, fun b hb b' hb' => ?_⟩
    rw [List.mem_singleton.mp hb']
    rintro rfl
    exact hfresh (Or.inr hb)
  · rcases (hmem b).mp hb with hold | rfl
    · exact h.place b hold
    · exact ⟨hdata, hn⟩
  · rw [blocks_grow]
    refine (h.holds.congr (by decide) fun b hb o _ => ?_).more [n]
    unfold bytes
    rw [hfile b hb]
  · rw [hkeep b hb hpb]
    exact h.beside b hb hpb fun hold => hnot ((hmem b).mpr (Or.inl hold))
  · rw [hwords w hw, takeBlock_of_ne hn hpa]
    exact h.words w hw
  · rw [← h.counters f h1 h2]
    refine congrArg BitVec.toNat ?_
    rw [read_congr (hadmin _ (Or.inr rfl))]
    exact (takeBlock_read hn).2.2 f h1 h2

/-- The variables of the loop stand at the last extent. -/
structure Placed (st : AppendState) (exts : List Extent) : Prop where
  total : st.totalBlocks = (blocks exts).length
  first : exts = [] →
    st.blockDescIdx = 0 ∧ st.currBlock = 0 ∧ st.currBlockCnt = 0 ∧ st.currEndBlock = 0
  last : ∀ init last, exts = init ++ [last] →
    st.blockDescIdx = init.length ∧ st.currEndBlock = last.next ∧ 0 < st.currBlockCnt

/-- The variables with a new block. -/
def atBlock (st : AppendState) (idx n : Nat) : AppendState :=
  { st with
    blockDescIdx := idx
    currBlock := n
    currBlockCnt := 1
    currEndBlock := nextNumber n
    totalBlocks := st.totalBlocks + 1 }

theorem nextNumber_eq (hn : n < g.capacity) : nextNumber n = n + 1 := by
  have hnumbers := g.numbers
  unfold Geometry.capacity at hn
  exact Nat.mod_eq_of_lt (by omega)

variable {st : AppendState}

theorem Placed.atBlock {init : List Extent} {last : Extent}
    (h : Placed st exts) (hgrow : grow exts n = init ++ [last]) (hnext : last.next = n + 1)
    (hn : n < g.capacity) : Placed (atBlock st init.length n) (grow exts n) := by
  refine ⟨?_, fun hnil => ?_, fun init' last' heq => ?_⟩
  · show st.totalBlocks + 1 = _
    rw [h.total, blocks_grow, List.length_append, List.length_singleton]
  · rw [hgrow] at hnil
    exact absurd hnil (by simp)
  · obtain ⟨rfl, rfl⟩ := List.append_inj' (hgrow.symm.trans heq) rfl |>.imp id List.singleton_inj.mp
    exact ⟨rfl, (nextNumber_eq hn).trans hnext.symm, Nat.one_pos⟩

theorem nextBlock_merge (hnext : st.currEndBlock = n) (hidx : st.blockDescIdx < cdiAddrSize) :
    nextBlock p st n image = (.ok (atBlock st st.blockDescIdx n),
      image.writeExtent p st.blockDescIdx .nblks
        (image.readExtent p st.blockDescIdx .nblks + 1)) := by
  unfold nextBlock
  rw [if_pos hnext]
  exact Run.bind_apply_ok (crayAssert_true hidx image)

theorem nextBlock_first (hnext : st.currEndBlock ≠ n)
    (hzero : st.currBlock = 0 ∧ st.currBlockCnt = 0) (hidx : st.blockDescIdx = 0) :
    nextBlock p st n image = (.ok (atBlock st 0 n), newExtent image p 0 n) := by
  unfold nextBlock
  rw [if_neg hnext, if_pos hzero, hidx]
  rfl

theorem nextBlock_more (hnext : st.currEndBlock ≠ n)
    (hzero : ¬ (st.currBlock = 0 ∧ st.currBlockCnt = 0)) :
    nextBlock p st n image = if st.blockDescIdx + 1 < cdiAddrSize then
      (.ok (atBlock st (st.blockDescIdx + 1) n), newExtent image p (st.blockDescIdx + 1) n)
    else (.error .assertion, image) := by
  unfold nextBlock
  rw [if_neg hnext, if_neg hzero]
  split
  · rename_i hlt
    refine (Run.bind_apply_ok (crayAssert_true (Nat.le_of_lt hlt) image)).trans ?_
    exact Run.bind_apply_ok (crayAssert_true hlt image)
  · rename_i hge
    by_cases hle : st.blockDescIdx + 1 ≤ cdiAddrSize
    · refine (Run.bind_apply_ok (crayAssert_true hle image)).trans ?_
      exact Run.bind_apply_error (crayAssert_false hge image)
    · refine (Run.bind_apply_ok (Run.pure_apply _ image)).trans ?_
      exact Run.bind_apply_error (crayAssert_false hle image)

/-- **`nextBlock` takes the block over**, or the inode has no room for an extent more. -/
theorem Appending.nextBlock (h : Appending g diskSize p others image0 image exts content)
    (hp : g.iNodeStart < p.block ∧ p.block < g.dataStart) (hst : Placed st exts)
    (hfound : firstFree (image.mapBit g.mapStart) g.capacity = some n) :
    nextBlock p st n (image.takeBlock g n) = (.error .assertion, image.takeBlock g n) ∧
        ¬ Contiguous g image exts ∨
      ∃ idx image', nextBlock p st n (image.takeBlock g n) =
          (.ok (atBlock st idx n), image') ∧
        Appending g diskSize p others image0 image' (ExtentFile.grow exts n) content ∧
        Placed (atBlock st idx n) (ExtentFile.grow exts n) := by
  obtain ⟨hn, hdata, -⟩ := h.ledger.fresh hfound
  have hsmall : n + 1 < 2 ^ 32 := by
    have hnumbers := g.numbers
    unfold Geometry.capacity at hn
    omega
  have hext : HasExtents (image.takeBlock g n) p exts := h.extents.congr fun w _ => by
    rw [takeBlock_of_ne hn (Geometry.not_administers (Nat.le_of_lt hp.1))]
  rcases List.eq_nil_or_concat' exts with rfl | ⟨init, last, rfl⟩
  · -- the first block
    obtain ⟨hidx, hblock, hcnt, hend⟩ := hst.first rfl
    have hnext : st.currEndBlock ≠ n := by
      have hlow := g.iNode_lt_data
      omega
    have hone : ExtentFile.grow [] n = [] ++ [⟨n, 1⟩] := grow_nil n
    refine Or.inr ⟨0, _, nextBlock_first hnext ⟨hblock, hcnt⟩ hidx,
      h.grow hp hfound (hext.add (by decide) (by omega)) (fun b hb => ?_) fun w hw => ?_,
      hst.atBlock hone rfl hn⟩
    · exact (writeExtent_of_ne hb).trans (writeExtent_of_ne hb)
    · exact (writeExtent_word (by omega)).trans (writeExtent_word (by omega))
  · obtain ⟨hidx, hend, hcnt⟩ := hst.last init last rfl
    have hsize := h.extents.size
    rw [List.length_append, List.length_singleton] at hsize
    have hsize8 : cdiAddrSize = 8 := rfl
    by_cases hnext : last.next = n
    · -- the last extent is made longer
      subst hnext
      have hlt : st.blockDescIdx < cdiAddrSize := by omega
      have hbound : last.cnt ≤ last.next := Nat.le_add_left _ _
      have hlonger := hext.longer (by omega)
      rw [← grow_merge, ← hidx] at hlonger
      refine Or.inr ⟨st.blockDescIdx, _, nextBlock_merge hend hlt,
        h.grow hp hfound hlonger (fun b hb => writeExtent_of_ne hb) (fun w hw => ?_), ?_⟩
      · exact writeExtent_word (by omega)
      · rw [hidx]
        exact hst.atBlock (grow_merge init last) rfl hn
    · -- an extent more
      have hrun := @nextBlock_more n p (image.takeBlock g n) st (by rw [hend]; exact hnext)
        (by omega)
      by_cases hlt : st.blockDescIdx + 1 < cdiAddrSize
      · rw [if_pos hlt] at hrun
        have hlen : (init ++ [last]).length = st.blockDescIdx + 1 := by
          rw [List.length_append, List.length_singleton, hidx]
        have hadd := hext.add (n := n) (by rw [hlen]; exact hlt) (by omega)
        rw [← grow_add init hnext, hlen] at hadd
        refine Or.inr ⟨_, _, hrun, h.grow hp hfound hadd (fun b hb => ?_) fun w hw => ?_, ?_⟩
        · exact (writeExtent_of_ne hb).trans (writeExtent_of_ne hb)
        · exact (writeExtent_word (by omega)).trans (writeExtent_word (by omega))
        · rw [← hlen]
          exact hst.atBlock (grow_add init hnext) rfl hn
      · rw [if_neg hlt] at hrun
        refine Or.inl ⟨hrun, fun hcontiguous => hnext ?_⟩
        rw [(hcontiguous init last rfl).2, h.ledger.usedBlocks_eq hfound]

end appending

end Mkfs

end CraySim
