/-
  Subject:   Entries appended to a directory, one after the other.

  A directory that was just made has no block; `AppendToDir` gives it one with the first entry, and
  the directory stays within this block.

  * `Layout`, `NewDir` -- the image, and the directory, as the file system is made,
  * `HasDir` -- a directory with entries,
  * `NewDir.appendToDir_first`, `HasDir.append`, `HasDir.full`, `HasDir.rejected` -- what a call
    does,
  * `Keeps` -- the claim for a sequence of calls,
  * `keeps_iff` -- when it holds.
-/
import CraySim.MkfsAppend

namespace CraySim

namespace Mkfs

namespace DiskImage

/-! ## 1. Inodes, read and written -/

section frames
variable {image image' : DiskImage} {p : Pointer} {f g : InodeField} {v : Nat}

theorem getINode_congr (h : image'.mStorage SUPERB = image.mStorage SUPERB) (aINodeIdx : Nat) :
    image'.getINode aINodeIdx = image.getINode aINodeIdx := by
  rw [getINode, getINode, read, read, getSuperBlock, h]

theorem readINode_congr (h : image'.mStorage p.block = image.mStorage p.block) (f : InodeField) :
    image'.readINode p f = image.readINode p f := by
  rw [readINode, readINode, read, read, h]

theorem writeINode_of_ne {block : Nat} (h : block ≠ p.block) :
    (image.writeINode p f v).mStorage block = image.mStorage block :=
  write_of_ne _ _ _ _ h

theorem readINode_writeINode (hv : v < 2 ^ f.field.digits) (hsize : v < 2 ^ f.field.tSize) :
    (image.writeINode p f v).readINode p f = v := by
  rw [readINode, writeINode, toNat_read_write, BitVec.toNat_ofNat, Nat.mod_eq_of_lt hv,
    Nat.mod_eq_of_lt hsize]

theorem readINode_writeINode_of_apart (h : f.field.Apart g.field) :
    (image.writeINode p f v).readINode p g = image.readINode p g := by
  rw [readINode, writeINode, read_write_of_apart _ _ _ _ _ h, readINode]

end frames

/-- The block of a directory. -/
def dirBlock (image : DiskImage) (aINode : BitVec 32) : Nat :=
  image.readINode (image.getINode aINode.toNat) (.cdi_addr 0 .blk)

/-- A directory: the words of its inode, and its block. -/
def directory (image : DiskImage) (aINode : BitVec 32) : (Fin 32 → CInt) × Words :=
  let iNode := image.getINode aINode.toNat
  (fun i => image.mStorage iNode.block (iNode.ofs + i), image.mStorage (image.dirBlock aINode))

/-! ## 2. The image, and a directory in it -/

/-- What the calls of `CreateSuperBlock` and `MkDir` provide: the super block, the inode, the map
    and the dynamic block are different blocks, the first two are not free, and the map has entries
    for numbers of 32 bits only. -/
structure Layout (image : DiskImage) (aINode : BitVec 32) : Prop where
  super_ne_map : ∀ page < image.mapBlockCnt, SUPERB ≠ image.mapStart + page
  super_ne_dynamic : SUPERB ≠ image.getDynamicBlock.block
  iNode_ne_super : (image.getINode aINode.toNat).block ≠ SUPERB
  iNode_ne_map : ∀ page < image.mapBlockCnt,
    (image.getINode aINode.toNat).block ≠ image.mapStart + page
  iNode_ne_dynamic : (image.getINode aINode.toNat).block ≠ image.getDynamicBlock.block
  super_used : ¬ image.IsFree SUPERB
  iNode_used : ¬ image.IsFree (image.getINode aINode.toNat).block
  numbers : image.mapBlockCnt * (cBlockSize * 64) ≤ 2 ^ 32

/-- The inode of a directory with a number of blocks. -/
structure IsDir (image : DiskImage) (aINode : BitVec 32) (cnt : Nat) : Prop where
  mode : image.readINode (image.getINode aINode.toNat) .cdi_mode &&& IFMT = IFDIR
  nblks : image.readINode (image.getINode aINode.toNat) (.cdi_addr 0 .nblks) = cnt
  size : image.readINode (image.getINode aINode.toNat) .cdi_size = cnt * BSIZE

/-- A directory without a block, as `MkDir` makes it. -/
structure NewDir (image : DiskImage) (aINode : BitVec 32) : Prop extends IsDir image aINode 0 where
  blk : image.dirBlock aINode = 0

/-- **A directory with entries.** -/
structure HasDir (image : DiskImage) (aINode : BitVec 32) (init : List Entry) (e : Entry) : Prop
    extends IsDir image aINode 1 where
  block_ne_super : image.dirBlock aINode ≠ SUPERB
  block_ne_iNode : image.dirBlock aINode ≠ (image.getINode aINode.toNat).block
  packed : Packed (image.mStorage (image.dirBlock aINode)) init e

section calls
variable {image image' : DiskImage} {aINode : BitVec 32} {cnt : Nat}

/-- The function, once the place of the entry is known. -/
theorem IsDir.appendToDir_eq (h : IsDir image aINode cnt) (hone : cnt ≤ 1) {place : Nat × Nat}
    (hplace : findPlace (image.getINode aINode.toNat) (image.dirBlock aINode) cnt image =
      (.ok place, image')) (d : DirEntry) :
    appendToDir aINode d image =
      if place.2 + usedLength d.mStorage 0 / 8 ≤ cBlockSize then
        (.ok (), image'.setBlock place.1 (putEntry (image'.mStorage place.1) place.2 d))
      else (.error .assertion, image') := by
  rw [dirBlock] at hplace
  rw [appendToDir, Run.bind_apply_ok (Run.get_apply image),
    Run.bind_apply_ok (crayAssert_true h.mode image), h.nblks,
    Run.bind_apply_ok (crayAssert_true h.size image),
    Run.bind_apply_ok (crayAssert_true hone image), Run.bind_apply_ok hplace]
  split
  · rename_i hfits
    rw [Run.bind_apply_ok (crayAssert_true hfits image'), Run.modify_apply]
  · rename_i hfits
    exact Run.bind_apply_error (crayAssert_false hfits image')

theorem IsDir.appendToDir_error (h : IsDir image aINode cnt) (hone : cnt ≤ 1) {e : MkfsExn}
    (hplace : findPlace (image.getINode aINode.toNat) (image.dirBlock aINode) cnt image =
      (.error e, image')) (d : DirEntry) : appendToDir aINode d image = (.error e, image') := by
  rw [dirBlock] at hplace
  rw [appendToDir, Run.bind_apply_ok (Run.get_apply image),
    Run.bind_apply_ok (crayAssert_true h.mode image), h.nblks,
    Run.bind_apply_ok (crayAssert_true h.size image),
    Run.bind_apply_ok (crayAssert_true hone image)]
  exact Run.bind_apply_error hplace

end calls

/-! ## 3. The first entry -/

/-- An inode with its first block. -/
def withBlock (image : DiskImage) (iNode : Pointer) (newBlock : Nat) : DiskImage :=
  let image := image.writeINode iNode (.cdi_addr 0 .blk) newBlock
  let image := image.writeINode iNode (.cdi_addr 0 .nblks) 1
  let image :=
    image.writeINode iNode .cdi_size (image.readINode iNode (.cdi_addr 0 .nblks) * BSIZE)
  image.writeINode iNode .cdi_blocks (image.readINode iNode (.cdi_addr 0 .nblks))

theorem firstBlock_eq {image image' : DiskImage} {n : Nat}
    (h : getFreeBlock image = (.ok n, image')) (iNode : Pointer) :
    firstBlock iNode 0 image = (.ok (n % 2 ^ 32, 0), image'.withBlock iNode (n % 2 ^ 32)) := by
  rw [firstBlock, Run.bind_apply_ok h]
  rfl

section withBlock
variable (image : DiskImage) (iNode : Pointer) (newBlock : Nat)

theorem withBlock_of_ne {block : Nat} (h : block ≠ iNode.block) :
    (image.withBlock iNode newBlock).mStorage block = image.mStorage block := by
  rw [withBlock, writeINode_of_ne h, writeINode_of_ne h, writeINode_of_ne h, writeINode_of_ne h]

theorem withBlock_mode :
    (image.withBlock iNode newBlock).readINode iNode .cdi_mode =
      image.readINode iNode .cdi_mode := by
  rw [withBlock, readINode_writeINode_of_apart (by decide),
    readINode_writeINode_of_apart (by decide), readINode_writeINode_of_apart (by decide),
    readINode_writeINode_of_apart (by decide)]

theorem withBlock_nblks :
    (image.withBlock iNode newBlock).readINode iNode (.cdi_addr 0 .nblks) = 1 := by
  rw [withBlock, readINode_writeINode_of_apart (by decide),
    readINode_writeINode_of_apart (by decide), readINode_writeINode (by decide) (by decide)]

theorem withBlock_size : (image.withBlock iNode newBlock).readINode iNode .cdi_size = BSIZE := by
  have hone : ((image.writeINode iNode (.cdi_addr 0 .blk) newBlock).writeINode iNode
      (.cdi_addr 0 .nblks) 1).readINode iNode (.cdi_addr 0 .nblks) = 1 :=
    readINode_writeINode (by decide) (by decide)
  rw [withBlock, readINode_writeINode_of_apart (by decide), hone, Nat.one_mul]
  exact readINode_writeINode (by decide) (by decide)

theorem withBlock_blk (h : newBlock < 2 ^ 32) :
    (image.withBlock iNode newBlock).readINode iNode (.cdi_addr 0 .blk) = newBlock := by
  rw [withBlock, readINode_writeINode_of_apart (by decide),
    readINode_writeINode_of_apart (by decide), readINode_writeINode_of_apart (by decide),
    readINode_writeINode h h]

end withBlock

theorem usedLength_new_le (e : Entry) :
    usedLength (DirEntry.new e.name e.ino).mStorage 0 / 8 ≤ cBlockSize := by
  have hlt := namelen_lt (DirEntry.new e.name e.ino).mStorage 0
  have hsize : cBlockSize = 512 := rfl
  rw [Mkfs.usedLength_eq, Nat.mul_div_cancel _ (by decide), entrySize]
  omega

/-- A block that is found free has a number of 32 bits, and is neither the super block nor that of
    the inode. -/
theorem Layout.free {image : DiskImage} {aINode : BitVec 32} (h : Layout image aINode) {n : Nat}
    (hfree : image.IsFree n) :
    n < 2 ^ 32 ∧ n ≠ SUPERB ∧ n ≠ (image.getINode aINode.toNat).block := by
  refine ⟨?_, ?_, ?_⟩
  · have hnumbers := h.numbers
    have hpage := hfree.1
    have hsize : cBlockSize = 512 := rfl
    rw [hsize] at hnumbers hpage
    omega
  · rintro rfl
    exact h.super_used hfree
  · rintro rfl
    exact h.iNode_used hfree

/-- The directory that an inode gets with its first block and an entry. -/
theorem hasDir_first {image : DiskImage} {aINode : BitVec 32}
    (hmode : image.readINode (image.getINode aINode.toNat) .cdi_mode &&& IFMT = IFDIR)
    (hiNode : (image.getINode aINode.toNat).block ≠ SUPERB) {n : Nat} (hn : n < 2 ^ 32)
    (hsuper : n ≠ SUPERB) (hblock : n ≠ (image.getINode aINode.toNat).block) {e : Entry}
    (hname : e.name.length < 2 ^ 10) (hfits : e.words ≤ cBlockSize) (words : Words) :
    HasDir ((image.withBlock (image.getINode aINode.toNat) n).setBlock n
      (putEntry words 0 (DirEntry.new e.name e.ino))) aINode [] e := by
  have hsame : ((image.withBlock (image.getINode aINode.toNat) n).setBlock n
      (putEntry words 0 (DirEntry.new e.name e.ino))).getINode aINode.toNat =
        image.getINode aINode.toNat :=
    getINode_congr (by rw [setBlock_of_ne _ _ hsuper.symm, withBlock_of_ne _ _ _ hiNode.symm]) _
  have hread : ∀ f : InodeField, ((image.withBlock (image.getINode aINode.toNat) n).setBlock n
      (putEntry words 0 (DirEntry.new e.name e.ino))).readINode (image.getINode aINode.toNat) f =
        (image.withBlock (image.getINode aINode.toNat) n).readINode
          (image.getINode aINode.toNat) f :=
    readINode_congr (setBlock_of_ne _ _ hblock.symm)
  have hdir : ((image.withBlock (image.getINode aINode.toNat) n).setBlock n
      (putEntry words 0 (DirEntry.new e.name e.ino))).dirBlock aINode = n := by
    rw [dirBlock, hsame, hread, withBlock_blk _ _ _ hn]
  refine ⟨⟨?_, ?_, ?_⟩, ?_, ?_, ?_⟩
  · rw [hsame, hread, withBlock_mode, hmode]
  · rw [hsame, hread, withBlock_nblks]
  · rw [hsame, hread, withBlock_size, Nat.one_mul]
  · rw [hdir]
    exact hsuper
  · rw [hdir, hsame]
    exact hblock
  · rw [hdir, setBlock_self]
    have htight : Tight words 0 [] := trivial
    refine htight.putEntry hname ?_
    rw [totalWords_nil, Nat.zero_add]
    exact hfits

/-- **The first entry.** -/
theorem NewDir.appendToDir_first {image : DiskImage} {aINode : BitVec 32} (h : NewDir image aINode)
    (hlayout : Layout image aINode) {n : Nat}
    (hfound : image.getFreeEntry image.mapStart image.mapBlockCnt = some n) (e : Entry) :
    ∃ image', appendToDir aINode (DirEntry.new e.name e.ino) image = (.ok (), image') ∧
      (e.name.length < 2 ^ 10 → HasDir image' aINode [] e) := by
  obtain ⟨image1, hget, hsame⟩ := getFreeBlock_some hfound
  obtain ⟨hn, hsuper, hblock⟩ := hlayout.free (getFreeEntry_free hfound)
  have hplace : findPlace (image.getINode aINode.toNat) (image.dirBlock aINode) 0 image =
      (.ok (n, 0), image1.withBlock (image.getINode aINode.toNat) n) := by
    rw [findPlace, if_pos rfl, h.blk, firstBlock_eq hget, Nat.mod_eq_of_lt hn]
  have hfits := usedLength_new_le e
  have hrun := h.toIsDir.appendToDir_eq (by decide) hplace (DirEntry.new e.name e.ino)
  rw [if_pos (by rw [Nat.zero_add]; exact hfits)] at hrun
  refine ⟨_, hrun, fun hname => ?_⟩
  rw [usedLength_new hname] at hfits
  have hiNode : image1.getINode aINode.toNat = image.getINode aINode.toNat :=
    getINode_congr (hsame _ hlayout.super_ne_map hlayout.super_ne_dynamic) _
  have hmode : image1.readINode (image.getINode aINode.toNat) .cdi_mode &&& IFMT = IFDIR := by
    rw [readINode_congr (hsame _ hlayout.iNode_ne_map hlayout.iNode_ne_dynamic), h.mode]
  have hne := hlayout.iNode_ne_super
  rw [← hiNode] at hmode hne hblock ⊢
  exact hasDir_first hmode hne hn hsuper hblock hname hfits _

/-- With no free block the first entry is rejected. -/
theorem NewDir.appendToDir_diskFull {image : DiskImage} {aINode : BitVec 32}
    (h : NewDir image aINode)
    (hfull : image.getFreeEntry image.mapStart image.mapBlockCnt = none) (d : DirEntry) :
    appendToDir aINode d image = (.error (.generic "Disk is full"), image) := by
  refine h.toIsDir.appendToDir_error (by decide) ?_ d
  rw [findPlace, if_pos rfl, firstBlock]
  exact Run.bind_apply_error (getFreeBlock_none hfull)

/-! ## 4. Further entries -/

section further
variable {image : DiskImage} {aINode : BitVec 32} {init : List Entry} {e : Entry}

/-- The inode is where it was, whatever becomes of the block, -/
theorem HasDir.getINode_setBlock (h : HasDir image aINode init e) (words : Words) :
    (image.setBlock (image.dirBlock aINode) words).getINode aINode.toNat =
      image.getINode aINode.toNat :=
  getINode_congr (setBlock_of_ne _ _ h.block_ne_super.symm) _

/-- has the fields it had, -/
theorem HasDir.readINode_setBlock (h : HasDir image aINode init e) (words : Words)
    (f : InodeField) :
    (image.setBlock (image.dirBlock aINode) words).readINode (image.getINode aINode.toNat) f =
      image.readINode (image.getINode aINode.toNat) f :=
  readINode_congr (setBlock_of_ne _ _ h.block_ne_iNode.symm) f

/-- and the same block. -/
theorem HasDir.dirBlock_setBlock (h : HasDir image aINode init e) (words : Words) :
    (image.setBlock (image.dirBlock aINode) words).dirBlock aINode = image.dirBlock aINode := by
  rw [dirBlock, h.getINode_setBlock, h.readINode_setBlock, dirBlock]

theorem HasDir.setBlock (h : HasDir image aINode init e) {words : Words} {init' : List Entry}
    {e' : Entry} (hpacked : Packed words init' e') :
    HasDir (image.setBlock (image.dirBlock aINode) words) aINode init' e' := by
  refine ⟨⟨?_, ?_, ?_⟩, ?_, ?_, ?_⟩
  · rw [h.getINode_setBlock, h.readINode_setBlock, h.mode]
  · rw [h.getINode_setBlock, h.readINode_setBlock, h.nblks]
  · rw [h.getINode_setBlock, h.readINode_setBlock, h.size]
  · rw [h.dirBlock_setBlock]
    exact h.block_ne_super
  · rw [h.dirBlock_setBlock, h.getINode_setBlock]
    exact h.block_ne_iNode
  · rw [h.dirBlock_setBlock, setBlock_self]
    exact hpacked

/-- The block with its last entry made as short as possible. -/
def shortened (image : DiskImage) (aINode : BitVec 32) (init : List Entry) : Words :=
  cd_reclen.assign (image.mStorage (image.dirBlock aINode)) (totalWords init)
    (BitVec.ofNat _ (usedLength (image.mStorage (image.dirBlock aINode)) (totalWords init)))

/-- The place for another entry is behind the last one, which was made as short as possible. -/
theorem HasDir.findPlace_eq (h : HasDir image aINode init e)
    (hroom : totalWords (init ++ [e]) < cBlockSize) :
    findPlace (image.getINode aINode.toNat) (image.dirBlock aINode) 1 image =
      (.ok (image.dirBlock aINode, totalWords (init ++ [e])),
        image.setBlock (image.dirBlock aINode) (shortened image aINode init)) := by
  rw [totalWords_concat] at hroom ⊢
  rw [findPlace, if_neg (by decide), shortenLast, Run.bind_apply_ok (Run.get_apply image),
    h.packed.searchLast_eq hroom]
  rfl

/-- **A block without room: the search leaves it.** -/
theorem HasDir.full (h : HasDir image aINode init e)
    (hfull : totalWords (init ++ [e]) = cBlockSize) (d : DirEntry) :
    appendToDir aINode d image = (.error .undefinedBehaviour, image) := by
  rw [totalWords_concat] at hfull
  refine h.toIsDir.appendToDir_error (by decide) ?_ d
  rw [findPlace, if_neg (by decide), shortenLast, Run.bind_apply_ok (Run.get_apply image),
    h.packed.searchLast_full hfull]
  rfl

/-- **Another entry that fits.** -/
theorem HasDir.append (h : HasDir image aINode init e)
    (hroom : totalWords (init ++ [e]) < cBlockSize) {e' : Entry}
    (hfits : totalWords (init ++ [e]) + usedLength (DirEntry.new e'.name e'.ino).mStorage 0 / 8 ≤
      cBlockSize) :
    ∃ image', appendToDir aINode (DirEntry.new e'.name e'.ino) image = (.ok (), image') ∧
      (e'.name.length < 2 ^ 10 → HasDir image' aINode (init ++ [e]) e') := by
  have hrun := h.toIsDir.appendToDir_eq (by decide) (h.findPlace_eq hroom)
    (DirEntry.new e'.name e'.ino)
  rw [if_pos hfits, setBlock_self] at hrun
  refine ⟨_, hrun, fun hname => ?_⟩
  rw [usedLength_new hname] at hfits
  have htwice : ∀ words words' : Words, (image.setBlock (image.dirBlock aINode) words).setBlock
      (image.dirBlock aINode) words' = image.setBlock (image.dirBlock aINode) words' := by
    intro words words'
    simp only [DiskImage.setBlock, Function.update_idem]
  rw [htwice]
  exact h.setBlock (h.packed.shorten.putEntry hname hfits)

/-- **Another entry that does not: it is rejected when the last one has lost its room.** -/
theorem HasDir.rejected (h : HasDir image aINode init e)
    (hroom : totalWords (init ++ [e]) < cBlockSize) {d : DirEntry}
    (hfits : ¬ totalWords (init ++ [e]) + usedLength d.mStorage 0 / 8 ≤ cBlockSize) :
    ∃ image', appendToDir aINode d image = (.error .assertion, image') ∧
      image'.directory aINode ≠ image.directory aINode := by
  have hrun := h.toIsDir.appendToDir_eq (by decide) (h.findPlace_eq hroom) d
  rw [if_neg hfits] at hrun
  refine ⟨_, hrun, fun hsame => ?_⟩
  have hblock := congrArg Prod.snd hsame
  simp only [directory] at hblock
  rw [h.dirBlock_setBlock, setBlock_self] at hblock
  have hreclen : reclen (shortened image aINode init) (totalWords init) =
      reclen (image.mStorage (image.dirBlock aINode)) (totalWords init) := by
    rw [hblock]
  rw [totalWords_concat] at hroom
  have hsize : BSIZE = cBlockSize * 8 := rfl
  rw [shortened, h.packed.entry.usedLength_eq, reclen_assign _ _ (by omega), h.packed.record]
    at hreclen
  omega

end further

/-! ## 5. Sequences of calls -/

/-- The directory is read as some entries, and its records add up to a block. -/
def Appended (image : DiskImage) (aINode : BitVec 32) (entries : List Entry) : Prop :=
  ∃ records, Walk (image.mStorage (image.dirBlock aINode)) 0 records ∧
    records.map Record.entry = entries ∧ (records.map Record.reclen).sum = BSIZE

/-- Another entry fits: the block has room for it, and, for the first one, there is a block. -/
def HasRoom (image : DiskImage) (entries : List Entry) (e : Entry) : Prop :=
  totalWords (entries ++ [e]) * 8 ≤ BSIZE ∧
    (entries = [] → image.getFreeEntry image.mapStart image.mapBlockCnt ≠ none)

/-- **The claim for a sequence of calls**: an entry that fits is appended to those there are, one
    that does not is rejected and the directory unchanged, and the search stays in the block. -/
def Keeps (aINode : BitVec 32) : DiskImage → List Entry → List Entry → Prop
  | _, _, [] => True
  | image, entries, e :: calls =>
    match appendToDir aINode (DirEntry.new e.name e.ino) image with
    | (.ok _, image') =>
      HasRoom image entries e ∧ Appended image' aINode (entries ++ [e]) ∧
        Keeps aINode image' (entries ++ [e]) calls
    | (.error exn, image') =>
      exn ≠ .undefinedBehaviour ∧ ¬ HasRoom image entries e ∧
        image'.directory aINode = image.directory aINode ∧ Keeps aINode image' entries calls

section sequences
variable {image image' : DiskImage} {aINode : BitVec 32} {entries calls : List Entry} {e : Entry}

theorem keeps_ok
    (h : appendToDir aINode (DirEntry.new e.name e.ino) image = (.ok (), image')) :
    Keeps aINode image entries (e :: calls) ↔ HasRoom image entries e ∧
      Appended image' aINode (entries ++ [e]) ∧ Keeps aINode image' (entries ++ [e]) calls := by
  rw [Keeps, h]

theorem keeps_error {exn : MkfsExn}
    (h : appendToDir aINode (DirEntry.new e.name e.ino) image = (.error exn, image')) :
    Keeps aINode image entries (e :: calls) ↔ exn ≠ .undefinedBehaviour ∧
      ¬ HasRoom image entries e ∧ image'.directory aINode = image.directory aINode ∧
        Keeps aINode image' entries calls := by
  rw [Keeps, h]

theorem HasDir.appended {init : List Entry} (h : HasDir image aINode init e) :
    Appended image aINode (init ++ [e]) := by
  obtain ⟨records, hwalk, hentries⟩ := h.packed.walk
  refine ⟨records, hwalk, hentries, ?_⟩
  rw [← hwalk.sum, Nat.zero_mul, Nat.zero_add]

theorem Appended.name_lt (h : Appended image aINode (entries ++ [e])) :
    e.name.length < 2 ^ 10 := by
  obtain ⟨records, hwalk, hentries, -⟩ := h
  have hmem : e ∈ records.map Record.entry := by
    rw [hentries]
    exact List.mem_append_right _ List.mem_cons_self
  obtain ⟨record, hrecord, rfl⟩ := List.mem_map.mp hmem
  exact hwalk.name_lt record hrecord

theorem forall_name_cons (e : Entry) (calls : List Entry) :
    (∀ c ∈ e :: calls, c.name.length < 2 ^ 10) ↔
      e.name.length < 2 ^ 10 ∧ ∀ c ∈ calls, c.name.length < 2 ^ 10 :=
  List.forall_mem_cons

/-- **A directory with entries takes more of them as long as they fit.** -/
theorem HasDir.keeps_more_iff (calls : List Entry) : ∀ {image : DiskImage} {init : List Entry}
    {e : Entry}, HasDir image aINode init e →
      (Keeps aINode image (init ++ [e]) calls ↔ (∀ c ∈ calls, c.name.length < 2 ^ 10) ∧
        (totalWords (init ++ [e]) + totalWords calls) * 8 ≤ BSIZE) := by
  have hsize : BSIZE = cBlockSize * 8 := rfl
  induction calls with
  | nil =>
    intro image init e h
    have hfits := h.packed.fits
    rw [← totalWords_concat] at hfits
    refine iff_of_true trivial ⟨List.forall_mem_nil _, ?_⟩
    rw [totalWords_nil]
    omega
  | cons c calls ih =>
    intro image init e h
    have hthree := c.three_le_words
    have hfits := h.packed.fits
    rw [← totalWords_concat] at hfits
    rw [forall_name_cons, totalWords_cons]
    by_cases hfull : totalWords (init ++ [e]) = cBlockSize
    · -- the block ends with its last entry, and the search does not find it
      rw [keeps_error (h.full hfull _)]
      refine iff_of_false (fun hkeeps => hkeeps.1 rfl) fun hall => ?_
      omega
    · have hroom : totalWords (init ++ [e]) < cBlockSize := by omega
      by_cases hplace : totalWords (init ++ [e]) +
          usedLength (DirEntry.new c.name c.ino).mStorage 0 / 8 ≤ cBlockSize
      · obtain ⟨image', hrun, hnew⟩ := h.append hroom hplace
        rw [keeps_ok hrun]
        by_cases hname : c.name.length < 2 ^ 10
        · have h' := hnew hname
          rw [usedLength_new hname] at hplace
          have hhas : HasRoom image (init ++ [e]) c := by
            refine ⟨?_, fun hnil => absurd hnil (List.append_ne_nil_of_right_ne_nil _ (by simp))⟩
            rw [totalWords_concat]
            omega
          rw [ih h', totalWords_concat, Nat.add_assoc]
          exact ⟨fun hall => ⟨⟨hname, hall.2.2.1⟩, hall.2.2.2⟩,
            fun hall => ⟨hhas, h'.appended, hall.1.2, hall.2⟩⟩
        · exact iff_of_false (fun hkeeps => hname hkeeps.2.1.name_lt) fun hall => hname hall.1.1
      · -- the last entry has lost its room when the new one is rejected
        obtain ⟨image', hrun, hchanged⟩ := h.rejected hroom hplace
        rw [keeps_error hrun]
        refine iff_of_false (fun hkeeps => hchanged hkeeps.2.2.1) fun hall => ?_
        rw [usedLength_new hall.1.1] at hplace
        omega

theorem NewDir.keeps_diskFull (h : NewDir image aINode)
    (hfull : image.getFreeEntry image.mapStart image.mapBlockCnt = none) (calls : List Entry) :
    Keeps aINode image [] calls := by
  induction calls with
  | nil => trivial
  | cons e calls ih =>
    rw [keeps_error (h.appendToDir_diskFull hfull _)]
    exact ⟨by decide, fun hroom => hroom.2 rfl hfull, rfl, ih⟩

end sequences

/-- **A directory has what was appended exactly when no name has 1024 bytes or more and all entries
    together fit into the block** (or there is none, and every call is rejected). -/
theorem keeps_iff {image : DiskImage} {aINode : BitVec 32} (h : NewDir image aINode)
    (hlayout : Layout image aINode) (calls : List Entry) :
    Keeps aINode image [] calls ↔
      image.getFreeEntry image.mapStart image.mapBlockCnt = none ∨
        ((∀ e ∈ calls, e.name.length < 2 ^ 10) ∧ totalWords calls * 8 ≤ BSIZE) := by
  rcases hfound : image.getFreeEntry image.mapStart image.mapBlockCnt with - | n
  · exact iff_of_true (h.keeps_diskFull hfound calls) (.inl rfl)
  · cases calls with
    | nil => exact iff_of_true trivial (.inr ⟨List.forall_mem_nil _, Nat.zero_le _⟩)
    | cons e calls =>
      obtain ⟨image', hrun, hnew⟩ := h.appendToDir_first hlayout hfound e
      rw [keeps_ok hrun, List.nil_append, forall_name_cons, totalWords_cons]
      by_cases hname : e.name.length < 2 ^ 10
      · have h' := hnew hname
        have hfits := h'.packed.fits
        rw [totalWords_nil, Nat.zero_add] at hfits
        have hkeeps := h'.keeps_more_iff calls
        rw [List.nil_append, totalWords_cons, totalWords_nil, Nat.add_zero] at hkeeps
        have hhas : HasRoom image [] e := by
          refine ⟨?_, fun _ => by rw [hfound]; exact Option.some_ne_none n⟩
          rw [List.nil_append, totalWords_cons, totalWords_nil, Nat.add_zero]
          exact Nat.mul_le_mul_right 8 hfits
        rw [hkeeps]
        constructor
        · rintro ⟨-, -, hall, hsum⟩
          exact .inr ⟨⟨hname, hall⟩, hsum⟩
        · rintro (hnone | ⟨⟨-, hall⟩, hsum⟩)
          · exact nomatch hnone
          · exact ⟨hhas, h'.appended, hall, hsum⟩
      · refine iff_of_false (fun hkeeps => ?_) fun hcond => ?_
        · have happended : Appended image' aINode ([] ++ [e]) := hkeeps.2.1
          exact hname happended.name_lt
        · rcases hcond with hnone | hall
          · exact nomatch hnone
          · exact hname hall.1.1

/-! ## 6. An image -/

/-- The image of a disk of 256 blocks: the map is in block 11, the dynamic block is block 12, the
    map of the inodes is in block 13 and the root directory is inode 2, which has no block yet.
    Blocks 0 to 18 are in use. -/
def smallImage : DiskImage :=
  let image : DiskImage := ⟨fun _ _ => 0⟩
  let image := image.write getSuperBlock s_dboff 12
  let image := image.write getSuperBlock s_mapoff 11
  let image := image.write getSuperBlock s_mapblks 1
  let image := image.write getSuperBlock s_part_fd_ireg_blk 13
  let image := image.setBlock 11 (fun i => if i = 0 then 0xE0FFFF else 0)
  image.writeINode ⟨14, 64⟩ .cdi_mode 0o40755

theorem newDir_smallImage : NewDir smallImage 2 where
  mode := by decide
  nblks := by decide
  size := by decide
  blk := by decide

theorem layout_smallImage : Layout smallImage 2 where
  super_ne_map := by decide
  super_ne_dynamic := by decide
  iNode_ne_super := by decide
  iNode_ne_map := by decide
  iNode_ne_dynamic := by decide
  super_used := by decide
  iNode_used := by decide
  numbers := by decide

theorem keeps_iff_small : NewDir smallImage 2 ∧ Layout smallImage 2 ∧
    (Keeps 2 smallImage [] [⟨[0x2E], 2⟩, ⟨[0x2E, 0x2E], 2⟩] ↔
      smallImage.getFreeEntry smallImage.mapStart smallImage.mapBlockCnt = none ∨
        ((∀ e ∈ [(⟨[0x2E], 2⟩ : Entry), ⟨[0x2E, 0x2E], 2⟩], e.name.length < 2 ^ 10) ∧
          totalWords [⟨[0x2E], 2⟩, ⟨[0x2E, 0x2E], 2⟩] * 8 ≤ BSIZE)) :=
  ⟨newDir_smallImage, layout_smallImage, keeps_iff newDir_smallImage layout_smallImage _⟩

theorem not_keeps_of_length {name : Chars} (hname : name.length = 1000) :
    ¬ Keeps 2 smallImage [] (List.replicate 5 ⟨name, 3⟩) := by
  have hfound : smallImage.getFreeEntry smallImage.mapStart smallImage.mapBlockCnt = some 19 := by
    decide +kernel
  obtain ⟨image', hrun, hnew⟩ := newDir_smallImage.appendToDir_first layout_smallImage hfound
    ⟨name, 3⟩
  have hwords : Entry.words ⟨name, 3⟩ = 128 := by rw [Entry.words, hname, entrySize]
  rw [List.replicate_succ, keeps_ok hrun]
  rintro ⟨-, -, hmore⟩
  have hfits := (((hnew (by rw [hname]; decide)).keeps_more_iff _).mp hmore).2
  rw [totalWords_concat, totalWords_nil, totalWords, List.map_replicate, hwords] at hfits
  revert hfits
  decide

/-- Four names of 1000 bytes fill the block; the search for the last of them leaves it. -/
theorem not_keeps : ¬ Keeps 2 smallImage [] (List.replicate 5 ⟨List.replicate 1000 0x61, 3⟩) :=
  not_keeps_of_length List.length_replicate

end DiskImage

end Mkfs

end CraySim
