/-
  Subject:   Files and directories, read from an image.

  A file is read through the extents of its inode, a directory through the lengths of its records.
  What is read of an inode that holds a node is the node.

  * `iNodeBlocks`, `readFile` -- the blocks an inode covers, and the bytes there,
  * `readEntries`, `readDir` -- the entries of a directory,
  * `HasFile.readFile_eq`, `HasDirectory.readDir_eq` -- what is read,
  * `Represents.readFileSystem_eq` -- the file system is read back from its image,
  * `Accounted` -- what the maps and the counters of an image say,
  * `Represents.congr` -- images that agree on the blocks in use.
-/
import CraySim.MkfsRoom

namespace CraySim

namespace Mkfs

open FirstFit ExtentFile DiskImage

/-! ## 1. Reading -/

namespace DiskImage

/-- The blocks an inode covers with its size. -/
def iNodeBlocks (image : DiskImage) (p : Pointer) : List Nat :=
  ((List.range cdiAddrSize).flatMap fun j =>
    List.range' (image.readExtent p j .blk) (image.readExtent p j .nblks)).take
      ((image.readINode p .cdi_size + BSIZE - 1) / BSIZE)

/-- The bytes of a file. -/
def readFile (image : DiskImage) (p : Pointer) : Chars :=
  (List.range (image.readINode p .cdi_size)).map fun k =>
    byteAt (image.mStorage ((image.iNodeBlocks p).getD (k / BSIZE) 0)) (k % BSIZE)

end DiskImage

/-- The entries from a word of a block on. -/
def readEntries (block : Words) (ofs : Nat) : List Entry :=
  if ofs + 3 ≤ cBlockSize ∧ 8 ≤ reclen block ofs then
    (recordAt block ofs).entry :: readEntries block (ofs + reclen block ofs / 8)
  else []
termination_by cBlockSize - ofs
decreasing_by omega

/-- The entries of a directory. -/
def DiskImage.readDir (image : DiskImage) (p : Pointer) : List Entry :=
  (image.iNodeBlocks p).flatMap fun b => readEntries (image.mStorage b) 0

/-- What an inode is in use for. -/
def DiskImage.readNode (image : DiskImage) (p : Pointer) : Option Node :=
  let mode := image.readINode p .cdi_mode &&& IFMT
  if mode = IFDIR then some (.dir (image.readDir p))
  else if mode = IFREG then some (.file (image.readFile p))
  else none

/-- The inodes that are in use, as their map says. -/
def DiskImage.readFileSystem (image : DiskImage) : FileSystem := fun i =>
  if 2 ≤ i ∧ i < cBlockSize * 64 ∧ image.mapBit image.iNodeStart i = true then
    image.readNode (image.getINode i)
  else none

/-! ## 2. What is read -/

section read
variable {image : DiskImage} {p : Pointer} {exts : List Extent}

theorem HasExtents.take_blocks (h : HasExtents image p exts) :
    ((List.range cdiAddrSize).flatMap fun j =>
      List.range' (image.readExtent p j .blk) (image.readExtent p j .nblks)).take
        (blocks exts).length = blocks exts := by
  obtain ⟨k, hk⟩ := Nat.exists_eq_add_of_le h.size
  have hfirst : ((List.range exts.length).flatMap fun j =>
      List.range' (image.readExtent p j .blk) (image.readExtent p j .nblks)) = blocks exts := by
    have hmap : exts = (List.range exts.length).map fun j => exts.getD j ⟨0, 0⟩ := by
      refine List.ext_getElem (by simp) fun j hj _ => ?_
      rw [List.getElem_map, List.getElem_range, List.getD_eq_getElem _ _ hj]
    unfold blocks
    conv_rhs => rw [hmap]
    rw [List.flatMap_map]
    refine List.flatMap_congr fun j hj => ?_
    have hj' := List.mem_range.mp hj
    rw [(h.extent j hj').1, (h.extent j hj').2, List.getD_eq_getElem _ _ hj']
    rfl
  rw [hk, List.range_add, List.flatMap_append, hfirst, List.take_left']
  rfl

theorem HasFile.iNodeBlocks_eq {content : Chars} (h : HasFile image p exts content) :
    image.iNodeBlocks p = blocks exts := by
  have hcover : (content.length + BSIZE - 1) / BSIZE = (blocks exts).length := by
    obtain ⟨hle, hlt⟩ := h.filled
    have hsize : BSIZE = 4096 := rfl
    rw [hsize] at hle hlt ⊢
    omega
  unfold iNodeBlocks
  rw [h.size, hcover]
  exact h.extents.take_blocks

/-- **The bytes of a file are read back.** -/
theorem HasFile.readFile_eq {content : Chars} (h : HasFile image p exts content) :
    image.readFile p = content := by
  unfold readFile
  rw [h.size, h.iNodeBlocks_eq]
  refine List.ext_getElem (by simp) fun k _ hk => ?_
  obtain ⟨b, hb, hbyte⟩ := h.holds k hk
  rw [List.getElem_map, List.getElem_range, List.getD_eq_getElem?_getD, hb]
  exact hbyte

/-- A block that can be walked is read as its records. -/
theorem Walk.readEntries_eq {block : Words} {ofs : Nat} {records : List Record}
    (h : Walk block ofs records) : readEntries block ofs = records.map Record.entry := by
  induction h with
  | done =>
    rw [readEntries, if_neg]
    · rfl
    · exact fun hin => absurd hin.1 (by decide)
  | @step ofs rest hin hused hwords hrest ih =>
    have hpos : 8 ≤ reclen block ofs := by
      refine Nat.le_trans ?_ hused
      rw [Mkfs.usedLength_eq, entrySize]
      omega
    rw [readEntries, if_pos ⟨hin, hpos⟩, ih]
    rfl

theorem HasDirectory.iNodeBlocks_eq {entries : List Entry}
    (h : HasDirectory image p exts entries) : image.iNodeBlocks p = blocks exts := by
  have hcover : ((blocks exts).length * BSIZE + BSIZE - 1) / BSIZE = (blocks exts).length := by
    have hsize : BSIZE = 4096 := rfl
    rw [hsize]
    omega
  unfold iNodeBlocks
  rw [h.size, hcover]
  rcases h.block with ⟨-, rfl, -⟩ | ⟨b, init, e, rfl, -, hblk, -⟩
  · exact List.take_zero
  · have hnblks : image.readExtent p 0 .nblks = 1 := h.nblks
    have hfirst : image.readExtent p 0 .blk = b := hblk
    have hrange : List.range cdiAddrSize = 0 :: [1, 2, 3, 4, 5, 6, 7] := by decide
    rw [hrange, List.flatMap_cons, hnblks, hfirst]
    rfl

/-- **The entries of a directory are read back.** -/
theorem HasDirectory.readDir_eq {entries : List Entry} (h : HasDirectory image p exts entries) :
    image.readDir p = entries := by
  unfold readDir
  rw [h.iNodeBlocks_eq]
  rcases h.block with ⟨rfl, rfl, -⟩ | ⟨b, init, e, rfl, rfl, -, hpacked⟩
  · rfl
  · obtain ⟨records, hwalk, hentries⟩ := hpacked.walk
    rw [blocks_cons, blocks_nil, List.append_nil, Extent.blocks_one, List.flatMap_singleton,
      hwalk.readEntries_eq, hentries]

theorem HasNode.iNodeBlocks_eq {node : Node} (h : HasNode image p exts node) :
    image.iNodeBlocks p = blocks exts := by
  cases node with
  | dir entries => exact HasDirectory.iNodeBlocks_eq h
  | file content => exact HasFile.iNodeBlocks_eq h

/-- **A node is read back.** -/
theorem HasNode.readNode_eq {node : Node} (h : HasNode image p exts node) :
    image.readNode p = some node := by
  unfold readNode
  cases node with
  | dir entries =>
    have hdir : HasDirectory image p exts entries := h
    rw [if_pos hdir.mode, hdir.readDir_eq]
  | file content =>
    have hfile : HasFile image p exts content := h
    have hne : ¬ IFREG = IFDIR := by decide
    simp only
    rw [hfile.mode, if_neg hne, if_pos rfl, hfile.readFile_eq]

end read

section system
variable {g : Geometry} {diskSize iNodeCnt : Nat} {image image' : DiskImage} {fs : FileSystem}
  {exts : Nat → List Extent}

/-- **The file system is read back from its image.** -/
theorem Represents.readFileSystem_eq (h : Represents g diskSize iNodeCnt image fs) :
    image.readFileSystem = fs := by
  obtain ⟨exts, hsound⟩ := h
  funext i
  unfold readFileSystem
  rw [hsound.formatted.iNodeStart, hsound.formatted.getINode_eq]
  cases hi : fs i with
  | none =>
    refine if_neg ?_
    rintro ⟨htwo, hlt, hbit⟩
    rcases (hsound.iNodes.used_iff i hlt).mp hbit with hlow | hne
    · omega
    · exact hne hi
  | some node =>
    obtain ⟨htwo, hiNode, hnode⟩ := hsound.node i node hi
    have hused : fs i ≠ none := by
      rw [hi]
      exact Option.some_ne_none _
    rw [if_pos ⟨htwo, hiNode.lt, (hsound.iNodes.used_iff i hiNode.lt).mpr (Or.inr hused)⟩]
    exact hnode.readNode_eq

/-! ## 3. What is counted -/

/-- The inodes in use. -/
def FileSystem.nodeCnt (fs : FileSystem) : Nat :=
  (List.range (cBlockSize * 64)).countP fun i => (fs i).isSome

/-- **The maps and the counters of an image account for a file system.** The blocks in use are the
    first ones; those that hold data belong to one inode each. -/
structure Accounted (g : Geometry) (diskSize iNodeCnt : Nat) (image : DiskImage)
    (fs : FileSystem) : Prop where
  blocks : ∀ b < g.capacity,
    image.mapBit image.mapStart b = true ↔ b < g.dataStart + fs.blockCnt
  owner : ∀ b, g.dataStart ≤ b → b < g.dataStart + fs.blockCnt →
    ∃! i, fs i ≠ none ∧ b ∈ image.iNodeBlocks (image.getINode i)
  node : ∀ i node, fs i = some node →
    (image.iNodeBlocks (image.getINode i)).Nodup ∧
      (image.iNodeBlocks (image.getINode i)).length = node.blockCnt ∧
        ∀ b ∈ image.iNodeBlocks (image.getINode i),
          g.dataStart ≤ b ∧ b < g.dataStart + fs.blockCnt
  iNodes : ∀ i < cBlockSize * 64, image.mapBit image.iNodeStart i = true ↔ i < 2 ∨ fs i ≠ none
  tfree : ((image.read image.getDynamicBlock db_tfree).toNat +
    (g.dataStart + fs.blockCnt)) % 2 ^ 64 = diskSize % 2 ^ 64
  avail : ((image.read image.getDynamicBlock db_fpm_bmp_avail).toNat +
    (g.dataStart + fs.blockCnt)) % 2 ^ 64 = diskSize % 2 ^ 64
  ifree : ((image.read image.getDynamicBlock db_ifree).toNat + (2 + fs.nodeCnt)) % 2 ^ 64 =
    iNodeCnt % 2 ^ 64
  ninode : ((image.read image.getDynamicBlock db_ninode).toNat + 2) % 2 ^ 64 =
    (2 + fs.nodeCnt) % 2 ^ 64
  ireg : ((image.read image.getDynamicBlock db_part_fd_ireg).toNat + (2 + fs.nodeCnt)) % 2 ^ 64 =
    iNodeCnt % 2 ^ 64

/-- The inodes in use, with the two that are never given out. -/
theorem Sound.usedINodes_eq (h : Sound g diskSize iNodeCnt image fs exts) :
    image.usedINodes g = 2 + fs.nodeCnt := by
  have hfront : usedCount (fun i => decide (i < 2)) (cBlockSize * 64) = 2 :=
    usedCount_of_lt_iff (fun m _ => decide_eq_true_iff) (by decide)
  unfold FileSystem.nodeCnt
  rw [List.countP_eq_length_filter]
  refine (usedCount_add (List.nodup_range.filter _) (fun i hi => ?_) fun i hi => ?_).trans
    (by rw [hfront])
  · obtain ⟨hrange, hsome⟩ := List.mem_filter.mp hi
    obtain ⟨node, hnode⟩ := Option.isSome_iff_exists.mp hsome
    exact ⟨List.mem_range.mp hrange,
      decide_eq_false (Nat.not_lt.mpr (h.node i node hnode).1)⟩
  · rw [h.iNodes.used_iff i hi, decide_eq_true_iff, List.mem_filter, List.mem_range,
      Option.ne_none_iff_isSome]
    exact or_congr_right (and_iff_right hi).symm

theorem Sound.used_iff_lt (h : Sound g diskSize iNodeCnt image fs exts) {b : Nat}
    (hb : b < g.capacity) :
    image.mapBit g.mapStart b = true ↔ b < g.dataStart + fs.blockCnt := by
  rw [← h.usedBlocks_eq]
  constructor
  · intro hused
    refine lt_usedCount hb fun m hm => ?_
    rcases Nat.lt_or_eq_of_le hm with hlt | rfl
    · exact h.ledger.dense b hb hused m hlt
    · exact hused
  · intro hlt
    by_contra hfree
    have hfront : ∀ m < g.capacity, image.mapBit g.mapStart m = true → m < b := by
      intro m hm hused
      refine Nat.lt_of_not_le fun hle => hfree ?_
      rcases Nat.lt_or_eq_of_le hle with hbm | rfl
      · exact h.ledger.dense m hm hused b hbm
      · exact hused
    exact absurd (usedCount_le hfront) (Nat.not_le.mpr hlt)

/-- **What is counted in the image of a file system.** -/
theorem Represents.accounted (h : Represents g diskSize iNodeCnt image fs) :
    Accounted g diskSize iNodeCnt image fs := by
  obtain ⟨exts, hsound⟩ := h
  have hblocks : ∀ i node, fs i = some node →
      image.iNodeBlocks (image.getINode i) = blocks (exts i) := by
    intro i node hi
    rw [hsound.formatted.getINode_eq]
    exact (hsound.node i node hi).2.2.iNodeBlocks_eq
  have hown : ∀ i, ∀ b ∈ blocks (exts i), g.dataStart ≤ b ∧ b < g.dataStart + fs.blockCnt := by
    intro i b hb
    obtain ⟨hlow, hhigh⟩ := hsound.place i b hb
    exact ⟨hlow, (hsound.used_iff_lt hhigh).mp ((hsound.ledger.used_iff b hhigh).mpr
      (Or.inr ⟨i, hb⟩))⟩
  have hused := hsound.usedBlocks_eq
  have hcounted := hsound.usedINodes_eq
  have hcounter : ∀ f, (image.read image.getDynamicBlock f).toNat = image.counter g f := by
    intro f
    rw [hsound.formatted.dynamicBlock]
    rfl
  refine ⟨fun b hb => ?_, fun b hlow hhigh => ?_, fun i node hi => ?_, fun i hi => ?_, ?_, ?_, ?_,
    ?_, ?_⟩
  · rw [hsound.formatted.mapStart]
    exact hsound.used_iff_lt hb
  · have hcap : b < g.capacity := Nat.lt_of_lt_of_le hhigh (by
      rw [← hused]
      exact usedCount_le_bound _ _)
    have hbit := (hsound.used_iff_lt hcap).mpr hhigh
    obtain ⟨i, hi⟩ := ((hsound.ledger.used_iff b hcap).mp hbit).resolve_left (Nat.not_lt.mpr hlow)
    have hne : fs i ≠ none := by
      intro hnone
      rw [hsound.unowned i hnone] at hi
      cases hi
    obtain ⟨node, hnode⟩ := Option.ne_none_iff_exists'.mp hne
    refine ⟨i, ⟨hne, by rw [hblocks i node hnode]; exact hi⟩, ?_⟩
    rintro j ⟨hj, hb⟩
    obtain ⟨node', hnode'⟩ := Option.ne_none_iff_exists'.mp hj
    rw [hblocks j node' hnode'] at hb
    exact hsound.disjoint j i b hb hi
  · rw [hblocks i node hi]
    exact ⟨hsound.nodup i, (hsound.node i node hi).2.2.length_blocks, hown i⟩
  · rw [hsound.formatted.iNodeStart]
    exact hsound.iNodes.used_iff i hi
  · rw [hcounter, ← hused]
    exact hsound.ledger.tfree
  · rw [hcounter, ← hused]
    exact hsound.ledger.avail
  · rw [hcounter, ← hcounted]
    exact hsound.iNodes.ifree
  · rw [hcounter, ← hcounted]
    exact hsound.iNodes.ninode
  · rw [hcounter, ← hcounted]
    exact hsound.iNodes.ireg

/-! ## 4. The blocks that matter -/

/-- **Images that agree on the blocks in use**, the copies of the super block apart. -/
theorem Represents.congr (h : Represents g diskSize iNodeCnt image fs)
    (hsame : ∀ b, b = SUPERB ∨ g.mapStart ≤ b → b < g.dataStart + fs.blockCnt →
      ∀ w < cBlockSize, image'.mStorage b w = image.mStorage b w) :
    Represents g diskSize iNodeCnt image' fs := by
  obtain ⟨exts, hsound⟩ := h
  have hsuper := g.super_lt
  have hmap := g.map_le
  have hdynamic := g.dynamic_lt
  have hiNode := g.iNode_lt_data
  have hpart : ∀ b, g.mapStart ≤ b → b < g.dataStart →
      ∀ w < cBlockSize, image'.mStorage b w = image.mStorage b w := fun b hlow hhigh =>
    hsame b (Or.inr hlow) (Nat.lt_of_lt_of_le hhigh (Nat.le_add_right _ _))
  have hcounter : ∀ f : IntField, f.tOfs < cBlockSize → image'.counter g f = image.counter g f :=
    fun f hf => congrArg BitVec.toNat (IntField.get_congr (by
      show image'.mStorage g.dynamicBlock (0 + f.tOfs) = image.mStorage g.dynamicBlock (0 + f.tOfs)
      rw [Nat.zero_add]
      exact hpart _ (by omega) (by omega) _ hf))
  have hiNodes : ∀ i, g.HasINode i → SameINode (g.iNode i) image image' := by
    intro i hi w hw
    obtain ⟨hlow, hhigh⟩ := hi.between
    refine hpart _ (by omega) hhigh _ ?_
    have hsize : cBlockSize = 512 := rfl
    show i % (cBlockSize / 32) * 32 + w < cBlockSize
    rw [hsize]
    omega
  have hown : ∀ i, ∀ b ∈ blocks (exts i), ∀ w < cBlockSize,
      image'.mStorage b w = image.mStorage b w := by
    intro i b hb
    obtain ⟨hlow, hhigh⟩ := hsound.place i b hb
    exact hsame b (Or.inr (by omega)) ((hsound.used_iff_lt hhigh).mp
      ((hsound.ledger.used_iff b hhigh).mpr (Or.inr ⟨i, hb⟩)))
  refine ⟨exts, hsound.formatted.congr_words (hsame SUPERB (Or.inl rfl) (by omega)),
    hsound.ledger.congr_map (fun page hpage => hpart _ (Nat.le_add_right _ _) (by omega))
      (hcounter _ (by decide)) (hcounter _ (by decide)),
    hsound.iNodes.congr (fun f hf => ?_) (hpart _ (by omega) hiNode), fun i node hi => ?_,
    fun i hi hfree w hw => ?_, hsound.unowned, hsound.nodup, hsound.disjoint, hsound.place⟩
  · simp only [List.mem_cons, List.not_mem_nil, or_false] at hf
    rcases hf with rfl | rfl | rfl <;> exact hcounter _ (by decide)
  · obtain ⟨htwo, hhas, hnode⟩ := hsound.node i node hi
    exact ⟨htwo, hhas, hnode.congr (hiNodes i hhas) (hown i)⟩
  · rw [hiNodes i hi w hw]
    exact hsound.blank i hi hfree w hw

end system

end Mkfs

end CraySim
