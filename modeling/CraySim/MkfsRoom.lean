/-
  Subject:   The blocks a file system needs.

  The blocks in use are those in front of the data and those the nodes need; what is in the image
  does not matter for their number. So it is known in advance whether an entry or some bytes fit.

  * `Node.blockCnt`, `FileSystem.blockCnt` -- the blocks of a node, and of a file system,
  * `Sound.usedBlocks_eq` -- the blocks in use,
  * `FileSystem.Fits` -- the map has bits for them,
  * `Represents.appendToDir`, `Represents.appendToFile` -- entries and bytes are appended,
  * `RepresentsEnd.appendToFile` -- bytes that fit, behind the file made last.
-/
import Mathlib.Algebra.BigOperators.Intervals
import CraySim.MkfsSystem

namespace CraySim

namespace Mkfs

open FirstFit ExtentFile DiskImage

/-! ## 1. Blocks of nodes -/

/-- The blocks a node needs. -/
def Node.blockCnt : Node → Nat
  | .dir [] => 0
  | .dir (_ :: _) => 1
  | .file content => cover content.length

theorem Node.blockCnt_dir_concat (entries : List Entry) (e : Entry) :
    (Node.dir (entries ++ [e])).blockCnt = 1 := by
  cases entries with
  | nil => rfl
  | cons e' rest => rfl

/-- The blocks an inode needs. -/
def FileSystem.nodeBlocks (fs : FileSystem) (i : Nat) : Nat := (fs i).elim 0 Node.blockCnt

theorem FileSystem.nodeBlocks_none {fs : FileSystem} {i : Nat} (h : fs i = none) :
    fs.nodeBlocks i = 0 := by
  unfold FileSystem.nodeBlocks
  rw [h]
  rfl

theorem FileSystem.nodeBlocks_some {fs : FileSystem} {i : Nat} {node : Node}
    (h : fs i = some node) : fs.nodeBlocks i = node.blockCnt := by
  unfold FileSystem.nodeBlocks
  rw [h]
  rfl

/-- The blocks all inodes need. -/
def FileSystem.blockCnt (fs : FileSystem) : Nat :=
  ∑ i ∈ Finset.range (cBlockSize * 64), fs.nodeBlocks i

/-- The map has bits for them. -/
def FileSystem.Fits (fs : FileSystem) (g : Geometry) : Prop :=
  g.dataStart + fs.blockCnt ≤ g.capacity

/-- **A node takes the place of another one.** -/
theorem FileSystem.blockCnt_update (fs : FileSystem) {i : Nat} (hi : i < cBlockSize * 64)
    (node : Node) :
    FileSystem.blockCnt (Function.update fs i (some node)) + fs.nodeBlocks i =
      fs.blockCnt + node.blockCnt := by
  have hmem : i ∈ Finset.range (cBlockSize * 64) := Finset.mem_range.mpr hi
  have hupdate : FileSystem.nodeBlocks (Function.update fs i (some node)) =
      Function.update fs.nodeBlocks i node.blockCnt := by
    funext j
    unfold FileSystem.nodeBlocks
    by_cases hj : j = i
    · rw [hj, Function.update_self, Function.update_self]
      rfl
    · rw [Function.update_of_ne hj, Function.update_of_ne hj]
  unfold FileSystem.blockCnt
  rw [hupdate, Finset.sum_update_of_mem hmem,
    Finset.sum_eq_add_sum_sdiff_singleton_of_mem hmem fs.nodeBlocks]
  omega

theorem cover_mono {m n : Nat} (h : m ≤ n) : cover m ≤ cover n :=
  Nat.div_le_div_right (Nat.sub_le_sub_right (Nat.add_le_add_right h _) _)

theorem FileSystem.blockCnt_update_le (fs : FileSystem) {i : Nat} (hi : i < cBlockSize * 64)
    {node node' : Node} (h : node.blockCnt ≤ node'.blockCnt) :
    FileSystem.blockCnt (Function.update fs i (some node)) ≤
      FileSystem.blockCnt (Function.update fs i (some node')) := by
  have hcount := fs.blockCnt_update hi node
  have hcount' := fs.blockCnt_update hi node'
  omega

theorem FileSystem.blockCnt_le_of_free {fs : FileSystem} {i : Nat} (hi : i < cBlockSize * 64)
    (h : fs i = none) (node : Node) :
    fs.blockCnt ≤ FileSystem.blockCnt (Function.update fs i (some node)) := by
  have hcount := fs.blockCnt_update hi node
  have hzero := FileSystem.nodeBlocks_none h
  omega

theorem FileSystem.blockCnt_le_concat {fs : FileSystem} {i : Nat} (hi : i < cBlockSize * 64)
    {entries : List Entry} (h : fs i = some (.dir entries)) (e : Entry) :
    fs.blockCnt ≤ FileSystem.blockCnt (Function.update fs i (some (.dir (entries ++ [e])))) := by
  have hcount := fs.blockCnt_update hi (.dir (entries ++ [e]))
  have hold : fs.nodeBlocks i ≤ 1 := by
    rw [FileSystem.nodeBlocks_some h]
    cases entries with
    | nil => exact Nat.zero_le 1
    | cons e' rest => exact Nat.le_refl 1
  rw [Node.blockCnt_dir_concat] at hcount
  omega

theorem FileSystem.Fits.of_le {fs fs' : FileSystem} {g : Geometry} (h : fs'.Fits g)
    (hle : fs.blockCnt ≤ fs'.blockCnt) : fs.Fits g :=
  Nat.le_trans (Nat.add_le_add_left hle _) h

section nodes
variable {g : Geometry} {diskSize iNodeCnt i : Nat} {image image' : DiskImage} {fs : FileSystem}
  {exts : Nat → List Extent} {p : Pointer} {bs : List Extent}

theorem HasNode.length_blocks {node : Node} (h : HasNode image p bs node) :
    (blocks bs).length = node.blockCnt := by
  cases node with
  | dir entries =>
    have hdir : HasDirectory image p bs entries := h
    rcases hdir.block with ⟨rfl, rfl, -⟩ | ⟨b, init, e, rfl, rfl, -, -⟩
    · rfl
    · rw [Node.blockCnt_dir_concat]
      rfl
  | file content =>
    have hfile : HasFile image p bs content := h
    exact hfile.filled.cover_eq.symm

theorem Sound.nodeBlocks_eq (h : Sound g diskSize iNodeCnt image fs exts) (i : Nat) :
    (blocks (exts i)).length = fs.nodeBlocks i := by
  cases hi : fs i with
  | none =>
    rw [h.unowned i hi, FileSystem.nodeBlocks_none hi]
    rfl
  | some node =>
    rw [FileSystem.nodeBlocks_some hi]
    exact (h.node i node hi).2.2.length_blocks

/-- **The blocks in use.** -/
theorem Sound.usedBlocks_eq (h : Sound g diskSize iNodeCnt image fs exts) :
    image.usedBlocks g = g.dataStart + fs.blockCnt := by
  have hlength : fs.blockCnt =
      ((List.range (cBlockSize * 64)).flatMap fun i => blocks (exts i)).length := by
    unfold FileSystem.blockCnt
    rw [List.length_flatMap, ← List.toFinset_range, List.sum_toFinset _ List.nodup_range]
    exact congrArg List.sum (List.map_congr_left fun i _ => (h.nodeBlocks_eq i).symm)
  have hfront : usedCount (fun m => decide (m < g.dataStart)) g.capacity = g.dataStart :=
    usedCount_of_lt_iff (fun m _ => decide_eq_true_iff) g.data_le
  rw [hlength]
  unfold usedBlocks
  refine (usedCount_add ?_ (fun b hb => ?_) fun b hb => ?_).trans (by rw [hfront])
  · refine List.nodup_flatMap.mpr ⟨fun i _ => h.nodup i, ?_⟩
    refine List.nodup_range.imp fun hne b hb hb' => ?_
    exact hne (h.disjoint _ _ b hb hb')
  · obtain ⟨i, -, hmem⟩ := List.mem_flatMap.mp hb
    obtain ⟨hlow, hhigh⟩ := h.place i b hmem
    exact ⟨hhigh, decide_eq_false (Nat.not_lt.mpr hlow)⟩
  · rw [h.ledger.used_iff b hb, decide_eq_true_iff, List.mem_flatMap]
    refine or_congr_right ⟨?_, ?_⟩
    · rintro ⟨i, hmem⟩
      refine ⟨i, List.mem_range.mpr ?_, hmem⟩
      cases hi : fs i with
      | none =>
        rw [h.unowned i hi] at hmem
        cases hmem
      | some node => exact (h.node i node hi).2.1.lt
    · rintro ⟨i, -, hmem⟩
      exact ⟨i, hmem⟩

/-! ## 2. Entries and bytes -/

/-- The image holds the file system, with some blocks for its files. -/
def Represents (g : Geometry) (diskSize iNodeCnt : Nat) (image : DiskImage) (fs : FileSystem) :
    Prop :=
  ∃ exts, Sound g diskSize iNodeCnt image fs exts

variable {entries : List Entry}

theorem Sound.fitsDir (h : Sound g diskSize iNodeCnt image fs exts)
    (hi : fs i = some (.dir entries)) {e : Entry}
    (hfits : FileSystem.Fits (Function.update fs i (some (.dir (entries ++ [e])))) g)
    (hwords : totalWords (entries ++ [e]) ≤ cBlockSize) : FitsDir g image entries e := by
  refine ⟨?_, by rw [← totalWords_concat]; exact hwords⟩
  rintro rfl
  have hcount := fs.blockCnt_update (h.node i _ hi).2.1.lt (.dir ([] ++ [e]))
  have hzero : fs.nodeBlocks i = 0 := FileSystem.nodeBlocks_some hi
  unfold FileSystem.Fits at hfits
  rw [Node.blockCnt_dir_concat, hzero] at hcount
  rw [h.usedBlocks_eq]
  omega

/-- **An entry is appended to a directory**, or there is no room for it. -/
theorem Represents.appendToDir (h : Represents g diskSize iNodeCnt image fs)
    (hi : fs i = some (.dir entries)) {aINode : BitVec 32} (hidx : aINode.toNat = i) {e : Entry}
    (hname : e.name.length < 2 ^ 10) :
    (∃ exn image', appendToDir aINode (DirEntry.new e.name e.ino) image =
        (.error exn, image') ∧
      ¬ (FileSystem.Fits (Function.update fs i (some (.dir (entries ++ [e])))) g ∧
        totalWords (entries ++ [e]) ≤ cBlockSize)) ∨
      ∃ image', appendToDir aINode (DirEntry.new e.name e.ino) image = (.ok (), image') ∧
        Represents g diskSize iNodeCnt image'
          (Function.update fs i (some (.dir (entries ++ [e])))) := by
  obtain ⟨exts, hsound⟩ := h
  obtain ⟨-, hiNode, hnode⟩ := hsound.node i _ hi
  have hdir : HasDirectory image (g.iNode i) (exts i) entries := hnode
  rcases hdir.appendToDir (hsound.owning i) hiNode hidx hname with ⟨exn, image', hrun, hnot⟩ |
    ⟨image', exts', hrun, hown, hdir', honly⟩
  · exact Or.inl ⟨exn, image', hrun, fun hall => hnot (hsound.fitsDir hi hall.1 hall.2)⟩
  · refine Or.inr ⟨image', hrun, _, hsound.update ?_ hown
      (show HasNode image' (g.iNode i) exts' (.dir (entries ++ [e])) from hdir') honly⟩
    rw [hi]
    exact Option.some_ne_none _

theorem Represents.fits (h : Represents g diskSize iNodeCnt image fs) : fs.Fits g := by
  obtain ⟨exts, hsound⟩ := h
  have hle : image.usedBlocks g ≤ g.capacity := usedCount_le_bound _ _
  rw [hsound.usedBlocks_eq] at hle
  exact hle

theorem Represents.words_le (h : Represents g diskSize iNodeCnt image fs)
    (hi : fs i = some (.dir entries)) : totalWords entries ≤ cBlockSize := by
  obtain ⟨exts, hsound⟩ := h
  have hdir : HasDirectory image (g.iNode i) (exts i) entries := (hsound.node i _ hi).2.2
  rcases hdir.block with ⟨rfl, -, -⟩ | ⟨b, init, e, -, rfl, -, hpacked⟩
  · exact Nat.zero_le _
  · rw [totalWords_concat]
    exact hpacked.fits

/-- The image of a file system, where the blocks of a file make one run and the next block follows
    it. -/
def RepresentsEnd (g : Geometry) (diskSize iNodeCnt : Nat) (image : DiskImage) (fs : FileSystem)
    (i : Nat) : Prop :=
  ∃ exts, Sound g diskSize iNodeCnt image fs exts ∧ Contiguous g image (exts i)

theorem RepresentsEnd.represents (h : RepresentsEnd g diskSize iNodeCnt image fs i) :
    Represents g diskSize iNodeCnt image fs := by
  obtain ⟨exts, hsound, -⟩ := h
  exact ⟨exts, hsound⟩

theorem Represents.endsIn (h : Represents g diskSize iNodeCnt image fs)
    (hi : fs i = some (.file [])) : RepresentsEnd g diskSize iNodeCnt image fs i := by
  obtain ⟨exts, hsound⟩ := h
  refine ⟨exts, hsound, ?_⟩
  have hfile : HasFile image (g.iNode i) (exts i) [] := (hsound.node i _ hi).2.2
  have hnone : (blocks (exts i)).length = 0 := hfile.filled.cover_eq.symm
  rcases List.eq_nil_or_concat' (exts i) with hnil | ⟨init, last, hexts⟩
  · rw [hnil]
    exact contiguous_nil g image
  · have hpos := hfile.pos last (by rw [hexts]; exact List.mem_concat_self)
    rw [hexts, blocks_concat, List.length_append, Extent.length_blocks] at hnone
    omega

theorem Sound.fitsFile (h : Sound g diskSize iNodeCnt image fs exts) {content content' : Chars}
    (hi : fs i = some (.file content)) (hcontiguous : Contiguous g image (exts i))
    (hfits : FileSystem.Fits (Function.update fs i (some (.file content'))) g) :
    FitsFile g image (exts i) content'.length := by
  refine ⟨hcontiguous, ?_⟩
  have hcount := fs.blockCnt_update (h.node i _ hi).2.1.lt (.file content')
  have hnode := h.nodeBlocks_eq i
  have hcover : (Node.file content').blockCnt = cover content'.length := rfl
  unfold FileSystem.Fits at hfits
  rw [h.usedBlocks_eq, hnode]
  omega

/-- **Bytes are appended to a file**, or there is no room for them. -/
theorem Represents.appendToFile (h : Represents g diskSize iNodeCnt image fs) {content data : Chars}
    (hi : fs i = some (.file content)) {aINode : BitVec 32} (hidx : aINode.toNat = i)
    (hsmall : Countable data) :
    (∃ exn image', appendToFile aINode data image = (.error exn, image')) ∨
      ∃ image', appendToFile aINode data image = (.ok (), image') ∧
        Represents g diskSize iNodeCnt image'
          (Function.update fs i (some (.file (content ++ data)))) := by
  obtain ⟨exts, hsound⟩ := h
  obtain ⟨-, hiNode, hnode⟩ := hsound.node i _ hi
  have hfile : HasFile image (g.iNode i) (exts i) content := hnode
  rcases hfile.appendToFile (hsound.owning i) hiNode hidx hsmall with ⟨exn, image', hrun, -⟩ |
    ⟨image', exts', hrun, hown, hfile', honly, -⟩
  · exact Or.inl ⟨exn, image', hrun⟩
  · refine Or.inr ⟨image', hrun, _, hsound.update ?_ hown
      (show HasNode image' (g.iNode i) exts' (.file (content ++ data)) from hfile') honly⟩
    rw [hi]
    exact Option.some_ne_none _

/-- **Bytes that fit are appended to the file made last**, and no other file comes in between. -/
theorem RepresentsEnd.appendToFile (h : RepresentsEnd g diskSize iNodeCnt image fs i)
    {content data : Chars} (hi : fs i = some (.file content)) {aINode : BitVec 32}
    (hidx : aINode.toNat = i) (hsmall : Countable data)
    (hfits : FileSystem.Fits (Function.update fs i (some (.file (content ++ data)))) g) :
    ∃ image', appendToFile aINode data image = (.ok (), image') ∧
      RepresentsEnd g diskSize iNodeCnt image'
        (Function.update fs i (some (.file (content ++ data)))) i := by
  obtain ⟨exts, hsound, hcontiguous⟩ := h
  obtain ⟨-, hiNode, hnode⟩ := hsound.node i _ hi
  have hfile : HasFile image (g.iNode i) (exts i) content := hnode
  have hall := hsound.fitsFile hi hcontiguous hfits
  rcases hfile.appendToFile (hsound.owning i) hiNode hidx hsmall with ⟨exn, image', -, -, hnot⟩ |
    ⟨image', exts', hrun, hown, hfile', honly, hnext⟩
  · exact absurd hall hnot
  · refine ⟨image', hrun, _, hsound.update ?_ hown
      (show HasNode image' (g.iNode i) exts' (.file (content ++ data)) from hfile') honly, ?_⟩
    · rw [hi]
      exact Option.some_ne_none _
    · rw [Function.update_self]
      exact hnext hall

/-- **The links of a directory are counted** in a field of their own. -/
theorem Represents.writeNlink (h : Represents g diskSize iNodeCnt image fs)
    (hi : fs i = some (.dir entries)) (v : Nat) :
    Represents g diskSize iNodeCnt (image.writeINode (g.iNode i) .cdi_nlink v) fs := by
  obtain ⟨exts, hsound⟩ := h
  obtain ⟨-, hiNode, hnode⟩ := hsound.node i _ hi
  have hp := hiNode.between
  have hdir : HasDirectory image (g.iNode i) (exts i) entries := hnode
  have hown := hsound.owning i
  have hadmin : ∀ b, g.Administers b → b ≠ (g.iNode i).block := by
    rintro b hb rfl
    exact Geometry.not_administers (Nat.le_of_lt hp.1) hb
  have hblocks : ∀ b ∈ blocks (exts i), b ≠ (g.iNode i).block := fun b hb =>
    Nat.ne_of_gt (Nat.lt_of_lt_of_le hp.2 (hown.place b hb).1)
  have hown' : Owning g diskSize (image.writeINode (g.iNode i) .cdi_nlink v) (OthersOwn exts i)
      (exts i) :=
    ⟨hown.formatted.congr (writeINode_of_ne (Nat.ne_of_lt (Nat.lt_trans g.super_lt_iNode hp.1))),
      hown.ledger.congr fun b hb => writeINode_of_ne (hadmin b hb), hown.apart, hown.nodup,
      hown.place⟩
  have hdir' : HasDirectory (image.writeINode (g.iNode i) .cdi_nlink v) (g.iNode i) (exts i)
      entries := by
    refine ⟨?_, ?_, ?_, ?_⟩
    · rw [readINode_writeINode_of_apart (by decide), hdir.mode]
    · rw [readINode_writeINode_of_apart (by decide), hdir.nblks]
    · rw [readINode_writeINode_of_apart (by decide), hdir.size]
    · rw [readINode_writeINode_of_apart (by decide)]
      rcases hdir.block with hnil | ⟨b, init, e, hexts, hentries, hblk, hpacked⟩
      · exact Or.inl hnil
      · refine Or.inr ⟨b, init, e, hexts, hentries, hblk, ?_⟩
        rw [writeINode_of_ne (hblocks b ?_)]
        · exact hpacked
        · rw [hexts, blocks_cons, Extent.blocks_one]
          exact List.mem_cons_self
  have honly : OnlyNode g (g.iNode i) (exts i) image
      (image.writeINode (g.iNode i) .cdi_nlink v) := by
    refine ⟨fun b _ hb _ => writeINode_of_ne hb, fun w hw => writeINode_word ?_, fun f _ _ => ?_⟩
    · have hf := InodeField.cdi_nlink.tOfs_lt
      omega
    · exact congrArg BitVec.toNat (read_congr (p := ⟨g.dynamicBlock, 0⟩)
        (writeINode_of_ne (hadmin _ (Or.inr rfl))) f)
  have hne : fs i ≠ none := by
    rw [hi]
    exact Option.some_ne_none _
  have hnew := hsound.update hne hown'
    (show HasNode _ (g.iNode i) (exts i) (.dir entries) from hdir') honly
  rw [← hi, Function.update_eq_self] at hnew
  exact ⟨_, hnew⟩

end nodes

end Mkfs

end CraySim
