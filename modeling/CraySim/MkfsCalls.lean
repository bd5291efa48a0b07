/-
  Subject:   `MkFile`, `CopyFile` and `MkDir`, as changes of the file system.

  A new file or directory is the first inode that is not in use; its name goes to the end of its
  parent. A file is copied in pieces of the size of a buffer. Each function either returns, and the
  image holds the changed file system, or an exception ends the program.

  * `copyPieces`, `copyFile` -- `CopyFile`,
  * `LeastFree`, `HasINodeLeft` -- the inode that is given out,
  * `FileSystem.link`, `LinkFits` -- a new node with its name, and the room for them,
  * `Represents.mkFile`, `Represents.copyFile`, `Represents.mkDir` -- the functions,
  * `Represents.mkRoot` -- the root directory.
-/
import CraySim.MkfsRoom

namespace CraySim

namespace Mkfs

open FirstFit ExtentFile DiskImage

namespace DiskImage

/-! ## 1. `CopyFile` -/

/-- The size of the buffer. -/
def bufferSize : Nat := 1024 * 1024

/-- The loop: a piece is read and appended, until the end of the local file is seen. -/
def copyPieces (iNodeIdx : BitVec 32) (rest : Chars) : Run MkfsExn DiskImage Unit := do
  appendToFile iNodeIdx (rest.take bufferSize)
  if rest.length < bufferSize then pure ()
  else copyPieces iNodeIdx (rest.drop bufferSize)
termination_by rest.length
decreasing_by
  rename_i hmore
  have hsize : bufferSize = 1048576 := rfl
  rw [List.length_drop]
  omega

/-- `CopyFile`, with the content of the local file. -/
def copyFile (aParentINodeIdx : BitVec 32) (aName localFile : Chars) (aUID aGID aMode : Nat) :
    Run MkfsExn DiskImage Unit := do
  let iNodeIdx ← mkFile aParentINodeIdx aName aUID aGID aMode
  copyPieces iNodeIdx localFile

end DiskImage

/-! ## 2. The inode that is given out -/

/-- The first inode that is not in use. -/
structure LeastFree (fs : FileSystem) (i : Nat) : Prop where
  two_le : 2 ≤ i
  free : fs i = none
  least : ∀ j, 2 ≤ j → j < i → fs j ≠ none

/-- There is an inode left that both the map and the blocks of the inodes have. -/
def HasINodeLeft (g : Geometry) (fs : FileSystem) : Prop :=
  ∃ j, 2 ≤ j ∧ j < cBlockSize * 64 ∧ g.HasINode j ∧ fs j = none

section calls
variable {g : Geometry} {diskSize iNodeCnt i : Nat} {image image' : DiskImage} {fs : FileSystem}
  {exts : Nat → List Extent}

theorem Sound.getFreeINodeIdx (h : Sound g diskSize iNodeCnt image fs exts)
    (hroom : HasINodeLeft g fs) :
    ∃ i, LeastFree fs i ∧ g.HasINode i ∧ i < cBlockSize * 64 ∧
      getFreeINodeIdx image = (.ok i, image.takeINode g i) := by
  obtain ⟨j, htwo, hsmall, hiNode, hfree⟩ := hroom
  have hbit : ∀ k, k < cBlockSize * 64 →
      (image.mapBit g.iNodeStart k = false ↔ 2 ≤ k ∧ fs k = none) := by
    intro k hk
    rw [← Bool.not_eq_true, h.iNodes.used_iff k hk]
    constructor
    · intro hnot
      exact ⟨Nat.le_of_not_lt fun hlt => hnot (Or.inl hlt), not_not.mp fun hne => hnot (Or.inr hne)⟩
    · rintro ⟨hk2, hnone⟩ (hlt | hne)
      · omega
      · exact hne hnone
  obtain ⟨i, hfound, hle⟩ := exists_firstFree hsmall ((hbit j hsmall).mpr ⟨htwo, hfree⟩)
  obtain ⟨hi, hfreei, hleast⟩ := firstFree_eq_some_iff.mp hfound
  obtain ⟨hi2, hinone⟩ := (hbit i hi).mp hfreei
  refine ⟨i, ⟨hi2, hinone, fun k hk2 hki hknone => ?_⟩, ?_, hi, ?_⟩
  · have hused := hleast k hki
    rw [(hbit k (Nat.lt_trans hki hi)).mpr ⟨hk2, hknone⟩] at hused
    cases hused
  · unfold Geometry.HasINode at hiNode ⊢
    omega
  · rw [getFreeINodeIdx_eq h.formatted, hfound]

/-! ## 3. `MkFile` and `CopyFile` -/

/-- A new node has its inode where the super block says. -/
theorem Sound.getINode_takeINode (h : Sound g diskSize iNodeCnt image fs exts)
    (hi : i < cBlockSize * 64) : (image.takeINode g i).getINode i = g.iNode i := by
  refine (h.formatted.congr ?_).getINode_eq i
  have hsuper := g.super_lt
  have hmap := g.map_le
  exact takeINode_of_ne hi (by omega) (Nat.ne_of_lt g.super_lt_iNode)

/-- The file system with another node, and its name in the parent. -/
def FileSystem.link (fs : FileSystem) (parent : Nat) (entries : List Entry) (i : Nat) (name : Chars)
    (node : Node) : FileSystem :=
  Function.update (Function.update fs i (some node)) parent
    (some (.dir (entries ++ [⟨name, BitVec.ofNat 64 i⟩])))

theorem ne_of_free {parent : Nat} {node : Node} (hparent : fs parent = some node)
    (hfree : fs i = none) : parent ≠ i := by
  rintro rfl
  rw [hfree] at hparent
  cases hparent

variable {parent : BitVec 32} {entries : List Entry}

theorem Sound.ne_zero (h : Sound g diskSize iNodeCnt image fs exts)
    {node : Node} (hparent : fs parent.toNat = some node) : parent ≠ 0 := by
  intro hzero
  obtain ⟨htwo, -⟩ := h.node _ _ hparent
  rw [hzero] at htwo
  exact absurd htwo (by decide)

/-- **A new node** needs its blocks; its name needs none, except in an empty directory. -/
theorem FileSystem.blockCnt_link {fs : FileSystem} {parent i : Nat}
    (hparent : fs parent = some (.dir entries)) (hp : parent < cBlockSize * 64)
    (hentries : entries ≠ []) (hfree : fs i = none) (hi : i < cBlockSize * 64) (name : Chars)
    (node : Node) :
    (fs.link parent entries i name node).blockCnt = fs.blockCnt + node.blockCnt := by
  have hne := ne_of_free hparent hfree
  have hnode := fs.blockCnt_update hi node
  have hname := FileSystem.blockCnt_update (Function.update fs i (some node)) hp
    (.dir (entries ++ [⟨name, BitVec.ofNat 64 i⟩]))
  have hold : Function.update fs i (some node) parent = some (.dir entries) := by
    rw [Function.update_of_ne hne, hparent]
  have hone : (Node.dir entries).blockCnt = 1 := by
    cases entries with
    | nil => exact absurd rfl hentries
    | cons e rest => rfl
  rw [FileSystem.nodeBlocks_none hfree] at hnode
  rw [FileSystem.nodeBlocks_some hold, Node.blockCnt_dir_concat, hone] at hname
  unfold FileSystem.link
  omega

/-- There is room for the node and for its name. -/
def LinkFits (g : Geometry) (fs : FileSystem) (parent : Nat) (entries : List Entry) (i : Nat)
    (name : Chars) (node : Node) : Prop :=
  (fs.link parent entries i name node).Fits g ∧
    totalWords (entries ++ [⟨name, BitVec.ofNat 64 i⟩]) ≤ cBlockSize

theorem LinkFits.node {parent : Nat} {name : Chars} {node : Node}
    (h : LinkFits g fs parent entries i name node) (hp : parent < cBlockSize * 64)
    (hparent : fs parent = some (.dir entries)) (hne : parent ≠ i) :
    FileSystem.Fits (Function.update fs i (some node)) g := by
  refine h.1.of_le (FileSystem.blockCnt_le_concat hp ?_ _)
  rw [Function.update_of_ne hne]
  exact hparent

theorem LinkFits.of_le {parent : Nat} {name : Chars} {node node' : Node}
    (h : LinkFits g fs parent entries i name node') (hi : i < cBlockSize * 64) (hne : parent ≠ i)
    (hle : node.blockCnt ≤ node'.blockCnt) : LinkFits g fs parent entries i name node := by
  refine ⟨h.1.of_le ?_, h.2⟩
  unfold FileSystem.link
  rw [Function.update_comm hne.symm, Function.update_comm hne.symm]
  exact FileSystem.blockCnt_update_le _ hi hle

theorem toNat_iNodeIdx {i : Nat} (h : i < cBlockSize * 64) : (BitVec.ofNat 32 i).toNat = i := by
  have hsize : cBlockSize * 64 < 2 ^ 32 := by decide
  rw [BitVec.toNat_ofNat, Nat.mod_eq_of_lt (Nat.lt_trans h hsize)]

/-- **`MkFile`**: the new file is the first free inode. -/
theorem Represents.mkFile (h : Represents g diskSize iNodeCnt image fs)
    (hparent : fs parent.toNat = some (.dir entries))
    (hroom : HasINodeLeft g fs) {aName : Chars} (hname : aName.length < 2 ^ 10) (aUID aGID : Nat)
    {aMode : Nat} (hmode : PlainMode aMode) :
    ∃ i, LeastFree fs i ∧ i < cBlockSize * 64 ∧
      ((∃ exn image', DiskImage.mkFile parent aName aUID aGID aMode image = (.error exn, image') ∧
          ¬ LinkFits g fs parent.toNat entries i aName (.file [])) ∨
        ∃ image', DiskImage.mkFile parent aName aUID aGID aMode image =
            (.ok (BitVec.ofNat 32 i), image') ∧
          Represents g diskSize iNodeCnt image'
            (fs.link parent.toNat entries i aName (.file []))) := by
  obtain ⟨exts, hsound⟩ := h
  obtain ⟨i, hleast, hiNode, hsmall, hget⟩ := hsound.getFreeINodeIdx hroom
  have hne := ne_of_free hparent hleast.free
  have hparent0 := hsound.ne_zero hparent
  obtain ⟨-, hcreated⟩ := hsound.create hiNode hleast.two_le hsmall hleast.free
    fun image1 hblank => hblank.newFile aUID aGID hmode
  have hparent' : Function.update fs i (some (Node.file [])) parent.toNat =
      some (.dir entries) := by
    rw [Function.update_of_ne hne]
    exact hparent
  have hcall : DiskImage.mkFile parent aName aUID aGID aMode image =
      (do
        DiskImage.appendToDir parent (DirEntry.new aName (BitVec.ofNat 64 i))
        pure (BitVec.ofNat 32 i) : Run MkfsExn DiskImage (BitVec 32))
          ((image.takeINode g i).setFields (g.iNode i) (fileFields aUID aGID aMode)) := by
    unfold DiskImage.mkFile
    rw [Run.bind_apply_ok (crayAssert_true hparent0 image), Run.bind_apply_ok hget,
      Run.bind_apply_ok (Run.get_apply _), Run.bind_apply_ok (Run.modify_apply _ _),
      hsound.getINode_takeINode hsmall]
  refine ⟨i, hleast, hsmall, ?_⟩
  rw [hcall]
  rcases Represents.appendToDir ⟨exts, hcreated⟩ hparent' rfl (e := ⟨aName, BitVec.ofNat 64 i⟩)
    hname with ⟨exn, image', hrun, hnot⟩ | ⟨image', hrun, hnew⟩
  · exact Or.inl ⟨exn, image', Run.bind_apply_error hrun, hnot⟩
  · exact Or.inr ⟨image', Run.bind_apply_ok hrun, hnew⟩

/-- The pieces of a local file end up one behind the other; there is no error where they fit. -/
theorem Represents.copyPieces (hi : i < cBlockSize * 64) (rest : Chars) {fits : Prop} :
    ∀ {image : DiskImage} {fs : FileSystem} {content : Chars},
      Represents g diskSize iNodeCnt image fs → fs i = some (.file content) →
      (fits → RepresentsEnd g diskSize iNodeCnt image fs i ∧
        FileSystem.Fits (Function.update fs i (some (.file (content ++ rest)))) g) →
      (∃ exn image', DiskImage.copyPieces (BitVec.ofNat 32 i) rest image =
          (.error exn, image') ∧ ¬ fits) ∨
        ∃ image', DiskImage.copyPieces (BitVec.ofNat 32 i) rest image = (.ok (), image') ∧
          Represents g diskSize iNodeCnt image'
            (Function.update fs i (some (.file (content ++ rest)))) := by
  induction hlen : rest.length using Nat.strongRecOn generalizing rest with
  | ind len ih =>
    intro image fs content h hfs hfits
    have hsize : bufferSize = 1048576 := rfl
    have hpiece : Countable (rest.take bufferSize) := by
      unfold Countable
      rw [List.length_take]
      have hB : BSIZE = 4096 := rfl
      omega
    -- the piece fits where all do
    have hpieceFits : fits → FileSystem.Fits (Function.update fs i
        (some (.file (content ++ rest.take bufferSize)))) g := by
      refine fun hall => (hfits hall).2.of_le (fs.blockCnt_update_le hi (cover_mono ?_))
      rw [List.length_append, List.length_append, List.length_take]
      omega
    have hstep : (∃ exn image', DiskImage.appendToFile (BitVec.ofNat 32 i) (rest.take bufferSize)
          image = (.error exn, image') ∧ ¬ fits) ∨
        ∃ image', DiskImage.appendToFile (BitVec.ofNat 32 i) (rest.take bufferSize) image =
            (.ok (), image') ∧
          Represents g diskSize iNodeCnt image'
            (Function.update fs i (some (.file (content ++ rest.take bufferSize)))) ∧
          (fits → RepresentsEnd g diskSize iNodeCnt image'
            (Function.update fs i (some (.file (content ++ rest.take bufferSize)))) i) := by
      by_cases hall : fits
      · obtain ⟨image', hrun, hnew⟩ := (hfits hall).1.appendToFile hfs (toNat_iNodeIdx hi) hpiece
          (hpieceFits hall)
        exact Or.inr ⟨image', hrun, hnew.represents, fun _ => hnew⟩
      · rcases h.appendToFile hfs (toNat_iNodeIdx hi) hpiece with ⟨exn, image', hrun⟩ |
          ⟨image', hrun, hnew⟩
        · exact Or.inl ⟨exn, image', hrun, hall⟩
        · exact Or.inr ⟨image', hrun, hnew, fun h' => absurd h' hall⟩
    rw [DiskImage.copyPieces]
    rcases hstep with ⟨exn, image', hrun, hnot⟩ | ⟨image', hrun, hnew, hend⟩
    · exact Or.inl ⟨exn, image', Run.bind_apply_error hrun, hnot⟩
    · rw [Run.bind_apply_ok hrun]
      split
      · rename_i hlast
        rw [List.take_of_length_le (Nat.le_of_lt hlast)] at hnew
        exact Or.inr ⟨image', rfl, hnew⟩
      · rename_i hmore
        have hshorter : (rest.drop bufferSize).length < len := by
          rw [List.length_drop]
          omega
        have hsplit : content ++ rest.take bufferSize ++ rest.drop bufferSize =
            content ++ rest := by
          rw [List.append_assoc, List.take_append_drop]
        have hnext := ih _ hshorter _ rfl hnew (Function.update_self i _ fs) fun hall =>
          ⟨hend hall, by rw [Function.update_idem, hsplit]; exact (hfits hall).2⟩
        rw [Function.update_idem, hsplit] at hnext
        exact hnext

/-- **`CopyFile`**: the new file has the bytes of the local one. -/
theorem Represents.copyFile (h : Represents g diskSize iNodeCnt image fs)
    (hparent : fs parent.toNat = some (.dir entries))
    (hroom : HasINodeLeft g fs) {aName : Chars} (hname : aName.length < 2 ^ 10) (localFile : Chars)
    (aUID aGID : Nat) {aMode : Nat} (hmode : PlainMode aMode) :
    ∃ i, LeastFree fs i ∧ i < cBlockSize * 64 ∧
      ((∃ exn image', DiskImage.copyFile parent aName localFile aUID aGID aMode image =
          (.error exn, image') ∧
        ¬ LinkFits g fs parent.toNat entries i aName (.file localFile)) ∨
        ∃ image', DiskImage.copyFile parent aName localFile aUID aGID aMode image =
            (.ok (), image') ∧
          Represents g diskSize iNodeCnt image'
            (fs.link parent.toNat entries i aName (.file localFile))) := by
  unfold DiskImage.copyFile
  obtain ⟨i, hleast, hsmall, hmk⟩ := h.mkFile hparent hroom hname aUID aGID hmode
  have hne := (ne_of_free hparent hleast.free).symm
  refine ⟨i, hleast, hsmall, ?_⟩
  rcases hmk with ⟨exn, image', hrun, hnot⟩ | ⟨image', hrun, hnew⟩
  · refine Or.inl ⟨exn, image', Run.bind_apply_error hrun, fun hall => hnot ?_⟩
    exact hall.of_le hsmall hne.symm (cover_mono (Nat.zero_le _))
  · have hfile : fs.link parent.toNat entries i aName (.file []) i = some (.file []) := by
      unfold FileSystem.link
      rw [Function.update_of_ne hne, Function.update_self]
    have hlink : Function.update (fs.link parent.toNat entries i aName (.file [])) i
        (some (.file ([] ++ localFile))) =
          fs.link parent.toNat entries i aName (.file localFile) := by
      unfold FileSystem.link
      rw [Function.update_comm hne, Function.update_idem, List.nil_append,
        Function.update_comm hne.symm]
    rw [Run.bind_apply_ok hrun]
    rcases Represents.copyPieces hsmall localFile hnew hfile (fun hall :
        LinkFits g fs parent.toNat entries i aName (.file localFile) =>
          ⟨hnew.endsIn hfile, by rw [hlink]; exact hall.1⟩) with
      ⟨exn, image'', hrun', hnot⟩ | ⟨image'', hrun', hnew'⟩
    · exact Or.inl ⟨exn, image'', hrun', hnot⟩
    · rw [hlink] at hnew'
      exact Or.inr ⟨image'', hrun', hnew'⟩

/-! ## 4. `MkDir` -/

/-- The entries of a new directory. -/
def dots (i : Nat) (up : BitVec 64) : List Entry :=
  [⟨dotName, BitVec.ofNat 64 i⟩, ⟨dotDotName, up⟩]

/-- The part of the function behind the allocation of the inode. -/
def fillDir (aParentINodeIdx : BitVec 32) (aName : Chars) (i : Nat) (up : BitVec 64) :
    Run MkfsExn DiskImage (BitVec 32) := do
  DiskImage.appendToDir (BitVec.ofNat 32 i) (DirEntry.new dotName (BitVec.ofNat 64 i))
  DiskImage.appendToDir (BitVec.ofNat 32 i) (DirEntry.new dotDotName up)
  if aParentINodeIdx ≠ 0 then do
    DiskImage.appendToDir aParentINodeIdx (DirEntry.new aName (BitVec.ofNat 64 i))
    let image ← Run.get
    let parent := image.getINode aParentINodeIdx.toNat
    Run.modify fun image =>
      image.writeINode parent .cdi_nlink (image.readINode parent .cdi_nlink + 1)
    pure (BitVec.ofNat 32 i)
  else pure (BitVec.ofNat 32 i)

/-- The first two entries; there is no error where their block fits. -/
theorem Represents.dots (h : Represents g diskSize iNodeCnt image fs) (hi : i < cBlockSize * 64)
    (hfs : fs i = some (.dir [])) (up : BitVec 64) :
    (∃ exn image', (∀ rest : Run MkfsExn DiskImage (BitVec 32), (do
        DiskImage.appendToDir (BitVec.ofNat 32 i) (DirEntry.new dotName (BitVec.ofNat 64 i))
        DiskImage.appendToDir (BitVec.ofNat 32 i) (DirEntry.new dotDotName up)
        rest) image = (.error exn, image')) ∧
        ¬ FileSystem.Fits (Function.update fs i (some (.dir (Mkfs.dots i up)))) g) ∨
      ∃ image1 image', DiskImage.appendToDir (BitVec.ofNat 32 i)
          (DirEntry.new dotName (BitVec.ofNat 64 i)) image = (.ok (), image1) ∧
        DiskImage.appendToDir (BitVec.ofNat 32 i) (DirEntry.new dotDotName up) image1 =
          (.ok (), image') ∧
        Represents g diskSize iNodeCnt image'
          (Function.update fs i (some (.dir (Mkfs.dots i up)))) := by
  have hdot : dotName.length < 2 ^ 10 := by decide
  have hdotDot : dotDotName.length < 2 ^ 10 := by decide
  have hwords : totalWords (Mkfs.dots i up) ≤ cBlockSize := by
    show entrySize 1 + (entrySize 2 + 0) ≤ cBlockSize
    decide
  have hword : totalWords ([] ++ [⟨dotName, BitVec.ofNat 64 i⟩]) ≤ cBlockSize := by
    show entrySize 1 + 0 ≤ cBlockSize
    decide
  rcases h.appendToDir hfs (toNat_iNodeIdx hi) (e := ⟨dotName, BitVec.ofNat 64 i⟩) hdot with
    ⟨exn, image', hrun, hnot⟩ | ⟨image1, hrun1, h1⟩
  · refine Or.inl ⟨exn, image', fun _ => Run.bind_apply_error hrun, fun hall => hnot ⟨?_, hword⟩⟩
    exact hall.of_le (fs.blockCnt_update_le hi (Nat.le_refl 1))
  · rcases h1.appendToDir (Function.update_self i _ fs) (toNat_iNodeIdx hi)
      (e := ⟨dotDotName, up⟩) hdotDot with ⟨exn, image', hrun, hnot⟩ | ⟨image', hrun, h2⟩
    · refine Or.inl ⟨exn, image', fun _ =>
        (Run.bind_apply_ok hrun1).trans (Run.bind_apply_error hrun), fun hall => hnot ⟨?_, hwords⟩⟩
      rw [Function.update_idem]
      exact hall
    · rw [Function.update_idem] at h2
      exact Or.inr ⟨image1, image', hrun1, hrun, h2⟩

/-- The names in a new directory, and its own in the parent. -/
theorem Represents.fillDir (h : Represents g diskSize iNodeCnt image
      (Function.update fs i (some (.dir [])))) (hi : i < cBlockSize * 64)
    (hp : parent.toNat < cBlockSize * 64)
    (hparent : fs parent.toNat = some (.dir entries)) (hne : parent.toNat ≠ i)
    (hparent0 : parent ≠ 0) {aName : Chars} (hname : aName.length < 2 ^ 10) (up : BitVec 64) :
    (∃ exn image', Mkfs.fillDir parent aName i up image = (.error exn, image') ∧
        ¬ LinkFits g fs parent.toNat entries i aName (.dir (Mkfs.dots i up))) ∨
      ∃ image', Mkfs.fillDir parent aName i up image = (.ok (BitVec.ofNat 32 i), image') ∧
        Represents g diskSize iNodeCnt image'
          (fs.link parent.toNat entries i aName (.dir (Mkfs.dots i up))) := by
  unfold Mkfs.fillDir
  rcases h.dots hi (Function.update_self i _ fs) up with ⟨exn, image', hrun, hnot⟩ |
    ⟨image1, image2, hrun1, hrun2, h2⟩
  · refine Or.inl ⟨exn, image', hrun _, fun hall => hnot ?_⟩
    rw [Function.update_idem]
    exact hall.node hp hparent hne
  · rw [Run.bind_apply_ok hrun1, Run.bind_apply_ok hrun2, if_pos hparent0]
    rw [Function.update_idem] at h2
    have hparent' : Function.update fs i (some (Node.dir (Mkfs.dots i up))) parent.toNat =
        some (.dir entries) := by
      rw [Function.update_of_ne hne]
      exact hparent
    rcases h2.appendToDir hparent' rfl (e := ⟨aName, BitVec.ofNat 64 i⟩) hname with
      ⟨exn, image', hrun, hnot⟩ | ⟨image3, hrun3, h3⟩
    · exact Or.inl ⟨exn, image', Run.bind_apply_error hrun, hnot⟩
    · refine Or.inr ⟨image3.writeINode (g.iNode parent.toNat) .cdi_nlink
        (image3.readINode (g.iNode parent.toNat) .cdi_nlink + 1), ?_, ?_⟩
      · obtain ⟨exts, hsound⟩ := h3
        rw [Run.bind_apply_ok hrun3, Run.bind_apply_ok (Run.get_apply image3),
          hsound.formatted.getINode_eq, Run.bind_apply_ok (Run.modify_apply _ image3)]
        rfl
      · exact h3.writeNlink (Function.update_self _ _ _) _

/-- **`MkDir`**: the new directory is the first free inode. -/
theorem Represents.mkDir (h : Represents g diskSize iNodeCnt image fs)
    (hparent : fs parent.toNat = some (.dir entries))
    (hroom : HasINodeLeft g fs) {aName : Chars} (hname : aName.length < 2 ^ 10) (aUID aGID : Nat)
    {aMode : Nat} (hmode : PlainMode aMode) :
    ∃ i, LeastFree fs i ∧ i < cBlockSize * 64 ∧
      ((∃ exn image', DiskImage.mkDir parent aName aUID aGID aMode image = (.error exn, image') ∧
          ¬ LinkFits g fs parent.toNat entries i aName
            (.dir (Mkfs.dots i (parent.setWidth 64)))) ∨
        ∃ image', DiskImage.mkDir parent aName aUID aGID aMode image =
            (.ok (BitVec.ofNat 32 i), image') ∧
          Represents g diskSize iNodeCnt image' (fs.link parent.toNat entries i aName
            (.dir (Mkfs.dots i (parent.setWidth 64))))) := by
  obtain ⟨exts, hsound⟩ := h
  obtain ⟨i, hleast, hiNode, hsmall, hget⟩ := hsound.getFreeINodeIdx hroom
  have hne := ne_of_free hparent hleast.free
  have hparent0 := hsound.ne_zero hparent
  obtain ⟨-, hcreated⟩ := hsound.create hiNode hleast.two_le hsmall hleast.free
    fun image1 hblank => hblank.newDir aUID aGID hmode
  have hcall : DiskImage.mkDir parent aName aUID aGID aMode image =
      Mkfs.fillDir parent aName i (parent.setWidth 64)
        ((image.takeINode g i).setFields (g.iNode i) (dirFields aUID aGID aMode)) := by
    unfold DiskImage.mkDir dirINodeIdx
    rw [if_pos hparent0, Run.bind_apply_ok hget, Run.bind_apply_ok (Run.get_apply _),
      Run.bind_apply_ok (Run.modify_apply _ _), hsound.getINode_takeINode hsmall, if_pos hparent0]
    rfl
  refine ⟨i, hleast, hsmall, ?_⟩
  rw [hcall]
  exact Represents.fillDir ⟨exts, hcreated⟩ hsmall (hsound.node _ _ hparent).2.1.lt hparent hne
    hparent0 hname (parent.setWidth 64)

/-- **`MakeRoot`**: the root directory is the inode the super block names, and its own parent. -/
theorem Represents.mkRoot (h : Represents g diskSize iNodeCnt image fs)
    (hroot : (image.read getSuperBlock s_root).toNat % 2 ^ 32 = i) (htwo : 2 ≤ i)
    (hsmall : i < cBlockSize * 64) (hiNode : g.HasINode i) (hfree : fs i = none) (aName : Chars)
    (aUID aGID : Nat) {aMode : Nat} (hmode : PlainMode aMode) :
    (∃ exn image', DiskImage.mkDir 0 aName aUID aGID aMode image = (.error exn, image') ∧
        ¬ FileSystem.Fits (Function.update fs i
          (some (.dir (Mkfs.dots i (BitVec.ofNat 64 i))))) g) ∨
      ∃ image', DiskImage.mkDir 0 aName aUID aGID aMode image =
          (.ok (BitVec.ofNat 32 i), image') ∧
        Represents g diskSize iNodeCnt image'
          (Function.update fs i (some (.dir (Mkfs.dots i (BitVec.ofNat 64 i))))) := by
  obtain ⟨exts, hsound⟩ := h
  obtain ⟨hbit, hcreated⟩ := hsound.create hiNode htwo hsmall hfree
    fun image1 hblank => hblank.newDir aUID aGID hmode
  have hnot : ¬ ((0 : BitVec 32) ≠ 0) := fun hne => hne rfl
  have hget : dirINodeIdx 0 image = (.ok i, image.takeINode g i) := by
    unfold dirINodeIdx
    have halloc := allocateINodeIdx_eq hsound.formatted i
    rw [if_pos hbit] at halloc
    rw [if_neg hnot, Run.bind_apply_ok (Run.get_apply image), hroot]
    exact Run.bind_apply_ok halloc
  have hcall : DiskImage.mkDir 0 aName aUID aGID aMode image =
      Mkfs.fillDir 0 aName i (BitVec.ofNat 64 i)
        ((image.takeINode g i).setFields (g.iNode i) (dirFields aUID aGID aMode)) := by
    unfold DiskImage.mkDir
    rw [Run.bind_apply_ok hget, Run.bind_apply_ok (Run.get_apply _),
      Run.bind_apply_ok (Run.modify_apply _ _), hsound.getINode_takeINode hsmall, if_neg hnot]
    rfl
  rw [hcall]
  unfold Mkfs.fillDir
  rcases Represents.dots ⟨exts, hcreated⟩ hsmall (Function.update_self i _ fs)
    (BitVec.ofNat 64 i) with ⟨exn, image', hrun, hnot⟩ | ⟨image1, image2, hrun1, hrun2, h2⟩
  · rw [Function.update_idem] at hnot
    exact Or.inl ⟨exn, image', hrun _, hnot⟩
  · rw [Function.update_idem] at h2
    refine Or.inr ⟨image2, ?_, h2⟩
    rw [Run.bind_apply_ok hrun1, Run.bind_apply_ok hrun2, if_neg hnot]
    rfl

end calls

end Mkfs

end CraySim
