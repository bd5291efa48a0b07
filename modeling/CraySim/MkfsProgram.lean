/-
  Subject:   The program that makes a file system, from its arguments to the words it writes.

  The program makes an empty file system, copies files into its root directory, copies the super
  block and writes the blocks of the disk. It returns exactly when everything has room; what it
  writes is then an image of the files.

  * `madeFs`, `madeFs_concat` -- the file system that is asked for,
  * `Room`, `copyFiles_cases` -- the room it needs, and the copies,
  * `Represents.finalize` -- the copies of the super block,
  * `calls_read`, `calls_accounted` -- the image behind any calls,
  * `mkfs_written`, `main_returns_iff` -- what the program has written, and when it returns.
-/
import CraySim.MkfsRuns

namespace CraySim

namespace Mkfs

open FirstFit ExtentFile DiskImage

/-! ## 1. The file system that is asked for -/

/-- The entries of the root directory. -/
def rootEntries (files : List (Chars × Chars)) : List Entry :=
  dots 2 2 ++ ⟨lostFound, 3⟩ :: files.mapIdx fun k f => ⟨f.1, BitVec.ofNat 64 (4 + k)⟩

/-- The root directory, `lost+found`, and the files with the inodes behind them. -/
def madeFs (files : List (Chars × Chars)) : FileSystem := fun i =>
  if i = 2 then some (.dir (rootEntries files))
  else if i = 3 then some (.dir (dots 3 2))
  else if 4 ≤ i then files[i - 4]?.map fun f => .file f.2
  else none

/-- The blocks the nodes need. -/
def blocksNeeded (files : List (Chars × Chars)) : Nat :=
  2 + (files.map fun f => cover f.2.length).sum

/-- The calls of the program. -/
def copyCalls (files : List (Chars × Chars)) : List Call :=
  files.map fun f => .copyFile 2 f.1 f.2 RT_UID RT_GID RT_MODE

theorem runCalls_copyCalls (files : List (Chars × Chars)) :
    runCalls (copyCalls files) = copyFiles files := by
  induction files with
  | nil => rfl
  | cons f rest ih =>
    show (Call.run _ >>= fun _ => runCalls (copyCalls rest)) = _
    rw [ih]
    rfl

section made
variable {files : List (Chars × Chars)} {f : Chars × Chars}

theorem rootEntries_concat (files : List (Chars × Chars)) (f : Chars × Chars) :
    rootEntries (files ++ [f]) =
      rootEntries files ++ [⟨f.1, BitVec.ofNat 64 (4 + files.length)⟩] := by
  unfold rootEntries
  rw [List.mapIdx_concat, List.append_assoc, List.cons_append]

theorem madeFs_nil : madeFs [] = initialFs := by
  funext i
  unfold madeFs initialFs
  rw [List.getElem?_nil, Option.map_none, ite_self]
  rfl

theorem madeFs_root (files : List (Chars × Chars)) :
    madeFs files 2 = some (.dir (rootEntries files)) := rfl

/-- The next inode is the one behind those of the files. -/
theorem leastFree_madeFs (files : List (Chars × Chars)) :
    LeastFree (madeFs files) (4 + files.length) := by
  refine ⟨by omega, ?_, fun j htwo hj => ?_⟩
  · unfold madeFs
    rw [if_neg (by omega), if_neg (by omega), if_pos (by omega), List.getElem?_eq_none (by omega)]
    rfl
  · unfold madeFs
    split
    · exact Option.some_ne_none _
    · split
      · exact Option.some_ne_none _
      · rw [if_pos (by omega), List.getElem?_eq_getElem (show j - 4 < files.length by omega)]
        exact Option.some_ne_none _

theorem LeastFree.eq_next {i : Nat} (h : LeastFree (madeFs files) i) : i = 4 + files.length := by
  have hnext := leastFree_madeFs files
  exact Nat.le_antisymm (h.le_of_free hnext.two_le hnext.free) (hnext.le_of_free h.two_le h.free)

/-- **One file more.** -/
theorem madeFs_concat (files : List (Chars × Chars)) (f : Chars × Chars) :
    madeFs (files ++ [f]) =
      (madeFs files).link 2 (rootEntries files) (4 + files.length) f.1 (.file f.2) := by
  funext i
  unfold FileSystem.link
  by_cases h2 : i = 2
  · rw [h2, Function.update_self, ← rootEntries_concat]
    rfl
  · rw [Function.update_of_ne h2]
    by_cases hlast : i = 4 + files.length
    · rw [hlast, Function.update_self]
      unfold madeFs
      rw [if_neg (by omega), if_neg (by omega), if_pos (by omega), Nat.add_sub_cancel_left,
        List.getElem?_concat_length]
      rfl
    · rw [Function.update_of_ne hlast]
      unfold madeFs
      rw [if_neg h2, if_neg h2]
      by_cases hfour : 4 ≤ i
      · rw [if_pos hfour, if_pos hfour]
        by_cases hlt : i - 4 < files.length
        · rw [List.getElem?_append_left hlt]
        · rw [List.getElem?_eq_none (show files.length ≤ i - 4 by omega),
            List.getElem?_eq_none (by rw [List.length_append, List.length_singleton]; omega)]
      · rw [if_neg hfour, if_neg hfour]

theorem FileSystem.blockCnt_single {i : Nat} (hi : i < cBlockSize * 64) (node : Node) :
    FileSystem.blockCnt (Function.update (fun _ => none) i (some node)) = node.blockCnt := by
  have hcount := FileSystem.blockCnt_update (fun _ => none) hi node
  have hnone : FileSystem.blockCnt (fun _ => none) = 0 := Finset.sum_eq_zero fun _ _ => rfl
  rw [FileSystem.nodeBlocks_none rfl, Nat.add_zero, hnone, Nat.zero_add] at hcount
  exact hcount

theorem blockCnt_initialFs : initialFs.blockCnt = 2 := by
  have hroot : rootFs.blockCnt = 1 := FileSystem.blockCnt_single (by decide) (.dir (dots 2 2))
  rw [initialFs_eq, FileSystem.blockCnt_link (show rootFs 2 = some (.dir (dots 2 2)) from rfl)
    (by decide) (List.cons_ne_nil _ _) (show rootFs 3 = none from rfl) (by decide), hroot]
  rfl

/-- **The blocks of the file system that is asked for.** -/
theorem blockCnt_madeFs (hlen : 4 + files.length ≤ cBlockSize * 64) :
    (madeFs files).blockCnt = blocksNeeded files := by
  induction files using List.reverseRecOn with
  | nil =>
    rw [madeFs_nil, blockCnt_initialFs]
    rfl
  | append_singleton files f ih =>
    rw [List.length_append, List.length_singleton] at hlen
    have hold := ih (by omega)
    have hneeded : blocksNeeded (files ++ [f]) = blocksNeeded files + cover f.2.length := by
      unfold blocksNeeded
      rw [List.map_append, List.sum_append, List.map_singleton, List.sum_singleton, Nat.add_assoc]
    rw [madeFs_concat, FileSystem.blockCnt_link (madeFs_root files) (by decide)
      (List.cons_ne_nil _ _) (leastFree_madeFs files).free (by omega), hold, hneeded]
    rfl

end made

/-! ## 2. The copies -/

/-- The root directory has room for the names, and the map for the blocks. -/
structure Room (c : FsParams) (files : List (Chars × Chars)) : Prop where
  entries : totalWords (rootEntries files) ≤ cBlockSize
  blocks : c.sfsStart + 1 + blocksNeeded files ≤ c.mapBlockCnt * cBlockSize * 64

/-- What the program is called with: a size it can handle, names of less than 1024 bytes, and an
    inode for every file. -/
structure Offered (c : FsParams) (files : List (Chars × Chars)) : Prop where
  handled : c.Handled
  names : ∀ f ∈ files, f.1.length < 2 ^ 10
  iNodes : 4 + files.length ≤ c.iNodeCnt

section copies
variable {c : FsParams} {files : List (Chars × Chars)}

theorem Room.of_append {rest : List (Chars × Chars)} (h : Room c (files ++ rest)) :
    Room c files := by
  obtain ⟨hentries, hblocks⟩ := h
  constructor
  · unfold rootEntries at hentries ⊢
    rw [List.mapIdx_append, ← List.cons_append, ← List.append_assoc, totalWords_append] at hentries
    exact Nat.le_trans (Nat.le_add_right _ _) hentries
  · unfold blocksNeeded at hblocks ⊢
    rw [List.map_append, List.sum_append] at hblocks
    omega

theorem Offered.lt (h : Offered c files) : 4 + files.length ≤ cBlockSize * 64 :=
  Nat.le_trans h.iNodes (Nat.min_le_right _ _)

/-- The room the program needs, said of the file system. -/
theorem room_iff (h : c.Handled) (hlen : 4 + files.length ≤ cBlockSize * 64) :
    Room c files ↔
      (madeFs files).Fits (c.geometry h) ∧ totalWords (rootEntries files) ≤ cBlockSize := by
  have hfits : (madeFs files).Fits (c.geometry h) ↔
      c.sfsStart + 1 + blocksNeeded files ≤ c.mapBlockCnt * cBlockSize * 64 := by
    rw [← blockCnt_madeFs hlen]
    rfl
  rw [hfits]
  exact ⟨fun hroom => ⟨hroom.blocks, hroom.entries⟩, fun hboth => ⟨hboth.2, hboth.1⟩⟩

/-- An image of the files has had the room for them. -/
theorem Represents.room {h : c.Handled} {image : DiskImage}
    (himage : Represents (c.geometry h) c.mDiskSizeInBlocks c.iNodeCnt image (madeFs files))
    (hlen : 4 + files.length ≤ cBlockSize * 64) : Room c files :=
  (room_iff h hlen).mpr ⟨himage.fits, himage.words_le (madeFs_root files)⟩

/-- **The files are copied one after the other**, as long as there is room. -/
theorem copyFiles_cases (h : c.Handled) {rest : List (Chars × Chars)} :
    ∀ {done : List (Chars × Chars)} {image : DiskImage},
      Represents (c.geometry h) c.mDiskSizeInBlocks c.iNodeCnt image (madeFs done) →
      (∀ f ∈ rest, f.1.length < 2 ^ 10) → 4 + (done ++ rest).length ≤ c.iNodeCnt →
      (∃ exn image', copyFiles rest image = (.error exn, image') ∧ ¬ Room c (done ++ rest)) ∨
        ∃ image', copyFiles rest image = (.ok (), image') ∧
          Represents (c.geometry h) c.mDiskSizeInBlocks c.iNodeCnt image'
            (madeFs (done ++ rest)) := by
  induction rest with
  | nil =>
    intro done image himage _ _
    rw [List.append_nil]
    exact Or.inr ⟨image, rfl, himage⟩
  | cons f rest ih =>
    intro done image himage hnames hlen
    have hmode : PlainMode RT_MODE := ⟨by decide, by decide⟩
    have hassoc : done ++ f :: rest = done ++ [f] ++ rest := by
      rw [List.append_assoc, List.singleton_append]
    rw [List.length_append, List.length_cons] at hlen
    have hnext := hasINode_of_lt h (show 4 + done.length < c.iNodeCnt by omega)
    have hroom : HasINodeLeft (c.geometry h) (madeFs done) :=
      ⟨4 + done.length, by omega, hnext.2, hnext.1, (leastFree_madeFs done).free⟩
    have hparent : madeFs done (2 : BitVec 32).toNat = some (.dir (rootEntries done)) := rfl
    obtain ⟨i, hleast, -, hcopy⟩ := himage.copyFile hparent hroom
      (hnames f List.mem_cons_self) f.2 RT_UID RT_GID hmode
    obtain rfl := hleast.eq_next
    rcases hcopy with ⟨exn, image', herr, hnot⟩ | ⟨image', hok, hnew⟩
    · refine Or.inl ⟨exn, image', Run.bind_apply_error herr, fun hall => hnot ?_⟩
      rw [hassoc] at hall
      have hone := (room_iff h (by
        rw [List.length_append, List.length_singleton]
        exact hnext.2)).mp hall.of_append
      rw [madeFs_concat, rootEntries_concat] at hone
      exact hone
    · have hmade : Represents (c.geometry h) c.mDiskSizeInBlocks c.iNodeCnt image'
          (madeFs (done ++ [f])) := by
        rw [madeFs_concat]
        exact hnew
      have hmore := ih hmade (fun f' hf => hnames f' (List.mem_cons_of_mem _ hf)) (by
        rw [List.length_append, List.length_append, List.length_singleton]
        omega)
      rw [hassoc]
      rcases hmore with ⟨exn, image'', herr, hnot⟩ | ⟨image'', hrest, hall⟩
      · exact Or.inl ⟨exn, image'', (Run.bind_apply_ok hok).trans herr, hnot⟩
      · exact Or.inr ⟨image'', (Run.bind_apply_ok hok).trans hrest, hall⟩

/-- The file system behind `MakeFs`, and behind the copies. -/
theorem makeFs_copyFiles (h : Offered c files) :
    (∃ exn image, (do makeFs c; copyFiles files : Run MkfsExn DiskImage Unit) DiskImage.empty =
        (.error exn, image) ∧ ¬ (c.NamesFit ∧ Room c files)) ∨
      ∃ image, (do makeFs c; copyFiles files : Run MkfsExn DiskImage Unit) DiskImage.empty =
          (.ok (), image) ∧ c.NamesFit ∧
        Represents (c.geometry h.handled) c.mDiskSizeInBlocks c.iNodeCnt image (madeFs files) := by
  rcases makeFs_cases h.handled with ⟨exn, image, herr, hnot⟩ | ⟨image, hok, hnames, himage⟩
  · refine Or.inl ⟨exn, image, Run.bind_apply_error herr, fun hall => hnot ⟨hall.1, ?_⟩⟩
    have hnone := (room_iff h.handled (show 4 + ([] : List (Chars × Chars)).length ≤
      cBlockSize * 64 by decide)).mp (@Room.of_append c [] files hall.2)
    rw [madeFs_nil] at hnone
    exact hnone.1
  · rw [← madeFs_nil] at himage
    rcases copyFiles_cases h.handled himage h.names h.iNodes with ⟨exn, image', herr, hnot⟩ |
      ⟨image', hcopies, hmade⟩
    · exact Or.inl ⟨exn, image', (Run.bind_apply_ok hok).trans herr, fun hall => hnot hall.2⟩
    · exact Or.inr ⟨image', (Run.bind_apply_ok hok).trans hcopies, hnames, hmade⟩

end copies

/-! ## 3. What is written -/

/-- The image, from the words that were written. -/
def imageOf (words : List CInt) : DiskImage := ⟨fun b w => words.getD (b * cBlockSize + w) 0⟩

section written
variable {g : Geometry} {diskSize iNodeCnt : Nat} {image : DiskImage} {fs : FileSystem}

theorem writeToDisk_succ (diskSize : Nat) (image : DiskImage) :
    writeToDisk (diskSize + 1) image =
      writeToDisk diskSize image ++ (List.range cBlockSize).map (image.mStorage diskSize) := by
  unfold writeToDisk
  rw [List.range_succ, List.flatMap_append, List.flatMap_singleton]

theorem length_writeToDisk (diskSize : Nat) (image : DiskImage) :
    (writeToDisk diskSize image).length = diskSize * cBlockSize := by
  induction diskSize with
  | zero => exact (Nat.zero_mul _).symm
  | succ diskSize ih =>
    rw [writeToDisk_succ, List.length_append, ih, List.length_map, List.length_range,
      Nat.succ_mul]

/-- **The words of the disk are written block by block.** -/
theorem imageOf_writeToDisk {b w : Nat} (hb : b < diskSize) (hw : w < cBlockSize) :
    (imageOf (writeToDisk diskSize image)).mStorage b w = image.mStorage b w := by
  show (writeToDisk diskSize image).getD (b * cBlockSize + w) 0 = _
  induction diskSize with
  | zero => exact absurd hb (Nat.not_lt_zero b)
  | succ diskSize ih =>
    have hlen := length_writeToDisk diskSize image
    rw [writeToDisk_succ, List.getD_eq_getElem?_getD]
    by_cases hlast : b = diskSize
    · rw [hlast, List.getElem?_append_right (by omega), hlen, Nat.add_sub_cancel_left,
        List.getElem?_map, List.getElem?_range hw]
      rfl
    · have hlt : b * cBlockSize + w < diskSize * cBlockSize := by
        have hle := Nat.mul_le_mul_right cBlockSize (show b + 1 ≤ diskSize by omega)
        rw [Nat.succ_mul] at hle
        omega
      rw [List.getElem?_append_left (by omega), ← List.getD_eq_getElem?_getD]
      exact ih (by omega)

/-- The blocks behind the super block, as copies of it. -/
theorem copySuper_eq {l : List Nat} (hpos : ∀ i ∈ l, 0 < i) (image : DiskImage) (b : Nat) :
    (l.foldl (fun image i => image.setBlock (SUPERB + i) (image.mStorage SUPERB))
      image).mStorage b =
        if b ∈ l.map (SUPERB + ·) then image.mStorage SUPERB else image.mStorage b := by
  induction l generalizing image with
  | nil => rfl
  | cons i l ih =>
    have hi := hpos i List.mem_cons_self
    have hsuper : (image.setBlock (SUPERB + i) (image.mStorage SUPERB)).mStorage SUPERB =
        image.mStorage SUPERB := setBlock_of_ne _ _ (by omega)
    rw [List.foldl_cons, ih (fun j hj => hpos j (List.mem_cons_of_mem _ hj)), hsuper, List.map_cons]
    by_cases hmem : b ∈ l.map (SUPERB + ·)
    · rw [if_pos hmem, if_pos (List.mem_cons_of_mem _ hmem)]
    · rw [if_neg hmem]
      by_cases hb : b = SUPERB + i
      · rw [hb, setBlock_self, if_pos List.mem_cons_self]
      · rw [setBlock_of_ne _ _ hb, if_neg]
        rw [List.mem_cons]
        exact not_or.mpr ⟨hb, hmem⟩

/-- **`Finalize`**: the blocks behind the super block, up to the map, are its copies. -/
theorem Formatted.finalize_eq (h : Formatted g image) (b : Nat) :
    (finalize image).mStorage b =
      if SUPERB < b ∧ b < SUPERB + g.superCnt then image.mStorage SUPERB
      else image.mStorage b := by
  unfold DiskImage.finalize
  rw [h.superCnt, copySuper_eq fun i hi => (List.mem_range'_1.mp hi).1]
  refine if_congr ?_ rfl rfl
  rw [List.mem_map]
  constructor
  · rintro ⟨i, hi, rfl⟩
    have hrange := List.mem_range'_1.mp hi
    omega
  · rintro ⟨hlow, hhigh⟩
    exact ⟨b - SUPERB, List.mem_range'_1.mpr (by omega), by omega⟩

theorem Represents.finalize (h : Represents g diskSize iNodeCnt image fs) :
    Represents g diskSize iNodeCnt (finalize image) fs := by
  obtain ⟨exts, hsound⟩ := id h
  have hle := g.super_le
  refine h.congr fun b hb _ w _ => ?_
  rw [hsound.formatted.finalize_eq, if_neg]
  rintro ⟨hlow, hhigh⟩
  rcases hb with rfl | hmap
  · exact Nat.lt_irrefl _ hlow
  · omega

/-- **The words that are written hold the file system**, when they are enough for its blocks. -/
theorem Represents.imageOf (h : Represents g diskSize iNodeCnt image fs)
    (hdisk : g.dataStart + fs.blockCnt ≤ diskSize) :
    Represents g diskSize iNodeCnt (Mkfs.imageOf (writeToDisk diskSize image)) fs :=
  h.congr fun _ _ hb _ hw => imageOf_writeToDisk (Nat.lt_of_lt_of_le hb hdisk) hw

end written

/-! ## 4. The program -/

/-- A disk of a megabyte, with one file. -/
def smallOptions : Options := ⟨[0x6f], [], [0x71], 0x100000, [([0x61], [0x62, 0x63])], 1, 2⟩

def smallDisk : FsParams := smallOptions.params

theorem smallDisk_handled : smallDisk.Handled := ⟨by decide, by decide, by decide⟩

theorem smallDisk_offered : Offered smallDisk [([0x61], [0x62, 0x63])] :=
  ⟨smallDisk_handled, by decide, by decide⟩

theorem smallDisk_room : smallDisk.NamesFit ∧ Room smallDisk [([0x61], [0x62, 0x63])] :=
  ⟨⟨by decide, by decide, by decide⟩, by decide, by decide⟩

/-- A file on the small disk: the call may be made, and the run returns. -/
theorem smallDisk_runs :
    AllAllowed (smallDisk.geometry smallDisk_handled) initialFs
        (copyCalls [([0x61], [0x62, 0x63])]) ∧
      ∃ image, (do makeFs smallDisk; runCalls (copyCalls [([0x61], [0x62, 0x63])]) :
        Run MkfsExn DiskImage Unit) DiskImage.empty = (.ok (), image) := by
  have hmode : PlainMode RT_MODE := ⟨by decide, by decide⟩
  have hfour := hasINode_of_lt smallDisk_handled (show 4 < smallDisk.iNodeCnt by decide)
  refine ⟨⟨⟨⟨_, rfl⟩, by decide, hmode, 4, by decide, hfour.2, hfour.1, rfl⟩, trivial⟩, ?_⟩
  rw [runCalls_copyCalls]
  rcases makeFs_copyFiles smallDisk_offered with ⟨exn, image, -, hnot⟩ | ⟨image, hok, -⟩
  · exact absurd smallDisk_room hnot
  · exact ⟨image, hok⟩

section program
variable {c : FsParams} {files : List (Chars × Chars)}

/-- **The file system behind any calls**, read from the image. -/
theorem calls_read (h : c.Handled) {calls : List Call}
    (hallowed : AllAllowed (c.geometry h) initialFs calls) {image : DiskImage}
    (hrun : (do makeFs c; runCalls calls : Run MkfsExn DiskImage Unit) DiskImage.empty =
      (.ok (), image)) :
    image.readFileSystem = calls.foldl Call.apply initialFs :=
  (calls_represents h hallowed hrun).readFileSystem_eq

theorem calls_read_smallDisk : ∃ image : DiskImage, image.readFileSystem =
    (copyCalls [([0x61], [0x62, 0x63])]).foldl Call.apply initialFs := by
  obtain ⟨hallowed, image, hrun⟩ := smallDisk_runs
  exact ⟨image, calls_read smallDisk_handled hallowed hrun⟩

/-- **The maps and the counters behind any calls.** -/
theorem calls_accounted (h : c.Handled) {calls : List Call}
    (hallowed : AllAllowed (c.geometry h) initialFs calls) {image : DiskImage}
    (hrun : (do makeFs c; runCalls calls : Run MkfsExn DiskImage Unit) DiskImage.empty =
      (.ok (), image)) :
    Accounted (c.geometry h) c.mDiskSizeInBlocks c.iNodeCnt image
      (calls.foldl Call.apply initialFs) :=
  (calls_represents h hallowed hrun).accounted

theorem calls_accounted_smallDisk : ∃ image,
    Accounted (smallDisk.geometry smallDisk_handled) 256 64 image
      ((copyCalls [([0x61], [0x62, 0x63])]).foldl Call.apply initialFs) := by
  obtain ⟨hallowed, image, hrun⟩ := smallDisk_runs
  exact ⟨image, calls_accounted smallDisk_handled hallowed hrun⟩

theorem mkfs_cases (h : Offered c files) :
    (∃ exn image, mkfs c files DiskImage.empty = (.error exn, image) ∧
        ¬ (c.NamesFit ∧ Room c files)) ∨
      ∃ image, mkfs c files DiskImage.empty =
          (.ok (writeToDisk c.mDiskSizeInBlocks (finalize image)), finalize image) ∧ c.NamesFit ∧
        Represents (c.geometry h.handled) c.mDiskSizeInBlocks c.iNodeCnt image (madeFs files) := by
  unfold mkfs
  rw [← Run.bind_assoc]
  rcases makeFs_copyFiles h with ⟨exn, image, herr, hnot⟩ | ⟨image, hok, hnames, himage⟩
  · exact Or.inl ⟨exn, image, Run.bind_apply_error herr, hnot⟩
  · exact Or.inr ⟨image, Run.bind_apply_ok hok, hnames, himage⟩

/-- The steps of the program return where no name is too long for its field, and there is room. -/
theorem mkfs_returns_iff (h : Offered c files) :
    (∃ words image, mkfs c files DiskImage.empty = (.ok words, image)) ↔
      c.NamesFit ∧ Room c files := by
  rcases mkfs_cases h with ⟨exn, image, herr, hnot⟩ | ⟨image, hok, hnames, himage⟩
  · refine iff_of_false ?_ hnot
    rintro ⟨words, image', hok⟩
    rw [herr] at hok
    cases hok
  · exact iff_of_true ⟨_, _, hok⟩ ⟨hnames, himage.room h.lt⟩

/-- What `main` asks of the command line. -/
structure DiskImage.Options.Accepted (o : Options) : Prop where
  image : o.ImgFileName ≠ []
  fs : o.fsName.length ≤ 7
  part : o.partitionName.length ≤ 7
  size : 2 ^ 20 ≤ o.ImageSize.toNat

theorem main_accepted {o : Options} (h : o.Accepted) : main o = mkfs o.params o.FileCopyList := by
  have hsize := h.size
  have hzero : o.ImageSize ≠ 0 := by
    intro hzero
    rw [hzero] at hsize
    exact absurd hsize (by decide)
  rw [main, if_neg h.image, if_neg (by have := h.fs; omega), if_neg (by have := h.part; omega),
    if_neg hzero, if_neg (by omega)]

/-- A command line that is not accepted ends with the usage text. -/
theorem accepted_of_main {o : Options} {words : List CInt} {image image' : DiskImage}
    (h : main o image = (.ok words, image')) : o.Accepted := by
  rw [main] at h
  split at h
  · cases h
  split at h
  · cases h
  split at h
  · cases h
  split at h
  · cases h
  split at h
  · cases h
  · exact ⟨‹_›, by omega, by omega, by omega⟩

/-- **What the program has written**: an image of the files, with copies of the super block. -/
theorem mkfs_written (h : Offered c files) {words : List CInt} {image : DiskImage}
    (hrun : mkfs c files DiskImage.empty = (.ok words, image))
    (hdisk : c.sfsStart + 1 + blocksNeeded files ≤ c.mDiskSizeInBlocks) :
    words.length = c.mDiskSizeInBlocks * cBlockSize ∧
      (imageOf words).readFileSystem = madeFs files ∧
      Accounted (c.geometry h.handled) c.mDiskSizeInBlocks c.iNodeCnt (imageOf words)
        (madeFs files) ∧
      ∀ i < NC1NSUPER, ∀ w < cBlockSize,
        (imageOf words).mStorage (SUPERB + i) w = (imageOf words).mStorage SUPERB w := by
  rcases mkfs_cases h with ⟨exn, image', herr, -⟩ | ⟨image', hok, -, himage⟩
  · rw [herr] at hrun
    cases hrun
  · rw [hok] at hrun
    cases hrun
    have hwritten := himage.finalize.imageOf (by
      rw [blockCnt_madeFs h.lt]
      exact hdisk)
    refine ⟨length_writeToDisk _ _, hwritten.readFileSystem_eq, hwritten.accounted,
      fun i hi w hw => ?_⟩
    obtain ⟨exts, hsound⟩ := himage
    have hcopies : (c.geometry h.handled).superCnt = NC1NSUPER := rfl
    have hten : NC1NSUPER = 10 := rfl
    have hone : SUPERB = 1 := rfl
    have hstart : c.sfsStart = FsParams.mapStart + c.mapBlockCnt + 1 + c.iNodeBlockCnt := rfl
    have hmap : FsParams.mapStart = 11 := rfl
    have hsuper : (finalize image').mStorage SUPERB = image'.mStorage SUPERB := by
      rw [hsound.formatted.finalize_eq, if_neg (by omega)]
    have hcopy : (finalize image').mStorage (SUPERB + i) = image'.mStorage SUPERB := by
      by_cases hzero : i = 0
      · rw [hzero, Nat.add_zero, hsuper]
      · rw [hsound.formatted.finalize_eq, hcopies, if_pos (by omega)]
    rw [imageOf_writeToDisk (by omega) hw, imageOf_writeToDisk (by omega) hw, hsuper, hcopy]

theorem mkfs_written_smallDisk : ∃ words image,
    mkfs smallDisk [([0x61], [0x62, 0x63])] DiskImage.empty = (.ok words, image) ∧
      (imageOf words).readFileSystem = madeFs [([0x61], [0x62, 0x63])] := by
  rcases mkfs_cases smallDisk_offered with ⟨exn, image, -, hnot⟩ | ⟨image, hok, -⟩
  · exact absurd smallDisk_room hnot
  · exact ⟨_, _, hok, (mkfs_written smallDisk_offered hok (by decide)).2.1⟩

end program

end Mkfs

end CraySim
