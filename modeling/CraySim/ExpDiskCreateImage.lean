/-
  Subject:   What stands in the image of an expander disk.

  Nothing is checked against the end of the image but the length of a file, in the wrong unit; a
  fixed sector is not checked at all.

  * `place`, `Passes` -- what a file does to the state, and the checks in front of it,
  * `image_…_of_outside` -- what a file, and a run, leave alone,
  * `Written` -- a file of the directory at the end of a run,
  * `ImageOk` -- sectors in the image and apart, and files that are read back,
  * `fixedFirst` -- the first source file has a fixed sector: no member without a value is read,
  * `right_iff` -- a command line makes such an image exactly then, if the files fit.
-/
import CraySim.ExpDiskCreateSectors
import CraySim.Lib.EventRun

namespace CraySim

open ByteFile ByteStore

namespace ExpDisk

namespace DiskImage

/-! ## 1. A file -/

/-- The memory behind a file, its entry of the directory included. -/
def imageAfter (s : DiskImage) (f : FileDesc) : Nat → BitVec 8 :=
  let mem := (readLoop f.SwapBytes f.source (f.extent s.mCurrentSector).1 s.Image).1
  if f.IsFixedPlacement then mem
  else storeBytes mem (dirEntryAddr s.mFileCnt)
    (DirEntry.ofFile f ((f.source.length + 7) / 8) s.mCurrentSector).bytes

/-- What a file that passes the checks does to the state. -/
def place (s : DiskImage) (f : FileDesc) : DiskImage where
  Image := s.imageAfter f
  mCurrentSector := f.next s.mCurrentSector
  mFileCnt := if f.IsFixedPlacement then s.mFileCnt else s.mFileCnt + 1
  placed := s.placed ++ [f.extent s.mCurrentSector]

section file
variable {s s' : DiskImage} {f : FileDesc} {x : Nat}

/-- The checks are made for the files of the directory only. -/
def Passes (s : DiskImage) (f : FileDesc) : Prop :=
  f.IsFixedPlacement = false → checkRoom f s = .ok ()

theorem readFile_of_passes (h : s.Passes f) : s.readFile f = .ok (s.place f) := by
  have hsnd : ∀ n : Nat, (readLoop f.SwapBytes f.source n s.Image).2 = n + f.sectors :=
    fun n => readLoop_snd _ _ _ _
  cases hfixed : f.IsFixedPlacement with
  | true =>
    rw [readFile, hfixed, if_pos rfl]
    simp only [hsnd, Nat.add_sub_cancel_left, place, imageAfter, FileDesc.extent, FileDesc.next,
      hfixed, if_true]
    rfl
  | false =>
    rw [readFile, hfixed, if_neg (by decide), h hfixed]
    simp only [hsnd, Nat.add_sub_cancel_left, place, imageAfter, FileDesc.extent, FileDesc.next,
      hfixed, Bool.false_eq_true, if_false]
    rfl

theorem readFile_eq_ok : s.readFile f = .ok s' ↔ s.Passes f ∧ s' = s.place f := by
  constructor
  · intro h
    have hpasses : s.Passes f := by
      intro hfixed
      rw [readFile, hfixed, if_neg (by decide)] at h
      cases hcheck : checkRoom f s with
      | ok _ => rfl
      | error e =>
        rw [hcheck] at h
        cases h
    exact ⟨hpasses, Except.ok.inj (h.symm.trans (readFile_of_passes hpasses))⟩
  · intro ⟨hpasses, hs'⟩
    rw [hs', readFile_of_passes hpasses]

theorem checkRoom_ok : checkRoom f s = .ok () ↔ f.source.length ≤ s.room ∧
    f.FileName.length ≤ 16 ∧ f.DirectoryName.length ≤ 16 ∧ f.CreationDate.length ≤ 8 ∧
    f.CreationTime.length ≤ 8 ∧ s.mFileCnt < 34 := by
  simp only [checkRoom, throwIf_bind, Nat.not_lt, ge_iff_le, Nat.not_le]
  exact Iff.rfl.and (Iff.rfl.and (Iff.rfl.and (Iff.rfl.and (Iff.rfl.and (and_iff_left rfl)))))

end file

/-! ## 2. The directory -/

section directory
variable {s : DiskImage} {f : FileDesc} {x : Nat}

theorem length_nameField (n : Nat) (aName : List (BitVec 8)) : (nameField n aName).length = n := by
  rw [nameField, List.length_map, List.length_range]

/-- The words of an entry behind the names. -/
def entryWords (e : DirEntry) : List (BitVec 16) :=
  [e.FileSize_High, e.FileSize_Low, e.NumOfBlocks, e.Entry28, e.Entry29, e.NumSectors,
    e.NumSectorChains] ++ e.SectorChains.flatMap fun c => [c.1, c.2]

theorem length_flatMap_wordBytes (ws : List (BitVec 16)) :
    (ws.flatMap DirEntry.wordBytes).length = 2 * ws.length := by
  induction ws with
  | nil => rfl
  | cons w ws ih =>
    rw [List.flatMap_cons, List.length_append, ih, DirEntry.wordBytes, length_bytesLE,
      List.length_cons]
    omega

theorem bytes_ofFile (f : FileDesc) (n first : Nat) :
    ∃ names, names.length = 50 ∧ (DirEntry.ofFile f n first).bytes =
      names ++ (entryWords (DirEntry.ofFile f n first)).flatMap DirEntry.wordBytes := by
  refine ⟨_, ?_, rfl⟩
  simp [DirEntry.ofFile, DirEntry.wordBytes, length_bytesLE, length_nameField]

theorem length_bytes_ofFile (f : FileDesc) (n first : Nat) :
    (DirEntry.ofFile f n first).bytes.length = 120 := by
  obtain ⟨names, hlen, hbytes⟩ := bytes_ofFile f n first
  rw [hbytes, List.length_append, hlen, length_flatMap_wordBytes]
  rfl

theorem wordBytes_at {ws : List (BitVec 16)} {k : Nat} {w : BitVec 16} (h : ws[k]? = some w) :
    ∃ low high, (ws.flatMap DirEntry.wordBytes)[2 * k]? = some low ∧
      (ws.flatMap DirEntry.wordBytes)[2 * k + 1]? = some high ∧
      256 * high.toNat + low.toNat = w.toNat := by
  induction ws generalizing k with
  | nil => cases h
  | cons v ws ih =>
    cases k with
    | zero =>
      obtain rfl := Option.some.inj h
      refine ⟨_, _, rfl, rfl, ?_⟩
      have hlt := v.isLt
      rw [BitVec.toNat_ofNat, BitVec.toNat_ofNat]
      omega
    | succ k => exact ih h

theorem dirEntryAddr_eq (n : Nat) : dirEntryAddr n = logicalSectorAddr 5 + (16 + 120 * n) := by
  rw [logicalSectorAddr_eq]
  show (0 * 35 * 5 + 1 * 35 + 8) * 512 + 8 * 2 + 120 * n = _
  omega

/-- The entries stand in the sector of the directory. -/
theorem inSector_dirEntry {n i : Nat} (hn : n < 34) (hi : i < 120) :
    InSector 5 (dirEntryAddr n + i) := by
  rw [dirEntryAddr_eq, Nat.add_assoc]
  exact inSector_add 5 (by omega)

end directory

/-! ## 3. What a file leaves in the memory -/

section place
variable {s : DiskImage} {f : FileDesc} {x : Nat}

/-- **Frame**: other sectors, and the rest of the directory. -/
theorem image_place_of_outside (hx : ¬ Covers (f.extent s.mCurrentSector) x)
    (hdir : f.IsFixedPlacement = false →
      x < dirEntryAddr s.mFileCnt ∨ dirEntryAddr (s.mFileCnt + 1) ≤ x) :
    (s.place f).Image x = s.Image x := by
  have hloop : (readLoop f.SwapBytes f.source (f.extent s.mCurrentSector).1 s.Image).1 x =
      s.Image x :=
    readLoop_of_outside fun k hk hin => hx ⟨k, hk, hin⟩
  rw [place, imageAfter]
  dsimp only
  split
  · exact hloop
  · have hentry := hdir (Bool.eq_false_iff.2 ‹_›)
    rw [storeBytes_of_outside, hloop]
    rw [length_bytes_ofFile, dirEntryAddr_eq]
    rw [dirEntryAddr_eq, dirEntryAddr_eq] at hentry
    omega

theorem image_place_add {k i : Nat} (hf : f.IsFixedPlacement = false) (hcnt : s.mFileCnt < 34)
    (hk : k < f.sectors) (hi : i < 4096) (hne : s.mCurrentSector + k ≠ 5) :
    (s.place f).Image (logicalSectorAddr (s.mCurrentSector + k) + i) =
      (f.source[4096 * k + sourceIdx f.SwapBytes i]?).getD
        (s.Image (logicalSectorAddr (s.mCurrentSector + k) + sourceIdx f.SwapBytes i)) := by
  have hloop : (readLoop f.SwapBytes f.source s.mCurrentSector s.Image).1
      (logicalSectorAddr (s.mCurrentSector + k) + i) = _ := readLoop_add hk hi
  rw [← hloop, place, imageAfter, FileDesc.extent, hf]
  refine storeBytes_of_outside ?_
  by_contra hin
  refine hne ((inSector_add _ hi).eq (n := 5) ?_)
  rw [length_bytes_ofFile, dirEntryAddr_eq] at hin
  exact ⟨by omega, by omega⟩

theorem image_place_entry {i : Nat} (hf : f.IsFixedPlacement = false) (hi : i < 120) :
    ((DirEntry.ofFile f ((f.source.length + 7) / 8) s.mCurrentSector).bytes[i]?).getD 0 =
      (s.place f).Image (dirEntryAddr s.mFileCnt + i) := by
  have hlen := length_bytes_ofFile f ((f.source.length + 7) / 8) s.mCurrentSector
  rw [place, imageAfter, hf]
  refine Eq.trans ?_ (storeBytes_add _ _ _ _).symm
  rw [List.getElem?_eq_getElem (by omega)]
  rfl

end place

/-! ## 4. All files -/

section run
variable {s s' : DiskImage} {fs gs : List FileDesc} {f : FileDesc} {x : Nat}

/-- **A run that makes an image** places every file, -/
theorem foldlM_eq_ok (h : fs.foldlM readFile s = .ok s') : s' = fs.foldl place s := by
  induction fs generalizing s with
  | nil => exact (Except.ok.inj h).symm
  | cons f fs ih =>
    rw [List.foldlM_cons] at h
    obtain ⟨s1, hread, hrest⟩ := EventRun.exists_of_bind h
    obtain ⟨-, rfl⟩ := readFile_eq_ok.1 hread
    exact ih hrest

/-- each one after its checks. -/
theorem foldlM_passes (h : (fs ++ f :: gs).foldlM readFile s = .ok s') :
    (fs.foldl place s).Passes f := by
  rw [List.foldlM_append] at h
  obtain ⟨s1, hrun, hrest⟩ := EventRun.exists_of_bind h
  obtain rfl := foldlM_eq_ok hrun
  rw [List.foldlM_cons] at hrest
  obtain ⟨s2, hread, -⟩ := EventRun.exists_of_bind hrest
  exact (readFile_eq_ok.1 hread).1

theorem mCurrentSector_foldl (fs : List FileDesc) (s : DiskImage) :
    (fs.foldl place s).mCurrentSector = fs.foldl FileDesc.next s.mCurrentSector := by
  induction fs generalizing s with
  | nil => rfl
  | cons f fs ih => exact ih (s.place f)

theorem placed_foldl (fs : List FileDesc) (s : DiskImage) :
    (fs.foldl place s).placed = s.placed ++ extents s.mCurrentSector fs := by
  induction fs generalizing s with
  | nil => exact (List.append_nil _).symm
  | cons f fs ih =>
    rw [List.foldl_cons, ih, extents]
    exact List.append_assoc _ _ _

theorem mFileCnt_place (s : DiskImage) (f : FileDesc) :
    (s.place f).mFileCnt = s.mFileCnt + (normals [f]).length := by
  rw [place, normals]
  cases hf : f.IsFixedPlacement <;> simp [hf]

theorem normals_cons (f : FileDesc) (fs : List FileDesc) :
    normals (f :: fs) = normals [f] ++ normals fs := by
  rw [normals, ← List.singleton_append, List.filter_append]
  rfl

theorem mFileCnt_foldl (fs : List FileDesc) (s : DiskImage) :
    (fs.foldl place s).mFileCnt = s.mFileCnt + (normals fs).length := by
  induction fs generalizing s with
  | nil => rfl
  | cons f fs ih =>
    rw [List.foldl_cons, ih, mFileCnt_place, normals_cons f fs, List.length_append, Nat.add_assoc]

theorem mFileCnt_le (h : fs.foldlM readFile s = .ok s') (hs : s.mFileCnt ≤ 34) :
    s'.mFileCnt ≤ 34 := by
  induction fs generalizing s with
  | nil => exact Except.ok.inj h ▸ hs
  | cons f fs ih =>
    have hpasses : s.Passes f := @foldlM_passes s s' [] fs f h
    rw [List.foldlM_cons, readFile_of_passes hpasses] at h
    refine ih h ?_
    show (if f.IsFixedPlacement then s.mFileCnt else s.mFileCnt + 1) ≤ 34
    split
    · exact hs
    · have hcnt := (checkRoom_ok.1 (hpasses (Bool.eq_false_iff.2 ‹_›))).2.2.2.2.2
      exact hcnt

/-- **Frame of a run.** -/
theorem image_foldl_of_outside (hx : ∀ e ∈ extents s.mCurrentSector fs, ¬ Covers e x)
    (hdir : x < dirEntryAddr s.mFileCnt ∨
      dirEntryAddr (s.mFileCnt + (normals fs).length) ≤ x) :
    (fs.foldl place s).Image x = s.Image x := by
  induction fs generalizing s with
  | nil => rfl
  | cons f fs ih =>
    rw [normals_cons f fs, List.length_append, dirEntryAddr_eq, dirEntryAddr_eq] at hdir
    rw [List.foldl_cons, ih (s := s.place f) (fun e he => hx e (List.mem_cons_of_mem _ he))]
    · refine image_place_of_outside (hx _ List.mem_cons_self) fun hf => ?_
      have hone : (normals [f]).length = 1 := by simp [normals, hf]
      rw [dirEntryAddr_eq, dirEntryAddr_eq]
      omega
    · rw [mFileCnt_place, dirEntryAddr_eq, dirEntryAddr_eq]
      omega

end run

/-! ## 5. The image that is written -/

section written
variable {s : DiskImage} {label date time : List (BitVec 8)} {x : Nat}

theorem copyString_of_outside {aStr : List (BitVec 8)} {aMem n : Nat} {mem : Nat → BitVec 8}
    (hlen : aStr.length ≤ 2 * n) (hx : x < aMem ∨ aMem + 2 * n ≤ x) :
    copyString aStr aMem n mem x = mem x := by
  rw [copyString, storeBytes_of_outside (by omega), storeBytes_of_outside]
  rw [List.length_replicate]
  exact hx

theorem image_initVolume (hlabel : label.length ≤ 16) (hdate : date.length ≤ 16)
    (htime : time.length ≤ 16) (hx : ¬ InSector 3 x) :
    (init.initVolume label date time).Image x = 0 := by
  have haddr : physicalSectorAddr 24 0 0 = logicalSectorAddr 3 := rfl
  rw [InSector] at hx
  rw [initVolume, haddr]
  dsimp only
  rw [copyString_of_outside htime (by omega), copyString_of_outside hdate (by omega),
    copyString_of_outside htime (by omega), copyString_of_outside hdate (by omega),
    copyString_of_outside hlabel (by omega), storeBytes_of_outside]
  · rfl
  · rw [show ([0xff, 0xff] : List (BitVec 8)).length = 2 from rfl]
    omega

/-- The sectors but that of the free sectors, the bytes swapped in pairs. -/
theorem image_finalize {n i : Nat} (hn : n < 16460) (hfree : n ≠ 4) (hi : i < 4096) :
    s.finalize.Image (logicalSectorAddr n + i) = s.Image (logicalSectorAddr n + mate i) := by
  have haddr : physicalSectorAddr 0 1 0 = logicalSectorAddr 4 := rfl
  have hend := logicalSectorAddr_end hn
  have hmate : mate (logicalSectorAddr n + i) = logicalSectorAddr n + mate i :=
    mate_add (logicalSectorAddr_even n) i
  have hout : ¬ InSector 4 (logicalSectorAddr n + mate i) := fun hin =>
    hfree ((inSector_add n (mate_lt rfl hi)).eq hin)
  rw [InSector] at hout
  rw [finalize, haddr]
  dsimp only
  rw [swapPairs, if_pos (by omega), hmate, storeBytes_of_outside, storeBytes_of_outside,
    storeBytes_of_outside] <;>
  · rw [length_bytesLE]
    omega

theorem entryWord_finalize {n j : Nat} (hn : n < 34) (hj : j < 60) :
    entryWord s.finalize.Image n j =
      256 * (s.Image (dirEntryAddr n + (2 * j + 1))).toNat +
        (s.Image (dirEntryAddr n + 2 * j)).toNat := by
  have hlow : mate (16 + 120 * n + 2 * j) = 16 + 120 * n + (2 * j + 1) := by
    rw [mate, if_pos (by omega)]
    omega
  have hhigh : mate (16 + 120 * n + (2 * j + 1)) = 16 + 120 * n + 2 * j := by
    rw [mate, if_neg (by omega)]
    omega
  have hlowByte := image_finalize (s := s) (n := 5) (i := 16 + 120 * n + 2 * j) (by decide)
    (by decide) (by omega)
  have hhighByte := image_finalize (s := s) (n := 5) (i := 16 + 120 * n + (2 * j + 1)) (by decide)
    (by decide) (by omega)
  rw [hlow] at hlowByte
  rw [hhigh] at hhighByte
  rw [entryWord, dirEntryAddr_eq]
  simp only [Nat.add_assoc] at hlowByte hhighByte ⊢
  rw [hlowByte, hhighByte]

end written

/-! ## 6. Files that are read back -/

/-- The source, padded to 64-bit words. -/
def paddedSource (f : FileDesc) : List (BitVec 8) :=
  f.source ++ List.replicate (8 * ((f.source.length + 7) / 8) - f.source.length) 0

/-- **What is expected of an image**: the sectors of the files are in it; they, the label, the list
    of free sectors and the directory are apart; and every file of the directory has one chain of
    sectors, as long as its words need, in which its words are read back. -/
structure ImageOk (fs : List FileDesc) (s : DiskImage) : Prop where
  inside : ∀ e ∈ s.placed, ∀ k < e.2,
    logicalSectorAddr (e.1 + k) + LogicalSectorSize ≤ 2 * imageSize
  apart : ((3, 1) :: (4, 1) :: (5, 1) :: s.placed).Pairwise Apart
  contents : ∀ i f, (normals fs)[i]? = some f →
    entryChains s.Image i = 1 ∧
      8 * entrySize s.Image i ≤ LogicalSectorSize * entrySectors s.Image i ∧
      readBack s.Image i f.SwapBytes = paddedSource f

section contents
variable {label : List (BitVec 8)} {fs pre post : List FileDesc} {f : FileDesc} {s s' : DiskImage}

theorem exists_of_normals {i : Nat} (h : (normals fs)[i]? = some f) :
    ∃ pre post, fs = pre ++ f :: post ∧ (normals pre).length = i ∧ f.IsFixedPlacement = false := by
  induction fs generalizing i with
  | nil => cases h
  | cons g fs ih =>
    cases hg : g.IsFixedPlacement with
    | true =>
      have hcons : normals (g :: fs) = normals fs := List.filter_cons_of_neg (by simp [hg])
      obtain ⟨pre, post, rfl, hlen, hf⟩ := ih (hcons ▸ h)
      exact ⟨g :: pre, post, rfl, by rw [← hlen, normals, List.filter_cons_of_neg (by simp [hg])]; rfl,
        hf⟩
    | false =>
      have hcons : ∀ l, normals (g :: l) = g :: normals l :=
        fun l => List.filter_cons_of_pos (by simp [hg])
      rw [hcons] at h
      cases i with
      | zero =>
        obtain rfl := Option.some.inj h
        exact ⟨[], fs, rfl, rfl, hg⟩
      | succ i =>
        obtain ⟨pre, post, rfl, hlen, hf⟩ := ih h
        exact ⟨g :: pre, post, rfl, by rw [hcons, List.length_cons, hlen], hf⟩

/-- The image in front of the first file. -/
def initial (label : List (BitVec 8)) : DiskImage := init.initVolume label initDate initTime

/-- **Where a file is at the end of a run**: `cur` is its first sector. -/
structure Written (f : FileDesc) (i cur : Nat) (s : DiskImage) : Prop where
  entries : i < 34
  inside : cur + f.sectors ≤ 16460
  free : Apart (4, 1) (cur, f.sectors)
  data : ∀ k < f.sectors, ∀ j < 4096, s.Image (logicalSectorAddr (cur + k) + j) =
    (f.source[4096 * k + sourceIdx f.SwapBytes j]?).getD 0
  entry : ∀ b < 120, s.Image (dirEntryAddr i + b) =
    ((DirEntry.ofFile f ((f.source.length + 7) / 8) cur).bytes[b]?).getD 0

theorem sectorsInUse_split (hfits : Fits (pre ++ f :: post)) (hf : f.IsFixedPlacement = false)
    {cur : Nat} (hcur : cur = pre.foldl FileDesc.next 6) :
    cur + f.sectors ≤ 16460 ∧
      (∀ e ∈ (3, 1) :: (4, 1) :: (5, 1) :: extents 6 pre, Apart e (cur, f.sectors)) ∧
      (∀ e ∈ extents (cur + f.sectors) post, Apart (cur, f.sectors) e ∧ Apart (5, 1) e) ∧
      ∀ e ∈ extents 6 pre, Apart (5, 1) e := by
  obtain ⟨hin, hpair⟩ := sectorsInUse_iff.2 hfits
  obtain ⟨hext, -, -⟩ := extents_normal cur post hf
  have hall : extents 6 (pre ++ f :: post) =
      extents 6 pre ++ (cur, f.sectors) :: extents (cur + f.sectors) post := by
    rw [extents_append, ← hcur, hext]
  rw [sectorsInUse, hall] at hpair
  rw [hall] at hin
  have hfront : ((3, 1) :: (4, 1) :: (5, 1) :: extents 6 pre ++
      (cur, f.sectors) :: extents (cur + f.sectors) post).Pairwise Apart := hpair
  obtain ⟨hpre, hself, hcross⟩ := List.pairwise_append.1 hfront
  have hdir := (List.pairwise_cons.1 (List.pairwise_cons.1 (List.pairwise_cons.1 hpre).2).2).1
  refine ⟨hin _ (List.mem_append_right _ List.mem_cons_self),
    fun e he => hcross e he _ List.mem_cons_self, fun e he => ⟨(List.pairwise_cons.1 hself).1 e he,
      hcross (5, 1) ?_ e (List.mem_cons_of_mem _ he)⟩, hdir⟩
  exact List.mem_cons_of_mem _ (List.mem_cons_of_mem _ List.mem_cons_self)

/-- The entries are in front of the end of the sector. -/
theorem dirEntry_or {x n : Nat} (hn : n ≤ 34) (hx : ¬ InSector 5 x) :
    x < dirEntryAddr 0 ∨ dirEntryAddr n ≤ x := by
  rw [InSector] at hx
  rw [dirEntryAddr_eq, dirEntryAddr_eq]
  omega

theorem covers_five {x : Nat} : Covers (5, 1) x ↔ InSector 5 x := by
  constructor
  · intro ⟨k, hk, hin⟩
    obtain rfl : k = 0 := by simp only at hk; omega
    exact hin
  · intro hin
    exact ⟨0, Nat.one_pos, hin⟩

theorem sourceIdx_lt {sw : Bool} {i : Nat} (h : i < 4096) : sourceIdx sw i < 4096 := by
  rw [sourceIdx]
  split
  · exact mate_lt rfl h
  · exact h

/-- **A file in the run.** Nothing was written to its sectors before, nothing is written to them
    afterwards, and the entries that follow leave its entry alone. -/
theorem written_of_run (hrun : (pre ++ f :: post).foldlM readFile (initial label) = .ok s)
    (hlabel : label.length ≤ 16) (hfits : Fits (pre ++ f :: post))
    (hf : f.IsFixedPlacement = false) :
    Written f (normals pre).length (pre.foldl FileDesc.next 6) s := by
  obtain ⟨s1, hs1⟩ : ∃ s1, s1 = pre.foldl place (initial label) := ⟨_, rfl⟩
  have hcur : s1.mCurrentSector = pre.foldl FileDesc.next 6 := by
    rw [hs1]
    exact mCurrentSector_foldl pre _
  have hcnt : s1.mFileCnt = (normals pre).length := by
    rw [hs1, mFileCnt_foldl]
    exact Nat.zero_add _
  have hpasses : s1.Passes f := hs1 ▸ foldlM_passes hrun
  have hentries : s1.mFileCnt < 34 := (checkRoom_ok.1 (hpasses hf)).2.2.2.2.2
  have hs : s = post.foldl place (s1.place f) := by
    rw [foldlM_eq_ok hrun, List.foldl_append, hs1]
    rfl
  have hnext : (s1.place f).mCurrentSector = s1.mCurrentSector + f.sectors :=
    if_neg (by rw [hf]; decide)
  have hcnt2 : (s1.place f).mFileCnt = s1.mFileCnt + 1 := if_neg (by rw [hf]; decide)
  have hext : f.extent s1.mCurrentSector = (s1.mCurrentSector, f.sectors) := by
    rw [FileDesc.extent, hf]
    rfl
  have hlast : s1.mFileCnt + 1 + (normals post).length ≤ 34 := by
    have hle := mFileCnt_le hrun (Nat.zero_le 34)
    rwa [hs, mFileCnt_foldl, hcnt2] at hle
  obtain ⟨hinside, hbefore, hafter, hpre⟩ := sectorsInUse_split hfits hf hcur
  have h3 := hbefore (3, 1) List.mem_cons_self
  have h4 := hbefore (4, 1) (List.mem_cons_of_mem _ List.mem_cons_self)
  have h5 := hbefore (5, 1) (List.mem_cons_of_mem _ (List.mem_cons_of_mem _ List.mem_cons_self))
  have hcovers : ∀ k < f.sectors, ∀ j < 4096, Covers (s1.mCurrentSector, f.sectors)
      (logicalSectorAddr (s1.mCurrentSector + k) + j) :=
    fun k hk j hj => ⟨k, hk, inSector_add _ hj⟩
  -- in front of the file its sectors hold zeros
  have hzero : ∀ x, Covers (s1.mCurrentSector, f.sectors) x → s1.Image x = 0 := by
    intro x hx
    have hdir : ¬ InSector 5 x := fun hin => h5.symm.not_covers hx (covers_five.2 hin)
    have hthree : ¬ InSector 3 x := fun hin =>
      h3.symm.not_covers hx ⟨0, Nat.one_pos, hin⟩
    have hframe : s1.Image x = (initial label).Image x := by
      rw [hs1]
      refine image_foldl_of_outside (fun e he => ?_) ?_
      · have hapart := hbefore e
          (List.mem_cons_of_mem _ (List.mem_cons_of_mem _ (List.mem_cons_of_mem _ he)))
        exact hapart.symm.not_covers hx
      · exact dirEntry_or (by rw [hcnt] at hentries; exact (Nat.zero_add _).le.trans hentries.le)
          hdir
    rw [hframe]
    exact image_initVolume hlabel (by decide) (by decide) hthree
  rw [← hcur, ← hcnt]
  refine ⟨hentries, hinside, h4, fun k hk j hj => ?_, fun b hb => ?_⟩
  · have hx := hcovers k hk j hj
    have hdir : ¬ InSector 5 (logicalSectorAddr (s1.mCurrentSector + k) + j) :=
      fun hin => h5.symm.not_covers hx (covers_five.2 hin)
    have hne : s1.mCurrentSector + k ≠ 5 := fun heq => hdir (heq ▸ inSector_add _ hj)
    rw [hs, image_foldl_of_outside, image_place_add hf hentries hk hj hne,
      hzero _ (hcovers k hk _ (sourceIdx_lt hj))]
    · intro e he
      rw [hnext] at he
      exact (hafter e he).1.not_covers hx
    · rw [hcnt2]
      have hor := dirEntry_or hlast hdir
      rw [dirEntryAddr_eq, dirEntryAddr_eq] at hor ⊢
      omega
  · have hin := inSector_dirEntry hentries hb
    rw [hs, image_foldl_of_outside, image_place_entry hf hb]
    · intro e he
      rw [hnext] at he
      exact (hafter e he).2.not_covers (covers_five.2 hin)
    · rw [hcnt2, dirEntryAddr_eq, dirEntryAddr_eq]
      exact .inl (by omega)

/-- The sectors of a file in the image that is written: the source, in its own order if it was
    swapped when it was read. -/
theorem Written.image_finalize {i cur k j : Nat} (h : Written f i cur s) (hk : k < f.sectors)
    (hj : j < 4096) : s.finalize.Image (logicalSectorAddr (cur + k) + j) =
      (f.source[4096 * k + sourceIdx f.SwapBytes (mate j)]?).getD 0 := by
  have hinside := h.inside
  have hne : cur + k ≠ 4 := by
    have hfree := h.free
    simp only [Apart] at hfree
    omega
  rw [DiskImage.image_finalize (by omega) hne hj]
  exact h.data k hk _ (mate_lt rfl hj)

theorem Written.entryWord_eq {i cur k : Nat} (h : Written f i cur s) {w : BitVec 16}
    (hw : (entryWords (DirEntry.ofFile f ((f.source.length + 7) / 8) cur))[k]? = some w) :
    entryWord s.finalize.Image i (25 + k) = w.toNat := by
  obtain ⟨names, hnames, hbytes⟩ := bytes_ofFile f ((f.source.length + 7) / 8) cur
  obtain ⟨low, high, hlow, hhigh, hvalue⟩ := wordBytes_at hw
  have hk : k < 35 := (List.getElem?_eq_some_iff.1 hw).1
  have hbyte : ∀ b c, 50 + b < 120 →
      ((entryWords (DirEntry.ofFile f ((f.source.length + 7) / 8) cur)).flatMap
        DirEntry.wordBytes)[b]? = some c → s.Image (dirEntryAddr i + (50 + b)) = c := by
    intro b c hb hc
    rw [h.entry _ hb, hbytes, List.getElem?_append_right (by omega), hnames,
      Nat.add_sub_cancel_left, hc]
    rfl
  have hhighByte := hbyte _ _ (by omega) hhigh
  have hlowByte := hbyte _ _ (by omega) hlow
  rw [entryWord_finalize h.entries (by omega),
    show 2 * (25 + k) + 1 = 50 + (2 * k + 1) by omega, show 2 * (25 + k) = 50 + 2 * k by omega,
    hhighByte, hlowByte, hvalue]

theorem Written.entry_eq {i cur : Nat} (h : Written f i cur s) :
    entryChains s.finalize.Image i = 1 ∧
      entrySize s.finalize.Image i = (f.source.length + 7) / 8 ∧
      entryFirst s.finalize.Image i = cur ∧
      8 * entrySize s.finalize.Image i ≤ LogicalSectorSize * entrySectors s.finalize.Image i := by
  have hinside := h.inside
  rw [FileDesc.sectors] at hinside
  have hhigh := h.entryWord_eq (k := 0) rfl
  have hlow := h.entryWord_eq (k := 1) rfl
  have hchains := h.entryWord_eq (k := 6) rfl
  have hfirst := h.entryWord_eq (k := 7) rfl
  have hsectors := h.entryWord_eq (k := 8) rfl
  have hsize : entrySize s.finalize.Image i = (f.source.length + 7) / 8 := by
    rw [entrySize, hhigh, hlow]
    show 65536 * (BitVec.ofNat 16 ((f.source.length + 7) / 8 / 2 ^ 16)).toNat +
      (BitVec.ofNat 16 ((f.source.length + 7) / 8)).toNat = _
    rw [BitVec.toNat_ofNat, BitVec.toNat_ofNat]
    omega
  refine ⟨hchains, hsize, ?_, ?_⟩
  · refine hfirst.trans ?_
    show (BitVec.ofNat 16 cur).toNat = cur
    rw [BitVec.toNat_ofNat]
    omega
  · rw [hsize, entrySectors, hsectors]
    show _ ≤ 4096 * (BitVec.ofNat 16 (((f.source.length + 7) / 8 + 512 - 1) / 512)).toNat
    rw [BitVec.toNat_ofNat]
    omega

/-- The byte of the source that the reader finds. -/
theorem sourceIdx_read (sw : Bool) (k : Nat) :
    4096 * ((if sw then k else mate k) / 4096) +
      sourceIdx sw (mate ((if sw then k else mate k) % 4096)) = k := by
  cases sw with
  | true =>
    show 4096 * (k / 4096) + mate (mate (k % 4096)) = k
    rw [mate_mate]
    exact Nat.div_add_mod k 4096
  | false =>
    show 4096 * (mate k / 4096) + mate (mate k % 4096) = k
    simp only [mate]
    split <;> split <;> omega

theorem map_getD_range {xs : List (BitVec 8)} {n : Nat} (h : xs.length ≤ n) :
    ((List.range n).map fun k => (xs[k]?).getD 0) = xs ++ List.replicate (n - xs.length) 0 := by
  refine List.ext_getElem? fun k => ?_
  rw [List.getElem?_map, List.getElem?_append, List.getElem?_replicate]
  by_cases hk : k < n
  · rw [List.getElem?_range hk, Option.map_some]
    split
    · rw [List.getElem?_eq_getElem ‹_›]
      rfl
    · rw [if_pos (by omega), List.getElem?_eq_none (by omega)]
      rfl
  · rw [List.getElem?_eq_none (by rw [List.length_range]; omega), if_neg (by omega),
      if_neg (by omega)]
    rfl

/-- **A file of the directory is read back.** -/
theorem Written.readBack_eq {i cur : Nat} (h : Written f i cur s) :
    readBack s.finalize.Image i f.SwapBytes = paddedSource f := by
  obtain ⟨-, hsize, hfirst, -⟩ := h.entry_eq
  rw [paddedSource, ← map_getD_range (by omega), readBack, hsize, hfirst]
  refine List.map_congr_left fun k hk => ?_
  rw [List.mem_range] at hk
  have hidx : (if f.SwapBytes then k else mate k) / 4096 < f.sectors := by
    rw [FileDesc.sectors, mate]
    split
    · omega
    · split <;> omega
  have hread := h.image_finalize hidx (Nat.mod_lt (if f.SwapBytes then k else mate k) (by decide))
  rwa [sourceIdx_read] at hread

variable {aLabel : List (BitVec 8)}

theorem checkFile_ok : checkFile aLabel f = .ok () ↔
    aLabel.length ≤ 16 ∧ f.FileName.length ≤ 16 ∧ f.DirectoryName.length ≤ 16 := by
  rw [checkFile, throwIf_bind, throwIf_bind, throwIf_bind, Nat.not_lt, Nat.not_lt, Nat.not_lt]
  exact and_congr_right fun _ => and_congr_right fun _ => and_iff_left rfl

/-- **`build`**: the files, and `Finalize`. -/
theorem build_eq_ok : build aLabel fs = .ok s ↔
    ∃ s', fs.foldlM readFile (initial aLabel) = .ok s' ∧ s = s'.finalize := by
  constructor
  · intro h
    obtain ⟨s', hrun, hs⟩ := EventRun.exists_of_bind h
    exact ⟨s', hrun, (Except.ok.inj hs).symm⟩
  · intro ⟨s', hrun, hs⟩
    show (fs.foldlM readFile (initial aLabel) >>= fun t => .ok t.finalize) = .ok s
    rw [hs, hrun]
    rfl

/-- The bounds of the image, in bytes and in sectors. -/
theorem inside_iff {e : Nat × Nat} (he : 0 < e.2) :
    (∀ k < e.2, logicalSectorAddr (e.1 + k) + LogicalSectorSize ≤ 2 * imageSize) ↔
      e.1 + e.2 ≤ 16460 := by
  constructor
  · intro h
    have hlast := h (e.2 - 1) (by omega)
    have hsize : 2 * imageSize = 73740800 := by decide
    rw [logicalSectorAddr_eq, hsize] at hlast
    have hlogical : LogicalSectorSize = 4096 := rfl
    omega
  · intro h k hk
    exact logicalSectorAddr_end (by omega)

/-- **The images that are as expected**: those of the lists of files that fit. -/
theorem imageOk_iff (h : build aLabel fs = .ok s)
    (hlabel : fs ≠ [] → aLabel.length ≤ 16) : ImageOk fs s ↔ Fits fs := by
  obtain ⟨s', hrun, rfl⟩ := build_eq_ok.1 h
  have hplaced : s'.finalize.placed = extents 6 fs := by
    show s'.placed = _
    rw [foldlM_eq_ok hrun, placed_foldl]
    rfl
  rw [← sectorsInUse_iff]
  constructor
  · intro hok
    have hinside := hok.inside
    have hapart := hok.apart
    rw [hplaced] at hinside hapart
    exact ⟨fun e he => (inside_iff (extents_pos he)).1 (hinside e he), hapart⟩
  · intro hfits
    refine ⟨?_, ?_, ?_⟩
    · rw [hplaced]
      exact fun e he => (inside_iff (extents_pos he)).2 (hfits.1 e he)
    · rw [hplaced]
      exact hfits.2
    · intro i f hi
      obtain ⟨pre, post, rfl, rfl, hf⟩ := exists_of_normals hi
      have hwritten := written_of_run hrun (hlabel (by simp)) (sectorsInUse_iff.1 hfits) hf
      obtain ⟨hchains, -, -, hsectors⟩ := hwritten.entry_eq
      exact ⟨hchains, hsectors, hwritten.readBack_eq⟩

theorem foldlM_place (h : s.Passes f) :
    (f :: fs).foldlM readFile s = fs.foldlM readFile (s.place f) := by
  rw [List.foldlM_cons, readFile_of_passes h]
  rfl

end contents

/-! ## 7. The command line -/

section commandLine
variable {ps : List Param} {p : Param} {c c' : CommandLine} {s : DiskImage} {f : FileDesc}

/-- `-fixed` stands in front of the first source file. -/
def fixedFirst : List Param → Bool
  | [] => true
  | .fixed _ :: _ => true
  | .source _ _ :: _ => false
  | _ :: ps => fixedFirst ps

/-- The files that the command line names. -/
def named (ps : List Param) : List FileDesc :=
  match commandLine ps with
  | .ok c => c.Files
  | .error _ => []

/-- The tool throws no exception. -/
def Accepted (ps : List Param) : Prop := ∀ e, main ps = .error e → e = .undefinedBehaviour

/-- It makes an image, as is expected. -/
def Right (ps : List Param) : Prop := ∃ s, main ps = .ok s ∧ ImageOk (named ps) s

theorem sourceFile_ok {aName : List (BitVec 8)} {aSource : Option (List (BitVec 8))}
    (h : sourceFile c aName aSource = .ok c') :
    c.hasPlacement = true ∧ c'.VolumeLabel ≠ [] ∧ c'.VolumeLabel.length ≤ 16 := by
  obtain ⟨_, hcheck, h⟩ := EventRun.exists_of_bind h
  cases aSource with
  | none => cases h
  | some source =>
    obtain ⟨hplace, h⟩ := throwIf_bind.1 h
    obtain rfl := Except.ok.inj h
    refine ⟨Bool.eq_true_of_not_eq_false hplace, ?_, (checkFile_ok.1 hcheck).1⟩
    show (if c.VolumeLabel = [] then defaultLabel else c.VolumeLabel) ≠ []
    split
    · exact List.cons_ne_nil _ _
    · assumption

/-- Once a file is named the label is checked, and stays. -/
theorem param_label (h : param c p = .ok c')
    (hc : c.Files ≠ [] → c.VolumeLabel ≠ [] ∧ c.VolumeLabel.length ≤ 16) :
    c'.Files ≠ [] → c'.VolumeLabel ≠ [] ∧ c'.VolumeLabel.length ≤ 16 := by
  cases p with
  | source aName aSource => exact fun _ => (sourceFile_ok h).2
  | label aLabel =>
    obtain ⟨hnone, h⟩ := throwIf_bind.1 h
    obtain rfl := Except.ok.inj h
    exact fun hfiles => absurd (hc hfiles).1 hnone
  | output aName =>
    obtain rfl := Except.ok.inj (throwIf_bind.1 h).2
    exact hc
  | creation aDate aTime =>
    obtain rfl := Except.ok.inj (throwIf_bind.1 (throwIf_bind.1 h).2).2
    exact hc
  | directory | rootDirectory | fileName | fixed | swap | noSwap =>
    obtain rfl := Except.ok.inj h
    exact hc

theorem commandLine_label (h : ps.foldlM param c = .ok c')
    (hc : c.Files ≠ [] → c.VolumeLabel ≠ [] ∧ c.VolumeLabel.length ≤ 16) :
    c'.Files ≠ [] → c'.VolumeLabel ≠ [] ∧ c'.VolumeLabel.length ≤ 16 := by
  induction ps generalizing c with
  | nil => exact Except.ok.inj h ▸ hc
  | cons p ps ih =>
    rw [List.foldlM_cons] at h
    obtain ⟨c₁, hp, h⟩ := EventRun.exists_of_bind h
    exact ih h (param_label hp hc)

/-- A command line is read to its end only where the first file has a placement. -/
theorem fixedFirst_of_ok (h : ps.foldlM param c = .ok c') (hc : c.hasPlacement = false) :
    fixedFirst ps = true := by
  induction ps generalizing c with
  | nil => rfl
  | cons p ps ih =>
    rw [List.foldlM_cons] at h
    obtain ⟨c₁, hp, h⟩ := EventRun.exists_of_bind h
    cases p with
    | fixed aStartSector => rfl
    | source aName aSource => cases hc.symm.trans (sourceFile_ok hp).1
    | output aName | label aLabel =>
      obtain rfl := Except.ok.inj (throwIf_bind.1 hp).2
      exact ih h hc
    | creation aDate aTime =>
      obtain rfl := Except.ok.inj (throwIf_bind.1 (throwIf_bind.1 hp).2).2
      exact ih h hc
    | directory | rootDirectory | fileName | swap | noSwap =>
      obtain rfl := Except.ok.inj hp
      exact ih h hc

section defined

theorem bind_ne {α β : Type} {m : Except ExpDiskExn α} {g : α → Except ExpDiskExn β}
    {e : ExpDiskExn} (hm : m ≠ .error e) (hg : ∀ a, m = .ok a → g a ≠ .error e) :
    (m >>= g) ≠ .error e := by
  cases m with
  | error e' => exact fun h => hm (congrArg Except.error (Except.error.inj h))
  | ok a => exact hg a rfl

theorem ok_ne {α : Type} {a : α} {e : ExpDiskExn} : Except.ok a ≠ .error e := by
  intro h
  cases h

theorem throwIf_ne {q : Prop} [Decidable q] {e e' : ExpDiskExn} (h : e ≠ e') :
    throwIf q e ≠ .error e' := by
  rw [throwIf]
  split
  · exact fun heq => h (Except.error.inj heq)
  · exact ok_ne

theorem readFile_defined : s.readFile f ≠ .error .undefinedBehaviour := by
  rw [readFile]
  split
  · exact ok_ne
  · refine bind_ne ?_ fun _ _ => ok_ne
    rw [checkRoom]
    repeat refine bind_ne (throwIf_ne ExpDiskExn.noConfusion) fun _ _ => ?_
    exact ok_ne

theorem build_defined {aLabel : List (BitVec 8)} {fs : List FileDesc} :
    build aLabel fs ≠ .error .undefinedBehaviour := by
  refine bind_ne ?_ fun _ _ => ok_ne
  generalize init.initVolume aLabel initDate initTime = s
  induction fs generalizing s with
  | nil => exact ok_ne
  | cons f fs ih => exact bind_ne readFile_defined fun s' _ => ih s'

theorem sourceFile_defined {aName : List (BitVec 8)} {aSource : Option (List (BitVec 8))}
    (hc : c.hasPlacement = true) : sourceFile c aName aSource ≠ .error .undefinedBehaviour := by
  refine bind_ne ?_ fun _ _ => ?_
  · rw [checkFile]
    repeat refine bind_ne (throwIf_ne ExpDiskExn.noConfusion) fun _ _ => ?_
    exact ok_ne
  · cases aSource with
    | none =>
      intro h
      cases h
    | some source =>
      rw [throwIf, if_neg (by rw [hc]; decide)]
      exact ok_ne

theorem commandLine_defined (h : c.hasPlacement = true ∨ fixedFirst ps = true) :
    ps.foldlM param c ≠ .error .undefinedBehaviour := by
  induction ps generalizing c with
  | nil => exact ok_ne
  | cons p ps ih =>
    rw [List.foldlM_cons]
    cases p with
    | fixed aStartSector => exact bind_ne ok_ne fun c₁ hp => ih (.inl (Except.ok.inj hp ▸ rfl))
    | source aName aSource =>
      have hc : c.hasPlacement = true := h.resolve_right Bool.noConfusion
      refine bind_ne (sourceFile_defined hc) fun c₁ hp => ih (.inl ?_)
      obtain ⟨_, _, hp⟩ := EventRun.exists_of_bind hp
      cases aSource with
      | none => cases hp
      | some source => exact Except.ok.inj (throwIf_bind.1 hp).2 ▸ hc
    | output aName | label aLabel =>
      refine bind_ne (bind_ne (throwIf_ne ExpDiskExn.noConfusion) fun _ _ => ok_ne) fun c₁ hp => ?_
      obtain rfl := Except.ok.inj (throwIf_bind.1 hp).2
      exact ih h
    | creation aDate aTime =>
      refine bind_ne (bind_ne (throwIf_ne ExpDiskExn.noConfusion) fun _ _ =>
        bind_ne (throwIf_ne ExpDiskExn.noConfusion) fun _ _ => ok_ne) fun c₁ hp => ?_
      obtain rfl := Except.ok.inj (throwIf_bind.1 (throwIf_bind.1 hp).2).2
      exact ih h
    | directory | rootDirectory | fileName | swap | noSwap =>
      exact bind_ne ok_ne fun c₁ hp => ih (Except.ok.inj hp ▸ h)

theorem main_defined (h : fixedFirst ps = true) : main ps ≠ .error .undefinedBehaviour :=
  bind_ne (commandLine_defined (.inr h)) fun _ _ =>
    bind_ne (throwIf_ne ExpDiskExn.noConfusion) fun _ _ => build_defined

end defined

/-- What `main` has made an image of. -/
theorem main_eq_ok (h : main ps = .ok s) :
    fixedFirst ps = true ∧ (ImageOk (named ps) s ↔ Fits (named ps)) := by
  obtain ⟨c, hc, h⟩ := EventRun.exists_of_bind h
  have hnamed : named ps = c.Files := by rw [named, hc]
  have hlabel := commandLine_label hc fun hfiles => absurd rfl hfiles
  rw [hnamed]
  exact ⟨fixedFirst_of_ok hc rfl,
    imageOk_iff (throwIf_bind.1 h).2 fun hfiles => (hlabel hfiles).2⟩

/-- **The command lines that make an image as expected**: the first source file has a fixed sector,
    and the files fit. -/
theorem right_iff (h : Accepted ps) : Right ps ↔ fixedFirst ps = true ∧ Fits (named ps) := by
  constructor
  · intro ⟨s, hmain, hok⟩
    obtain ⟨hfirst, hiff⟩ := main_eq_ok hmain
    exact ⟨hfirst, hiff.1 hok⟩
  · intro ⟨hfirst, hfits⟩
    rcases hmain : main ps with e | s
    · rw [h e hmain] at hmain
      exact absurd hmain (main_defined hfirst)
    · exact ⟨s, hmain, (main_eq_ok hmain).2.2 hfits⟩

/-- The files of a command line are read, and the image is made. -/
theorem main_of_run (hc : commandLine ps = .ok c) (hname : c.ImgFileName ≠ [])
    (hrun : c.Files.foldlM readFile (initial c.VolumeLabel) = .ok s) :
    main ps = .ok s.finalize := by
  show (commandLine ps >>= fun c => throwIf _ _ >>= fun _ => build c.VolumeLabel c.Files) = _
  rw [hc]
  exact throwIf_bind.2 ⟨hname, build_eq_ok.2 ⟨s, hrun, rfl⟩⟩

theorem accepted_of_ok (h : main ps = .ok s) : Accepted ps := by
  intro e he
  rw [h] at he
  cases he

end commandLine

/-- A file for sector 100, and one of three bytes for the directory. -/
def twoFiles : List Param :=
  [.output [0x69], .fixed 100, .noSwap, .source [0x42] (some [4, 5]), .swap,
    .source [0x41] (some [1, 2, 3])]

theorem right_iff_two : Right twoFiles := by
  let g : FileDesc := ⟨[0x42], [], initDate, initTime, [0x42], [4, 5], 100, true, false⟩
  let f : FileDesc := ⟨[0x41], [], initDate, initTime, [0x41], [1, 2, 3], 100, false, true⟩
  have hg : ∀ s : DiskImage, s.Passes g := fun s h => Bool.noConfusion h
  have hf : ((initial defaultLabel).place g).Passes f := fun _ => checkRoom_ok.2 (by decide)
  obtain ⟨s, hrun⟩ : ∃ s, [g, f].foldlM readFile (initial defaultLabel) = .ok s := by
    rw [foldlM_place (hg _), foldlM_place hf]
    exact ⟨_, rfl⟩
  have hmain : main twoFiles = .ok s.finalize := main_of_run rfl (List.cons_ne_nil _ _) hrun
  have hnamed : named twoFiles = [g, f] := rfl
  refine (right_iff (accepted_of_ok hmain)).2 ⟨rfl, ?_⟩
  rw [hnamed]
  decide

theorem room_eq {s : DiskImage} {n : Nat} (h : s.mCurrentSector = n) :
    s.room = (36870400 + 2 ^ 64 - n * 4096 % 2 ^ 64) % 2 ^ 64 := by
  rw [room, h]
  rfl

/-- A file of one byte for sector 0, and the same big file twice. -/
def bigFiles (big : List (BitVec 8)) : List Param :=
  [.output [0x69], .fixed 0, .source [0x42] (some [4]), .source [0x41] (some big),
    .source [0x41] (some big)]

/-- Two files of 36845824 bytes: for the second one the room is computed to be almost `2 ^ 64`. -/
theorem main_overruns : ¬ ∀ ps, Accepted ps → Right ps := by
  intro hall
  obtain ⟨big, hlen⟩ : ∃ big : List (BitVec 8), big.length = 36845824 :=
    ⟨List.replicate 36845824 0, List.length_replicate⟩
  let g : FileDesc := ⟨[0x42], [], initDate, initTime, [0x42], [4], 0, true, true⟩
  let f : FileDesc := ⟨[0x41], [], initDate, initTime, [0x41], big, 0, false, true⟩
  have hnamed : named (bigFiles big) = [g, f, f] := rfl
  have hsectors : f.sectors = 8996 := by rw [FileDesc.sectors, hlen]
  have hnext : ∀ s : DiskImage, s.mCurrentSector = 6 → (s.place f).mCurrentSector = 9002 := by
    intro s hs
    show s.mCurrentSector + f.sectors = 9002
    rw [hs, hsectors]
  have hpasses : ∀ (s : DiskImage) n, s.mCurrentSector = n → s.mFileCnt < 34 →
      36845824 ≤ (36870400 + 2 ^ 64 - n * 4096 % 2 ^ 64) % 2 ^ 64 → s.Passes f := by
    intro s n hs hcnt hroom _
    refine checkRoom_ok.2 ⟨?_, Nat.le_of_ble_eq_true rfl, Nat.le_of_ble_eq_true rfl,
      Nat.le_of_ble_eq_true rfl, Nat.le_of_ble_eq_true rfl, hcnt⟩
    rw [room_eq hs]
    exact hlen.le.trans hroom
  have hfixed : ∀ s : DiskImage, s.Passes g := fun s h => Bool.noConfusion h
  obtain ⟨s₁, hs₁⟩ : ∃ s₁, s₁ = (initial defaultLabel).place g := ⟨_, rfl⟩
  have hcur : s₁.mCurrentSector = 6 := hs₁ ▸ rfl
  have hcnt : s₁.mFileCnt = 0 := hs₁ ▸ rfl
  have hcnt₂ : (s₁.place f).mFileCnt = 1 := congrArg (· + 1) hcnt
  obtain ⟨s, hrun⟩ : ∃ s, [g, f, f].foldlM readFile (initial defaultLabel) = .ok s := by
    rw [foldlM_place (hfixed _), ← hs₁, foldlM_place (hpasses _ 6 hcur (by omega) (by decide)),
      foldlM_place (hpasses _ 9002 (hnext _ hcur) (by omega) (by decide))]
    exact ⟨_, rfl⟩
  have hmain : main (bigFiles big) = .ok s.finalize := main_of_run rfl (List.cons_ne_nil _ _) hrun
  obtain ⟨s', hmain', hok⟩ := hall _ (accepted_of_ok hmain)
  have hfits : Fits [g, f, f] := hnamed ▸ (main_eq_ok hmain').2.1 hok
  have hend : normalEnd 6 [g, f, f] = 6 + (f.sectors + (f.sectors + 0)) := rfl
  have hbound := hfits.1
  rw [hend, hsectors] at hbound
  exact absurd hbound (by decide)

end DiskImage

end ExpDisk

end CraySim
