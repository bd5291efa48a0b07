/-
  Subject:   The list of free sectors of an expander disk.

  `Finalize` writes one entry: the sector behind the files, and the number of physical sectors of
  the disk less that number, although sectors are numbered by the logical ones, of which there are
  fewer. Both are cut to 16 bits.

  * `freeWord` -- a word of the sector, in the image as written,
  * `freeWord_finalize` -- the words of the entry,
  * `DescribesFree` -- the entry stands for the free sectors of the image,
  * `not_freeListRight` -- it does so for no list of files that stays in the image.
-/
import CraySim.ExpDiskCreateImage

namespace CraySim

open ByteFile ByteStore

namespace ExpDisk

namespace DiskImage

/-! ## 1. The sector of the list -/

/-- A word of the sector, most significant byte first. -/
def freeWord (image : Nat → BitVec 8) (j : Nat) : Nat :=
  256 * (image (physicalSectorAddr 0 1 0 + 2 * j)).toNat +
    (image (physicalSectorAddr 0 1 0 + 2 * j + 1)).toNat

/-- The number of entries, -/
def freeEntries (image : Nat → BitVec 8) : Nat := freeWord image 7

/-- the first sector and the number of sectors of the first one. -/
def freeFirst (image : Nat → BitVec 8) : Nat := freeWord image 8

def freeSectors (image : Nat → BitVec 8) : Nat := freeWord image 9

/-- A word in memory, least significant byte first. -/
def storedWord (mem : Nat → BitVec 8) (a : Nat) : Nat := 256 * (mem (a + 1)).toNat + (mem a).toNat

theorem storedWord_self (mem : Nat → BitVec 8) (a x : Nat) :
    storedWord (storeBytes mem a (bytesLE 2 x)) a = x % 65536 := by
  have hlow : (BitVec.ofNat 8 x).toNat = x % 256 := BitVec.toNat_ofNat x 8
  have hhigh : (BitVec.ofNat 8 (x / 256)).toNat = x / 256 % 256 := BitVec.toNat_ofNat (x / 256) 8
  have hfirst : storeBytes mem a (bytesLE 2 x) a = BitVec.ofNat 8 x :=
    storeBytes_add mem a (bytesLE 2 x) 0
  have hsecond : storeBytes mem a (bytesLE 2 x) (a + 1) = BitVec.ofNat 8 (x / 256) :=
    storeBytes_add mem a (bytesLE 2 x) 1
  rw [storedWord, hfirst, hsecond, hlow, hhigh]
  omega

theorem storedWord_ne {mem : Nat → BitVec 8} {a b x : Nat} (h : b + 2 ≤ a) :
    storedWord (storeBytes mem a (bytesLE 2 x)) b = storedWord mem b := by
  rw [storedWord, storeBytes_of_outside (.inl (by omega)), storeBytes_of_outside (.inl (by omega)),
    storedWord]

/-- The bytes of the image swapped: a word of the list as it was stored. -/
theorem freeWord_swapPairs {mem : Nat → BitVec 8} {j : Nat} (hj : j < 10) :
    freeWord (swapPairs mem 0 (2 * imageSize)) j =
      storedWord mem (physicalSectorAddr 0 1 0 + 2 * j) := by
  have hsize : 2 * imageSize = 73740800 := by decide
  have haddr : physicalSectorAddr 0 1 0 = 17920 := by decide
  have heven : mate (17920 + 2 * j) = 17920 + 2 * j + 1 := if_pos (by omega)
  have hodd : mate (17920 + 2 * j + 1) = 17920 + 2 * j := by
    rw [mate, if_neg (by omega)]
    rfl
  rw [freeWord, haddr, hsize, swapPairs, if_pos (by omega), swapPairs, if_pos (by omega), heven,
    hodd, storedWord]

/-- **The entry** that `Finalize` writes. -/
theorem freeWord_finalize (s : DiskImage) :
    freeEntries s.finalize.Image = 1 ∧
      freeFirst s.finalize.Image = s.mCurrentSector % 65536 ∧
      freeSectors s.finalize.Image = s.sectorsLeft % 65536 := by
  refine ⟨?_, ?_, ?_⟩
  · rw [freeEntries, finalize, freeWord_swapPairs (by decide), storedWord_ne (by decide),
      storedWord_ne (by decide), storedWord_self]
  · rw [freeFirst, finalize, freeWord_swapPairs (by decide), storedWord_ne (by decide),
      storedWord_self]
  · rw [freeSectors, finalize, freeWord_swapPairs (by decide), storedWord_self]

/-! ## 2. What the entry stands for -/

/-- A sector of the image. -/
def InImage (n : Nat) : Prop := logicalSectorAddr n + LogicalSectorSize ≤ 2 * imageSize

theorem inImage_iff {n : Nat} : InImage n ↔ n < 16460 := by
  have hsize : 2 * imageSize = 73740800 := by decide
  have hlogical : LogicalSectorSize = 4096 := rfl
  rw [InImage, logicalSectorAddr_eq, hsize, hlogical]
  omega

/-- The list has one entry, for the sectors of the image from the one behind the files on. -/
def DescribesFree (fs : List FileDesc) (s : DiskImage) : Prop :=
  freeEntries s.Image = 1 ∧
    ∀ n, freeFirst s.Image ≤ n ∧ n < freeFirst s.Image + freeSectors s.Image ↔
      normalEnd 6 fs ≤ n ∧ InImage n

section entry
variable {fs : List FileDesc} {s : DiskImage} {aLabel : List (BitVec 8)}

/-- The next sector is the one behind the files of the directory. -/
theorem foldl_next (cur : Nat) (fs : List FileDesc) :
    fs.foldl FileDesc.next cur = normalEnd cur fs := by
  induction fs generalizing cur with
  | nil => rfl
  | cons f fs ih => rw [List.foldl_cons, ih, normalEnd_cons]

/-- Numbers cut to 16 bits: for files that stay in the image the count is wrong. -/
theorem not_describes {cur left : Nat} (hcur : cur ≤ 16460)
    (hleft : left = (144025 + 2 ^ 64 - cur % 2 ^ 64) % 2 ^ 64) :
    ¬ ∀ n, cur % 65536 ≤ n ∧ n < cur % 65536 + left % 65536 ↔ cur ≤ n ∧ n < 16460 := by
  intro h
  have hcount : (left + cur) % 65536 = 12953 := by omega
  rcases Nat.lt_or_eq_of_le hcur with hlt | heq
  · -- the last sector, and the one behind it
    have hlast := (h 16459).2 (by omega)
    have hbehind := mt (h 16460).1 (by omega)
    omega
  · have hnone := mt (h cur).1 (by omega)
    omega

/-- The files of the directory end in the image if the sectors of all files are in it. -/
theorem normalEnd_le {cur : Nat} (hcur : cur ≤ 16460)
    (h : ∀ e ∈ extents cur fs, e.1 + e.2 ≤ 16460) : normalEnd cur fs ≤ 16460 := by
  induction fs generalizing cur with
  | nil => exact hcur
  | cons f fs ih =>
    cases hf : f.IsFixedPlacement with
    | true =>
      obtain ⟨hext, -, hend⟩ := extents_fixed cur fs hf
      rw [hext, List.forall_mem_cons] at h
      exact hend.symm ▸ ih hcur h.2
    | false =>
      obtain ⟨hext, -, hend⟩ := extents_normal cur fs hf
      rw [hext, List.forall_mem_cons] at h
      exact hend.symm ▸ ih h.1 h.2

/-- **What is expected of the list**: nothing is written behind the image, and the list describes
    the free sectors. -/
def FreeListRight (fs : List FileDesc) (s : DiskImage) : Prop :=
  (∀ e ∈ s.placed, ∀ k < e.2, InImage (e.1 + k)) ∧ DescribesFree fs s

/-- **The free list** is wrong in every image: with the number of physical sectors it goes past the
    end, and cut to 16 bits it stops in front of it. -/
theorem not_freeListRight (h : build aLabel fs = .ok s) : ¬ FreeListRight fs s := by
  intro ⟨hinside, hdescribes⟩
  obtain ⟨-, hfree⟩ := hdescribes
  obtain ⟨s', hrun, rfl⟩ := build_eq_ok.1 h
  have hplaced : s'.placed = extents 6 fs := by
    rw [foldlM_eq_ok hrun, placed_foldl]
    rfl
  have hend : normalEnd 6 fs ≤ 16460 := by
    refine normalEnd_le (by decide) fun e he => ?_
    exact (inside_iff (extents_pos he)).1 (hinside e (hplaced.symm ▸ he))
  have hcur : s'.mCurrentSector = normalEnd 6 fs := by
    rw [foldlM_eq_ok hrun, mCurrentSector_foldl]
    exact foldl_next 6 fs
  have hleft : s'.sectorsLeft = (144025 + 2 ^ 64 - normalEnd 6 fs % 2 ^ 64) % 2 ^ 64 := by
    rw [sectorsLeft, hcur]
    rfl
  obtain ⟨-, hfirst, hsectors⟩ := freeWord_finalize s'
  rw [hfirst, hsectors, hcur] at hfree
  simp only [inImage_iff] at hfree
  exact not_describes hend hleft hfree

end entry

/-- A file of three bytes. -/
def smallFile : FileDesc := ⟨[0x41], [], initDate, initTime, [0x41], [1, 2, 3], 0, false, true⟩

theorem build_smallFile : ∃ s, build defaultLabel [smallFile] = .ok s ∧
    s = ((initial defaultLabel).place smallFile).finalize := by
  have hpasses : (initial defaultLabel).Passes smallFile := fun _ => checkRoom_ok.2 (by decide)
  have hrun : [smallFile].foldlM readFile (initial defaultLabel) =
      .ok ((initial defaultLabel).place smallFile) := by
    rw [foldlM_place hpasses]
    rfl
  exact ⟨_, build_eq_ok.2 ⟨_, hrun, rfl⟩, rfl⟩

theorem not_freeListRight_small : ∃ s, build defaultLabel [smallFile] = .ok s ∧
    ¬ FreeListRight [smallFile] s := by
  obtain ⟨s, hs, -⟩ := build_smallFile
  exact ⟨s, hs, not_freeListRight hs⟩

/-- Sector 7 is free, and so are the ones up to 16459: the entry counts 12946. -/
theorem not_describesFree : ¬ ∀ aLabel fs s, build aLabel fs = .ok s →
    (∀ f ∈ fs, f.IsFixedPlacement = false) → DescribesFree fs s := by
  intro h
  obtain ⟨s, hs, heq⟩ := build_smallFile
  have hfree := (h defaultLabel [smallFile] s hs (List.forall_mem_singleton.2 rfl)).2
  have hcur : ((initial defaultLabel).place smallFile).mCurrentSector = 7 := rfl
  have hleft : ((initial defaultLabel).place smallFile).sectorsLeft = 144018 := by
    rw [sectorsLeft, hcur]
    decide
  obtain ⟨-, hfirst, hsectors⟩ := freeWord_finalize ((initial defaultLabel).place smallFile)
  have hend : normalEnd 6 [smallFile] = 7 := rfl
  have hlast := (hfree 16459).2 ⟨by rw [hend]; decide, inImage_iff.2 (by decide)⟩
  rw [heq, hfirst, hsectors, hcur, hleft] at hlast
  exact absurd hlast.2 (by decide)

end DiskImage

end ExpDisk

end CraySim
