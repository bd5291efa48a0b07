/-
  Subject:   The disks of a simulated IOP.

  A disk is a file. Sectors move between the file and the memory of the mainframe in lines of four
  words, as the bytes they are. A read behind the end of the file gives zeros, except for the line
  that has the end in it: what the file does not have of that line is not defined.

  * `putRaw`, `getRaw` -- bytes of consecutive words of the mainframe memory,
  * `SimIopDisk` -- the disk and its geometry,
  * `read`, `write` -- the two transfers,
  * `read_ok`, `write_ok` -- what they do to memory and file.
-/
import CraySim.ChannelPort
import CraySim.Lib.FileStream

namespace CraySim

open SysRun (memIndex)

/-! ## 1. Bytes of words -/

/-- `MemWrite` for the words at `a`, their bytes numbered from 0 on. -/
def putRaw (mMemSizeInWords : Nat) (a : CAddr) (data : Nat → BitVec 8) :
    Nat → (Nat → BitVec 8) → Except Exn (Nat → BitVec 8)
  | 0, mem => .ok mem
  | n + 1, mem =>
    let idx := memIndex a.toNat
    if mMemSizeInWords ≤ idx / 8 then .error .undefinedBehaviour
    else putRaw mMemSizeInWords (a + 1) (fun k => data (k + 8)) n fun i =>
      if idx ≤ i ∧ i < idx + 8 then data (i - idx) else mem i

/-- `MemRead` for the words at `a`, as their bytes. -/
def getRaw (mMemSizeInWords : Nat) (mem : Nat → BitVec 8) :
    Nat → CAddr → Except Exn (List (BitVec 8))
  | 0, _ => .ok []
  | n + 1, a => do
    let idx := memIndex a.toNat
    if mMemSizeInWords ≤ idx / 8 then .error .undefinedBehaviour
    else
      let rest ← getRaw mMemSizeInWords mem n (a + 1)
      return ((List.range 8).map fun k => mem (idx + k)) ++ rest

/-- The words from `a` on are in memory, and where a subscript of 32 bits reaches them. -/
structure InRange (mMemSizeInWords : Nat) (a : CAddr) (n : Nat) : Prop where
  memory : a.toNat + n ≤ mMemSizeInWords
  reachable : a.toNat + n ≤ cReachableWords

variable {mMemSizeInWords : Nat} {a : CAddr} {mem : Nat → BitVec 8}

theorem InRange.toNat_add {n k : Nat} (h : InRange mMemSizeInWords a n) (hk : k ≤ n) :
    (a + BitVec.ofNat 32 k).toNat = a.toNat + k := by
  have hreach := h.reachable
  unfold cReachableWords at hreach
  rw [BitVec.toNat_add, BitVec.toNat_ofNat]
  omega

/-! ### Line by line -/

section lines
variable {n : Nat} (h : InRange mMemSizeInWords a (4 * (n + 1)))
include h

theorem InRange.line : InRange mMemSizeInWords a 4 := by
  have hmem := h.memory
  have hreach := h.reachable
  exact ⟨by omega, by omega⟩

theorem InRange.next : (a + 4).toNat = a.toNat + 4 := h.toNat_add (k := 4) (by omega)

theorem InRange.behind : InRange mMemSizeInWords (a + 4) (4 * n) := by
  have hmem := h.memory
  have hreach := h.reachable
  have hnext := h.next
  exact ⟨by omega, by omega⟩

end lines

theorem putRaw_ok {n : Nat} (h : InRange mMemSizeInWords a n) (data : Nat → BitVec 8) :
    putRaw mMemSizeInWords a data n mem = .ok fun i =>
      if a.toNat * 8 ≤ i ∧ i < (a.toNat + n) * 8 then data (i - a.toNat * 8) else mem i := by
  induction n generalizing a data mem with
  | zero =>
    rw [putRaw]
    congr 1
    funext i
    rw [if_neg (by omega)]
  | succ n ih =>
    have hmem := h.memory
    have hreach := h.reachable
    have hindex : memIndex a.toNat = a.toNat * 8 := memIndex_of_lt (by omega)
    have hone : a + 1 = a + BitVec.ofNat 32 1 := rfl
    have hnext : (a + 1).toNat = a.toNat + 1 := h.toNat_add (k := 1) (by omega)
    have hrest : InRange mMemSizeInWords (a + 1) n := ⟨by omega, by omega⟩
    rw [putRaw]
    simp only [hindex]
    rw [if_neg (by omega), ih hrest]
    congr 1
    funext i
    simp only [hnext]
    by_cases hin : (a.toNat + 1) * 8 ≤ i ∧ i < (a.toNat + 1 + n) * 8
    · rw [if_pos hin, if_pos (by omega)]
      congr 1
      omega
    · rw [if_neg hin]
      by_cases hfirst : a.toNat * 8 ≤ i ∧ i < a.toNat * 8 + 8
      · rw [if_pos hfirst, if_pos (by omega)]
      · rw [if_neg hfirst, if_neg (by omega)]

theorem getRaw_ok {n : Nat} (h : InRange mMemSizeInWords a n) :
    getRaw mMemSizeInWords mem n a =
      .ok ((List.range (8 * n)).map fun k => mem (a.toNat * 8 + k)) := by
  induction n generalizing a with
  | zero => rfl
  | succ n ih =>
    have hmem := h.memory
    have hreach := h.reachable
    have hindex : memIndex a.toNat = a.toNat * 8 := memIndex_of_lt (by omega)
    have hnext : (a + 1).toNat = a.toNat + 1 := h.toNat_add (k := 1) (by omega)
    have hrest : InRange mMemSizeInWords (a + 1) n := ⟨by omega, by omega⟩
    have hsplit : List.range (8 * (n + 1)) = List.range 8 ++ (List.range (8 * n)).map (8 + ·) := by
      rw [Nat.mul_add, Nat.add_comm, List.range_add]
    rw [getRaw]
    simp only [hindex]
    rw [if_neg (by omega), ih hrest, hsplit, List.map_append, List.map_map, hnext]
    have hshift : (fun k => mem ((a.toNat + 1) * 8 + k)) =
        (fun k => mem (a.toNat * 8 + k)) ∘ (8 + ·) := by
      funext k
      exact congrArg mem (by simp only; omega)
    rw [hshift]
    rfl

/-! ## 2. The disk -/

/-- `SimIopDisk_c`, without its statistics; the constructor sets no other geometry. -/
structure SimIopDisk where
  mImageFileName : String
  mPysicalDeviceId : BitVec 32
  mIopNumber : BitVec 8
  mUnit : BitVec 8
  mNumHeads : Nat
  mNumSectors : Nat
  mNumCylinders : Nat
  mSectorSize : Nat
  heads_pos : 0 < mNumHeads
  sectors_pos : 0 < mNumSectors
  cylinders_pos : 0 < mNumCylinders
  sectorSize_pos : 0 < mSectorSize
  sectorSize_mod : mSectorSize % 1024 = 0

namespace SimIopDisk

/-- `cLineSize` words, in bytes. -/
def cLineBytes : Nat := 32

/-- One line of `Read`; `stale` is what it holds before it is read. -/
def readLine (stale : Nat → BitVec 8) (file : FileStream) : (Nat → BitVec 8) × FileStream :=
  if !file.eofbit then
    (fun k => (file.read cLineBytes).1.getD k (stale k), (file.read cLineBytes).2)
  else (fun _ => 0, file)

/-- The loop of `Read`. -/
def readLines (mMemSizeInWords : Nat) (stale : Nat → BitVec 8) :
    Nat → FileStream → CAddr → (Nat → BitVec 8) → Except Exn (Nat → BitVec 8)
  | 0, _, _, mem => .ok mem
  | n + 1, file, a, mem => do
    let mem ← putRaw mMemSizeInWords a (readLine stale file).1 4 mem
    readLines mMemSizeInWords stale n (readLine stale file).2 (a + 4) mem

/-- The loop of `Write`. -/
def writeLines (mMemSizeInWords : Nat) (mem : Nat → BitVec 8) :
    Nat → FileStream → CAddr → Except Exn FileStream
  | 0, file, _ => .ok file
  | n + 1, file, a => do
    let data ← getRaw mMemSizeInWords mem 4 a
    writeLines mMemSizeInWords mem n (file.write data) (a + 4)

/-- `mSectorSize * (aCylinder * mNumHeads * mNumSectors + aHead * mNumSectors + aSector)`, for the
    three parts of a sector index. -/
def imageOffset (d : SimIopDisk) (aSectorIdx : Nat) : Nat :=
  let sector := aSectorIdx % d.mNumSectors
  let head := aSectorIdx / d.mNumSectors % d.mNumHeads
  let cylinder := aSectorIdx / d.mNumSectors / d.mNumHeads
  d.mSectorSize * (cylinder * d.mNumHeads * d.mNumSectors + head * d.mNumSectors + sector)

/-- The cylinder of a sector index. -/
def cylinderOf (d : SimIopDisk) (aSectorIdx : Nat) : Nat :=
  aSectorIdx / d.mNumSectors / d.mNumHeads

/-- The words of a number of sectors. -/
def accessSize (d : SimIopDisk) (aSectorCnt : Nat) : Nat := d.mSectorSize * aSectorCnt / 8

/-- `Read(aSectorIdx, aSectorCnt, aMainframeAddr)`. -/
def read (d : SimIopDisk) (mMemSizeInWords : Nat) (stale : Nat → BitVec 8)
    (image : List (BitVec 8)) (aSectorIdx aSectorCnt : Nat) (aMainframeAddr : CAddr)
    (mem : Nat → BitVec 8) : Except Exn (Nat → BitVec 8) :=
  if d.mNumCylinders ≤ d.cylinderOf aSectorIdx then .error .assertion
  else if d.accessSize aSectorCnt % 4 ≠ 0 then .error .assertion
  else
    let file := (FileStream.ready image 0).seekTo (d.imageOffset aSectorIdx)
    readLines mMemSizeInWords stale (d.accessSize aSectorCnt / 4) file aMainframeAddr mem

/-- `Write(aSectorIdx, aSectorCnt, aMainframeAddr)`. -/
def write (d : SimIopDisk) (mMemSizeInWords : Nat) (image : List (BitVec 8))
    (aSectorIdx aSectorCnt : Nat) (aMainframeAddr : CAddr) (mem : Nat → BitVec 8) :
    Except Exn (List (BitVec 8)) :=
  if d.mNumCylinders ≤ d.cylinderOf aSectorIdx then .error .assertion
  else
    let file := (FileStream.ready image 0).seekPut (d.imageOffset aSectorIdx)
    if !file.good then .error .assertion
    else if d.accessSize aSectorCnt % 4 ≠ 0 then .error .assertion
    else
      (writeLines mMemSizeInWords mem (d.accessSize aSectorCnt / 4) file aMainframeAddr).map
        FileStream.content

/-- `Read(aCylinder, aHead, aSector, aSectorCnt, aMainframeAddr)`. -/
def readAt (d : SimIopDisk) (mMemSizeInWords : Nat) (stale : Nat → BitVec 8)
    (image : List (BitVec 8)) (aCylinder aHead aSector aSectorCnt : Nat) (aMainframeAddr : CAddr)
    (mem : Nat → BitVec 8) : Except Exn (Nat → BitVec 8) :=
  let imageOffset := d.mSectorSize * (aCylinder * d.mNumHeads * d.mNumSectors +
    aHead * d.mNumSectors + aSector)
  if d.accessSize aSectorCnt % 4 ≠ 0 then .error .assertion
  else
    let file := (FileStream.ready image 0).seekTo imageOffset
    readLines mMemSizeInWords stale (d.accessSize aSectorCnt / 4) file aMainframeAddr mem

/-- `Write(aCylinder, aHead, aSector, aSectorCnt, aMainframeAddr)`. -/
def writeAt (d : SimIopDisk) (mMemSizeInWords : Nat) (image : List (BitVec 8))
    (aCylinder aHead aSector aSectorCnt : Nat) (aMainframeAddr : CAddr) (mem : Nat → BitVec 8) :
    Except Exn (List (BitVec 8)) :=
  let imageOffset := d.mSectorSize * (aCylinder * d.mNumHeads * d.mNumSectors +
    aHead * d.mNumSectors + aSector)
  let file := (FileStream.ready image 0).seekPut imageOffset
  if !file.good then .error .assertion
  else if d.accessSize aSectorCnt % 4 ≠ 0 then .error .assertion
  else
    (writeLines mMemSizeInWords mem (d.accessSize aSectorCnt / 4) file aMainframeAddr).map
      FileStream.content

/-- The file the constructor makes where there is none. -/
def createdImage : List (BitVec 8) := [0]

/-! ## 3. What the transfers do -/

/-- The parts of a sector index give the index back. -/
theorem imageOffset_eq (d : SimIopDisk) (aSectorIdx : Nat) :
    d.imageOffset aSectorIdx = d.mSectorSize * aSectorIdx := by
  have hsector := Nat.div_add_mod aSectorIdx d.mNumSectors
  have hhead := Nat.div_add_mod (aSectorIdx / d.mNumSectors) d.mNumHeads
  simp only [imageOffset]
  congr 1
  calc aSectorIdx / d.mNumSectors / d.mNumHeads * d.mNumHeads * d.mNumSectors
        + aSectorIdx / d.mNumSectors % d.mNumHeads * d.mNumSectors + aSectorIdx % d.mNumSectors
      = (d.mNumHeads * (aSectorIdx / d.mNumSectors / d.mNumHeads)
          + aSectorIdx / d.mNumSectors % d.mNumHeads) * d.mNumSectors
          + aSectorIdx % d.mNumSectors := by rw [Nat.add_mul, Nat.mul_comm d.mNumHeads]
    _ = d.mNumSectors * (aSectorIdx / d.mNumSectors) + aSectorIdx % d.mNumSectors := by
        rw [hhead, Nat.mul_comm]
    _ = aSectorIdx := hsector

theorem accessSize_eq (d : SimIopDisk) (aSectorCnt : Nat) :
    d.accessSize aSectorCnt = 4 * (d.accessSize aSectorCnt / 4) ∧
      8 * d.accessSize aSectorCnt = d.mSectorSize * aSectorCnt := by
  have hmod := d.sectorSize_mod
  obtain ⟨q, hq⟩ : ∃ q, d.mSectorSize * aSectorCnt = 1024 * q :=
    ⟨d.mSectorSize / 1024 * aSectorCnt, by
      have hsize : d.mSectorSize = 1024 * (d.mSectorSize / 1024) := by omega
      rw [← Nat.mul_assoc, ← hsize]⟩
  unfold accessSize
  rw [hq]
  omega

/-- The words from `a` on hold what the file has from `pos` on, and the rest of the memory is as
    it was. -/
structure Delivered (image : List (BitVec 8)) (pos : Nat) (a : CAddr) (n : Nat)
    (mem mem' : Nat → BitVec 8) : Prop where
  inside : ∀ k < 8 * n, ∀ b, image[pos + k]? = some b → mem' (a.toNat * 8 + k) = b
  outside : ∀ i, (i < a.toNat * 8 ∨ (a.toNat + n) * 8 ≤ i) → mem' i = mem i

variable {mMemSizeInWords : Nat} {stale : Nat → BitVec 8} {image : List (BitVec 8)}

theorem readLines_ended (stale : Nat → BitVec 8) {n : Nat} {file : FileStream} {a : CAddr}
    (mem : Nat → BitVec 8) (hend : file.eofbit) (h : InRange mMemSizeInWords a (4 * n)) :
    ∃ mem', readLines mMemSizeInWords stale n file a mem = .ok mem' ∧
      ∀ i, (i < a.toNat * 8 ∨ (a.toNat + 4 * n) * 8 ≤ i) → mem' i = mem i := by
  induction n generalizing a mem with
  | zero => exact ⟨mem, rfl, fun _ _ => rfl⟩
  | succ n ih =>
    have hnext := h.next
    obtain ⟨mem', hrun, hsame⟩ := ih
      (fun i => if a.toNat * 8 ≤ i ∧ i < (a.toNat + 4) * 8 then 0 else mem i) h.behind
    refine ⟨mem', ?_, fun i hi => ?_⟩
    · have hzeros : readLine stale file = (fun _ => 0, file) := by
        rw [readLine, hend]
        rfl
      rw [readLines, hzeros, putRaw_ok h.line]
      exact hrun
    · rw [hsame i (by omega), if_neg (by omega)]

/-- The memory after a line of `Read` has come. -/
def putLine (stale : Nat → BitVec 8) (image : List (BitVec 8)) (pos : Nat) (a : CAddr)
    (mem : Nat → BitVec 8) : Nat → BitVec 8 := fun i =>
  if a.toNat * 8 ≤ i ∧ i < (a.toNat + 4) * 8 then
    (ByteFile.window image pos 32).getD (i - a.toNat * 8) (stale (i - a.toNat * 8))
  else mem i

theorem putLine_of_some {stale : Nat → BitVec 8} {pos k : Nat} {a : CAddr} {mem : Nat → BitVec 8}
    {b : BitVec 8} (hk : k < 32) (hb : image[pos + k]? = some b) :
    putLine stale image pos a mem (a.toNat * 8 + k) = b := by
  rw [putLine, if_pos (by omega), Nat.add_sub_cancel_left, List.getD_eq_getElem?_getD,
    ByteFile.window, List.getElem?_take, if_pos hk, List.getElem?_drop, hb]
  rfl

/-- A byte of the line behind the end of the file. -/
theorem putLine_of_none {stale : Nat → BitVec 8} {pos k : Nat} {a : CAddr} {mem : Nat → BitVec 8}
    (hk : k < 32) (hend : image.length ≤ pos + k) :
    putLine stale image pos a mem (a.toNat * 8 + k) = stale k := by
  rw [putLine, if_pos (by omega), Nat.add_sub_cancel_left, List.getD_eq_getElem?_getD,
    ByteFile.window, List.getElem?_take, if_pos hk, List.getElem?_drop,
    List.getElem?_eq_none hend]
  rfl

theorem putLine_outside {stale : Nat → BitVec 8} {pos i : Nat} {a : CAddr} {mem : Nat → BitVec 8}
    (hi : i < a.toNat * 8 ∨ (a.toNat + 4) * 8 ≤ i) : putLine stale image pos a mem i = mem i := by
  rw [putLine, if_neg (by omega)]

/-- A line the file has, and the lines behind it. -/
theorem readLines_whole (stale : Nat → BitVec 8) {n pos : Nat} {a : CAddr} (mem : Nat → BitVec 8)
    (hwhole : pos + 32 ≤ image.length) (h : InRange mMemSizeInWords a (4 * (n + 1))) :
    readLines mMemSizeInWords stale (n + 1) (FileStream.ready image pos) a mem =
      readLines mMemSizeInWords stale n (FileStream.ready image (pos + 32)) (a + 4)
        (putLine stale image pos a mem) := by
  have hfull : readLine stale (FileStream.ready image pos) =
      (fun k => (ByteFile.window image pos 32).getD k (stale k),
        FileStream.ready image (pos + 32)) := by
    rw [readLine, cLineBytes, FileStream.read_ready hwhole]
    rfl
  rw [readLines, hfull, putRaw_ok h.line]
  rfl

/-- The line that the file has in part, or not at all; behind it only zeros come. -/
theorem readLines_last (stale : Nat → BitVec 8) {n pos : Nat} {a : CAddr} (mem : Nat → BitVec 8)
    (hshort : image.length < pos + 32) (h : InRange mMemSizeInWords a (4 * (n + 1))) :
    ∃ mem', readLines mMemSizeInWords stale (n + 1) (FileStream.ready image pos) a mem = .ok mem' ∧
      ∀ i, (i < (a.toNat + 4) * 8 ∨ (a.toNat + 4 * (n + 1)) * 8 ≤ i) →
        mem' i = putLine stale image pos a mem i := by
  have hnext := h.next
  have hlen : (ByteFile.window image pos 32).length < 32 := by
    rw [ByteFile.length_window]
    omega
  have hended : FileStream.eofbit { FileStream.ready image pos with
      pos := pos + (ByteFile.window image pos 32).length
      eofbit := true, failbit := true } := rfl
  obtain ⟨mem', hrun, hout⟩ := readLines_ended stale (putLine stale image pos a mem) hended h.behind
  refine ⟨mem', ?_, fun i hi => hout i (by omega)⟩
  have hread : (FileStream.ready image pos).read 32 =
      (ByteFile.window image pos 32, { FileStream.ready image pos with
        pos := pos + (ByteFile.window image pos 32).length
        eofbit := true, failbit := true }) := by
    simp [FileStream.read, FileStream.ready, FileStream.good, FileStream.content, hlen]
  have hpart : readLine stale (FileStream.ready image pos) =
      (fun k => (ByteFile.window image pos 32).getD k (stale k),
        ((FileStream.ready image pos).read 32).2) := by
    rw [readLine, cLineBytes, hread]
    rfl
  rw [readLines, hpart, hread, putRaw_ok h.line]
  exact hrun

/-- **The loop of `Read`**: what the file has arrives. -/
theorem readLines_ok (stale : Nat → BitVec 8) (image : List (BitVec 8)) {n : Nat} (pos : Nat)
    {a : CAddr} (mem : Nat → BitVec 8) (h : InRange mMemSizeInWords a (4 * n)) :
    ∃ mem', readLines mMemSizeInWords stale n (FileStream.ready image pos) a mem = .ok mem' ∧
      Delivered image pos a (4 * n) mem mem' := by
  induction n generalizing pos a mem with
  | zero => exact ⟨mem, rfl, fun k hk => absurd hk (by omega), fun _ _ => rfl⟩
  | succ n ih =>
    have hnext := h.next
    by_cases hwhole : pos + 32 ≤ image.length
    · obtain ⟨mem', hrun, hin, hout⟩ := ih (pos + 32) (putLine stale image pos a mem) h.behind
      refine ⟨mem', (readLines_whole stale mem hwhole h).trans hrun, fun k hk b hb => ?_,
        fun i hi => ?_⟩
      · by_cases hk32 : k < 32
        · rw [hout _ (by omega)]
          exact putLine_of_some hk32 hb
        · have hlater := hin (k - 32) (by omega) b
            (by rwa [show pos + 32 + (k - 32) = pos + k by omega])
          rwa [hnext, show (a.toNat + 4) * 8 + (k - 32) = a.toNat * 8 + k by omega] at hlater
      · rw [hout i (by omega), putLine_outside (by omega)]
    · have hend : image.length < pos + 32 := by omega
      obtain ⟨mem', hrun, hout⟩ := readLines_last (n := n) stale mem hend h
      refine ⟨mem', hrun, fun k hk b hb => ?_, fun i hi => ?_⟩
      · have hlt : pos + k < image.length := (List.getElem?_eq_some_iff.mp hb).1
        have hk32 : k < 32 := by omega
        rw [hout _ (by omega)]
        exact putLine_of_some hk32 hb
      · rw [hout i (by omega), putLine_outside (by omega)]

/-- **The loop of `Write`**: the bytes of the words go to the file. -/
theorem writeLines_ok (image : List (BitVec 8)) {n : Nat} (pos : Nat) {a : CAddr}
    (mem : Nat → BitVec 8) (h : InRange mMemSizeInWords a (4 * n)) :
    (writeLines mMemSizeInWords mem n (FileStream.ready image pos) a).map FileStream.content =
      .ok (FileStream.putBytes image pos
        ((List.range (32 * n)).map fun k => mem (a.toNat * 8 + k))) := by
  induction n generalizing pos a image with
  | zero => simp [writeLines, Except.map, FileStream.content, FileStream.putBytes]
  | succ n ih =>
    have hsplit : List.range (32 * (n + 1)) = List.range 32 ++ (List.range (32 * n)).map (32 + ·) := by
      rw [Nat.mul_add, Nat.add_comm, List.range_add]
    have hshift : (fun k => mem ((a.toNat + 4) * 8 + k)) =
        (fun k => mem (a.toNat * 8 + k)) ∘ (32 + ·) := by
      funext k
      exact congrArg mem (by simp only; omega)
    have hlen : ((List.range 32).map fun k => mem (a.toNat * 8 + k)).length = 32 := by simp
    have hrun := ih
      (FileStream.putBytes image pos ((List.range 32).map fun k => mem (a.toNat * 8 + k)))
      (pos + 32) h.behind
    rw [h.next, hshift, ← List.map_map] at hrun
    have happend := FileStream.putBytes_append image pos
      ((List.range 32).map fun k => mem (a.toNat * 8 + k))
      (((List.range (32 * n)).map (32 + ·)).map fun k => mem (a.toNat * 8 + k))
    rw [hlen] at happend
    rw [happend, ← List.map_append, ← hsplit] at hrun
    have hwrite := FileStream.write_ready_any image pos
      ((List.range 32).map fun k => mem (a.toNat * 8 + k))
    rw [hlen] at hwrite
    rw [writeLines, getRaw_ok h.line, ← hrun, ← hwrite]
    rfl

/-- **A read**: from a sector on, as many as asked for. -/
theorem read_ok (d : SimIopDisk) (stale : Nat → BitVec 8) (image : List (BitVec 8))
    {aSectorIdx aSectorCnt : Nat} {a : CAddr}
    (hcylinder : d.cylinderOf aSectorIdx < d.mNumCylinders)
    (h : InRange mMemSizeInWords a (d.accessSize aSectorCnt)) (mem : Nat → BitVec 8) :
    ∃ mem', d.read mMemSizeInWords stale image aSectorIdx aSectorCnt a mem = .ok mem' ∧
      Delivered image (d.mSectorSize * aSectorIdx) a (d.accessSize aSectorCnt) mem mem' := by
  have hlines := (d.accessSize_eq aSectorCnt).1
  rw [hlines] at h
  obtain ⟨mem', hrun, hdelivered⟩ := readLines_ok stale image (d.mSectorSize * aSectorIdx) mem h
  refine ⟨mem', ?_, by rwa [hlines]⟩
  rw [read, if_neg (by omega), if_neg (by omega), imageOffset_eq, FileStream.seekTo_ready]
  exact hrun

/-- **A write**: the bytes of the memory go to the sectors. -/
theorem write_ok (d : SimIopDisk) (image : List (BitVec 8)) {aSectorIdx aSectorCnt : Nat} {a : CAddr}
    (hcylinder : d.cylinderOf aSectorIdx < d.mNumCylinders)
    (h : InRange mMemSizeInWords a (d.accessSize aSectorCnt)) (mem : Nat → BitVec 8) :
    d.write mMemSizeInWords image aSectorIdx aSectorCnt a mem =
      .ok (FileStream.putBytes image (d.mSectorSize * aSectorIdx)
        ((List.range (d.mSectorSize * aSectorCnt)).map fun k => mem (a.toNat * 8 + k))) := by
  obtain ⟨hlines, hbytes⟩ := d.accessSize_eq aSectorCnt
  have hcount : 32 * (d.accessSize aSectorCnt / 4) = d.mSectorSize * aSectorCnt := by omega
  rw [hlines] at h
  have hrun := writeLines_ok image (d.mSectorSize * aSectorIdx) mem h
  rw [hcount] at hrun
  have hgood : (FileStream.ready image (d.mSectorSize * aSectorIdx)).good = true := rfl
  rw [write, if_neg (by omega), imageOffset_eq, FileStream.seekPut_ready]
  simp only [hgood, Bool.not_true, Bool.false_eq_true, if_false]
  rw [if_neg (by omega)]
  exact hrun

end SimIopDisk

end CraySim
