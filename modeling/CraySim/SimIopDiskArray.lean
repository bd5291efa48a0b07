/-
  Subject:   A disk of a simulated IOP as an array of sectors.

  A new image has one byte, and grows as far as it is written. Its sectors are those of an array
  that starts out blank, whatever it is asked for; a read that goes behind the end of the image,
  however, does not give the zeros of the array in the line that has the end in it.

  * `DiskPlace`, `DiskCall` -- the two forms of a transfer, and the calls of a run,
  * `stored`, `fetched` -- what a transfer does to the memory, and what it takes from it,
  * `readLines_short` -- the line with the end of the image in it,
  * `WrittenSectors` -- the array, and how far it was written,
  * `reads_what_was_written` -- when a read gives what the array has.
-/
import CraySim.DiskRouting
import CraySim.Lib.SectorArray
import CraySim.Lib.EventRun

namespace CraySim

/-! ## 1. Calls -/

/-- Where a transfer starts: a cylinder, a head and a sector, or the number of a sector. -/
inductive DiskPlace where
  | chs (aCylinder aHead aSector : Nat)
  | linear (aSectorIdx : Nat)
  deriving DecidableEq, Repr

/-- The image file of a disk, and the memory of the mainframe. -/
structure DiskWorld where
  image : List (BitVec 8)
  mMemory : Nat → BitVec 8

/-- What happens to a disk; between the transfers the mainframe changes its memory. -/
inductive DiskCall where
  | read (place : DiskPlace) (aSectorCnt : Nat) (aMainframeAddr : CAddr) (stale : Nat → BitVec 8)
  | write (place : DiskPlace) (aSectorCnt : Nat) (aMainframeAddr : CAddr)
  | compute (mMemory : Nat → BitVec 8)

namespace SimIopDisk

variable (d : SimIopDisk) (mMemSizeInWords : Nat)

/-- `Read`, in both forms. -/
def readPlace (stale : Nat → BitVec 8) (place : DiskPlace) (aSectorCnt : Nat) (a : CAddr)
    (s : DiskWorld) : Except Exn DiskWorld :=
  match place with
  | .chs c h k => (d.readAt mMemSizeInWords stale s.image c h k aSectorCnt a s.mMemory).map
      fun mem => { s with mMemory := mem }
  | .linear i => (d.read mMemSizeInWords stale s.image i aSectorCnt a s.mMemory).map
      fun mem => { s with mMemory := mem }

/-- `Write`, in both forms. -/
def writePlace (place : DiskPlace) (aSectorCnt : Nat) (a : CAddr) (s : DiskWorld) :
    Except Exn DiskWorld :=
  match place with
  | .chs c h k => (d.writeAt mMemSizeInWords s.image c h k aSectorCnt a s.mMemory).map
      fun image => { s with image := image }
  | .linear i => (d.write mMemSizeInWords s.image i aSectorCnt a s.mMemory).map
      fun image => { s with image := image }

def call : DiskCall → DiskWorld → Except Exn DiskWorld
  | .read place n a stale, s => d.readPlace mMemSizeInWords stale place n a s
  | .write place n a, s => d.writePlace mMemSizeInWords place n a s
  | .compute mem, s => .ok { s with mMemory := mem }

/-- The number of the sector at a place. -/
def sectorIdx : DiskPlace → Nat
  | .chs c h k => c * d.mNumHeads * d.mNumSectors + h * d.mNumSectors + k
  | .linear i => i

/-- The number of sectors. -/
def sectorCnt : Nat := d.mNumCylinders * d.mNumHeads * d.mNumSectors

/-- The place is one of the disk, the sectors from there on are, and their words are in memory. -/
structure InGeometry (place : DiskPlace) (aSectorCnt : Nat) (a : CAddr) : Prop where
  start : match place with
    | .chs c h k => c < d.mNumCylinders ∧ h < d.mNumHeads ∧ k < d.mNumSectors
    | .linear i => i < d.sectorCnt
  range : d.sectorIdx place + aSectorCnt ≤ d.sectorCnt
  memory : InRange mMemSizeInWords a (d.accessSize aSectorCnt)

/-- Every transfer of a run is in the geometry. -/
def Addressed (_ : DiskWorld) : DiskCall → Prop
  | .read place n a _ => d.InGeometry mMemSizeInWords place n a
  | .write place n a => d.InGeometry mMemSizeInWords place n a
  | .compute _ => True

/-! ## 2. One transfer -/

/-- The memory with bytes put at a word. -/
def stored (a : CAddr) (data : List (BitVec 8)) (mem : Nat → BitVec 8) : Nat → BitVec 8 := fun i =>
  if a.toNat * 8 ≤ i ∧ i < a.toNat * 8 + data.length then data.getD (i - a.toNat * 8) 0 else mem i

/-- The bytes of the memory from a word on. -/
def fetched (a : CAddr) (n : Nat) (mem : Nat → BitVec 8) : List (BitVec 8) :=
  (List.range n).map fun k => mem (a.toNat * 8 + k)

@[simp] theorem length_fetched (a : CAddr) (n : Nat) (mem : Nat → BitVec 8) :
    (fetched a n mem).length = n := by
  rw [fetched, List.length_map, List.length_range]

variable {d mMemSizeInWords} {image : List (BitVec 8)} {a : CAddr} {place : DiskPlace} {cnt : Nat}

theorem InGeometry.cylinder {i : Nat} (h : d.InGeometry mMemSizeInWords (.linear i) cnt a) :
    d.cylinderOf i < d.mNumCylinders := by
  have hplace : i < d.mNumCylinders * d.mNumHeads * d.mNumSectors := h.start
  rw [cylinderOf, Nat.div_div_eq_div_mul, Nat.div_lt_iff_lt_mul
    (Nat.mul_pos d.sectors_pos d.heads_pos), Nat.mul_comm d.mNumSectors, ← Nat.mul_assoc]
  exact hplace

/-- Both forms read the lines from the offset of the sector on. -/
theorem readPlace_eq (h : d.InGeometry mMemSizeInWords place cnt a) (stale : Nat → BitVec 8)
    (s : DiskWorld) :
    d.readPlace mMemSizeInWords stale place cnt a s =
      (readLines mMemSizeInWords stale (d.accessSize cnt / 4)
        (FileStream.ready s.image (d.mSectorSize * d.sectorIdx place)) a s.mMemory).map
        fun mem => { s with mMemory := mem } := by
  have hlines := (d.accessSize_eq cnt).1
  cases place with
  | chs c h k =>
    rw [readPlace, readAt, if_neg (by omega)]
    simp only [FileStream.seekTo_ready]
    rfl
  | linear i =>
    rw [readPlace, read, if_neg (by have := h.cylinder; omega), if_neg (by omega), imageOffset_eq,
      FileStream.seekTo_ready]
    rfl

theorem writePlace_ok (h : d.InGeometry mMemSizeInWords place cnt a) (s : DiskWorld) :
    d.writePlace mMemSizeInWords place cnt a s =
      .ok ⟨FileStream.putBytes s.image (d.mSectorSize * d.sectorIdx place)
        (fetched a (d.mSectorSize * cnt) s.mMemory), s.mMemory⟩ := by
  cases place with
  | chs c h' k =>
    obtain ⟨hlines, hbytes⟩ := d.accessSize_eq cnt
    have hmem := h.memory
    rw [hlines] at hmem
    have hrun := writeLines_ok s.image (d.mSectorSize * d.sectorIdx (.chs c h' k)) s.mMemory hmem
    rw [show 32 * (d.accessSize cnt / 4) = d.mSectorSize * cnt by omega] at hrun
    have hgood : (FileStream.ready s.image (d.mSectorSize * d.sectorIdx (.chs c h' k))).good = true :=
      rfl
    rw [sectorIdx] at hrun hgood
    rw [writePlace, writeAt]
    simp only [FileStream.seekPut_ready, hgood, Bool.not_true, Bool.false_eq_true, if_false]
    rw [if_neg (by omega), hrun]
    rfl
  | linear i =>
    rw [writePlace, d.write_ok s.image h.cylinder h.memory]
    rfl

/-- A line that the image does not have as a whole has a byte nobody wrote. -/
theorem readLines_short (stale : Nat → BitVec 8) (image : List (BitVec 8)) {n : Nat} (pos : Nat)
    {a : CAddr} (mem : Nat → BitVec 8) (hn : 0 < n) (h : InRange mMemSizeInWords a (4 * n))
    (hshort : image.length < pos + 32 * n) :
    ∃ mem', readLines mMemSizeInWords stale n (FileStream.ready image pos) a mem = .ok mem' ∧
      ∃ j < n, image.length ≤ pos + (32 * j + 31) ∧
        mem' (a.toNat * 8 + (32 * j + 31)) = stale 31 := by
  induction n generalizing pos a mem with
  | zero => exact absurd hn (Nat.lt_irrefl 0)
  | succ n ih =>
    by_cases hwhole : pos + 32 ≤ image.length
    · obtain ⟨mem', hrun, j, hj, hend, hbyte⟩ := ih (pos + 32) (putLine stale image pos a mem)
        (by omega) h.behind (by omega)
      refine ⟨mem', (readLines_whole stale mem hwhole h).trans hrun, j + 1, by omega, by omega, ?_⟩
      rw [← hbyte, h.next]
      exact congrArg mem' (by omega)
    · have hend : image.length < pos + 32 := by omega
      obtain ⟨mem', hrun, hline⟩ := readLines_last (n := n) stale mem hend h
      refine ⟨mem', hrun, 0, by omega, by omega, ?_⟩
      rw [hline _ (by omega)]
      exact putLine_of_none (by omega) (by omega)

/-- What the image has as a whole arrives as a whole. -/
theorem Delivered.eq_stored {pos n : Nat} {mem mem' : Nat → BitVec 8}
    (h : Delivered image pos a n mem mem') (hend : pos + 8 * n ≤ image.length) :
    mem' = stored a (SectorArray.block image pos (8 * n)) mem := by
  funext i
  rw [stored, SectorArray.length_block]
  by_cases hi : a.toNat * 8 ≤ i ∧ i < a.toNat * 8 + 8 * n
  · obtain ⟨k, rfl⟩ := Nat.exists_eq_add_of_le hi.1
    have hk : k < 8 * n := by omega
    have hbyte := List.getElem?_eq_getElem (l := image) (i := pos + k) (by omega)
    rw [if_pos hi, Nat.add_sub_cancel_left, SectorArray.getD_block _ _ hk,
      List.getD_eq_getElem?_getD, hbyte]
    exact h.inside k hk _ hbyte
  · rw [if_neg hi]
    exact h.outside i (by omega)

/-- **When a read gives the bytes of the image**, whatever is left in a line that is not read. -/
theorem readPlace_iff (h : d.InGeometry mMemSizeInWords place cnt a) (s : DiskWorld) :
    (∀ stale, d.readPlace mMemSizeInWords stale place cnt a s =
      .ok ⟨s.image, stored a (SectorArray.block s.image (d.mSectorSize * d.sectorIdx place)
        (d.mSectorSize * cnt)) s.mMemory⟩) ↔
      cnt = 0 ∨ d.mSectorSize * (d.sectorIdx place + cnt) ≤ s.image.length := by
  obtain ⟨hlines, hbytes⟩ := d.accessSize_eq cnt
  have hmem := h.memory
  rw [hlines] at hmem
  have hspan : d.mSectorSize * (d.sectorIdx place + cnt) =
      d.mSectorSize * d.sectorIdx place + 32 * (d.accessSize cnt / 4) := by
    rw [Nat.mul_add]
    omega
  refine ⟨fun hread => ?_, fun hwhole stale => ?_⟩
  · by_contra hcond
    obtain ⟨hcnt, hlen⟩ := not_or.mp hcond
    have hpos : 0 < d.mSectorSize * cnt := Nat.mul_pos d.sectorSize_pos (Nat.pos_of_ne_zero hcnt)
    obtain ⟨mem', hrun, j, hj, hend, hbyte⟩ := readLines_short (fun _ => 1) s.image
      (d.mSectorSize * d.sectorIdx place) s.mMemory (by omega : 0 < d.accessSize cnt / 4) hmem
      (by omega)
    have hone := hread fun _ => 1
    rw [readPlace_eq h, hrun] at hone
    have hsame : mem' = stored a (SectorArray.block s.image (d.mSectorSize * d.sectorIdx place)
        (d.mSectorSize * cnt)) s.mMemory := congrArg DiskWorld.mMemory (Except.ok.inj hone)
    rw [hsame, stored, SectorArray.length_block, if_pos (by omega), Nat.add_sub_cancel_left,
      SectorArray.getD_block _ _ (by omega), List.getD_eq_default _ _ hend] at hbyte
    exact absurd hbyte (by decide)
  · obtain ⟨mem', hrun, hdelivered⟩ := readLines_ok stale s.image
      (d.mSectorSize * d.sectorIdx place) s.mMemory hmem
    have hend : d.mSectorSize * d.sectorIdx place + 8 * (4 * (d.accessSize cnt / 4)) ≤
        s.image.length ∨ cnt = 0 := by
      rcases hwhole with hcnt | hlen
      · exact .inr hcnt
      · exact .inl (by omega)
    rw [readPlace_eq h, hrun]
    rcases hend with hend | hcnt
    · rw [hdelivered.eq_stored hend, ← hlines, hbytes]
      rfl
    · subst hcnt
      have hnone : d.accessSize 0 / 4 = 0 := by rw [accessSize, Nat.mul_zero]
      rw [hnone] at hdelivered
      have hsame : mem' = stored a (SectorArray.block s.image (d.mSectorSize * d.sectorIdx place)
          (d.mSectorSize * 0)) s.mMemory := by
        funext i
        rw [hdelivered.outside i (by omega), stored, SectorArray.length_block, if_neg (by omega)]
      rw [hsame]
      rfl

end SimIopDisk

/-! ## 3. Runs -/

/-- Sectors that are written. -/
structure DiskWrite where
  first : Nat
  cnt : Nat
  data : List (BitVec 8)

/-- The array of a disk, and the number behind the last sector that was written. -/
structure WrittenSectors where
  sectors : SectorArray
  top : Nat

namespace WrittenSectors

/-- A disk nothing was written to. -/
def new (size : Nat) : WrittenSectors := { sectors := .blank size, top := 0 }

def follow (size : Nat) (l : WrittenSectors) : Option DiskWrite → WrittenSectors
  | some w =>
    { sectors := l.sectors.put size w.first w.data
      top := if w.cnt = 0 then l.top else max l.top (w.first + w.cnt) }
  | none => l

end WrittenSectors

namespace SimIopDisk

/-- What a call writes: the words that are in memory then. -/
def written (d : SimIopDisk) (s : DiskWorld) : DiskCall → Option DiskWrite
  | .write place n a =>
    some { first := d.sectorIdx place, cnt := n, data := fetched a (d.mSectorSize * n) s.mMemory }
  | _ => none

/-- The image holds the array, and ends where it was last written. -/
structure Keeps (d : SimIopDisk) (s : DiskWorld) (l : WrittenSectors) : Prop where
  holds : SectorArray.Holds d.mSectorSize s.image l.sectors
  length : s.image.length = max 1 (d.mSectorSize * l.top)

variable {d : SimIopDisk} {mMemSizeInWords : Nat} {s : DiskWorld} {l : WrittenSectors}

theorem keeps_new (d : SimIopDisk) (hs : s.image = createdImage) :
    d.Keeps s (.new d.mSectorSize) where
  holds := by
    rw [hs]
    exact SectorArray.holds_blank 1
  length := by rw [hs, WrittenSectors.new, Nat.mul_zero]; rfl

/-- **One call**: the array follows it. -/
theorem call_keeps (h : d.Keeps s l) (e : DiskCall) (he : d.Addressed mMemSizeInWords s e) :
    ∃ s', d.call mMemSizeInWords e s = .ok s' ∧ d.Keeps s' (l.follow d.mSectorSize (d.written s e)) := by
  cases e with
  | read place n a stale =>
    have hlines := (d.accessSize_eq n).1
    have hmem := he.memory
    rw [hlines] at hmem
    obtain ⟨mem', hrun, -⟩ := readLines_ok stale s.image (d.mSectorSize * d.sectorIdx place)
      s.mMemory hmem
    refine ⟨⟨s.image, mem'⟩, ?_, h.holds, h.length⟩
    rw [call, readPlace_eq he, hrun]
    rfl
  | compute mem => exact ⟨_, rfl, h.holds, h.length⟩
  | write place n a =>
    refine ⟨_, writePlace_ok he s, h.holds.put _ _, ?_⟩
    by_cases hn : n = 0
    · subst hn
      have hnil : fetched a (d.mSectorSize * 0) s.mMemory = [] := rfl
      have hput : FileStream.putBytes s.image (d.mSectorSize * d.sectorIdx place) [] = s.image := rfl
      simp only [hnil, hput, WrittenSectors.follow, written, if_true]
      exact h.length
    · have hpos : 0 < d.mSectorSize * n := Nat.mul_pos d.sectorSize_pos (Nat.pos_of_ne_zero hn)
      have hne : fetched a (d.mSectorSize * n) s.mMemory ≠ [] := by
        rw [← List.length_pos_iff, length_fetched]
        exact hpos
      simp only [WrittenSectors.follow, written, if_neg hn]
      rw [SectorArray.length_putBytes _ _ hne, length_fetched, h.length, ← Nat.mul_add,
        Nat.max_assoc, Nat.mul_max_mul_left]

/-- **The disk as an array of sectors**: after any calls the image holds the array that was written,
    and a read gives what the array has if and only if it does not ask for a sector behind the last
    one that was ever written. -/
theorem reads_what_was_written (d : SimIopDisk) (mMemSizeInWords : Nat) {calls : List DiskCall}
    (hs : s.image = createdImage)
    (h : EventRun.Along (d.call mMemSizeInWords) (d.Addressed mMemSizeInWords) calls s) :
    let l : WrittenSectors := (EventRun.trace (d.call mMemSizeInWords) d.written calls s).foldl
      (fun l w => l.follow d.mSectorSize w) (.new d.mSectorSize)
    ∃ s', EventRun.run (d.call mMemSizeInWords) calls s = .ok s' ∧
      ∀ place cnt a, d.InGeometry mMemSizeInWords place cnt a →
        ((∀ stale, d.call mMemSizeInWords (.read place cnt a stale) s' =
          .ok ⟨s'.image, stored a (l.sectors.get (d.sectorIdx place) cnt) s'.mMemory⟩) ↔
          cnt = 0 ∨ d.sectorIdx place + cnt ≤ l.top) := by
  intro l
  obtain ⟨s', hrun, hkeeps⟩ : ∃ s', EventRun.run (d.call mMemSizeInWords) calls s = .ok s' ∧
      d.Keeps s' l :=
    EventRun.run_simulates (P := d.Addressed mMemSizeInWords)
      (fun s l e hk he => call_keeps hk e he) (keeps_new d hs) h
  refine ⟨s', hrun, fun place cnt a hgeo => ?_⟩
  rw [← hkeeps.holds.get]
  refine (readPlace_iff hgeo s').trans (or_congr_right' fun hcnt => ?_)
  rw [hkeeps.length]
  have hsize := d.sectorSize_pos
  have hone : 1 < d.mSectorSize := by
    have := d.sectorSize_mod
    omega
  have hspan : d.mSectorSize ≤ d.mSectorSize * (d.sectorIdx place + cnt) :=
    Nat.le_mul_of_pos_right _ (by omega)
  refine ⟨fun hle => ?_, fun hle => ?_⟩
  · exact Nat.le_of_mul_le_mul_left (by omega : d.mSectorSize * _ ≤ d.mSectorSize * l.top) hsize
  · have := Nat.mul_le_mul_left d.mSectorSize hle
    omega

/-- A new disk whose second sector is written: it reads what was written, and the first one, to
    which the image has grown by that, reads zeros. -/
theorem reads_what_was_written_small :
    ∃ s', EventRun.run ((DiskCluster.smallDisk "d" 0).call 512) [.write (.linear 1) 1 0]
        ⟨createdImage, fun _ => 7⟩ = .ok s' ∧
      (∀ stale, (DiskCluster.smallDisk "d" 0).call 512 (.read (.linear 1) 1 256 stale) s' =
        .ok ⟨s'.image, stored 256 (fetched 0 1024 fun _ => 7) s'.mMemory⟩) ∧
      ∀ stale, (DiskCluster.smallDisk "d" 0).call 512 (.read (.chs 0 0 0) 1 256 stale) s' =
        .ok ⟨s'.image, stored 256 ((SectorArray.blank 1024).get 0 1) s'.mMemory⟩ := by
  have hwrite : (DiskCluster.smallDisk "d" 0).InGeometry 512 (.linear 1) 1 0 :=
    ⟨by decide, by decide, by decide, by decide⟩
  have hlinear : (DiskCluster.smallDisk "d" 0).InGeometry 512 (.linear 1) 1 256 :=
    ⟨by decide, by decide, by decide, by decide⟩
  have hchs : (DiskCluster.smallDisk "d" 0).InGeometry 512 (.chs 0 0 0) 1 256 :=
    ⟨by decide, by decide, by decide, by decide⟩
  have hcalls : EventRun.Along ((DiskCluster.smallDisk "d" 0).call 512)
      ((DiskCluster.smallDisk "d" 0).Addressed 512) [.write (.linear 1) 1 0]
      ⟨createdImage, fun _ => 7⟩ := ⟨hwrite, fun _ _ => trivial⟩
  obtain ⟨s', hrun, hiff⟩ := reads_what_was_written (DiskCluster.smallDisk "d" 0) 512 rfl hcalls
  have htrace : EventRun.trace ((DiskCluster.smallDisk "d" 0).call 512)
      (DiskCluster.smallDisk "d" 0).written [.write (.linear 1) 1 0] ⟨createdImage, fun _ => 7⟩ =
        [some { first := 1, cnt := 1, data := fetched 0 1024 fun _ => 7 }] :=
    EventRun.trace_cons (writePlace_ok hwrite _)
  rw [htrace] at hiff
  have hfirst := (hiff (.linear 1) 1 256 hlinear).mpr (.inr (by decide))
  have hsecond := (hiff (.chs 0 0 0) 1 256 hchs).mpr (.inr (by decide))
  generalize hdata : (fetched 0 1024 fun _ => 7) = data at hfirst hsecond ⊢
  have hlen : data.length = 1024 * 1 := by rw [← hdata, length_fetched]
  have hsame : ((SectorArray.blank 1024).put 1024 1 data).get 1 1 = data :=
    SectorArray.get_put (SectorArray.uniform_blank 1024) hlen
  have hother : ((SectorArray.blank 1024).put 1024 1 data).get 0 1 = (SectorArray.blank 1024).get 0 1 :=
    SectorArray.get_put_outside (Nat.le_of_eq hlen) (.inl (by decide))
  refine ⟨s', hrun, fun stale => ?_, fun stale => ?_⟩
  · rw [← hsame]
    exact hfirst stale
  · rw [← hother]
    exact hsecond stale

/-- The first sector of a new disk: what is left in the line that has the end of the image in it
    comes instead of zeros. -/
theorem new_disk_is_not_blank :
    let s : DiskWorld := ⟨createdImage, fun _ => 0⟩
    (DiskCluster.smallDisk "d" 0).call 512 (.read (.linear 0) 1 0 fun _ => 0xff) s ≠
      .ok ⟨s.image, stored 0 ((SectorArray.blank 1024).get 0 1) s.mMemory⟩ := by
  intro s h
  have hbyte : ((DiskCluster.smallDisk "d" 0).call 512 (.read (.linear 0) 1 0 fun _ => 0xff) s).map
      (fun s => s.mMemory 1) = .ok 0xff := by decide
  rw [h] at hbyte
  exact absurd (Except.ok.inj hbyte) (by decide +kernel)

end SimIopDisk

end CraySim
