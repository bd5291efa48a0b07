/-
  Subject:   The Ampex disk as an array of sectors.

  A transfer is as many whole parcels as its sectors have. What the disk has is an array of sectors
  over which the transfers put their bytes, whatever the order in which the registers are set.

  * `Served` -- the calls, with ranges that are on the disk,
  * `contents`, `moved` -- the array at the start, and what an event puts over it,
  * `start_read`, `start_write`, `start_format`, `start_other` -- a START, command by command,
  * `delivers_last_written` -- every run.
-/
import CraySim.IopExpDisk

namespace CraySim

open IopExpDevice IopExpDisk

namespace IopExpDiskAmpexDM980

variable (c : Config) (scan : IopExpDiskAmpexDM980 → Bool)

/-! ## 1. Runs -/

/-- What the disk does on a call, on a channel that can be looked at. -/
abbrev performs : Call → Plugged IopExpDiskAmpexDM980 →
    Except Exn (IopInt × Plugged IopExpDiskAmpexDM980) :=
  perform c fun d => .ok (scan d)

/-- The sector a command starts at. -/
def first (d : IopExpDiskAmpexDM980) : Nat := sectorIdx c d.mTrack d.mHead d.mStartSector

/-- The command moves sectors. -/
def Transfers (d : IopExpDiskAmpexDM980) : Prop :=
  d.mRegC.toNat = 0o00 ∨ d.mRegC.toNat = 0o10 ∨ d.mRegC.toNat = 0o20

/-- The sectors of the command are sectors of the disk. -/
def InGeometry (d : IopExpDiskAmpexDM980) : Prop := first c d + d.mSectorCnt ≤ diskSectors c

instance (d : IopExpDiskAmpexDM980) : Decidable (InGeometry c d) :=
  inferInstanceAs (Decidable (_ ≤ _))

/-- A control has no other bits than START and CLEAR, and what it starts is on the disk. -/
def Served (x : Plugged IopExpDiskAmpexDM980) : Event → Prop
  | .call (.control a) => a &&& ~~~(controlStart ||| controlClear) = 0 ∧
      (a &&& controlStart ≠ 0 → Transfers x.device → InGeometry c x.device)
  | _ => True

/-! ## 2. The array -/

/-- The sectors a disk starts with: zeros where there is no image. -/
def contents : Option (List (BitVec 8)) → SectorArray
  | none => SectorArray.blank c.mSectorSize
  | some image => fun i => SectorArray.block image (c.mSectorSize * i) c.mSectorSize

/-- The bytes of a transfer: its whole parcels. -/
def moves (d : IopExpDiskAmpexDM980) : Nat := 2 * (c.mSectorSize * d.mSectorCnt / 2)

/-- What an event puts over the sectors, and from which sector on. -/
def moved (x : Plugged IopExpDiskAmpexDM980) : Event → Option (Nat × List (BitVec 8))
  | .call (.control a) =>
    if a &&& controlStart = 0 then none
    else match x.device.mRegC.toNat with
      | 0o10 => some (first c x.device,
          bytesOf (x.ioMemory.load x.device.mRegB (c.mSectorSize * x.device.mSectorCnt / 2)))
      | 0o20 => some (first c x.device, List.replicate (moves c x.device) 0)
      | _ => none
  | _ => none

def follow : Option (Nat × List (BitVec 8)) → SectorArray → SectorArray
  | some (k, data), l => l.put c.mSectorSize k data
  | none, l => l

/-- The image has the array, and all sectors of the disk; the count came through a register. -/
structure Keeps (x : Plugged IopExpDiskAmpexDM980) (l : SectorArray) : Prop where
  counted : x.device.mSectorCnt ≤ 2 ^ 16
  covers : c.mSectorSize * diskSectors c ≤ (create c x.device.image).length
  holds : SectorArray.Holds c.mSectorSize (create c x.device.image) l

variable {c} {x : Plugged IopExpDiskAmpexDM980} {l : SectorArray}

theorem holds_contents (c : Config) (image : Option (List (BitVec 8))) :
    SectorArray.Holds c.mSectorSize (create c image) (contents c image) := by
  cases image with
  | none => exact SectorArray.holds_blank _
  | some image => exact fun _ => rfl

theorem Keeps.of_image {x' : Plugged IopExpDiskAmpexDM980} (h : Keeps c x l)
    (hcnt : x'.device.mSectorCnt ≤ 2 ^ 16)
    (himage : create c x'.device.image = create c x.device.image) : Keeps c x' l :=
  ⟨hcnt, himage ▸ h.covers, himage ▸ h.holds⟩

theorem Keeps.put {x' : Plugged IopExpDiskAmpexDM980} (h : Keeps c x l) {k : Nat}
    {data : List (BitVec 8)} (hcnt : x'.device.mSectorCnt ≤ 2 ^ 16)
    (himage : create c x'.device.image =
      FileStream.putBytes (create c x.device.image) (c.mSectorSize * k) data) :
    Keeps c x' (l.put c.mSectorSize k data) where
  counted := hcnt
  covers := by
    rw [himage]
    refine Nat.le_trans h.covers ?_
    by_cases hnil : data = []
    · rw [hnil, FileStream.putBytes, if_pos rfl]
    · rw [SectorArray.length_putBytes _ _ hnil]
      exact Nat.le_max_left _ _
  holds := by
    rw [himage]
    exact h.holds.put k data

/-! ## 3. One START -/

theorem moves_le (h : InGeometry c x.device) :
    c.mSectorSize * first c x.device + moves c x.device ≤ c.mSectorSize * diskSectors c := by
  have hend := Nat.mul_le_mul_left c.mSectorSize h
  rw [Nat.mul_add] at hend
  rw [moves]
  omega

theorem start_read (hcmd : x.device.mRegC.toNat = 0o00) (hrange : InGeometry c x.device)
    (h : Keeps c x l) :
    ∃ x', start c (fun d => .ok (scan d)) x = .ok x' ∧
      x'.device.mSectorCnt = x.device.mSectorCnt ∧
      create c x'.device.image = create c x.device.image ∧
      x'.ioMemory = x.ioMemory.store x.device.mRegB (parcelsOf
        ((l.get (first c x.device) x.device.mSectorCnt).take (moves c x.device))) := by
  have hcnt := parcels_eq c h.counted
  have hcovers := Nat.le_trans (moves_le hrange) h.covers
  have hbytes : SectorArray.block (create c x.device.image) (c.mSectorSize * first c x.device)
      (moves c x.device) =
      (l.get (first c x.device) x.device.mSectorCnt).take (moves c x.device) := by
    rw [← h.holds.get, SectorArray.take_block]
    rw [moves]
    omega
  rw [moves, ← hcnt] at hcovers hbytes
  rw [start]
  simp only [hcmd]
  rw [← first, readSectors_ok hcovers, hbytes, hcnt, ← moves]
  exact ⟨_, rfl, rfl, rfl, rfl⟩

theorem start_write (hcmd : x.device.mRegC.toNat = 0o10) (h : Keeps c x l) :
    ∃ x', start c (fun d => .ok (scan d)) x = .ok x' ∧
      x'.device.mSectorCnt = x.device.mSectorCnt ∧
      create c x'.device.image = FileStream.putBytes (create c x.device.image)
        (c.mSectorSize * first c x.device)
        (bytesOf (x.ioMemory.load x.device.mRegB (c.mSectorSize * x.device.mSectorCnt / 2))) := by
  rw [start]
  simp only [hcmd]
  rw [← first, writeSectors_ok, parcels_eq c h.counted]
  exact ⟨_, rfl, rfl, rfl⟩

theorem start_format (hcmd : x.device.mRegC.toNat = 0o20) (h : Keeps c x l) :
    ∃ x', start c (fun d => .ok (scan d)) x = .ok x' ∧
      x'.device.mSectorCnt = x.device.mSectorCnt ∧
      create c x'.device.image = FileStream.putBytes (create c x.device.image)
        (c.mSectorSize * first c x.device) (List.replicate (moves c x.device) 0) := by
  rw [start]
  simp only [hcmd]
  rw [← first, formatSectors_ok, parcels_eq c h.counted, ← moves]
  exact ⟨_, rfl, rfl, rfl⟩

/-- The other commands do nothing to the sectors. -/
theorem start_other (c : Config) (h : ¬ Transfers x.device) :
    ∃ x', start c (fun d => .ok (scan d)) x = .ok x' ∧
      x'.device.mSectorCnt = x.device.mSectorCnt ∧ x'.device.image = x.device.image := by
  rw [start]
  split
  case h_1 hcmd => exact absurd (.inl hcmd) h
  case h_2 hcmd => exact absurd (.inr (.inl hcmd)) h
  case h_3 hcmd => exact absurd (.inr (.inr hcmd)) h
  case h_6 => exact ⟨x, rfl, rfl, rfl⟩
  all_goals exact ⟨_, rfl, rfl, rfl⟩

/-! ## 4. One event -/

/-- The disk after a CLEAR, where the control has one. -/
def cleared (scan : IopExpDiskAmpexDM980 → Bool) (a : IopInt) (x : Plugged IopExpDiskAmpexDM980) :
    Plugged IopExpDiskAmpexDM980 :=
  if a &&& controlClear = 0 then x
  else
    let d := { x.device with flags := { x.device.flags with mInterruptActive := false } }
    { x with device := d, mDeviceInterruptPending := scan d }

theorem control_eq {a : IopInt} (h : a &&& ~~~(controlStart ||| controlClear) = 0) :
    control c (fun d => .ok (scan d)) a x =
      if a &&& controlStart = 0 then .ok (cleared scan a x)
      else start c (fun d => .ok (scan d)) (cleared scan a x) := by
  have hclear : clearInt (fun d => .ok (scan d)) a x = .ok (cleared scan a x) := by
    rw [clearInt, cleared]
    by_cases hclear : a &&& controlClear = 0
    · rw [if_neg (not_not.mpr hclear), if_pos hclear]
    · rw [if_pos hclear, if_neg hclear]
      rfl
  rw [control, if_neg (by simp [h]), hclear]
  exact ite_not ..

theorem cleared_device (scan : IopExpDiskAmpexDM980 → Bool) (a : IopInt)
    (x : Plugged IopExpDiskAmpexDM980) :
    ∃ f, (cleared scan a x).device = { x.device with flags := f } ∧
      (cleared scan a x).ioMemory = x.ioMemory := by
  rw [cleared]
  split
  · exact ⟨x.device.flags, rfl, rfl⟩
  · exact ⟨_, rfl, rfl⟩

/-- So it moves nothing, and the command that follows is the same. -/
theorem cleared_keeps (h : Keeps c x l) (a : IopInt) :
    Keeps c (cleared scan a x) l ∧
      moved c (cleared scan a x) (.call (.control a)) = moved c x (.call (.control a)) ∧
      (Served c x (.call (.control a)) → Served c (cleared scan a x) (.call (.control a))) := by
  obtain ⟨f, hdevice, hmem⟩ := cleared_device scan a x
  refine ⟨h.of_image ?_ ?_, ?_, fun hserved => ?_⟩
  · rw [hdevice]
    exact h.counted
  · rw [hdevice]
  · rw [moved, hdevice, hmem]
    rfl
  · rw [Served, hdevice]
    exact hserved

theorem setRegC_ok (aValue : IopInt) {d : IopExpDiskAmpexDM980} (h : d.mSectorCnt ≤ 2 ^ 16) :
    (d.setRegC aValue).mSectorCnt ≤ 2 ^ 16 ∧ (d.setRegC aValue).image = d.image := by
  rw [setRegC]
  split
  case h_3 => exact ⟨Nat.le_of_lt d.mRegB.isLt, rfl⟩
  all_goals exact ⟨h, rfl⟩

/-- **One START**: the array follows the disk. -/
theorem start_keeps (h : Keeps c x l) {a : IopInt} (ha : a &&& controlStart ≠ 0)
    (hrange : Transfers x.device → InGeometry c x.device) :
    ∃ x', start c (fun d => .ok (scan d)) x = .ok x' ∧
      Keeps c x' (follow c (moved c x (.call (.control a))) l) := by
  by_cases htransfers : Transfers x.device
  · have hgeometry := hrange htransfers
    rcases htransfers with hcmd | hcmd | hcmd
    · obtain ⟨x', hrun, hcnt, himage, -⟩ := start_read scan hcmd hgeometry h
      refine ⟨x', hrun, ?_⟩
      simp only [moved, if_neg ha, hcmd, follow]
      exact h.of_image (hcnt ▸ h.counted) himage
    · obtain ⟨x', hrun, hcnt, himage⟩ := start_write scan hcmd h
      refine ⟨x', hrun, ?_⟩
      simp only [moved, if_neg ha, hcmd, follow]
      exact h.put (hcnt ▸ h.counted) himage
    · obtain ⟨x', hrun, hcnt, himage⟩ := start_format scan hcmd h
      refine ⟨x', hrun, ?_⟩
      simp only [moved, if_neg ha, hcmd, follow]
      exact h.put (hcnt ▸ h.counted) himage
  · obtain ⟨x', hrun, hcnt, himage⟩ := start_other scan c htransfers
    have hnone : moved c x (.call (.control a)) = none := by
      simp only [moved, if_neg ha]
      split
      case h_1 hcmd => exact absurd (.inr (.inl hcmd)) htransfers
      case h_2 hcmd => exact absurd (.inr (.inr hcmd)) htransfers
      case h_3 => rfl
    refine ⟨x', hrun, ?_⟩
    rw [hnone]
    exact h.of_image (hcnt ▸ h.counted) (by rw [himage])

/-- **One event.** -/
theorem step_keeps (h : Keeps c x l) (e : Event) (he : Served c x e) :
    ∃ x', step (performs c scan) e x = .ok x' ∧ Keeps c x' (follow c (moved c x e) l) := by
  match e with
  | .call (.setRegC v) =>
    obtain ⟨hcnt, himage⟩ := setRegC_ok v h.counted
    exact ⟨_, rfl, h.of_image hcnt (congrArg (create c) himage)⟩
  | .call (.control a) =>
    obtain ⟨hkeeps, hmoved, hserved⟩ := cleared_keeps scan h a
    rw [step, performs, perform, map_snd_silent, control_eq scan he.1, ← hmoved]
    by_cases hstart : a &&& controlStart = 0
    · rw [if_pos hstart, moved, if_pos hstart]
      exact ⟨_, rfl, hkeeps⟩
    · rw [if_neg hstart]
      exact start_keeps scan hkeeps hstart ((hserved he).2 hstart)
  | .compute mem | .call (.setRegA v) | .call (.setRegB v) | .call (.setIntEnabled b)
  | .call .getRegA | .call .getRegB | .call .getRegC | .call .tick =>
    exact ⟨_, rfl, h.of_image h.counted rfl⟩

/-! ## 5. The disk as an array -/

/-- **The Ampex disk as an array of sectors**: after every run from a new device, on an image that
    has all sectors or on none, the image has the array of what the run put over the sectors, and a
    read of sectors on the disk brings the whole parcels of the array. -/
theorem delivers_last_written (c : Config) (scan : IopExpDiskAmpexDM980 → Bool)
    {image : Option (List (BitVec 8))} {es : List Event} (hnew : x.device = new image)
    (hcovers : c.mSectorSize * diskSectors c ≤ (create c image).length)
    (h : EventRun.Along (step (performs c scan)) (Served c) es x) :
    let l := (EventRun.trace (step (performs c scan)) (moved c) es x).foldl (fun l a => follow c a l)
      (contents c image)
    ∃ x', EventRun.run (step (performs c scan)) es x = .ok x' ∧
      SectorArray.Holds c.mSectorSize (create c x'.device.image) l ∧
      ∀ a, Served c x' (.call (.control a)) → a &&& controlStart ≠ 0 → x'.device.mRegC.toNat = 0o00 →
        ∃ x'', step (performs c scan) (.call (.control a)) x' = .ok x'' ∧
          create c x''.device.image = create c x'.device.image ∧
          x''.ioMemory = x'.ioMemory.store x'.device.mRegB (parcelsOf
            ((l.get (first c x'.device) x'.device.mSectorCnt).take (moves c x'.device))) := by
  intro l
  have hstart : Keeps c x (contents c image) := by
    refine ⟨?_, ?_, ?_⟩ <;> rw [hnew]
    · exact Nat.zero_le _
    · exact hcovers
    · exact holds_contents c image
  obtain ⟨x', hrun, hkeeps⟩ : ∃ x', EventRun.run (step (performs c scan)) es x = .ok x' ∧ Keeps c x' l :=
    EventRun.run_simulates (fun _ _ e hk he => step_keeps scan hk e he) hstart h
  refine ⟨x', hrun, hkeeps.holds, fun a ha hbit hcmd => ?_⟩
  obtain ⟨hcleared, -, hserved⟩ := cleared_keeps scan hkeeps a
  obtain ⟨f, hdevice, hmem⟩ := cleared_device scan a x'
  have hcmd' : (cleared scan a x').device.mRegC.toNat = 0o00 := by rw [hdevice]; exact hcmd
  obtain ⟨x'', hread, -, himage, hdelivered⟩ := start_read scan hcmd'
    ((hserved ha).2 hbit (.inl hcmd')) hcleared
  rw [step, performs, perform, map_snd_silent, control_eq scan ha.1, if_neg hbit]
  refine ⟨x'', hread, himage.trans (by rw [hdevice]), hdelivered.trans ?_⟩
  rw [hmem, hdevice]
  rfl

/-- A disk of four sectors of three bytes. -/
def smallConfig : Config where
  mReadOnly := false
  mNumHeads := 1
  mNumSectors := 4
  mNumTracks := 1
  mSectorSize := 3
  heads_pos := Nat.one_pos
  sectors_pos := Nat.succ_pos 3
  tracks_pos := Nat.one_pos
  sectorSize_pos := Nat.succ_pos 2
  sectorSize_lt := by decide

/-- It is new and has no image, and every byte of the memory is 7. -/
def smallDisk : Plugged IopExpDiskAmpexDM980 where
  device := new none
  ioMemory := fun _ => 0x0707
  mDeviceInterruptPending := false

/-- The calls that write two sectors. -/
def writesTwo : List Event :=
  [.setRegB 2, .setRegC 3, .setRegB 0, .setRegC 0o10, .control 1].map .call

/-- The two sectors are written, and the third has zeros. -/
theorem delivers_last_written_small :
    ∃ x', EventRun.run (step (performs smallConfig fun _ => false)) writesTwo smallDisk = .ok x' ∧
      SectorArray.block (create smallConfig x'.device.image) (3 * 1) 3 = [7, 7, 7] ∧
      SectorArray.block (create smallConfig x'.device.image) (3 * 2) 3 = [0, 0, 0] := by
  have hrun : EventRun.Along (step (performs smallConfig fun _ => false)) (Served smallConfig) writesTwo
      smallDisk :=
    .cons trivial rfl (.cons trivial rfl (.cons trivial rfl (.cons trivial rfl
      (.one ⟨by decide, fun _ _ => by decide⟩))))
  obtain ⟨x', hok, hholds, -⟩ := delivers_last_written smallConfig (fun _ => false) rfl
    (by decide) hrun
  exact ⟨x', hok, (hholds 1).trans (by decide), (hholds 2).trans (by decide)⟩

/-- Where one sector is then formatted, its last byte is not cleared, and a read brings it. -/
theorem odd_byte_survives :
    (EventRun.run (step (performs smallConfig fun _ => false))
      (writesTwo ++ [.setRegB 1, .setRegC 3, .setRegC 0o20, .control 1,
        .setRegB 2, .setRegC 3, .setRegB 0x100, .setRegC 0, .control 1].map .call) smallDisk).map
      (fun x => (x.ioMemory 0x100, x.ioMemory 0x101)) = .ok (0x0000, 0x0707) := by
  decide

end IopExpDiskAmpexDM980

end CraySim
