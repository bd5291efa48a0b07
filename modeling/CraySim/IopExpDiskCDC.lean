/-
  Subject:   Writing and reading back on the CDC disk.

  The count of a command is a two's complement of six bits. A read negates it, a write takes it as
  it is; so a write moves 64 less the count, and only a count of 32 is the same both ways.

  * `commandEvents` -- the calls that give a command,
  * `sectorField`, `headField`, `countField` -- what the registers make of the two values,
  * `start_write`, `start_read` -- a command by its fields,
  * `Transfers`, `transfers_iff` -- when a write and the read behind it do what they should.
-/
import CraySim.IopExpDisk

namespace CraySim

open IopExpDevice IopExpDisk

namespace IopExpDiskCDC9448

variable (c : Config) (scan : IopExpDiskCDC9448 → Bool)

/-! ## 1. A command -/

/-- What the disk does on a call, on a channel that can be looked at. -/
abbrev performs : Call → Plugged IopExpDiskCDC9448 →
    Except Exn (IopInt × Plugged IopExpDiskCDC9448) :=
  perform c fun d => .ok (scan d)

/-- The protocol: the cylinder, a pulse, the two values for head, sector and count, the address of
    the buffer, and the START of the command. -/
def commandEvents (command cylinder upper lower buffer : IopInt) : List Event :=
  [.setRegA 0x100, .setRegC cylinder, .control controlPulse, .setRegA command, .setRegC upper,
    .setRegC lower, .setRegB buffer, .control controlStart].map .call

def sectorField (upper lower : IopInt) : Nat :=
  (upper >>> 5 &&& 32).toNat ||| (lower >>> 5 &&& 31).toNat

def headField (lower : IopInt) : Nat := (lower >>> 10 &&& 31).toNat

def countField (upper lower : IopInt) : BitVec 32 :=
  (upper &&& 32).setWidth 32 ||| (lower &&& 31).setWidth 32

/-- The sector the values name. -/
def addressed (cylinder upper lower : IopInt) : Nat :=
  sectorIdx c cylinder.toNat (headField lower) (sectorField upper lower)

/-- The disk in front of the START. -/
def programmed (command cylinder upper lower buffer : IopInt) (x : Plugged IopExpDiskCDC9448) :
    Plugged IopExpDiskCDC9448 :=
  { x with device := { x.device with
    mRegA := command
    mRegB := buffer
    mRegC := lower
    mTrack := cylinder.toNat
    mHead := headField lower
    mStartSector := sectorField upper lower
    mSectorCnt := countField upper lower
    mState := .getLowHeadSector } }

variable {c} {x : Plugged IopExpDiskCDC9448} {command cylinder upper lower buffer : IopInt}

theorem run_command (h : x.device.mState = .seek) :
    EventRun.run (step (performs c scan)) (commandEvents command cylinder upper lower buffer) x =
      start c (fun d => .ok (scan d))
        (programmed command cylinder upper lower buffer x) := by
  rcases x with ⟨⟨flags, regA, regB, regC, head, sector, cnt, track, state, image⟩, mem, pending⟩
  obtain rfl : state = .seek := h
  -- the START is the last event, and what it gives is what the run gives
  have hlast : ∀ y : Except Exn (Plugged IopExpDiskCDC9448),
      ((silent y).map Prod.snd).bind (EventRun.run (step (performs c scan)) []) = y
    | .ok _ => rfl
    | .error _ => rfl
  exact hlast _

theorem start_write (x : Plugged IopExpDiskCDC9448) (cylinder upper lower buffer : IopInt) :
    ∃ x', start c (fun d => .ok (scan d)) (programmed 0o3400 cylinder upper lower buffer x) =
        .ok x' ∧ x'.device.mState = .seek ∧
      create c x'.device.image = FileStream.putBytes (create c x.device.image)
        (c.mSectorSize * addressed c cylinder upper lower)
        (bytesOf (x.ioMemory.load buffer (parcels c (toSize (countField upper lower))))) := by
  have hrun : start c (fun d => .ok (scan d)) (programmed 0o3400 cylinder upper lower buffer x) =
      (writeSectors c (addressed c cylinder upper lower) (toSize (countField upper lower))
        (create c x.device.image) buffer x.ioMemory).bind _ := rfl
  rw [hrun, writeSectors_ok]
  exact ⟨_, rfl, rfl, rfl⟩

theorem start_read (x : Plugged IopExpDiskCDC9448) (cylinder upper lower buffer : IopInt)
    (h : c.mSectorSize * addressed c cylinder upper lower +
      2 * parcels c (toSize (negated (countField upper lower))) ≤
        (create c x.device.image).length) :
    ∃ x', start c (fun d => .ok (scan d)) (programmed 0o0000 cylinder upper lower buffer x) =
        .ok x' ∧
      x'.ioMemory = x.ioMemory.store buffer (parcelsOf (SectorArray.block
        (create c x.device.image) (c.mSectorSize * addressed c cylinder upper lower)
        (2 * parcels c (toSize (negated (countField upper lower)))))) := by
  have hrun : start c (fun d => .ok (scan d)) (programmed 0o0000 cylinder upper lower buffer x) =
      (readSectors c (addressed c cylinder upper lower)
        (toSize (negated (countField upper lower)))
        (create c x.device.image) buffer x.ioMemory).bind _ := rfl
  rw [hrun, readSectors_ok h]
  exact ⟨_, rfl, rfl⟩

/-! ## 2. The count -/

theorem countField_lt (upper lower : IopInt) : (countField upper lower).toNat < 64 := by
  have hupper : (upper &&& 32).toNat < 2 ^ 6 := by
    rw [BitVec.toNat_and]
    exact Nat.lt_of_le_of_lt Nat.and_le_right (by decide)
  have hlower : (lower &&& 31).toNat < 2 ^ 6 := by
    rw [BitVec.toNat_and]
    exact Nat.lt_of_le_of_lt Nat.and_le_right (by decide)
  rw [countField, BitVec.toNat_or, BitVec.toNat_setWidth_of_le (by decide),
    BitVec.toNat_setWidth_of_le (by decide)]
  exact Nat.or_lt_two_pow hupper hlower

theorem toSize_table : ∀ r < 64, toSize (BitVec.ofNat 32 r) = r := by decide

/-- A read takes 64 less the field, and with a field below 32 an enormous count. -/
theorem negated_table : ∀ r < 64, toSize (negated (BitVec.ofNat 32 r)) =
    if 32 ≤ r then 64 - r else if r = 0 then 0 else 2 ^ 64 - r := by
  decide

theorem toSize_countField (upper lower : IopInt) :
    toSize (countField upper lower) = (countField upper lower).toNat := by
  have htable := toSize_table _ (countField_lt upper lower)
  rwa [BitVec.ofNat_toNat, BitVec.setWidth_eq] at htable

theorem toSize_negated (upper lower : IopInt) :
    toSize (negated (countField upper lower)) =
      if 32 ≤ (countField upper lower).toNat then 64 - (countField upper lower).toNat
      else if (countField upper lower).toNat = 0 then 0
      else 2 ^ 64 - (countField upper lower).toNat := by
  have htable := negated_table _ (countField_lt upper lower)
  rwa [BitVec.ofNat_toNat, BitVec.setWidth_eq] at htable

/-! ## 3. Bytes -/

def imageByte (c : Config) (x : Plugged IopExpDiskCDC9448) (p : Nat) : BitVec 8 :=
  (create c x.device.image).getD p 0

/-- What a write with these values should do to `n` sectors from sector `idx` on, and what a read
    behind it should bring back, whatever the memory has by then. -/
def Transfers (c : Config) (cylinder upper lower : IopInt) (idx n : Nat) : Prop :=
  ∀ (scan : IopExpDiskCDC9448 → Bool) (x : Plugged IopExpDiskCDC9448) (buffer : IopInt),
    x.device.mState = .seek →
    ∃ x', EventRun.run (step (performs c scan)) (commandEvents 0o3400 cylinder upper lower buffer) x = .ok x' ∧
      (∀ p, imageByte c x' p =
        if c.mSectorSize * idx ≤ p ∧ p < c.mSectorSize * idx + c.mSectorSize * n then
          x.ioMemory.byte buffer (p - c.mSectorSize * idx)
        else imageByte c x p) ∧
      ∀ mem, ∃ x'', EventRun.run (step (performs c scan)) (commandEvents 0o0000 cylinder upper lower buffer)
          { x' with ioMemory := mem } = .ok x'' ∧
        ∀ k < c.mSectorSize * n, x''.ioMemory.byte buffer k = x.ioMemory.byte buffer k

/-- **A write** puts the bytes of its parcels over the image, and nothing else. -/
theorem write_bytes (x : Plugged IopExpDiskCDC9448) (cylinder upper lower buffer : IopInt)
    (hstate : x.device.mState = .seek) {n pos : Nat}
    (hpos : c.mSectorSize * addressed c cylinder upper lower = pos)
    (hn : parcels c (toSize (countField upper lower)) = n) :
    ∃ x', EventRun.run (step (performs c scan)) (commandEvents 0o3400 cylinder upper lower buffer) x = .ok x' ∧
      x'.device.mState = .seek ∧
      create c x'.device.image = FileStream.putBytes (create c x.device.image) pos
        (bytesOf (x.ioMemory.load buffer n)) ∧
      ∀ p, imageByte c x' p = if pos ≤ p ∧ p < pos + 2 * n then x.ioMemory.byte buffer (p - pos)
        else imageByte c x p := by
  obtain ⟨x', hrun, hseek, himage⟩ := start_write scan x cylinder upper lower buffer
  rw [hpos, hn] at himage
  refine ⟨x', (run_command scan hstate).trans hrun, hseek, himage, fun p => ?_⟩
  rw [imageByte, himage, SectorArray.getD_putBytes, length_bytesOf, IoMemory.length_load]
  by_cases hp : pos ≤ p ∧ p < pos + 2 * n
  · rw [if_pos hp, if_pos hp, getD_bytesOf_load _ _ (by omega)]
  · rw [if_neg hp, if_neg hp, imageByte]

/-- **A read** where a write put as many parcels or more: those it moves are there again. -/
theorem read_bytes (x : Plugged IopExpDiskCDC9448) (cylinder upper lower buffer : IopInt)
    {old : IoMemory} {image : List (BitVec 8)}
    (hstate : x.device.mState = .seek) {n m pos : Nat} (hm : m ≤ n) (hn : 0 < n)
    (hpos : c.mSectorSize * addressed c cylinder upper lower = pos)
    (hcnt : parcels c (toSize (negated (countField upper lower))) = m)
    (himage : create c x.device.image = FileStream.putBytes image pos
      (bytesOf (old.load buffer n))) :
    ∃ x', EventRun.run (step (performs c scan)) (commandEvents 0o0000 cylinder upper lower buffer) x = .ok x' ∧
      x'.ioMemory = x.ioMemory.store buffer (old.load buffer m) := by
  have hlen : (bytesOf (old.load buffer n)).length = 2 * n := by
    rw [length_bytesOf, IoMemory.length_load]
  have hnil : bytesOf (old.load buffer n) ≠ [] := by
    rw [← List.length_pos_iff, hlen]
    omega
  have hblock : SectorArray.block (create c x.device.image) pos (2 * m) =
      bytesOf (old.load buffer m) := by
    obtain ⟨k, rfl⟩ := Nat.exists_eq_add_of_le hm
    have hfirst : (bytesOf (old.load buffer m)).length = 2 * m := by
      rw [length_bytesOf, IoMemory.length_load]
    rw [← SectorArray.take_block _ _ (by omega : 2 * m ≤ 2 * (m + k)), himage, ← hlen,
      SectorArray.block_putBytes, IoMemory.load_add, bytesOf_append, List.take_left' hfirst]
  have hcovers : pos + 2 * m ≤ (create c x.device.image).length := by
    rw [himage, SectorArray.length_putBytes _ _ hnil, hlen]
    omega
  subst hpos hcnt
  obtain ⟨x', hrun, hmem⟩ := start_read scan x cylinder upper lower buffer hcovers
  rw [hblock, parcelsOf_bytesOf] at hmem
  exact ⟨x', (run_command scan hstate).trans hrun, hmem⟩

/-! ## 4. When the transfers are right -/

theorem transfers_of_count {idx : Nat} (hcount : countField upper lower = 32)
    (haddr : addressed c cylinder upper lower = idx) :
    Transfers c cylinder upper lower idx 32 := by
  have hcnt : 2 * parcels c 32 = c.mSectorSize * 32 := by
    rw [parcels_eq c (by decide)]
    omega
  have hpos := c.sectorSize_pos
  have hwritten : parcels c (toSize (countField upper lower)) = parcels c 32 := by
    rw [hcount]
    rfl
  have hread : parcels c (toSize (negated (countField upper lower))) = parcels c 32 := by
    rw [hcount]
    rfl
  intro scan x buffer hstate
  obtain ⟨x', hrun, hseek, himage, hbytes⟩ := write_bytes scan x cylinder upper lower buffer
    hstate (congrArg _ haddr) hwritten
  refine ⟨x', hrun, fun p => ?_, fun mem => ?_⟩
  · rw [hbytes, hcnt]
  · obtain ⟨x'', hback, hmem⟩ := read_bytes scan { x' with ioMemory := mem } cylinder upper
      lower buffer hseek (Nat.le_refl _) (by omega) (congrArg _ haddr) hread himage
    refine ⟨x'', hback, fun k hk => ?_⟩
    rw [hmem, IoMemory.byte_store_load _ _ _ (by omega)]

/-- An image without a byte, and a memory full of ones. -/
def probe : Plugged IopExpDiskCDC9448 where
  device := new (some [])
  ioMemory := fun _ => 0xffff
  mDeviceInterruptPending := false

theorem probe_byte (k : Nat) : probe.ioMemory.byte 0 k = 0xff := by
  have hones : probe.ioMemory (0 + BitVec.ofNat 16 (k / 2)) = 0xffff := rfl
  rw [IoMemory.byte, hones]
  split <;> decide

/-- What a write of the probe puts there shows how many parcels it moved, and where. -/
theorem written_of_transfers {idx n : Nat} (hn : 0 < n)
    (h : Transfers c cylinder upper lower idx n) :
    c.mSectorSize * addressed c cylinder upper lower = c.mSectorSize * idx ∧
      2 * parcels c (toSize (countField upper lower)) = c.mSectorSize * n := by
  obtain ⟨x', hrun, hbytes, -⟩ := h (fun _ => false) probe 0 rfl
  obtain ⟨x₁, hrun₁, -, -, hbytes₁⟩ := write_bytes (c := c) (fun _ => false) probe cylinder upper
    lower 0 rfl rfl rfl
  obtain rfl := Except.ok.inj (hrun.symm.trans hrun₁)
  have hblank : ∀ p, imageByte c probe p = 0 := fun p => rfl
  have hsame : ∀ p, (c.mSectorSize * addressed c cylinder upper lower ≤ p ∧
        p < c.mSectorSize * addressed c cylinder upper lower +
          2 * parcels c (toSize (countField upper lower))) ↔
      (c.mSectorSize * idx ≤ p ∧ p < c.mSectorSize * idx + c.mSectorSize * n) := by
    intro p
    have hp := (hbytes₁ p).symm.trans (hbytes p)
    rw [probe_byte, probe_byte, hblank] at hp
    split at hp <;> split at hp
    · exact ⟨fun _ => ‹_›, fun _ => ‹_›⟩
    · exact absurd hp (by decide)
    · exact absurd hp (by decide)
    · exact ⟨fun h => absurd h ‹_›, fun h => absurd h ‹_›⟩
  have hsize : 0 < c.mSectorSize * n := Nat.mul_pos c.sectorSize_pos hn
  generalize c.mSectorSize * addressed c cylinder upper lower = a at hsame ⊢
  generalize 2 * parcels c (toSize (countField upper lower)) = l at hsame ⊢
  generalize c.mSectorSize * idx = b at hsame ⊢
  generalize c.mSectorSize * n = m at hsame hsize ⊢
  have hfirst := (hsame b).mpr ⟨Nat.le_refl _, by omega⟩
  have hback := (hsame a).mp ⟨Nat.le_refl _, by omega⟩
  obtain rfl : a = b := by omega
  have hlast := (hsame (a + m - 1)).mpr ⟨by omega, by omega⟩
  have hover := (hsame (a + l - 1)).mp ⟨by omega, by omega⟩
  exact ⟨rfl, by omega⟩

theorem read_short (x : Plugged IopExpDiskCDC9448) (cylinder upper lower buffer : IopInt)
    (hstate : x.device.mState = .seek)
    (hcnt : 0 < parcels c (toSize (negated (countField upper lower))))
    (h : (create c x.device.image).length < c.mSectorSize * addressed c cylinder upper lower +
      2 * parcels c (toSize (negated (countField upper lower)))) :
    EventRun.run (step (performs c scan)) (commandEvents 0o0000 cylinder upper lower buffer) x =
      .error .assertion := by
  have hrun : start c (fun d => .ok (scan d)) (programmed 0o0000 cylinder upper lower buffer x) =
      (readSectors c (addressed c cylinder upper lower)
        (toSize (negated (countField upper lower)))
        (create c x.device.image) buffer x.ioMemory).bind _ := rfl
  rw [run_command scan hstate, hrun, readSectors, FileStream.seekTo_ready,
    readParcels_short (by decide) hcnt (by rw [Nat.one_mul, Nat.mul_comm _ c.mSectorSize]; exact h)]
  rfl

/-- A negative count is an enormous number of parcels. -/
theorem parcels_negative (c : Config) {r : Nat} (hr : 0 < r) (hlt : r < 64) :
    parcels c (2 ^ 64 - r) = (2 ^ 64 - c.mSectorSize * r) / 2 ∧
      c.mSectorSize * r < 2 ^ 62 := by
  have hbound : c.mSectorSize * r < 2 ^ 62 :=
    calc c.mSectorSize * r ≤ 2 ^ 48 * 64 :=
          Nat.mul_le_mul (Nat.le_of_lt c.sectorSize_lt) (Nat.le_of_lt hlt)
      _ < 2 ^ 62 := by decide
  have hpos : 0 < c.mSectorSize * r := Nat.mul_pos c.sectorSize_pos hr
  have hsize := c.sectorSize_pos
  refine ⟨?_, hbound⟩
  rw [parcels, Nat.mul_sub]
  generalize c.mSectorSize * r = t at hbound hpos ⊢
  congr 1
  omega

/-- With a field below 32 the read behind the write fails. -/
theorem count_of_transfers {idx n : Nat} (hn : 0 < n)
    (h : Transfers c cylinder upper lower idx n) : 32 ≤ (countField upper lower).toNat := by
  by_contra hsmall
  obtain ⟨-, hcnt⟩ := written_of_transfers hn h
  have hsize : 0 < c.mSectorSize * n := Nat.mul_pos c.sectorSize_pos hn
  have hfield := countField_lt upper lower
  have hnonzero : (countField upper lower).toNat ≠ 0 := by
    intro hzero
    rw [toSize_countField, hzero] at hcnt
    rw [show parcels c 0 = 0 from by rw [parcels, Nat.mul_zero]; rfl] at hcnt
    omega
  obtain ⟨hparcels, hbound⟩ := parcels_negative c (Nat.pos_of_ne_zero hnonzero) hfield
  have hcount : toSize (negated (countField upper lower)) =
      2 ^ 64 - (countField upper lower).toNat := by
    rw [toSize_negated, if_neg hsmall, if_neg hnonzero]
  obtain ⟨x', hrun, -, hback⟩ := h (fun _ => false) probe 0 rfl
  obtain ⟨x₁, hrun₁, hseek, himage, -⟩ := write_bytes (c := c) (fun _ => false) probe cylinder upper
    lower 0 rfl rfl rfl
  obtain rfl := Except.ok.inj (hrun.symm.trans hrun₁)
  have hwritten : 2 * parcels c (toSize (countField upper lower)) ≤
      c.mSectorSize * (countField upper lower).toNat := by
    rw [toSize_countField, parcels_eq c (by omega)]
    omega
  have hlen : (create c x'.device.image).length =
      c.mSectorSize * addressed c cylinder upper lower +
        2 * parcels c (toSize (countField upper lower)) := by
    rw [himage, SectorArray.length_putBytes, length_bytesOf, IoMemory.length_load]
    · exact Nat.max_eq_right (Nat.zero_le _)
    · rw [← List.length_pos_iff, length_bytesOf, IoMemory.length_load, hcnt]
      exact hsize
  obtain ⟨x'', hread, -⟩ := hback fun _ => 0
  rw [read_short (fun _ => false) { x' with ioMemory := fun _ => 0 } cylinder upper lower 0 hseek
    (by rw [hcount, hparcels]; omega) (by rw [hlen, hcount, hparcels]; omega)] at hread
  cases hread

/-- A field above 32 cannot move 32 sectors or fewer, but for 33 sectors of one byte, which are 16
    parcels; a read of the 31 sectors that remain does not bring them all. -/
theorem field_of_transfers {idx n : Nat} (hn : 0 < n) (hn' : n ≤ 32)
    (h : Transfers c cylinder upper lower idx n) : (countField upper lower).toNat ≤ 32 := by
  by_contra hlarge
  obtain ⟨-, hcnt⟩ := written_of_transfers hn h
  have hfield := countField_lt upper lower
  have hpos := c.sectorSize_pos
  have hparcels : parcels c (toSize (countField upper lower)) =
      c.mSectorSize * (countField upper lower).toNat / 2 := by
    rw [toSize_countField, parcels_eq c (by omega)]
  have hfewer : c.mSectorSize * n ≤ c.mSectorSize * 32 := Nat.mul_le_mul_left _ hn'
  have hmore : c.mSectorSize * 33 ≤ c.mSectorSize * (countField upper lower).toNat :=
    Nat.mul_le_mul_left _ (by omega)
  have hsize : c.mSectorSize = 1 := by omega
  rw [hsize] at hparcels hcnt
  have hcount : (countField upper lower).toNat = 33 := by omega
  have hsixteen : parcels c (toSize (countField upper lower)) = 16 := by omega
  have hfifteen : parcels c (toSize (negated (countField upper lower))) = 15 := by
    rw [toSize_negated, hcount, parcels, hsize]
    rfl
  obtain ⟨x', hrun, -, hback⟩ := h (fun _ => false) probe 0 rfl
  obtain ⟨x₁, hrun₁, hseek, himage, -⟩ := write_bytes (c := c) (fun _ => false) probe cylinder upper
    lower 0 rfl rfl hsixteen
  obtain rfl := Except.ok.inj (hrun.symm.trans hrun₁)
  obtain ⟨x'', hread, hbytes⟩ := hback fun _ => 0
  obtain ⟨x₂, hread₂, hmem⟩ := read_bytes (fun _ => false) { x' with ioMemory := fun _ => 0 }
    cylinder upper lower 0 hseek (by decide : 15 ≤ 16) (by decide) rfl hfifteen himage
  obtain rfl := Except.ok.inj (hread.symm.trans hread₂)
  have hlast := hbytes 30 (by rw [hsize]; omega)
  rw [hmem] at hlast
  have hmissing : (IoMemory.store (fun _ => 0) 0 (probe.ioMemory.load 0 15)).byte 0 30 ≠
      probe.ioMemory.byte 0 30 := by
    decide
  exact absurd hlast hmissing

/-- **When a write and a read move what they should**: for every cylinder, whatever the two values
    for sector and count are and whatever head and sector they are meant to name, `n` sectors are
    moved there and back exactly where `n` is 32, the count that arrives is 32, and the sector that
    arrives is the one that is meant. -/
theorem transfers_iff (c : Config) (cylinder upper lower : IopInt) (head sector : Nat) {n : Nat}
    (hn : 1 ≤ n) (hn' : n ≤ 32) :
    Transfers c cylinder upper lower (sectorIdx c cylinder.toNat head sector) n ↔
      n = 32 ∧ countField upper lower = 32 ∧
        addressed c cylinder upper lower = sectorIdx c cylinder.toNat head sector := by
  constructor
  · intro h
    have hcount : (countField upper lower).toNat = 32 :=
      Nat.le_antisymm (field_of_transfers hn hn' h) (count_of_transfers hn h)
    obtain ⟨haddr, hcnt⟩ := written_of_transfers hn h
    rw [toSize_countField, hcount, parcels_eq c (by decide)] at hcnt
    have hpos := c.sectorSize_pos
    refine ⟨?_, BitVec.eq_of_toNat_eq hcount, Nat.eq_of_mul_eq_mul_left hpos haddr⟩
    exact Nat.eq_of_mul_eq_mul_left hpos (by omega : c.mSectorSize * n = c.mSectorSize * 32)
  · rintro ⟨rfl, hcount, haddr⟩
    exact transfers_of_count hcount haddr

/-- The two values for a head, a sector and a field, with the upper bits where `SetRegC` looks for
    them. -/
def upperValue (sector field : IopInt) : IopInt := (sector &&& 32) <<< 5 ||| field &&& 32

def lowerValue (head sector field : IopInt) : IopInt :=
  head <<< 10 ||| (sector &&& 31) <<< 5 ||| field &&& 31

/-- A disk of two sectors of four bytes on a track. -/
def smallConfig : Config where
  mReadOnly := false
  mNumHeads := 2
  mNumSectors := 2
  mNumTracks := 20
  mSectorSize := 4
  heads_pos := Nat.two_pos
  sectors_pos := Nat.two_pos
  tracks_pos := by decide
  sectorSize_pos := Nat.add_one_pos 3
  sectorSize_lt := by decide

/-- 32 sectors from sector 1 of head 1 on cylinder 2. -/
theorem transfers_iff_full :
    Transfers smallConfig 2 (upperValue 1 32) (lowerValue 1 1 32) (sectorIdx smallConfig 2 1 1) 32 :=
  (transfers_iff smallConfig 2 (upperValue 1 32) (lowerValue 1 1 32) 1 1 (by decide)
    (by decide)).mpr ⟨rfl, by decide, by decide⟩

/-- One sector, whose field is 63: a write moves 63 sectors; and with the values that the comment on
    the protocol gives, where the field that arrives is 31, the sector does not come back. -/
theorem one_sector_writes_more :
    ¬ Transfers smallConfig 0 (upperValue 0 63) (lowerValue 0 0 63) (sectorIdx smallConfig 0 0 0) 1 ∧
      ¬ Transfers smallConfig 0 0x0001 0x001F (sectorIdx smallConfig 0 0 0) 1 := by
  constructor
  · intro h
    have hsmall := field_of_transfers (by decide) (by decide) h
    exact absurd hsmall (by decide)
  · intro h
    have hlarge := count_of_transfers (by decide) h
    exact absurd hlarge (by decide)

end IopExpDiskCDC9448

end CraySim
