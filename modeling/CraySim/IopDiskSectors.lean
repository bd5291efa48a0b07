/-
  Subject:   The DD29 disk as an array of sectors.

  A read brings what was last written to its sector, or zeros, whatever happened to other sectors,
  as long as every format hits the sector it names: a format takes head and sector in the other
  order than a read and a write do.

  * `Event`, `step` -- what happens to the channel,
  * `Served`, `FormatsInPlace` -- the functions of a run, and when a format hits its sector,
  * `Keeps` -- the image has an array of sectors,
  * `reads_last_written` -- the runs where every format hits its sector.
-/
import CraySim.IopDisk

namespace CraySim

namespace IopDiskDD29

variable (c : Config)

/-! ## 1. Runs -/

/-- What happens to the channel; between the functions the IOP changes its memory. -/
inductive Event where
  | doIo (aFunction : Nat) (aData : IopInt)
  | compute (ioMemory : IoMemory)
  | masterClear

def step : Event → IopDiskDD29 → Except Exn IopDiskDD29
  | .doIo f aData, d => (doIo c f aData d).map Prod.snd
  | .compute mem, d => .ok { d with ioMemory := mem }
  | .masterClear, d => .ok (masterClear d)

/-- The functions a run may have: a read or a write for a unit that is reserved, at a sector of the
    disk, and not a write where the disk is read-only; in the buffer echo mode, where the buffer
    has room in the memory; and no selection of a margin. -/
def Served (d : IopDiskDD29) : Event → Prop
  | .doIo f aData =>
    (f = 0o01 → (aData >>> 9).toNat ≠ 4) ∧
    (f = 0o02 → special aData = false) ∧
    (f = 0o02 ∨ f = 0o03 →
      if d.mBufferEchoMode then d.mIoMemoryAddr.toNat + cBufferSize ≤ 65536
      else d.mMounted = true ∧ OnDisk c (target aData d) ∧ (f = 0o03 → c.mReadOnly = false))
  | _ => True

/-- A format computes the sector it names. -/
def FormatsInPlace (d : IopDiskDD29) : Event → Prop
  | .doIo f aData =>
    f = 0o03 → d.mBufferEchoMode = false → special aData = true →
      d.mCurrentHead * c.mNumSectors + sectorOf aData =
        sectorOf aData * c.mNumHeads + d.mCurrentHead
  | _ => True

/-- The sectors of a disk, for what they hold. -/
abbrev Sectors := Sector → List IopInt

/-- What an event does to the sectors: a write outside the buffer echo mode puts the parcels of the
    memory there, and a format zeros. -/
def written (d : IopDiskDD29) : Event → Option (Sector × List IopInt)
  | .doIo 0o03 aData =>
    if d.mBufferEchoMode then none
    else if special aData then some (target aData d, List.replicate (sectorParcels c) 0)
    else some (target aData d, d.ioMemory.load d.mIoMemoryAddr (sectorParcels c))
  | _ => none

def Sectors.follow (l : Sectors) : Option (Sector × List IopInt) → Sectors
  | some (k, ws) => Function.update l k ws
  | none => l

/-! ## 2. Sectors in the image -/

variable {c} {d : IopDiskDD29} {l : Sectors} {k k' : Sector} {image : List (BitVec 8)}

theorem sectorIdx_inj (hk : OnDisk c k) (hk' : OnDisk c k')
    (h : sectorIdx c k = sectorIdx c k') : k = k' := by
  rw [sectorIdx, sectorIdx, ← Nat.add_mul, ← Nat.add_mul] at h
  obtain ⟨houter, hsector⟩ := SectorArray.mul_add_inj hk.2.2 hk'.2.2 h
  obtain ⟨htrack, hhead⟩ := SectorArray.mul_add_inj hk.2.1 hk'.2.1 houter
  cases k
  cases k'
  exact congr (congrArg₂ Sector.mk htrack hhead) hsector

theorem sectorIdx_lt (hk : OnDisk c k) :
    sectorIdx c k < c.mNumTracks * c.mNumHeads * c.mNumSectors := by
  obtain ⟨ht, hh, hs⟩ := hk
  rw [sectorIdx, ← Nat.add_mul]
  have houter : k.track * c.mNumHeads + k.head < c.mNumTracks * c.mNumHeads :=
    calc k.track * c.mNumHeads + k.head < (k.track + 1) * c.mNumHeads := by
          rw [Nat.succ_mul]; omega
      _ ≤ c.mNumTracks * c.mNumHeads := Nat.mul_le_mul_right _ ht
  calc (k.track * c.mNumHeads + k.head) * c.mNumSectors + k.sector
      < (k.track * c.mNumHeads + k.head + 1) * c.mNumSectors := by rw [Nat.succ_mul]; omega
    _ ≤ c.mNumTracks * c.mNumHeads * c.mNumSectors := Nat.mul_le_mul_right _ houter

/-- Bytes put at one sector are not bytes of another. -/
theorem sectorAt_other (hk : OnDisk c k) (hk' : OnDisk c k') (hne : k' ≠ k)
    {bs : List (BitVec 8)} (hbs : bs.length ≤ c.mSectorSize) :
    sectorAt c (FileStream.putBytes image (c.mSectorSize * sectorIdx c k) bs) k' =
      sectorAt c image k' := by
  have hidx : sectorIdx c k' ≠ sectorIdx c k := fun h => hne (sectorIdx_inj hk' hk h)
  have hsize := twice_sectorParcels_le c
  rw [sectorAt, SectorArray.block_putBytes_outside, sectorAt]
  rcases Nat.lt_or_gt_of_ne hidx with hlt | hgt
  · left
    have hle := Nat.mul_le_mul_left c.mSectorSize hlt
    rw [Nat.mul_succ] at hle
    omega
  · right
    have hle := Nat.mul_le_mul_left c.mSectorSize hgt
    rw [Nat.mul_succ] at hle
    omega

/-- The image has every sector of the array. -/
structure Keeps (c : Config) (d : IopDiskDD29) (l : Sectors) : Prop where
  inside : ∀ k, OnDisk c k → c.mSectorSize * sectorIdx c k + 2 * sectorParcels c ≤ d.image.length
  holds : ∀ k, OnDisk c k → sectorAt c d.image k = l k

theorem Keeps.of_image {d' : IopDiskDD29} (h : Keeps c d l) (himage : d'.image = d.image) :
    Keeps c d' l :=
  ⟨himage ▸ h.inside, himage ▸ h.holds⟩

theorem Keeps.put {d' : IopDiskDD29} (h : Keeps c d l) (hk : OnDisk c k) {bs : List (BitVec 8)}
    {ws : List IopInt} (himage : d'.image =
      FileStream.putBytes d.image (c.mSectorSize * sectorIdx c k) bs)
    (hbs : bs.length ≤ c.mSectorSize) (hws : parcelsOf (bs.take (2 * sectorParcels c)) = ws)
    (hlen : 2 * sectorParcels c ≤ bs.length) : Keeps c d' (Function.update l k ws) where
  inside k' hk' := by
    rw [himage]
    refine Nat.le_trans (h.inside k' hk') ?_
    by_cases hnil : bs = []
    · rw [hnil, FileStream.putBytes, if_pos rfl]
    · rw [SectorArray.length_putBytes _ _ hnil]
      exact Nat.le_max_left _ _
  holds k' hk' := by
    rw [himage]
    by_cases hne : k' = k
    · subst hne
      rw [Function.update_self, ← hws, sectorAt, ← SectorArray.take_block _ _ hlen,
        SectorArray.block_putBytes]
    · rw [Function.update_of_ne hne, sectorAt_other hk hk' hne hbs]
      exact h.holds k' hk'

theorem written_of_ne {f : Nat} (aData : IopInt) (hf : f ≠ 0o03) :
    written c d (.doIo f aData) = none := by
  rw [written.eq_def]
  split
  · rename_i heq
    exact absurd (Event.doIo.inj heq).1 hf
  · rfl

/-- **One event**: the array follows the disk. -/
theorem step_keeps (h : Keeps c d l) (e : Event) (he : Served c d e) (hplace : FormatsInPlace c d e) :
    ∃ d', step c e d = .ok d' ∧ Keeps c d' (l.follow (written c d e)) := by
  cases e with
  | compute mem => exact ⟨_, rfl, h.of_image rfl⟩
  | masterClear => exact ⟨_, rfl, h.of_image rfl⟩
  | doIo f aData =>
    obtain ⟨hmargin, hdata, hselected⟩ := he
    by_cases hf : f = 0o02 ∨ f = 0o03
    · have hsel := hselected hf
      by_cases hmode : d.mBufferEchoMode = true
      · rw [if_pos hmode] at hsel
        obtain ⟨r, d', hrun, himage⟩ := doIo_echo c d hf hmode hdata hsel
        refine ⟨d', by rw [step, hrun]; rfl, ?_⟩
        have hnone : written c d (.doIo f aData) = none := by
          rcases hf with rfl | rfl
          · exact written_of_ne aData (by decide)
          · rw [written, if_pos hmode]
        rw [hnone]
        exact h.of_image himage
      · rw [if_neg hmode] at hsel
        obtain ⟨hmounted, hdisk, hwritable⟩ := hsel
        have hnormal : d.mBufferEchoMode = false := Bool.eq_false_iff.mpr hmode
        rcases hf with rfl | rfl
        · refine ⟨_, by rw [step, read_ok hnormal hmounted (hdata rfl) (h.inside _ hdisk)]; rfl, ?_⟩
          rw [written_of_ne aData (by decide)]
          exact h.of_image rfl
        · have hro := hwritable rfl
          by_cases hspecial : special aData = true
          · refine ⟨_, by rw [step, format_ok hnormal hmounted hro hspecial]; rfl, ?_⟩
            rw [written, if_neg hmode, if_pos hspecial]
            have hoff : formatOffset c d.mCurrentTrack d.mCurrentHead (sectorOf aData) =
                c.mSectorSize * sectorIdx c (target aData d) := by
              have hsame := hplace rfl hnormal hspecial
              simp only [formatOffset, sectorIdx, target]
              congr 1
              omega
            have hwords := twice_sectorParcels_le c
            refine h.put hdisk (congrArg (FileStream.putBytes d.image · _) hoff) ?_ ?_ ?_
            · rw [List.length_replicate]
              omega
            · rw [List.take_replicate, Nat.min_eq_left (by rw [sectorParcels]; omega),
                parcelsOf_zeros]
            · rw [List.length_replicate, sectorParcels]
              omega
          · have hplain : special aData = false := Bool.eq_false_iff.mpr hspecial
            refine ⟨_, by rw [step, write_ok hnormal hmounted hro hplain]; rfl, ?_⟩
            rw [written, if_neg hmode, if_neg hspecial]
            have hlen : (bytesOf (d.ioMemory.load d.mIoMemoryAddr (sectorParcels c))).length =
                2 * sectorParcels c := by
              rw [length_bytesOf, IoMemory.length_load]
            refine h.put hdisk rfl ?_ ?_ (Nat.le_of_eq hlen.symm)
            · rw [hlen]
              exact twice_sectorParcels_le c
            · rw [← hlen, List.take_length, parcelsOf_bytesOf]
    · obtain ⟨hread, hwrite⟩ := not_or.mp hf
      obtain ⟨r, d', hrun, himage⟩ := doIo_image c d hread hwrite hmargin
      refine ⟨d', by rw [step, hrun]; rfl, ?_⟩
      rw [written_of_ne aData hwrite]
      exact h.of_image himage

/-! ## 3. The disk as an array -/

theorem createdImage_eq (c : Config) :
    createdImage c = List.replicate (if diskSize c < 2 then 0 else diskSize c) 0 := by
  rw [createdImage]
  by_cases hsmall : diskSize c < 2
  · have hneg : ¬ 2 ≤ diskSize c := by omega
    simp [FileStream.seekPut, FileStream.ready, FileStream.write, FileStream.good,
      FileStream.content, hneg, hsmall]
  · obtain ⟨n, hn⟩ := Nat.exists_eq_add_of_le (Nat.not_lt.mp hsmall)
    have hpos : ((diskSize c : Int) - 2) = (n : Int) := by omega
    rw [hpos, FileStream.seekPut_ready, FileStream.write_ready_any, if_neg hsmall, hn,
      FileStream.putBytes, if_neg (by simp), Nat.add_comm 2 n, List.replicate_add]
    simp [FileStream.ready, FileStream.content]

theorem keeps_created (h : d.image = createdImage c) :
    Keeps c d fun _ => List.replicate (sectorParcels c) 0 where
  inside k hk := by
    have hidx := sectorIdx_lt hk
    have hsize := twice_sectorParcels_le c
    have htotal : diskSize c = c.mSectorSize * (c.mNumTracks * c.mNumHeads * c.mNumSectors) := by
      rw [diskSize]
      ring
    have hend := Nat.mul_le_mul_left c.mSectorSize hidx
    rw [Nat.mul_succ, ← htotal] at hend
    rw [h, createdImage_eq, List.length_replicate]
    split
    · have hbyte := c.sectorSize_pos
      have hparcels : sectorParcels c = 0 := by
        rw [sectorParcels]
        omega
      omega
    · omega
  holds k _ := by
    rw [h, createdImage_eq, sectorAt, SectorArray.block_zeros, parcelsOf_zeros]

/-- **The disk as an array of sectors**: from a new disk on, along functions whose formats hit the
    sector they name, every sector of the image has what was last written there, or zeros, and a
    read brings it. -/
theorem reads_last_written (c : Config) {es : List Event} (hnew : d.image = createdImage c)
    (h : EventRun.Along (step c) (fun d e => Served c d e ∧ FormatsInPlace c d e) es d) :
    let l : Sectors := (EventRun.trace (step c) (written c) es d).foldl Sectors.follow
      fun _ => List.replicate (sectorParcels c) 0
    ∃ d', EventRun.run (step c) es d = .ok d' ∧
      (∀ k, OnDisk c k → sectorAt c d'.image k = l k) ∧
      ∀ aData, d'.mBufferEchoMode = false → d'.mMounted = true → special aData = false →
        OnDisk c (target aData d') →
        doIo c 0o02 aData d' = .ok (0, { moved aData (sectorParcels c) d' with
          ioMemory := d'.ioMemory.store d'.mIoMemoryAddr (l (target aData d')) }) := by
  intro l
  obtain ⟨d', hrun, hkeeps⟩ : ∃ d', EventRun.run (step c) es d = .ok d' ∧ Keeps c d' l :=
    EventRun.run_simulates (fun _ _ e hk he => step_keeps hk e he.1 he.2) (keeps_created hnew) h
  refine ⟨d', hrun, hkeeps.holds, fun aData hmode hmounted hdata hdisk => ?_⟩
  rw [read_ok hmode hmounted hdata (hkeeps.inside _ hdisk), hkeeps.holds _ hdisk]

/-- A disk with two heads and three sectors on a track. -/
def smallConfig : Config where
  mReadOnly := false
  mNumHeads := 2
  mNumSectors := 3
  mNumTracks := 1
  mSectorSize := 8
  heads_pos := Nat.two_pos
  sectors_pos := by decide
  tracks_pos := Nat.one_pos
  sectorSize_pos := by decide

/-- It is new and reserved, and every parcel of the memory is 7. -/
def smallDisk : IopDiskDD29 where
  mIoMemoryAddr := 0
  mCurrentHead := 0
  mCurrentSector := 0
  mCurrentTrack := 0
  mDone := true
  mOperation := .idle
  mInterruptEnabled := true
  mMounted := true
  mBufferEchoMode := false
  mStatusResponseRegister := 0
  mBufferAB := fun _ => 0
  image := createdImage smallConfig
  ioMemory := fun _ => 7

/-- Sector 2 is written, and then sector 0, which a format hits, is formatted. -/
theorem reads_last_written_small :
    ∃ d', EventRun.run (step smallConfig) [.doIo 0o03 2, .doIo 0o03 0x20] smallDisk = .ok d' ∧
      sectorAt smallConfig d'.image ⟨0, 0, 2⟩ = List.replicate 4 7 ∧
      sectorAt smallConfig d'.image ⟨0, 0, 0⟩ = List.replicate 4 0 := by
  obtain ⟨d₁, hwrite, hmode, hmounted, htarget⟩ : ∃ d₁, step smallConfig (.doIo 0o03 2) smallDisk =
      .ok d₁ ∧ d₁.mBufferEchoMode = false ∧ d₁.mMounted = true ∧ target 0x20 d₁ = ⟨0, 0, 0⟩ :=
    ⟨_, by rw [step, write_ok rfl rfl rfl (by decide)]; rfl, rfl, rfl, rfl⟩
  have hlast : OnDisk smallConfig ⟨0, 0, 2⟩ := ⟨by decide, by decide, by decide⟩
  have hfirst : OnDisk smallConfig ⟨0, 0, 0⟩ := ⟨by decide, by decide, by decide⟩
  have hwriting : Served smallConfig smallDisk (.doIo 0o03 2) :=
    ⟨by decide, by decide, fun _ => ⟨rfl, hlast, fun _ => rfl⟩⟩
  have hformatting : Served smallConfig d₁ (.doIo 0o03 0x20) := by
    refine ⟨by decide, by decide, fun _ => ?_⟩
    rw [hmode, htarget]
    exact ⟨hmounted, hfirst, fun _ => rfl⟩
  have hhead : d₁.mCurrentHead = 0 := congrArg Sector.head htarget
  have hplace : FormatsInPlace smallConfig d₁ (.doIo 0o03 0x20) := by
    intro _ _ _
    rw [hhead]
    rfl
  obtain ⟨d', hrun, hholds, -⟩ := reads_last_written smallConfig rfl
    (.cons ⟨hwriting, fun _ _ h => absurd h (by decide)⟩ hwrite
      (.one ⟨hformatting, hplace⟩))
  have hview : written smallConfig d₁ (.doIo 0o03 0x20) =
      some (⟨0, 0, 0⟩, List.replicate 4 0) := by
    rw [written, hmode, htarget]
    rfl
  rw [EventRun.trace_cons hwrite, EventRun.trace_one, hview] at hholds
  refine ⟨d', hrun, (hholds _ hlast).trans ?_, (hholds _ hfirst).trans ?_⟩
  · decide
  · decide

/-- Where sector 1 is formatted, the zeros go to sector 2, and sector 1 keeps its data. -/
theorem format_clears_another_sector :
    let run := fun es k => (EventRun.run (step smallConfig) es smallDisk).map
      fun d => sectorAt smallConfig d.image ⟨0, 0, k⟩
    run [.doIo 0o03 1, .doIo 0o03 2] 2 = .ok (List.replicate 4 7) ∧
      run [.doIo 0o03 1, .doIo 0o03 2, .doIo 0o03 0x21] 2 = .ok (List.replicate 4 0) ∧
      run [.doIo 0o03 1, .doIo 0o03 2, .doIo 0o03 0x21] 1 = .ok (List.replicate 4 7) := by
  decide

end IopDiskDD29

end CraySim
