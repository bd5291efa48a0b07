/-
  Subject:   The decoders of the operation codes 0000 to 0037, `cray_cpu_inst_0000_0037.h`.

  Exits, privileged instructions, mode switches, semaphores, jumps and the address registers.
  Every decoder is followed by what it may do, `…_decodes`; the members of a family of
  instructions get theirs from the family.
-/
import CraySim.Instructions

namespace CraySim

namespace Inst

open Program

/-! ## 1. Bit counts -/

def populationCnt (aS : CInt) : CAddr :=
  (List.range 64).foldl
    (fun cnt n => if aS &&& ((1 : CInt) <<< n) != 0 then cnt + 1 else cnt) 0

def populationCntParity (aS : CInt) : CAddr := populationCnt aS &&& 1

/-- The rounds of `LeadingZeroCnt`. -/
def leadingZeroLoop (aS : CInt) : Nat → CInt → CAddr → CAddr
  | 0, _, cnt => cnt
  | n + 1, mask, cnt =>
    if aS &&& mask != 0 then cnt else leadingZeroLoop aS n (mask >>> 1) (cnt + 1)

def leadingZeroCnt (aS : CInt) : CAddr := leadingZeroLoop aS 64 0x8000000000000000 0

/-! ## 2. Error exit and privileged instructions -/

variable (pm : Params) (b : Bool) (f : Fields)

/-- `ERR` -/
def decode0000 : Inst Decoded := do
  crayAssert (f.gh == 0o000)
  if b then
    write .setErrorExit
    breakBurst 1
  else next 1

/-- An instruction that does nothing in user mode. -/
def monitorInst (body : Cpu → Inst Decoded) : Inst Decoded :=
  if b then do
    let c ← cpu
    if c.isMonitorMode then body c else next 1
  else next 1

/-- A channel instruction; off the X-MP, channel `A0` is a pass. -/
def channelInst (body : Cpu → BitVec 64 → Inst Decoded) : Inst Decoded :=
  monitorInst (b && !(!pm.isXmp && f.j == 0)) fun c =>
    body c ((c.refAj f.j).setWidth 64 - 8)

def privWrite (w : PrivWrite) : Inst Unit := command (.privWrite w)

def channelOp (aIdx : BitVec 64) (op : ChannelOp) : Inst Unit := command (.channelOp aIdx.toNat op)

/-- The exception for a channel that is not there. -/
def channelIndexError (aIdx : BitVec 64) : Exn := .instExecError "Channel index " (aIdx + 8).toNat

/-- `RT`, `IP`, `CIPI`, `CLN`, `PCI`, `CCI`, `ECI`, `DCI` -/
def decode0001i4 : Inst Decoded :=
  match f.k.val with
  | 0 => monitorInst b fun c => do
    command (.setRealTimeClock (c.refSj f.j))
    next 1
  | 1 => monitorInst b fun c => do
    crayAssert (pm.isXmp || !c.XMode)
    let cpuIdx := if pm.isXmp then f.j.val else (c.refAj f.j).toNat
    if pm.cpuCnt ≤ cpuIdx then throw (.instExecError "CPU index " cpuIdx)
    else if cpuIdx != c.mCpuId then
      command (.setInterProcessorInterrupt cpuIdx)
      breakBurst 1
    else next 1
  | 2 => monitorInst b fun _ => do
    privWrite .clearInterProcessorInterrupt
    breakBurst 1
  | 3 => monitorInst b fun c => do
    crayAssert (pm.isXmp || !c.XMode)
    let clusterIdx := if pm.isXmp then f.j.val else (c.refAj f.j).toNat
    if pm.clusterCnt < clusterIdx then throw (.instExecError "Cluster index " clusterIdx)
    else
      command (.setCluster (BitVec.ofNat 8 clusterIdx))
      next 1
  | 4 => monitorInst b fun c => do
    privWrite (.PeriodicInterruptLimit ((c.refSj f.j).setWidth 32))
    breakBurst 1
  | 5 => monitorInst b fun _ => do
    privWrite .clearProgrammableClockInterrupt
    breakBurst 1
  | 6 => monitorInst b fun _ => do
    privWrite (.PeriodicInterruptEnabled true)
    breakBurst 1
  | 7 => monitorInst b fun _ => do
    privWrite (.PeriodicInterruptEnabled false)
    breakBurst 1
  | _ => crayUnknown

/-- `SPM` and the maintenance modes -/
def decode0001i5 : Inst Decoded :=
  match f.k.val with
  | 0 => next 1
  | 1 =>
    match f.j.val with
    | 0 =>
      if !pm.isXmp then crayUnknown
      else monitorInst b fun _ => crayUnimplemented b
    | 1 | 2 | 3 => monitorInst b fun _ => crayUnimplemented b
    | _ => crayUnknown
  | _ => crayUnknown

/-- `CA`, `CL`, `CI`, `MC`, `XA` and the instructions for the clock, the other processors and the
    maintenance modes -/
def decode0001 : Inst Decoded := do
  crayAssert (f.gh == 0o001)
  match f.i.val with
  | 0 => channelInst pm b f fun c chIdx =>
    if pm.channelCnt ≤ chIdx.toNat then throw (channelIndexError chIdx)
    else do
      channelOp chIdx (.setAddress (c.refAk f.k))
      breakBurst 1
  | 1 => channelInst pm b f fun c chIdx =>
    if pm.channelCnt ≤ chIdx.toNat then throw (channelIndexError chIdx)
    else do
      channelOp chIdx (.setLimit (c.refAk f.k))
      breakBurst 1
  | 2 =>
    match f.k.val with
    | 0 => channelInst pm b f fun _ chIdx =>
      if pm.channelCnt ≤ chIdx.toNat then breakBurst 1
      else do
        channelOp chIdx .clearInterrupt
        channelOp chIdx .clearError
        breakBurst 1
    | 1 => channelInst pm b f fun _ chIdx =>
      if pm.channelCnt ≤ chIdx.toNat then do
        privWrite .clearIoInterrupt
        breakBurst 1
      else do
        channelOp chIdx .clearInterrupt
        channelOp chIdx .clearError
        channelOp chIdx .mainframeSideMasterClear
        privWrite .clearIoInterrupt
        breakBurst 1
    | _ => crayUnknown
  | 3 => channelInst pm b f fun c _ => do
    privWrite (.ExchangePacketAddress (((c.refAj f.j).setWidth 64 >>> 4).setWidth 8))
    next 1
  | 4 => decode0001i4 pm b f
  | 5 => decode0001i5 pm b f
  | 6 =>
    if pm.isXmp then crayUnknown
    else if f.k = 1 then next 1
    else crayUnknown
  | 7 =>
    if f.j = 0 ∧ (f.k = 2 ∨ f.k = 3 ∨ f.k = 4 ∨ f.k = 6) then next 1
    else crayUnknown
  | _ => crayUnknown

section spec
variable {pm b f}
variable {x : Bool} {monitor : Prop}

theorem decode0000_decodes : Decodes pm f x monitor (decode0000 b f) := by
  unfold decode0000
  refine asserted_decodes (fun _ => rfl) fun hone => executed_decodes hone ?_
  simp [Decodes, Allowed, Advance, Fields.length, hone]

/-- The effects of a privileged instruction are those of its body, in monitor mode. -/
theorem monitorInst_decodes {body : Cpu → Inst Decoded} (hlen : opLength f.gh x = 1)
    (hbody : ∀ c : Cpu, monitor → Decodes pm f x monitor (body c)) :
    Decodes pm f x monitor (monitorInst b body) := by
  unfold Decodes monitorInst
  rw [within_ite]
  refine ⟨fun _ => ?_, fun _ => Or.inl hlen.symm⟩
  rw [within_bind, within_cpu]
  intro c _ hm
  rw [within_ite]
  exact ⟨fun h => hbody c (hm h), fun _ => Or.inl hlen.symm⟩

theorem channelInst_decodes {body : Cpu → BitVec 64 → Inst Decoded} (hlen : opLength f.gh x = 1)
    (hbody : ∀ c chIdx, monitor → Decodes pm f x monitor (body c chIdx)) :
    Decodes pm f x monitor (channelInst pm b f body) :=
  monitorInst_decodes hlen fun c hm => hbody c _ hm

theorem decode0001i4_decodes (hlen : opLength f.gh x = 1) (hgh : f.gh = 0o001) (hi : f.i.val = 4) :
    Decodes pm f x monitor (decode0001i4 pm b f) := by
  have hadv : ∀ brk, Advance f x ⟨1, brk⟩ := fun _ => Or.inl hlen.symm
  unfold decode0001i4
  split
  · apply monitorInst_decodes hlen
    intro c hm
    simp [Decodes, Allowed, hm, hadv]
  · apply monitorInst_decodes hlen
    intro c hm
    simp [Decodes, within_ite, Allowed, hm, hadv]
  · apply monitorInst_decodes hlen
    intro c hm
    simp [Decodes, privWrite, Allowed, hm, hadv]
  · rename_i hk
    have hcln : f.isCLN = true := by
      have hi4 : f.i = 4 := Fin.ext hi
      have hk3 : f.k = 3 := Fin.ext hk
      rw [Fields.isCLN, hgh, hi4, hk3]
      rfl
    apply monitorInst_decodes hlen
    intro c hm
    simp only [Decodes, within_bind, within_crayAssert, within_ite, within_throw, within_next,
      within_command, Allowed]
    intro _
    refine ⟨fun _ => trivial, fun hle => ⟨⟨hm, ?_, hcln⟩, fun _ _ => hadv _⟩⟩
    rw [BitVec.toNat_ofNat]
    exact le_trans (Nat.mod_le _ _) (Nat.le_of_not_lt hle)
  · apply monitorInst_decodes hlen
    intro c hm
    simp [Decodes, privWrite, Allowed, hm, hadv]
  · rename_i hk
    have hcci : f.isCCI = true := by
      have hi4 : f.i = 4 := Fin.ext hi
      have hk5 : f.k = 5 := Fin.ext hk
      rw [Fields.isCCI, hgh, hi4, hk5]
      rfl
    apply monitorInst_decodes hlen
    intro c hm
    simp [Decodes, privWrite, Allowed, hm, hadv, hcci]
  · apply monitorInst_decodes hlen
    intro c hm
    simp [Decodes, privWrite, Allowed, hm, hadv]
  · apply monitorInst_decodes hlen
    intro c hm
    simp [Decodes, privWrite, Allowed, hm, hadv]
  · exact crayUnknown_decodes hlen

theorem decode0001i5_decodes (hlen : opLength f.gh x = 1) :
    Decodes pm f x monitor (decode0001i5 pm b f) := by
  have hunimplemented : Decodes pm f x monitor (monitorInst b fun _ => crayUnimplemented b) :=
    monitorInst_decodes hlen fun _ _ => crayUnimplemented_decodes b hlen
  unfold decode0001i5
  split
  · exact Or.inl hlen.symm
  · split
    · split
      · exact crayUnknown_decodes hlen
      · exact hunimplemented
    · exact hunimplemented
    · exact hunimplemented
    · exact hunimplemented
    · exact crayUnknown_decodes hlen
  · exact crayUnknown_decodes hlen

/-- **Privileged instructions** act in monitor mode only. -/
theorem decode0001_decodes : Decodes pm f x monitor (decode0001 pm b f) := by
  unfold Decodes decode0001
  rw [within_bind, within_crayAssert]
  intro h
  have hgh : f.gh = 0o001 := eq_of_beq h
  have hlen : opLength f.gh x = 1 := by
    rw [hgh]
    rfl
  have hadv : ∀ brk, Advance f x ⟨1, brk⟩ := fun _ => Or.inl hlen.symm
  split
  · apply channelInst_decodes hlen
    intro c chIdx hm
    simp [Decodes, within_ite, channelOp, Allowed, hm, hadv]
  · apply channelInst_decodes hlen
    intro c chIdx hm
    simp [Decodes, within_ite, channelOp, Allowed, hm, hadv]
  · split
    · apply channelInst_decodes hlen
      intro c chIdx hm
      simp [Decodes, within_ite, channelOp, Allowed, hm, hadv]
    · apply channelInst_decodes hlen
      intro c chIdx hm
      simp [Decodes, within_ite, channelOp, privWrite, Allowed, hm, hadv]
    · exact crayUnknown_decodes hlen
  · apply channelInst_decodes hlen
    intro c _ hm
    simp [Decodes, privWrite, Allowed, hm, hadv]
  · rename_i hi
    exact decode0001i4_decodes hlen hgh hi
  · exact decode0001i5_decodes hlen
  · split
    · exact crayUnknown_decodes hlen
    · split
      · exact hadv _
      · exact crayUnknown_decodes hlen
  · split
    · exact hadv _
    · exact crayUnknown_decodes hlen
  · exact crayUnknown_decodes hlen

end spec

/-! ## 3. Modes, semaphores and exits -/

section
variable (pm : Params) (b : Bool) (f : Fields)

/-- A switch of the mode register, of one parcel with unused low fields. -/
def modeInst (body : Inst Unit) : Inst Decoded :=
  if b then do
    crayUndocumented (f.jk == 0)
    body
    next 1
  else next 1

/-- A cache control instruction of the J90 and the SV1. -/
def cacheInst (brk : Bool) : Inst Decoded :=
  if pm.isJ90OrSV1 then (if b && brk then breakBurst 1 else next 1) else crayUnknown

/-- `VL`, `EFI`, `DFI`, `CBL`, `ERI`, `DRI`, `DBM`, `EBM`, `CMR` -/
def decode0002 : Inst Decoded := do
  crayAssert (f.gh == 0o002)
  match f.i.val with
  | 0 =>
    if b then
      let c ← cpu
      let newLength := (c.refAk f.k &&& 0x3f).setWidth 8
      write (.VL (if newLength == 0 then 64 else newLength))
      next 1
    else next 1
  | 1 => modeInst b f do
    write (.floatingPointErrorMode true)
    write .clearFloatingPointError
  | 2 =>
    match f.jk.val with
    | 0o00 =>
      if b then
        write (.floatingPointErrorMode false)
        write .clearFloatingPointError
        next 1
      else next 1
    | 0o10 =>
      if pm.isSV1 then
        if b then
          write (.sv1BitMatrixLoaded false)
          next 1
        else next 1
      else crayUnknown
    | _ => crayUnknown
  | 3 => modeInst b f (write (.operandRangeErrorMode true))
  | 4 => modeInst b f (write (.operandRangeErrorMode false))
  | 5 => modeInst b f (write (.bidirectionalMemoryMode true))
  | 6 => modeInst b f (write (.bidirectionalMemoryMode false))
  | 7 =>
    match f.jk.val with
    | 0o00 => if b then breakBurst 1 else next 1
    | 0o03 | 0o04 | 0o05 | 0o06 => cacheInst pm b false
    | 0o07 => cacheInst pm b true
    | _ => crayUnknown
  | _ => crayUnknown

/-- The exception for a semaphore that is not there. -/
def semaphoreIndexError (jk : Fin 64) : Exn := .instExecError "Semaphore index " jk.val

/-- `SMjk 0` and `SMjk 1` -/
def semaphoreInst (v : Bool) : Inst Decoded :=
  if b then do
    let c ← cpu
    if c.Cluster.toNat > 0 then
      if h : f.jk.val < 32 then
        command (.setSM ⟨f.jk.val, h⟩ v)
        breakBurst 1
      else throw (semaphoreIndexError f.jk)
    else next 1
  else next 1

/-- `SMjk 1,TS`: a processor that blocks executes the instruction again. -/
def testAndSetInst : Inst Decoded :=
  if b then do
    let c ← cpu
    if c.Cluster = 0 then next 1
    else
      let _ ← cluster
      if h : f.jk.val < 32 then
        let blocked ← testAndSet ⟨f.jk.val, h⟩
        if blocked then breakBurst 0 else breakBurst 1
      else throw (semaphoreIndexError f.jk)
  else next 1

/-- `VM Sj`, `SMjk 1,TS`, `SMjk 0`, `SMjk 1` -/
def decode0003 : Inst Decoded := do
  crayAssert (f.gh == 0o003)
  match f.i.val with
  | 0 =>
    if b then
      let c ← cpu
      write (.VM (c.refSj f.j))
      next 1
    else next 1
  | 4 => testAndSetInst b f
  | 6 => semaphoreInst b f false
  | 7 => semaphoreInst b f true
  | _ => crayUnknown

/-- `EX` -/
def decode0004 : Inst Decoded := do
  crayAssert (f.gh == 0o004)
  if b then
    write .setNormalExit
    breakBurst 1
  else next 1

end

section spec
variable {pm : Params} {b : Bool} {f : Fields} {x : Bool} {monitor : Prop}

theorem modeInst_decodes {body : Inst Unit} (hlen : opLength f.gh x = 1)
    (hbody : body.Within (Answers x monitor) (Allowed pm f monitor) fun _ => True) :
    Decodes pm f x monitor (modeInst b f body) := by
  unfold Decodes modeInst
  rw [within_ite]
  refine ⟨fun _ => ?_, fun _ => Or.inl hlen.symm⟩
  rw [within_bind, within_crayUndocumented]
  intro c _ _ _
  rw [within_bind]
  exact hbody.mono (fun _ _ h => h) (fun _ h => h) fun _ _ => Or.inl hlen.symm

theorem cacheInst_decodes (brk : Bool) (hlen : opLength f.gh x = 1) :
    Decodes pm f x monitor (cacheInst pm b brk) := by
  unfold cacheInst
  split
  · split
    · exact Or.inl hlen.symm
    · exact Or.inl hlen.symm
  · exact crayUnknown_decodes hlen

/-- `VL` sets a length from 1 to 64. -/
theorem newLength_le (a : CAddr) :
    (if (a &&& 0x3f).setWidth 8 == 0 then 64 else (a &&& 0x3f).setWidth 8 : BitVec 8).toNat ≤ 64 := by
  split
  · decide
  · have hle : (a &&& 0x3f).toNat ≤ 0x3f := by
      rw [BitVec.toNat_and]
      exact Nat.and_le_right
    rw [BitVec.toNat_setWidth]
    omega

theorem decode0002_decodes : Decodes pm f x monitor (decode0002 pm b f) := by
  unfold decode0002
  refine asserted_decodes (fun _ => rfl) fun hlen => ?_
  have hadv : ∀ brk, Advance f x ⟨1, brk⟩ := fun _ => Or.inl hlen.symm
  split
  · refine executed_decodes hlen ?_
    simp only [Decodes, within_bind, within_cpu, within_write, within_next]
    exact fun c _ _ => ⟨newLength_le _, hadv _⟩
  · exact modeInst_decodes hlen (by simp [Allowed])
  · split
    · refine executed_decodes hlen ?_
      simp [Decodes, Allowed, hadv]
    · split
      · refine executed_decodes hlen ?_
        simp [Decodes, Allowed, hadv]
      · exact crayUnknown_decodes hlen
    · exact crayUnknown_decodes hlen
  · exact modeInst_decodes hlen (by simp [Allowed])
  · exact modeInst_decodes hlen (by simp [Allowed])
  · exact modeInst_decodes hlen (by simp [Allowed])
  · exact modeInst_decodes hlen (by simp [Allowed])
  · split
    · exact executed_decodes hlen (hadv _)
    · exact cacheInst_decodes false hlen
    · exact cacheInst_decodes false hlen
    · exact cacheInst_decodes false hlen
    · exact cacheInst_decodes false hlen
    · exact cacheInst_decodes true hlen
    · exact crayUnknown_decodes hlen
  · exact crayUnknown_decodes hlen

theorem semaphoreInst_decodes (v : Bool) (hlen : opLength f.gh x = 1) :
    Decodes pm f x monitor (semaphoreInst b f v) := by
  have hadv : ∀ brk, Advance f x ⟨1, brk⟩ := fun _ => Or.inl hlen.symm
  unfold Decodes semaphoreInst
  rw [within_ite]
  refine ⟨fun _ => ?_, fun _ => hadv _⟩
  rw [within_bind, within_cpu]
  intro c _ _
  rw [within_ite]
  refine ⟨fun _ => ?_, fun _ => hadv _⟩
  split
  · simp [Allowed, hadv]
  · trivial

theorem testAndSetInst_decodes (hlen : opLength f.gh x = 1) (hts : f.isTestAndSet = true) :
    Decodes pm f x monitor (testAndSetInst b f) := by
  have hadv : ∀ brk, Advance f x ⟨1, brk⟩ := fun _ => Or.inl hlen.symm
  have hblock : Advance f x ⟨0, true⟩ := Or.inr ⟨rfl, Or.inr hts⟩
  unfold Decodes testAndSetInst
  rw [within_ite]
  refine ⟨fun _ => ?_, fun _ => hadv _⟩
  rw [within_bind, within_cpu]
  intro c _ _
  rw [within_ite]
  refine ⟨fun _ => hadv _, fun _ => ?_⟩
  rw [within_bind, within_cluster]
  intro _
  split
  · rw [within_bind, within_testAndSet]
    refine ⟨hts, fun blocked => ?_⟩
    rw [within_ite]
    exact ⟨fun _ => hblock, fun _ => hadv _⟩
  · trivial

theorem decode0003_decodes : Decodes pm f x monitor (decode0003 b f) := by
  unfold Decodes decode0003
  rw [within_bind, within_crayAssert]
  intro h
  have hgh : f.gh = 0o003 := eq_of_beq h
  have hlen : opLength f.gh x = 1 := by
    rw [hgh]
    rfl
  split
  · refine executed_decodes hlen ?_
    simp [Decodes, Allowed, Advance, Fields.length, hlen]
  · rename_i hi
    have hi4 : f.i = 4 := Fin.ext hi
    refine testAndSetInst_decodes hlen ?_
    rw [Fields.isTestAndSet, hgh, hi4]
    rfl
  · exact semaphoreInst_decodes false hlen
  · exact semaphoreInst_decodes true hlen
  · exact crayUnknown_decodes hlen

theorem decode0004_decodes : Decodes pm f x monitor (decode0004 b f) := by
  unfold decode0004
  refine asserted_decodes (fun _ => rfl) fun hone => executed_decodes hone ?_
  simp [Decodes, Allowed, Advance, Fields.length, hone]

end spec

/-! ## 4. Jumps -/

section
variable (b : Bool) (f : Fields)

/-- The target of `J exp` and `R exp`: the top bit of the field is ignored. -/
def jumpTarget : CAddr := (f.ijkm &&& 0xffffff).setWidth 32

/-- `J Bjk` -/
def decode0005 : Inst Decoded := do
  crayAssert (f.gh == 0o005)
  if f.i ≠ 0 then crayUnknown
  else if b then
    let c ← cpu
    write (.ProgramAddress (c.refB f.jk))
    next 0
  else next 1

/-- `J exp` -/
def decode0006 : Inst Decoded := do
  crayAssert (f.gh == 0o006)
  if b then
    write (.ProgramAddress (jumpTarget f))
    next 0
  else next 2

/-- `R exp`: the address after the instruction goes to `B00`. -/
def decode0007 : Inst Decoded := do
  crayAssert (f.gh == 0o007)
  if b then
    let c ← cpu
    write (.ProgramAddress (c.ProgramAddress + 2))
    write (.B 0 (c.ProgramAddress + 2))
    write (.ProgramAddress (jumpTarget f))
    next 0
  else next 2

/-- `JAZ exp` -/
def decode0010 : Inst Decoded := jumpInst 0o010 b f fun c => c.refA 0 == 0

/-- `JAN exp` -/
def decode0011 : Inst Decoded := jumpInst 0o011 b f fun c => c.refA 0 != 0

/-- `JAP exp` -/
def decode0012 : Inst Decoded := jumpInst 0o012 b f fun c => !(c.signExtend (c.refA 0)).slt 0

/-- `JAM exp` -/
def decode0013 : Inst Decoded := jumpInst 0o013 b f fun c => (c.signExtend (c.refA 0)).slt 0

/-- `JSZ exp` -/
def decode0014 : Inst Decoded := jumpInst 0o014 b f fun c => c.refS 0 == 0

/-- `JSN exp` -/
def decode0015 : Inst Decoded := jumpInst 0o015 b f fun c => c.refS 0 != 0

/-- `JSP exp` -/
def decode0016 : Inst Decoded := jumpInst 0o016 b f fun c => !(c.refS 0).slt 0

/-- `JSM exp` -/
def decode0017 : Inst Decoded := jumpInst 0o017 b f fun c => (c.refS 0).slt 0

end

section spec
variable {pm : Params} {b : Bool} {f : Fields} {x : Bool} {monitor : Prop}

theorem jumpTarget_lt (f : Fields) : (jumpTarget f).toNat < 2 ^ 24 := by
  unfold jumpTarget
  rw [BitVec.toNat_setWidth, BitVec.toNat_and]
  have hle : f.ijkm.toNat &&& (0xffffff : BitVec 25).toNat ≤ 0xffffff := Nat.and_le_right
  omega

theorem decode0005_decodes : Decodes pm f x monitor (decode0005 b f) := by
  unfold Decodes decode0005
  rw [within_bind, within_crayAssert]
  intro h
  have hgh : f.gh = 0o005 := eq_of_beq h
  have hlen : opLength f.gh x = 1 := by
    rw [hgh]
    rfl
  have hjump : f.isJump = true := by
    rw [Fields.isJump, hgh]
    rfl
  rw [within_ite]
  refine ⟨fun _ => crayUnknown_decodes hlen, fun _ => ?_⟩
  cases b
  · exact Or.inl hlen.symm
  · simp only [↓reduceIte, within_bind, within_cpu, within_write, within_next]
    exact fun c _ _ => ⟨⟨hjump, Or.inl hgh⟩, Or.inr ⟨rfl, Or.inl hjump⟩⟩

theorem decode0006_decodes : Decodes pm f x monitor (decode0006 b f) := by
  unfold Decodes decode0006
  rw [within_bind, within_crayAssert]
  intro h
  have hgh : f.gh = 0o006 := eq_of_beq h
  have hjump : f.isJump = true := by
    rw [Fields.isJump, hgh]
    rfl
  cases b
  · refine Or.inl ?_
    rw [Fields.length, hgh]
    rfl
  · simp only [↓reduceIte, within_bind, within_write, within_next]
    exact ⟨⟨hjump, Or.inr (Or.inr (jumpTarget_lt f))⟩, Or.inr ⟨rfl, Or.inl hjump⟩⟩

theorem decode0007_decodes : Decodes pm f x monitor (decode0007 b f) := by
  unfold Decodes decode0007
  rw [within_bind, within_crayAssert]
  intro h
  have hgh : f.gh = 0o007 := eq_of_beq h
  have hjump : f.isJump = true := by
    rw [Fields.isJump, hgh]
    rfl
  have hP : ∀ v : CAddr, Allowed pm f monitor (.write (.ProgramAddress v)) :=
    fun v => ⟨hjump, Or.inr (Or.inl hgh)⟩
  cases b
  · refine Or.inl ?_
    rw [Fields.length, hgh]
    rfl
  · simp only [↓reduceIte, within_bind, within_cpu, within_write, within_next]
    exact fun c _ _ => ⟨hP _, trivial, hP _, Or.inr ⟨rfl, Or.inl hjump⟩⟩

end spec

/-! ## 5. Address registers and shared address registers -/

section
variable (pm : Params) (b : Bool) (f : Fields)

/-- A constant for a register: 22 bits in X mode, 32 bits in Y mode. -/
def constantInst (aGh : Nat) (w : CInt → RegWrite) : Inst Decoded := do
  crayAssert (f.gh == aGh)
  let c ← cpu
  if c.XMode then
    if b then
      write (w (f.jkm.setWidth 64))
      next 2
    else next 2
  else if b then
    crayUndocumented (f.jk == 0)
    write (w (f.mn.setWidth 64))
    next 3
  else next 3

/-- `Ai exp` -/
def decode0020 : Inst Decoded := constantInst b f 0o020 fun v => .A f.i (v.setWidth 32)

/-- `Ai -exp` -/
def decode0021 : Inst Decoded := constantInst b f 0o021 fun v => .A f.i (~~~v.setWidth 32)

/-- `Ai exp` -/
def decode0022 : Inst Decoded := scalarInst 0o022 b f fun _ => .A f.i (BitVec.ofNat 32 f.jk.val)

/-- `Ai Sj` and `Ai VL` -/
def decode0023 : Inst Decoded :=
  match f.k.val with
  | 0 => scalarInst 0o023 b f fun c => .A f.i ((c.refSj f.j).setWidth 32)
  | 1 => scalarInst 0o023 b f fun c => .A f.i (c.VL.setWidth 32)
  | _ => do
    crayAssert (f.gh == 0o023)
    next 1

/-- `Ai Bjk` -/
def decode0024 : Inst Decoded := scalarInst 0o024 b f fun c => .A f.i (c.refB f.jk)

/-- `Bjk Ai` -/
def decode0025 : Inst Decoded := scalarInst 0o025 b f fun c => .B f.jk (c.refA f.i)

/-- `Ai PSj`, `Ai QSj` and `Ai SBj` -/
def decode0026 : Inst Decoded :=
  match f.k.val with
  | 0 => scalarInst 0o026 b f fun c => .A f.i (populationCnt (c.refSj f.j))
  | 1 => scalarInst 0o026 b f fun c => .A f.i (populationCntParity (c.refSj f.j))
  | 7 => do
    crayAssert (f.gh == 0o026)
    if b then
      let c ← cpu
      if c.Cluster = 0 then
        write (.A f.i 0)
        next 1
      else
        let cl ← cluster
        write (.A f.i (c.AddrMask &&& cl.SB f.j))
        next 1
    else next 1
  | _ => do
    crayAssert (f.gh == 0o026)
    crayUnknown

/-- `Ai ZSj` and `SBj Ai` -/
def decode0027 : Inst Decoded :=
  match f.k.val with
  | 0 => scalarInst 0o027 b f fun c => .A f.i (leadingZeroCnt (c.refSj f.j))
  | 7 => do
    crayAssert (f.gh == 0o027)
    if b then
      let c ← cpu
      if c.Cluster ≠ 0 then
        command (.setSB f.j (c.refA f.i))
        next 1
      else next 1
    else next 1
  | _ => do
    crayAssert (f.gh == 0o027)
    crayUnknown

/-- `Ai Aj+Ak` -/
def decode0030 : Inst Decoded :=
  scalarInst 0o030 b f fun c => .A f.i (c.refAj f.j + c.refAk f.k)

/-- `Ai Aj-Ak` -/
def decode0031 : Inst Decoded :=
  scalarInst 0o031 b f fun c => .A f.i (c.refAj f.j - c.refAk f.k)

/-- `Ai Aj*Ak` -/
def decode0032 : Inst Decoded :=
  scalarInst 0o032 b f fun c => .A f.i (c.refAj f.j * c.refAk f.k)

/-- The number of the first channel with a pending interrupt, 0 if there is none. -/
def interruptingChannel (chs : List (Option Channel)) : Nat :=
  match chs.find? fun ch => ch.any (·.mInterruptPending) with
  | some (some ch) => ch.mChannelId
  | _ => 0

/-- `Ai CA,Aj` and `Ai CE,Aj`: a register of a channel. -/
def channelReadInst (get : Channel → CAddr) : Inst Decoded :=
  if b then do
    let c ← cpu
    let chIdx : BitVec 64 := (c.refAj f.j - 8).setWidth 64
    if pm.channelCnt ≤ chIdx.toNat then throw (channelIndexError chIdx)
    else
      let chs ← channels
      write (.A f.i ((chs.getD chIdx.toNat none).elim 0 get))
      breakBurst 1
  else next 1

/-- `Ai CI`, `Ai CA,Aj` and `Ai CE,Aj` -/
def decode0033 : Inst Decoded := do
  crayAssert (f.gh == 0o033)
  if f.j = 0 then
    if b then
      let chs ← channels
      write (.A f.i (BitVec.ofNat 32 (interruptingChannel chs)))
      breakBurst 1
    else next 1
  else
    match f.k.val with
    | 0 => channelReadInst pm b f fun ch => ch.mAddress
    | 1 => channelReadInst pm b f fun ch => if ch.mError then 1 else 0
    | _ => crayUnknown

/-- The words of a block transfer, 0 to 127. -/
def transferSize (c : Cpu) (f : Fields) : Nat := (c.refA f.i &&& 127).toNat

/-- A transfer from memory to a block of registers; the register index wraps around. -/
def blockLoad (aGh : Nat) (w : Fin 64 → CInt → RegWrite) : Inst Decoded := do
  crayAssert (f.gh == aGh)
  if b then
    let c ← cpu
    let _ ← foldUpTo (transferSize c f) f.jk fun idx reg => do
      let c ← cpu
      let v ← readDataMem (c.refA 0 + BitVec.ofNat 32 idx)
      write (w reg v)
      pure (reg + 1)
    next 1
  else next 1

/-- A transfer from a block of registers to memory. -/
def blockStore (aGh : Nat) (r : Cpu → Fin 64 → CInt) : Inst Decoded := do
  crayAssert (f.gh == aGh)
  if b then
    let c ← cpu
    let _ ← foldUpTo (transferSize c f) f.jk fun idx reg => do
      let c ← cpu
      writeDataMem (c.refA 0 + BitVec.ofNat 32 idx) (r c reg)
      pure (reg + 1)
    next 1
  else next 1

/-- `Bjk,Ai ,A0` -/
def decode0034 : Inst Decoded := blockLoad b f 0o034 fun reg v => .B reg (v.setWidth 32)

/-- `,A0 Bjk,Ai` -/
def decode0035 : Inst Decoded := blockStore b f 0o035 fun c reg => (c.refB reg).setWidth 64

/-- `Tjk,Ai ,A0` -/
def decode0036 : Inst Decoded := blockLoad b f 0o036 fun reg v => .T reg v

/-- `,A0 Tjk,Ai` -/
def decode0037 : Inst Decoded := blockStore b f 0o037 fun c reg => c.refT reg

end

section spec
variable {pm : Params} {b : Bool} {f : Fields} {x : Bool} {monitor : Prop} {aGh : Nat}

theorem constantInst_decodes {w : CInt → RegWrite}
    (hlen : ∀ x, opLength aGh x = if x then 2 else 3)
    (hw : ∀ v, Allowed pm f monitor (.write (w v))) :
    Decodes pm f x monitor (constantInst b f aGh w) := by
  unfold Decodes constantInst
  rw [within_bind, within_crayAssert]
  intro h
  have hx : f.length x = if x then 2 else 3 := Fields.length_of_gh h (hlen x)
  rw [within_bind, within_cpu]
  rintro c rfl -
  cases hc : c.XMode
  · rw [hc] at hx
    cases b <;> simp [hw, Advance, hx]
  · rw [hc] at hx
    cases b <;> simp [hw, Advance, hx]

theorem decode0023_decodes : Decodes pm f x monitor (decode0023 b f) := by
  unfold decode0023
  split
  · exact scalarInst_decodes (fun _ => rfl) fun _ => trivial
  · exact scalarInst_decodes (fun _ => rfl) fun _ => trivial
  · exact asserted_decodes (fun _ => rfl) fun hlen => Or.inl hlen.symm

theorem decode0026_decodes : Decodes pm f x monitor (decode0026 b f) := by
  unfold decode0026
  split
  · exact scalarInst_decodes (fun _ => rfl) fun _ => trivial
  · exact scalarInst_decodes (fun _ => rfl) fun _ => trivial
  · refine asserted_decodes (fun _ => rfl) fun hlen => executed_decodes hlen ?_
    simp [Decodes, within_ite, Allowed, Advance, Fields.length, hlen]
  · exact asserted_decodes (fun _ => rfl) crayUnknown_decodes

theorem decode0027_decodes : Decodes pm f x monitor (decode0027 b f) := by
  unfold decode0027
  split
  · exact scalarInst_decodes (fun _ => rfl) fun _ => trivial
  · refine asserted_decodes (fun _ => rfl) fun hlen => executed_decodes hlen ?_
    simp [Decodes, within_ite, Allowed, Advance, Fields.length, hlen]
  · exact asserted_decodes (fun _ => rfl) crayUnknown_decodes

theorem channelReadInst_decodes {get : Channel → CAddr} (hlen : opLength f.gh x = 1) :
    Decodes pm f x monitor (channelReadInst pm b f get) := by
  cases b
  · exact Or.inl hlen.symm
  · simp [Decodes, channelReadInst, within_ite, Allowed, Advance, Fields.length, hlen]

theorem decode0033_decodes : Decodes pm f x monitor (decode0033 pm b f) := by
  unfold decode0033
  refine asserted_decodes (fun _ => rfl) fun hlen => ?_
  split
  · refine executed_decodes hlen ?_
    simp [Decodes, Allowed, Advance, Fields.length, hlen]
  · split
    · exact channelReadInst_decodes hlen
    · exact channelReadInst_decodes hlen
    · exact crayUnknown_decodes hlen

theorem blockLoad_decodes {w : Fin 64 → CInt → RegWrite} (hlen : ∀ x, opLength aGh x = 1)
    (hw : ∀ reg v, Allowed pm f monitor (.write (w reg v))) :
    Decodes pm f x monitor (blockLoad b f aGh w) := by
  unfold blockLoad
  refine asserted_decodes hlen fun hone => executed_decodes hone ?_
  simp only [Decodes, within_bind, within_cpu, within_next]
  intro c _ _
  apply within_foldUpTo (I := fun _ => True)
  · intro idx reg _
    simp [hw]
  · trivial
  · exact fun _ _ => Or.inl hone.symm

theorem blockStore_decodes {r : Cpu → Fin 64 → CInt} (hlen : ∀ x, opLength aGh x = 1) :
    Decodes pm f x monitor (blockStore b f aGh r) := by
  unfold blockStore
  refine asserted_decodes hlen fun hone => executed_decodes hone ?_
  simp only [Decodes, within_bind, within_cpu, within_next]
  intro c _ _
  apply within_foldUpTo (I := fun _ => True)
  · intro idx reg _
    simp
  · trivial
  · exact fun _ _ => Or.inl hone.symm

/-- The decoders of the codes 0000 to 0037. -/
def implementations0000 (pm : Params) : List (Bool → Fields → Inst Decoded) := [
  decode0000, decode0001 pm, decode0002 pm, decode0003,
  decode0004, decode0005, decode0006, decode0007,
  decode0010, decode0011, decode0012, decode0013,
  decode0014, decode0015, decode0016, decode0017,
  decode0020, decode0021, decode0022, decode0023,
  decode0024, decode0025, decode0026, decode0027,
  decode0030, decode0031, decode0032, decode0033 pm,
  decode0034, decode0035, decode0036, decode0037]

theorem implementations0000_decodes (hf : f.WellFormed) :
    ∀ inst ∈ implementations0000 pm, Decodes pm f x monitor (inst b f) := by
  have hjump : ∀ {aGh : Nat} {cond : Cpu → Bool}, 0o010 ≤ aGh ∧ aGh ≤ 0o017 →
      Decodes pm f x monitor (jumpInst aGh b f cond) := fun h => jumpInst_decodes h hf.ijkm_lt
  have hscalar : ∀ {aGh : Nat} {w : Cpu → RegWrite}, (∀ x, opLength aGh x = 1) →
      (∀ c, Allowed pm f monitor (.write (w c))) →
      Decodes pm f x monitor (scalarInst aGh b f w) := scalarInst_decodes
  simp only [implementations0000, List.forall_mem_cons]
  refine ⟨decode0000_decodes, decode0001_decodes, decode0002_decodes, decode0003_decodes,
    decode0004_decodes, decode0005_decodes, decode0006_decodes, decode0007_decodes,
    hjump (by decide), hjump (by decide), hjump (by decide), hjump (by decide), hjump (by decide),
    hjump (by decide), hjump (by decide), hjump (by decide), constantInst_decodes ?_ ?_,
    constantInst_decodes ?_ ?_, hscalar ?_ ?_, decode0023_decodes, hscalar ?_ ?_, hscalar ?_ ?_,
    decode0026_decodes, decode0027_decodes, hscalar ?_ ?_, hscalar ?_ ?_, hscalar ?_ ?_,
    decode0033_decodes, blockLoad_decodes ?_ fun _ _ => trivial, blockStore_decodes fun _ => rfl,
    blockLoad_decodes ?_ fun _ _ => trivial, blockStore_decodes fun _ => rfl, List.forall_mem_nil _⟩
  all_goals first | exact fun _ => rfl | exact fun _ => trivial

end spec

end Inst

end CraySim
