/-
  Subject:   The state of the simulated mainframe.

  `Mainframe_c` owns the memory, the clusters, the channels and the processors; `SoftCpu_c` and
  its `CpuState_s` hold the registers of one processor.

  * `Params` -- what the configuration fixes,
  * `Cpu` -- one processor,
  * `InterCpuCluster`, `Channel` -- what the processors share,
  * `System` -- the mainframe with its processors.
-/
import CraySim.ExchangePacket
import CraySim.Lib.ByteStore
import CraySim.Lib.Program
import Mathlib.Logic.Function.Basic

namespace CraySim

/-! ## 1. Configuration -/

/-- What the configuration of a mainframe fixes. -/
structure Params where
  machineType : MachineTypes
  /-- `mCpus.size()`. -/
  cpuCnt : Nat
  cpuCnt_lt : cpuCnt < 2 ^ 64
  /-- `mClusters.size()`. -/
  clusterCnt : Nat
  /-- `mChannels.size()`. -/
  channelCnt : Nat
  memSizeInWords : Nat
  memSize_pos : 0 < memSizeInWords
  useHostRealTimeClock : Bool
  realTimeClockIncrement : CInt
  realTimeClockChunkLimit : CInt
  /-- `CInt_t(double(DeltaTime) / mSystemClockPeriod)`, a host floating point division. -/
  deltaClocks : Nat → CInt

/-- `GetMemorySizeInParcels`. -/
def Params.memSizeInParcels (pm : Params) : Nat := pm.memSizeInWords * cParcelsPerWord

def Params.isXmp (pm : Params) : Bool := pm.machineType.isXmp

def Params.isJ90OrSV1 (pm : Params) : Bool := pm.machineType == .J90 || pm.machineType == .SV1

def Params.isSV1 (pm : Params) : Bool := pm.machineType == .SV1

/-! ## 2. One processor -/

/-- The registers of `CpuState_s` and the members of `SoftCpu_c` that execution reads. -/
structure Cpu where
  A : Fin 8 → CAddr
  B : Fin 64 → CAddr
  S : Fin 8 → CInt
  T : Fin 64 → CInt
  V : Fin 8 → Fin 64 → CInt
  VL : BitVec 8
  VM : CInt
  ExchangePacketAddress : BitVec 8
  ProgramAddress : CAddr
  InstBaseAddr : CAddr
  InstLimitAddr : CAddr
  DataBaseAddr : CAddr
  DataLimitAddr : CAddr
  Mode : CraySim.Mode
  Flags : CraySim.Flags
  PeriodicInterruptLimit : BitVec 32
  PeriodicInterruptCountDown : BitVec 32
  PeriodicInterruptEnabled : Bool
  Cluster : BitVec 8
  TestAndSetBlocked : Bool
  VectorNotUsed : Bool
  EnableSecondVectorLogical : Bool
  XmpProgramState : Bool
  BitMatrix : Fin 64 → CInt
  AddrMask : CAddr
  XMode : Bool
  XmpEnhancedAddressingMode : Bool
  mCpuId : Nat
  mInReset : Bool
  /-- An external interrupt is posted by clearing its `mNot…` flag. -/
  mNotInterProcessorInterrupt : Bool
  mNotDeadLockInterrupt : Bool
  mNotMcuInterrupt : Bool
  mNotIoInterrupt : Bool
  mTimerIncrement : BitVec 32
  mThrowOnUnknown : Bool
  mThrowOnUnimplemented : Bool
  mInstructionBurstSize : Nat

def Cpu.isMonitorMode (c : Cpu) : Bool := c.Mode.mMonitorMode

def Cpu.interruptMaskFromState (c : Cpu) : CraySim.Flags :=
  if c.Mode.mMonitorMode then
    if c.Mode.mInterruptMonitorMode then
      Flags.Deadlock ||| Flags.McuInterrupt ||| Flags.FloatingPointError
        ||| Flags.OperandRangeError ||| Flags.ProgramRangeError ||| Flags.MemoryError
        ||| Flags.ErrorExit ||| Flags.NormalExit
    else
      (if c.mInReset then Flags.InterProcessorInterrupt else 0)
        ||| Flags.McuInterrupt ||| Flags.MemoryError ||| Flags.ErrorExit ||| Flags.NormalExit
  else
    Flags.InterProcessorInterrupt ||| Flags.Deadlock ||| Flags.ProgrammableClockInterrupt
      ||| Flags.McuInterrupt
      ||| (if c.Mode.mFloatingPointErrorMode then Flags.FloatingPointError else 0)
      ||| (if c.Mode.mOperandRangeErrorMode then Flags.OperandRangeError else 0)
      ||| Flags.ProgramRangeError
      ||| (if c.Mode.mCorrectableMemoryErrorMode || c.Mode.mUncorrectableMemoryErrorMode
            then Flags.MemoryError else 0)
      ||| Flags.IoInterrupt ||| Flags.ErrorExit ||| Flags.NormalExit

/-! ## 3. What the processors share -/

/-- `InterCpuCluster_c`; the counters are `size_t` and wrap. -/
structure InterCpuCluster where
  SB : Fin 8 → CAddr
  ST : Fin 8 → CInt
  SM : Fin 32 → Bool
  TestAndSetBlockedCnt : BitVec 64
  ClusterCpuCnt : BitVec 64

/-- `Channel_i`. -/
structure Channel where
  mAddress : CAddr
  mLimit : CAddr
  mInterruptPending : Bool
  mError : Bool
  mActive : Bool
  mChannelId : Nat
  deriving DecidableEq

/-- `SetAddress`; the device behind the channel reacts in steps of its own. -/
def Channel.setAddress (ch : Channel) (aAddress : CAddr) : Channel :=
  { ch with mAddress := aAddress, mActive := aAddress != ch.mLimit, mError := false }

def Channel.setLimit (ch : Channel) (aLimit : CAddr) : Channel := { ch with mLimit := aLimit }

def Channel.clearInterrupt (ch : Channel) : Channel := { ch with mInterruptPending := false }

def Channel.clearError (ch : Channel) : Channel := { ch with mError := false }

def Channel.mainframeSideMasterClear (ch : Channel) : Channel :=
  { ch with
    mAddress := 0, mLimit := 0, mInterruptPending := false, mError := false, mActive := false }

/-- The mainframe with its processors. -/
structure System (pm : Params) where
  mCpus : Fin pm.cpuCnt → Cpu
  mClusters : Fin pm.clusterCnt → InterCpuCluster
  mChannels : Fin pm.channelCnt → Option Channel
  mMemory : Nat → BitVec 8
  mRealTimeClock : CInt
  mRealTimeStart : Nat
  mLastRealTimeReading : CInt
  /-- `mRealTimeTimer.elapsed().wall`. -/
  mRealTimeTimer : Nat

namespace System

variable {pm : Params}

/-- A change of one processor. -/
def modifyCpu (s : System pm) (me : Fin pm.cpuCnt) (f : Cpu → Cpu) : System pm :=
  { s with mCpus := Function.update s.mCpus me (f (s.mCpus me)) }

/-- A change of one cluster. -/
def modifyCluster (s : System pm) (c : Fin pm.clusterCnt) (f : InterCpuCluster → InterCpuCluster) :
    System pm :=
  { s with mClusters := Function.update s.mClusters c (f (s.mClusters c)) }

/-- A change of one channel; nothing happens where there is none. -/
def modifyChannel (s : System pm) (ch : Fin pm.channelCnt) (f : Channel → Channel) : System pm :=
  { s with mChannels := Function.update s.mChannels ch ((s.mChannels ch).map f) }

section frame
variable (s : System pm) (me : Fin pm.cpuCnt) (f : Cpu → Cpu)

@[simp] theorem modifyCpu_self : (s.modifyCpu me f).mCpus me = f (s.mCpus me) :=
  Function.update_self me _ _

theorem modifyCpu_ne {i : Fin pm.cpuCnt} (h : i ≠ me) :
    (s.modifyCpu me f).mCpus i = s.mCpus i :=
  Function.update_of_ne h _ _

@[simp] theorem modifyCpu_clusters : (s.modifyCpu me f).mClusters = s.mClusters := rfl

@[simp] theorem modifyCpu_channels : (s.modifyCpu me f).mChannels = s.mChannels := rfl

@[simp] theorem modifyCpu_memory : (s.modifyCpu me f).mMemory = s.mMemory := rfl

variable (c : Fin pm.clusterCnt) (g : InterCpuCluster → InterCpuCluster)

@[simp] theorem modifyCluster_self : (s.modifyCluster c g).mClusters c = g (s.mClusters c) :=
  Function.update_self c _ _

theorem modifyCluster_ne {i : Fin pm.clusterCnt} (h : i ≠ c) :
    (s.modifyCluster c g).mClusters i = s.mClusters i :=
  Function.update_of_ne h _ _

@[simp] theorem modifyCluster_cpus : (s.modifyCluster c g).mCpus = s.mCpus := rfl

@[simp] theorem modifyCluster_memory : (s.modifyCluster c g).mMemory = s.mMemory := rfl

end frame

end System

/-! ## 4. Computations on the mainframe -/

/-- A computation of the simulator: it may change the system and throw. -/
abbrev SysRun (pm : Params) := Run Exn (System pm)

namespace SysRun

variable {pm : Params}

def crayAssert (aCond : Bool) : SysRun pm Unit :=
  if aCond then pure () else Run.throw .assertion

/-- The registers of processor `me`. -/
def cpu (me : Fin pm.cpuCnt) : SysRun pm Cpu := do
  return (← Run.get).mCpus me

def modifyCpu (me : Fin pm.cpuCnt) (f : Cpu → Cpu) : SysRun pm Unit :=
  Run.modify fun s => s.modifyCpu me f

/-- `GetCluster`, with its assertion. -/
def getCluster (aIdx : Nat) : SysRun pm (Fin pm.clusterCnt) :=
  if h : aIdx < pm.clusterCnt then pure ⟨aIdx, h⟩ else Run.throw .assertion

/-- `GetChannel`, with its assertion. -/
def getChannel (aIdx : Nat) : SysRun pm (Fin pm.channelCnt) :=
  if h : aIdx < pm.channelCnt then pure ⟨aIdx, h⟩ else Run.throw .assertion

/-- `SetCluster`: the processor leaves one cluster and enters the other. -/
def setCluster (me : Fin pm.cpuCnt) (aCluster : BitVec 8) : SysRun pm Unit := do
  let c ← cpu me
  if c.Cluster != aCluster then
    if c.Cluster != 0 then
      let old ← getCluster (c.Cluster.toNat - 1)
      Run.modify fun s =>
        s.modifyCluster old fun k => { k with ClusterCpuCnt := k.ClusterCpuCnt - 1 }
    if aCluster != 0 then
      let new ← getCluster (aCluster.toNat - 1)
      Run.modify fun s =>
        s.modifyCluster new fun k => { k with ClusterCpuCnt := k.ClusterCpuCnt + 1 }
  modifyCpu me fun c => { c with Cluster := aCluster }

end SysRun

end CraySim
