/-
  Subject:   What an instruction can ask of the machine.

  The instruction decoders touch the mainframe through few operations: register accessors,
  `ReadDataMem` and `WriteDataMem`, the shared registers and semaphores of the own cluster, the
  clock, and the privileged operations. Every one is a request here; `handler` gives its effect.

  * `RegWrite`, `PrivWrite` -- writes to the own processor, user and privileged ones,
  * `Req`, `Resp` -- the requests and the types of their answers,
  * `handler` -- the effect of a request.
-/
import CraySim.Machine

namespace CraySim

/-! ## 1. Register accessors -/

namespace Cpu

variable (c : Cpu)

/-- `RefAx_s` without a special value. -/
def refA (idx : Fin 8) : CAddr := c.AddrMask &&& c.A idx

/-- `RefAh` and `RefAj`: register 0 reads as 0. -/
def refAj (idx : Fin 8) : CAddr := if idx = 0 then 0 else c.refA idx

/-- `RefAk`: register 0 reads as 1. -/
def refAk (idx : Fin 8) : CAddr := if idx = 0 then 1 else c.refA idx

/-- `RefSx_s` without a special value. -/
def refS (idx : Fin 8) : CInt := c.S idx

/-- `RefSj`: register 0 reads as 0. -/
def refSj (idx : Fin 8) : CInt := if idx = 0 then 0 else c.S idx

/-- `RefSk`: register 0 reads as the sign bit. -/
def refSk (idx : Fin 8) : CInt := if idx = 0 then 0x8000000000000000 else c.S idx

/-- `RefBjk`. -/
def refB (idx : Fin 64) : CAddr := c.AddrMask &&& c.B idx

/-- `RefTjk`. -/
def refT (idx : Fin 64) : CInt := c.T idx

/-- `SignExtend(CAddr_t)`. -/
def signExtend (aA : CAddr) : CAddr :=
  if c.XMode then CXmpAddr.signExtend (CXmpAddr.ofAddr aA) else aA

end Cpu

/-- A write to the own processor that every program may make. -/
inductive RegWrite where
  | A (idx : Fin 8) (v : CAddr)
  | S (idx : Fin 8) (v : CInt)
  | B (idx : Fin 64) (v : CAddr)
  | T (idx : Fin 64) (v : CInt)
  | V (idx : Fin 8) (elem : Fin 64) (v : CInt)
  | VM (v : CInt)
  | VL (v : BitVec 8)
  | ProgramAddress (v : CAddr)
  | vectorUsed
  | bitMatrix (elem : Fin 64) (v : CInt)
  | sv1BitMatrixLoaded (v : Bool)
  | floatingPointErrorMode (v : Bool)
  | operandRangeErrorMode (v : Bool)
  | bidirectionalMemoryMode (v : Bool)
  | clearFloatingPointError
  | setErrorExit
  | setNormalExit
  deriving DecidableEq

/-- The effect of a write, as the `operator=` of the register references has it. -/
def RegWrite.apply : RegWrite → Cpu → Cpu
  | A idx v, c => { c with A := Function.update c.A idx (v &&& c.AddrMask) }
  | S idx v, c => { c with S := Function.update c.S idx v }
  | B idx v, c => { c with B := Function.update c.B idx (v &&& c.AddrMask) }
  | T idx v, c => { c with T := Function.update c.T idx v }
  | V idx elem v, c =>
    { c with V := Function.update c.V idx (Function.update (c.V idx) elem v) }
  | VM v, c => { c with VM := v, VectorNotUsed := false }
  | VL v, c => { c with VL := v }
  | ProgramAddress v, c => { c with ProgramAddress := v }
  | vectorUsed, c => { c with VectorNotUsed := false }
  | bitMatrix elem v, c => { c with BitMatrix := Function.update c.BitMatrix elem v }
  | sv1BitMatrixLoaded v, c => { c with Mode := { c.Mode with mSv1BitMatrixLoaded := v } }
  | floatingPointErrorMode v, c => { c with Mode := { c.Mode with mFloatingPointErrorMode := v } }
  | operandRangeErrorMode v, c => { c with Mode := { c.Mode with mOperandRangeErrorMode := v } }
  | bidirectionalMemoryMode v, c =>
    { c with Mode := { c.Mode with mBidirectionalMemoryMode := v } }
  | clearFloatingPointError, c => { c with Flags := c.Flags &&& ~~~Flags.FloatingPointError }
  | setErrorExit, c => { c with Flags := c.Flags ||| Flags.ErrorExit }
  | setNormalExit, c => { c with Flags := c.Flags ||| Flags.NormalExit }

/-- A write to the own processor that is privileged. -/
inductive PrivWrite where
  | ExchangePacketAddress (v : BitVec 8)
  | PeriodicInterruptLimit (v : BitVec 32)
  | PeriodicInterruptEnabled (v : Bool)
  | clearIoInterrupt
  | clearInterProcessorInterrupt
  | clearProgrammableClockInterrupt
  deriving DecidableEq

def PrivWrite.apply : PrivWrite → Cpu → Cpu
  | ExchangePacketAddress v, c => { c with ExchangePacketAddress := v }
  | PeriodicInterruptLimit v, c =>
    { c with PeriodicInterruptLimit := v, PeriodicInterruptCountDown := v }
  | PeriodicInterruptEnabled v, c => { c with PeriodicInterruptEnabled := v }
  | clearIoInterrupt, c => { c with Flags := c.Flags &&& ~~~Flags.IoInterrupt }
  | clearInterProcessorInterrupt, c =>
    { c with Flags := c.Flags &&& ~~~Flags.InterProcessorInterrupt }
  | clearProgrammableClockInterrupt, c =>
    { c with Flags := c.Flags &&& ~~~Flags.ProgrammableClockInterrupt }

/-! ## 2. Requests -/

/-- The operations of a channel the processor calls. -/
inductive ChannelOp where
  | setAddress (aAddress : CAddr)
  | setLimit (aLimit : CAddr)
  | clearInterrupt
  | clearError
  | mainframeSideMasterClear
  deriving DecidableEq

def ChannelOp.apply : ChannelOp → Channel → Channel
  | setAddress a, ch => ch.setAddress a
  | setLimit a, ch => ch.setLimit a
  | clearInterrupt, ch => ch.clearInterrupt
  | clearError, ch => ch.clearError
  | mainframeSideMasterClear, ch => ch.mainframeSideMasterClear

/-- What an instruction can ask of the machine. -/
inductive Req where
  | cpu
  | write (w : RegWrite)
  | readDataMem (aAddr : CAddr)
  | writeDataMem (aAddr : CAddr) (aData : CInt)
  | cluster
  | testAndSet (jk : Fin 32)
  | setSM (jk : Fin 32) (v : Bool)
  | setSB (j : Fin 8) (v : CAddr)
  | setST (j : Fin 8) (v : CInt)
  | realTimeClock
  | channels
  | privWrite (w : PrivWrite)
  | setRealTimeClock (v : CInt)
  | setInterProcessorInterrupt (cpuIdx : Nat)
  | setCluster (v : BitVec 8)
  | channelOp (chIdx : Nat) (op : ChannelOp)
  deriving DecidableEq

/-- The answer of a request. -/
def Resp : Req → Type
  | .cpu => Cpu
  | .readDataMem _ => CInt
  | .cluster => InterCpuCluster
  | .testAndSet _ => Bool
  | .realTimeClock => CInt
  | .channels => List (Option Channel)
  | _ => Unit

/-- The requests that only a program in monitor mode may make. -/
def Req.isPrivileged : Req → Bool
  | .privWrite _ | .setRealTimeClock _ | .setInterProcessorInterrupt _ | .setCluster _
  | .channelOp _ _ => true
  | _ => false

/-! ## 3. Their effect -/

namespace SysRun

variable {pm : Params} (me : Fin pm.cpuCnt)

/-- The word a data address is relocated to, reduced to the size of the memory. -/
def dataWord (pm : Params) (c : Cpu) (aAddr : CAddr) : Nat :=
  (aAddr + c.DataBaseAddr).toNat % pm.memSizeInWords

/-- The subscript `aAddr * 8` of `MemRead` and `MemWrite`, a product of 32 bits. -/
def memIndex (aAddr : Nat) : Nat := aAddr * 8 % 2 ^ 32

/-- `SwapBytes(MemRead<CInt_t>(aAddr))`. -/
def memRead (mem : Nat → BitVec 8) (aAddr : Nat) : CInt := ByteStore.load 8 mem (memIndex aAddr)

/-- `MemWrite(aAddr, SwapBytes(aData))`. -/
def memWrite (mem : Nat → BitVec 8) (aAddr : Nat) (aData : CInt) : Nat → BitVec 8 :=
  ByteStore.store 8 mem (memIndex aAddr) aData

def readDataMem (aAddr : CAddr) : SysRun pm CInt := do
  let c ← cpu me
  let physicalAddress := dataWord pm c aAddr
  if c.DataLimitAddr.toNat ≤ physicalAddress then
    if c.Mode.mOperandRangeErrorMode then Run.throw .dataReadOutOfBoundsError
    else return 0
  else
    crayAssert (physicalAddress < pm.memSizeInWords)
    return memRead (← Run.get).mMemory physicalAddress

def writeDataMem (aAddr : CAddr) (aData : CInt) : SysRun pm Unit := do
  let c ← cpu me
  let physicalAddress := dataWord pm c aAddr
  if c.DataLimitAddr.toNat ≤ physicalAddress then
    if c.Mode.mOperandRangeErrorMode then Run.throw .dataWriteOutOfBoundsError
  else
    crayAssert (physicalAddress < pm.memSizeInWords)
    Run.modify fun s => { s with mMemory := memWrite s.mMemory physicalAddress aData }

/-- `GetCluster(mState.Cluster - 1)`; the difference of cluster 0 is out of range. -/
def ownCluster : SysRun pm (Fin pm.clusterCnt) := do
  let c ← cpu me
  crayAssert (c.Cluster != 0)
  getCluster (c.Cluster.toNat - 1)

def modifyCluster (cl : Fin pm.clusterCnt) (f : InterCpuCluster → InterCpuCluster) :
    SysRun pm Unit :=
  Run.modify fun s => s.modifyCluster cl f

/-- The test-and-set of a semaphore and the counting of blocked processors; true if it blocks. -/
def testAndSet (jk : Fin 32) : SysRun pm Bool := do
  let cl ← ownCluster me
  let c ← cpu me
  let cluster := (← Run.get).mClusters cl
  if !cluster.SM jk then
    modifyCluster cl fun k => { k with SM := Function.update k.SM jk true }
    if c.TestAndSetBlocked then
      modifyCluster cl fun k => { k with TestAndSetBlockedCnt := k.TestAndSetBlockedCnt - 1 }
    modifyCpu me fun c => { c with TestAndSetBlocked := false }
    return false
  else
    if !c.TestAndSetBlocked then
      modifyCluster cl fun k => { k with TestAndSetBlockedCnt := k.TestAndSetBlockedCnt + 1 }
    modifyCpu me fun c => { c with TestAndSetBlocked := true }
    return true

def getRealTimeClock : SysRun pm CInt := do
  let s ← Run.get
  if pm.useHostRealTimeClock then
    let newRTC := s.mRealTimeClock + pm.deltaClocks (s.mRealTimeTimer - s.mRealTimeStart)
    if s.mLastRealTimeReading + pm.realTimeClockChunkLimit < newRTC then
      Run.modify fun s => { s with mLastRealTimeReading := newRTC }
      return newRTC
    else
      let newRTC := s.mLastRealTimeReading + pm.realTimeClockIncrement
      Run.modify fun s => { s with mLastRealTimeReading := newRTC }
      return newRTC
  else
    return s.mRealTimeClock

def setRealTimeClock (aValue : CInt) : SysRun pm Unit :=
  Run.modify fun s =>
    if pm.useHostRealTimeClock then
      { s with
        mRealTimeStart := s.mRealTimeTimer, mLastRealTimeReading := 0, mRealTimeClock := aValue }
    else { s with mRealTimeClock := aValue }

/-- `GetCpu(aIdx).SetInterProcessorInterrupt()`. -/
def setInterProcessorInterrupt (aIdx : Nat) : SysRun pm Unit :=
  if h : aIdx < pm.cpuCnt then
    modifyCpu ⟨aIdx, h⟩ fun c => { c with mNotInterProcessorInterrupt := false }
  else Run.throw .assertion

/-- A call on `GetChannel(aIdx)`, if it is there. -/
def channelOp (aIdx : Nat) (op : ChannelOp) : SysRun pm Unit := do
  let ch ← getChannel aIdx
  Run.modify fun s => s.modifyChannel ch op.apply

end SysRun

open SysRun in
/-- **The effect of every request** of an instruction that processor `me` executes. -/
def handler {pm : Params} (me : Fin pm.cpuCnt) : Program.Handler Req Resp Exn (System pm)
  | .cpu => cpu me
  | .write w => SysRun.modifyCpu me w.apply
  | .readDataMem aAddr => readDataMem me aAddr
  | .writeDataMem aAddr aData => writeDataMem me aAddr aData
  | .cluster => do
    let cl ← ownCluster me
    return (← Run.get).mClusters cl
  | .testAndSet jk => testAndSet me jk
  | .setSM jk v => do
    let cl ← ownCluster me
    SysRun.modifyCluster cl fun k => { k with SM := Function.update k.SM jk v }
  | .setSB j v => do
    let cl ← ownCluster me
    let c ← cpu me
    SysRun.modifyCluster cl fun k => { k with SB := Function.update k.SB j (v &&& c.AddrMask) }
  | .setST j v => do
    let cl ← ownCluster me
    SysRun.modifyCluster cl fun k => { k with ST := Function.update k.ST j v }
  | .realTimeClock => getRealTimeClock
  | .channels => do
    return List.ofFn (← Run.get).mChannels
  | .privWrite w => SysRun.modifyCpu me w.apply
  | .setRealTimeClock v => setRealTimeClock v
  | .setInterProcessorInterrupt cpuIdx => setInterProcessorInterrupt cpuIdx
  | .setCluster v => setCluster me v
  | .channelOp chIdx op => channelOp chIdx op

end CraySim
