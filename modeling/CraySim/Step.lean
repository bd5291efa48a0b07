/-
  Subject:   The processor: fetch, execution, interrupts and exchanges, `cray_softcpu.cpp`.

  * `readInstMem`, `singleStep` -- fetch and execution of one instruction,
  * `createExchangePacket`, `restoreFromExchangePacket`, `exchange` -- a change of process,
  * `masterClear`, `deadStart` -- reset and start.
-/
import CraySim.Decode0100

namespace CraySim

namespace SysRun

variable {pm : Params} (me : Fin pm.cpuCnt)

def ofExcept {α : Type} (m : Except Exn α) : SysRun pm α :=
  match m with
  | .ok a => pure a
  | .error e => Run.throw e

/-! ## 1. Fetch and execution -/

/-- The parcel an instruction address is relocated to, reduced to the size of the memory. -/
def instParcel (pm : Params) (c : Cpu) (aAddr : CAddr) : Nat :=
  (aAddr + c.InstBaseAddr * 4).toNat % pm.memSizeInParcels

/-- A parcel of memory. -/
def memParcel (mem : Nat → BitVec 8) (aIdx : Nat) : CParcel := ByteStore.load 2 mem (2 * aIdx)

/-- The three parcels from `aIdx` on, as one window. -/
def parcelWindow (mem : Nat → BitVec 8) (aIdx : Nat) : CInt :=
  ((memParcel mem aIdx).setWidth 64 <<< 32) ||| ((memParcel mem (aIdx + 1)).setWidth 64 <<< 16)
    ||| (memParcel mem (aIdx + 2)).setWidth 64

def readInstMem (aAddr : CAddr) : SysRun pm CInt := do
  let c ← cpu me
  let physicalAddress := instParcel pm c aAddr
  if c.InstLimitAddr.toNat ≤ physicalAddress / cParcelsPerWord then
    Run.throw .instFetchOutOfBoundsError
  else
    return parcelWindow (← Run.get).mMemory physicalAddress

/-- `SingleStep`: true if the burst is to end. -/
def singleStep : SysRun pm Bool := do
  let c ← cpu me
  let parcels ← readInstMem me c.ProgramAddress
  let d ← (Inst.decode pm true parcels).run (handler me)
  modifyCpu me fun c => { c with ProgramAddress := c.ProgramAddress + BitVec.ofNat 32 d.increment }
  return d.breakBurst

/-- The handlers of `Tick` for the exceptions of an instruction. -/
def catchRangeErrors (m : SysRun pm Unit) : SysRun pm Unit := fun s =>
  match m s with
  | (.error .instFetchOutOfBoundsError, s') =>
    (.ok (), s'.modifyCpu me fun c => { c with Flags := c.Flags ||| Flags.ProgramRangeError })
  | (.error .dataReadOutOfBoundsError, s') =>
    (.ok (), s'.modifyCpu me fun c => { c with Flags := c.Flags ||| Flags.OperandRangeError })
  | (.error .dataWriteOutOfBoundsError, s') =>
    (.ok (), s'.modifyCpu me fun c => { c with Flags := c.Flags ||| Flags.OperandRangeError })
  | r => r

/-! ## 2. Exchange packets -/

end SysRun

/-- The interrupts an exchange clears: all but the programmable clock interrupt. -/
def Flags.clearedOnExchange : Flags :=
  Flags.IoInterrupt ||| Flags.InterProcessorInterrupt ||| Flags.Deadlock ||| Flags.McuInterrupt
    ||| Flags.FloatingPointError ||| Flags.OperandRangeError ||| Flags.ProgramRangeError
    ||| Flags.MemoryError ||| Flags.NormalExit ||| Flags.ErrorExit

/-- The interrupts that fire. -/
def Cpu.firingInterrupts (c : Cpu) : CraySim.Flags := c.interruptMaskFromState &&& c.Flags

namespace ExchangePacket

/-- `CreateExchangePacket`, the fields before the registers `A` and `S`. -/
def ofState (pm : Params) (c : Cpu) : Except Exn ExchangePacket := do
  let p := ExchangePacket.new pm.machineType
  let p ← p.set processorNumber (BitVec.ofNat 8 c.mCpuId)
  let p ← p.set syndrome 0
  let p ← p.set programAddress c.ProgramAddress
  let p := if pm.isXmp then xmpReadAddress.set 0 p else p
  let p ← p.set instBaseAddr c.InstBaseAddr
  let p ← p.set instLimitAddr c.InstLimitAddr
  let p ← p.set vectorNotUsed (if c.VectorNotUsed then 1 else 0)
  let p ← p.set exchangeAddress c.ExchangePacketAddress
  let p ← p.set vectorLength c.VL
  let p := if pm.isXmp then
    xmpEnhancedAddressingMode.set (if c.XmpEnhancedAddressingMode then 1 else 0) p else p
  let p ← p.set dataBaseAddr c.DataBaseAddr
  let p := if pm.isXmp then xmpProgramState.set (if c.XmpProgramState then 1 else 0) p else p
  let p ← p.set clusterNumber c.Cluster
  let p ← p.set dataLimitAddr c.DataLimitAddr
  let p := p.setMode c.Mode
  let p ← p.setEnableSecondVectorLogical (if c.EnableSecondVectorLogical then 1 else 0)
  return p.setFlag c.firingInterrupts

/-- The loop of `CreateExchangePacket` over the registers `A` and `S`. -/
def setRegisters (A : Fin 8 → CAddr) (S : Fin 8 → CInt) (p : ExchangePacket) : ExchangePacket :=
  (List.finRange 8).foldl (fun p i => (p.setA i (A i)).setS i (S i)) p

/-- `ExchangePacket_c(aMachineType, aMem)`. -/
def read (aMachineType : MachineTypes) (mem : Nat → BitVec 8) (aMem : Nat) : ExchangePacket :=
  let p : ExchangePacket := ⟨fun i => ByteStore.load 8 mem (aMem + 8 * i.val), aMachineType⟩
  if aMachineType = .J90 then ympProcessorType.set 0 p
  else if aMachineType = .SV1 then ympProcessorType.set 2 p
  else p

def write (p : ExchangePacket) (mem : Nat → BitVec 8) (aMem : Nat) : Nat → BitVec 8 :=
  (List.finRange 16).foldl (fun mem i => ByteStore.store 8 mem (aMem + 8 * i.val) (p.Data i)) mem

end ExchangePacket

namespace SysRun

variable {pm : Params} (me : Fin pm.cpuCnt)

/-- `CreateExchangePacket`: the packet of the present state; what fires is no longer pending,
    but for the programmable clock interrupt. -/
def createExchangePacket : SysRun pm ExchangePacket := do
  let c ← cpu me
  let p ← ofExcept (ExchangePacket.ofState pm c)
  modifyCpu me fun c' =>
    { c' with Flags := c'.Flags.clearBits (c.firingInterrupts &&& Flags.clearedOnExchange) }
  return p.setRegisters c.A c.S

/-- The addressing mode a machine type runs a process in. -/
def xModeOf (mt : MachineTypes) (mode : Mode) : Except Exn Bool :=
  match mt with
  | .XMP1xx | .XMP2xx | .XMP4xx => .ok true
  | .J90 | .SV1 => .ok false
  | .YEL | .YMP => .ok !mode.mYmpEnhancedAddressingMode
  | _ => .error (.generic "Unknown machine type" 0)

/-- `numeric_limits<CXmpAddr_t>::max()` and `numeric_limits<CAddr_t>::max()`. -/
def addrMaskOf (aXMode : Bool) : CAddr := if aXMode then 0x00ffffff else 0xffffffff

def restoreFromExchangePacket (aEP : ExchangePacket) : SysRun pm Unit := do
  let programAddress ← ofExcept (aEP.get programAddress)
  modifyCpu me fun c => { c with ProgramAddress := programAddress }
  let instBaseAddr ← ofExcept (aEP.get instBaseAddr)
  modifyCpu me fun c => { c with InstBaseAddr := instBaseAddr }
  let instLimitAddr ← ofExcept (aEP.get instLimitAddr)
  modifyCpu me fun c => { c with InstLimitAddr := instLimitAddr, VectorNotUsed := true }
  modifyCpu me fun c =>
    { c with EnableSecondVectorLogical := aEP.getEnableSecondVectorLogical != 0 }
  let exchangeAddress ← ofExcept (aEP.get exchangeAddress)
  modifyCpu me fun c => { c with ExchangePacketAddress := exchangeAddress }
  let vectorLength ← ofExcept (aEP.get vectorLength)
  modifyCpu me fun c =>
    { c with
      VL := vectorLength
      XmpEnhancedAddressingMode := pm.isXmp && xmpEnhancedAddressingMode.get aEP != 0 }
  let dataBaseAddr ← ofExcept (aEP.get dataBaseAddr)
  modifyCpu me fun c =>
    { c with
      DataBaseAddr := dataBaseAddr
      XmpProgramState := if pm.isXmp then xmpProgramState.get aEP != 0 else c.XmpProgramState }
  let clusterNumber ← ofExcept (aEP.get clusterNumber)
  setCluster me clusterNumber
  let dataLimitAddr ← ofExcept (aEP.get dataLimitAddr)
  modifyCpu me fun c =>
    { c with
      DataLimitAddr := dataLimitAddr
      Mode := aEP.getMode
      A := aEP.getA
      S := aEP.getS }
  let xMode ← ofExcept (xModeOf pm.machineType aEP.getMode)
  modifyCpu me fun c => { c with XMode := xMode, AddrMask := addrMaskOf xMode }

/-- `Exchange`: the running process goes to the packet the next one comes from. -/
def exchange : SysRun pm Unit := do
  let c ← cpu me
  let aMem := c.ExchangePacketAddress.toNat * 16 * 8
  let newContext := ExchangePacket.read pm.machineType (← Run.get).mMemory aMem
  let currentContext ← createExchangePacket me
  Run.modify fun s => { s with mMemory := currentContext.write s.mMemory aMem }
  restoreFromExchangePacket me newContext.clearFlags

/-! ## 3. Interrupts -/

def mirrorExternalInterrupts : SysRun pm Unit :=
  modifyCpu me fun c =>
    { c with
      Flags := c.Flags
        ||| (if c.mNotInterProcessorInterrupt then 0 else Flags.InterProcessorInterrupt)
        ||| (if c.mNotDeadLockInterrupt then 0 else Flags.Deadlock)
        ||| (if c.mNotMcuInterrupt then 0 else Flags.McuInterrupt)
        ||| (if c.mNotIoInterrupt then 0 else Flags.IoInterrupt)
      mNotInterProcessorInterrupt := true
      mNotDeadLockInterrupt := true
      mNotMcuInterrupt := true
      mNotIoInterrupt := true }

def checkInterrupts : SysRun pm Bool := do
  mirrorExternalInterrupts me
  let c ← cpu me
  return c.firingInterrupts != 0

def handleCounters : SysRun pm Unit :=
  modifyCpu me fun c =>
    if c.PeriodicInterruptCountDown = 0 then
      { c with
        Flags := c.Flags
          ||| (if c.PeriodicInterruptEnabled then Flags.ProgrammableClockInterrupt else 0)
        PeriodicInterruptCountDown := c.PeriodicInterruptLimit }
    else if c.PeriodicInterruptCountDown < c.mTimerIncrement then
      { c with PeriodicInterruptCountDown := 0 }
    else { c with PeriodicInterruptCountDown := c.PeriodicInterruptCountDown - c.mTimerIncrement }

/-! ## 4. A tick -/

/-- The end of the reset, and the exchange. -/
def interrupt : SysRun pm Unit := do
  modifyCpu me fun c => { c with mInReset := false }
  exchange me

/-- The instructions of a burst, until one ends it. -/
def burst : Nat → SysRun pm Unit
  | 0 => pure ()
  | n + 1 => do
    if ← singleStep me then pure () else burst n

def tick : SysRun pm Unit := do
  handleCounters me
  if ← checkInterrupts me then interrupt me
  else
    let c ← cpu me
    if c.mInReset then pure ()
    else catchRangeErrors me (burst me (c.mInstructionBurstSize + 1))

/-- One instruction as the mainframe sees it. -/
def instruction : SysRun pm Unit :=
  catchRangeErrors me do
    let _ ← singleStep me
    pure ()

/-! ## 5. Reset and start -/

def masterClear : SysRun pm Unit :=
  modifyCpu me fun c =>
    { c with
      mInReset := true
      TestAndSetBlocked := false
      Mode := { c.Mode with mMonitorMode := false }
      Flags := 0
      mNotInterProcessorInterrupt := true
      mNotDeadLockInterrupt := true
      mNotMcuInterrupt := true
      mNotIoInterrupt := true }

/-- `MemoryPoke_s`. -/
structure MemoryPoke where
  Addr : CAddr
  Value : CInt
  IsParcelPoke : Bool

def MemoryPoke.apply (poke : MemoryPoke) (mem : Nat → BitVec 8) : Nat → BitVec 8 :=
  if poke.IsParcelPoke then ByteStore.store 2 mem (poke.Addr.toNat * 2) (poke.Value.setWidth 16)
  else ByteStore.store 8 mem (poke.Addr.toNat * 8) poke.Value

def deadStart (aMemoryPokes : List MemoryPoke) : SysRun pm Unit := do
  Run.modify fun s =>
    { s with mMemory := aMemoryPokes.foldl (fun mem poke => poke.apply mem) s.mMemory }
  modifyCpu me fun c => { c with mNotMcuInterrupt := false }

end SysRun

end CraySim
