/-
  Subject:   The block multiplexer channel of an IOP, and its tapes.

  A channel command names a device by its address and moves bytes between the memory and the device:
  writes and controls take the bytes of the byte counter from the memory, reads and senses put what
  the device returns there. The tapes never ask for an interrupt themselves.

  * `IopBmxTape` -- a tape, with its methods,
  * `spaceFile` -- the loop over the records of a file,
  * `IopChannelBmx` -- the channel,
  * `writeCommand`, `readCommand`, `channelCommand` -- function 002.

  The loop over the records of a file has no bound in the source; here `fuel` bounds it.
-/
import CraySim.IoTransfer
import CraySim.PokedTapFile

namespace CraySim

/-! ## 1. The tape -/

/-- `IopBmxTape_c`, without its statistics. -/
structure IopBmxTape where
  mIsReadOnly : Bool
  mTapeImage : PokedTapFile

namespace IopBmxTape

open PokedTapFile

/-- `BmxStat_e`. -/
def statControlUnitEnd : BitVec 8 := 0x04
def statDeviceEnd : BitVec 8 := 0x20
def statUnitCheck : BitVec 8 := 0x40
def statUnitException : BitVec 8 := 0x80

def testIo : BitVec 8 := statDeviceEnd ||| statControlUnitEnd

/-- `GetStatus`, `GetRequestIn`, `GetStatusIn`, `GetDisconnectIn`. -/
def getStatus : BitVec 8 := statDeviceEnd ||| statControlUnitEnd
def getRequestIn : Bool := false
def getStatusIn : Bool := false
def getDisconnectIn : Bool := false

def write (mIsReadOnly : Bool) (aData : List (BitVec 8)) : Poked (BitVec 8) := do
  pokedAssert (!mIsReadOnly)
  reOpen
  writeRecord aData
  let state ← getState
  return if state = .EndOfFile then statControlUnitEnd ||| statUnitException else statControlUnitEnd

/-- The loop of the controls that space over a file. -/
def spaceFile (seek : Poked Unit) : Nat → Poked Unit
  | 0 => Run.throw .undefinedBehaviour
  | fuel + 1 => do
    seek
    let state ← getState
    if state = .EndOfTape ∨ state = .EndOfFile then pure () else spaceFile seek fuel

/-- The controls that move the tape: the bits they set in the status. -/
def motion (mIsReadOnly : Bool) (fuel : Nat) (aCommand : BitVec 8) : Poked (BitVec 8) := do
  let status := fun (state : TapState) (exception check : Option TapState) =>
    (if some state = exception then statUnitException else 0) |||
      (if some state = check then statUnitCheck else 0)
  match (aCommand >>> 3 &&& 7).toNat with
  | 0 =>
    reOpen
    seekToBeginningOfTape
    closeTape
    return 0
  | 1 =>
    reOpen
    seekToBeginningOfTape
    closeTape
    return status (← getState) none (some .BeginningOfTape)
  | 2 => return 0
  | 3 =>
    pokedAssert (!mIsReadOnly)
    reOpen
    writeEndOfFile
    return 0
  | 4 =>
    reOpen
    seekToPrevRecord
    return status (← getState) (some .EndOfFile) (some .BeginningOfTape)
  | 5 =>
    reOpen
    spaceFile seekToPrevRecord fuel
    return status (← getState) none (some .BeginningOfTape)
  | 6 =>
    reOpen
    seekToNextRecord
    return status (← getState) (some .EndOfFile) (some .EndOfTape)
  | _ =>
    reOpen
    spaceFile seekToNextRecord fuel
    return status (← getState) none (some .EndOfTape)

def control (mIsReadOnly : Bool) (fuel : Nat) (aCommand : BitVec 8) : Poked (BitVec 8) := do
  let bits ← if aCommand &&& 4 = 0 then pure 0 else motion mIsReadOnly fuel aCommand
  return statDeviceEnd ||| statControlUnitEnd ||| bits

def read (aMaxSize : Nat) : Poked (BitVec 8 × List (BitVec 8)) := do
  reOpen
  let data ← PokedTapFile.read (BitVec.ofNat 32 aMaxSize)
  let state ← getState
  let bits := match state with
    | .EndOfFile => statUnitException
    | .EndOfTape => statUnitCheck
    | _ => 0
  return (statControlUnitEnd ||| bits, data)

def sense (mIsReadOnly : Bool) (aMaxSize : Nat) : Poked (BitVec 8 × List (BitVec 8)) := do
  pokedAssert (6 ≤ aMaxSize)
  return (statControlUnitEnd, [0, if mIsReadOnly then 0x42 else 0x02, 0, 0, 0, 0])

def readBackward : Poked (BitVec 8 × List (BitVec 8)) := Run.throw .assertion

end IopBmxTape

/-! ## 2. The channel -/

namespace IopChannelBmx

/-- `InterruptMode_e`. -/
inductive InterruptMode where
  | disabled
  | requestIn
  | statusIn
  | disconnectIn
  deriving DecidableEq, Repr

end IopChannelBmx

/-- `IopChannelBmx_c` and the memory of its IOP. -/
structure IopChannelBmx where
  mDone : Bool
  mBusy : Bool
  mInterruptEnabled : Bool
  mLocalMemoryAdddress : Fin 2 → IopInt
  mByteCountStatusReg : IopInt
  mByteCountStatusRegValid : Bool
  mStatusReg : IopInt
  mStatusRegValid : Bool
  mChainingInterruptActive : Bool
  mDevices : List (Option IopBmxTape)
  mRequestInCnt : Nat
  mStatusInCnt : Nat
  mDisconnectInCnt : Nat
  mActiveMemoryAddressIdx : Fin 2
  mByteCounter : IopInt
  mNextByteCounter : IopInt
  mLoadByteCounter : Bool
  mActiveDevice : Int
  mDeviceStatus : BitVec 8
  mSkipFlag : Bool
  mStackStatusFlag : Bool
  mChainingMode : BitVec 2
  mInterruptMode : IopChannelBmx.InterruptMode
  mDelayCounter : Nat
  mDelayLimit : Nat
  ioMemory : IoMemory

namespace IopChannelBmx

/-- An exception of a tape. -/
def tapExn : TapExn → Exn
  | .generic aText => .generic aText 0
  | .assertion => .assertion
  | .undefinedBehaviour => .undefinedBehaviour

def updateXxxInCnts (s : IopChannelBmx) : IopChannelBmx :=
  let count := fun (p : Bool) => (s.mDevices.filter fun o => o.isSome && p).length
  { s with
    mRequestInCnt := count IopBmxTape.getRequestIn
    mStatusInCnt := count IopBmxTape.getStatusIn
    mDisconnectInCnt := count IopBmxTape.getDisconnectIn }

def getDeviceInterrupt (s : IopChannelBmx) : Bool :=
  match s.mInterruptMode with
  | .requestIn => 0 < s.mRequestInCnt
  | .statusIn => 0 < s.mStatusInCnt
  | .disconnectIn => 0 < s.mDisconnectInCnt
  | .disabled => false

def masterClear (s : IopChannelBmx) : IopChannelBmx :=
  updateXxxInCnts { s with
    mDone := false
    mBusy := false
    mInterruptEnabled := true
    mActiveDevice := -1
    mLocalMemoryAdddress := fun _ => 0
    mChainingInterruptActive := false
    mActiveMemoryAddressIdx := 0
    mByteCounter := 0
    mNextByteCounter := 0
    mLoadByteCounter := false
    mDeviceStatus := 0
    mSkipFlag := false
    mStackStatusFlag := false
    mChainingMode := 0
    mInterruptMode := .disabled
    mDelayCounter := 0
    mByteCountStatusReg := 0
    mByteCountStatusRegValid := false
    mStatusReg := 0
    mStatusRegValid := false }

def getActiveDevice (s : IopChannelBmx) : Except Exn (Option IopBmxTape) :=
  if s.mActiveDevice < 0 then .error .undefinedBehaviour
  else match s.mDevices[s.mActiveDevice.toNat]? with
    | some o => .ok o
    | none => .error .undefinedBehaviour

/-- The active device, where there has to be one. -/
def assertActive (s : IopChannelBmx) : Except Exn IopBmxTape := do
  match ← getActiveDevice s with
  | some t => return t
  | none => .error .assertion

/-- A method of the active device, which is `t`. -/
def onDevice {α : Type} (t : IopBmxTape) (m : Poked α) (s : IopChannelBmx) :
    Except Exn (α × IopChannelBmx) :=
  match m t.mTapeImage with
  | (.ok a, image) => .ok (a, { s with
      mDevices := s.mDevices.set s.mActiveDevice.toNat (some { t with mTapeImage := image }) })
  | (.error e, _) => .error (tapExn e)

/-- The end of most functions. -/
def done (s : IopChannelBmx) : IopChannelBmx := { s with mDone := true, mBusy := false }

/-- The address of the memory that a command starts at. -/
def localMemoryAddress (s : IopChannelBmx) : IopInt :=
  s.mLocalMemoryAdddress s.mActiveMemoryAddressIdx

/-- The commands that write, and the controls. -/
def writeCommand (fuel : Nat) (command : BitVec 8) (t : IopBmxTape) (s : IopChannelBmx) :
    Except Exn IopChannelBmx := do
  let n := s.mByteCounter.toNat
  let data := (bytesOf (s.ioMemory.load (localMemoryAddress s &&& 0xfffc) ((n + 1) / 2))).take n
  let (status, s) ← onDevice t
    (if command &&& 3 = 1 then IopBmxTape.write t.mIsReadOnly data
      else IopBmxTape.control t.mIsReadOnly fuel command) s
  let transferred := data.length
  return { s with
    mDeviceStatus := status
    mLocalMemoryAdddress := Function.update s.mLocalMemoryAdddress s.mActiveMemoryAddressIdx
      (localMemoryAddress s + BitVec.ofNat 16 (transferred / 8))
    mByteCounter := s.mByteCounter - BitVec.ofNat 16 transferred }

/-- The commands that read, and the senses. -/
def readCommand (command : BitVec 8) (t : IopBmxTape) (s : IopChannelBmx) :
    Except Exn IopChannelBmx := do
  let maxSize := s.mByteCounter.toNat
  let ((status, data), s) ← onDevice t
    (if command &&& 3 = 2 then IopBmxTape.read maxSize
      else if command &&& 0xf = 4 then IopBmxTape.sense t.mIsReadOnly maxSize
      else IopBmxTape.readBackward) s
  if maxSize < data.length then .error .assertion
  else
    return { s with
      mDeviceStatus := status
      ioMemory := s.ioMemory.store (localMemoryAddress s &&& 0xfffc) (parcelsOf data)
      mLocalMemoryAdddress := Function.update s.mLocalMemoryAdddress s.mActiveMemoryAddressIdx
        (localMemoryAddress s + BitVec.ofNat 16 (4 * ((data.length + 7) / 8)))
      mByteCounter := s.mByteCounter - BitVec.ofNat 16 data.length }

/-- Function 002. -/
def channelCommand (fuel : Nat) (aData : IopInt) (s : IopChannelBmx) : Except Exn IopChannelBmx := do
  let command : BitVec 8 := aData.setWidth 8
  let t ← assertActive s
  if command = 0 then return { s with mDeviceStatus := IopBmxTape.testIo }
  else if command &&& 1 = 1 then writeCommand fuel command t s
  else if command &&& 3 = 2 ∨ command &&& 0xf = 4 ∨ command &&& 0xf = 0xc then
    readCommand command t s
  else .error .assertion

/-- Function 003: the first device that asks for an interrupt. -/
def requestInAddress (s : IopChannelBmx) : IopChannelBmx :=
  match s.mDevices.findIdx? fun o => o.isSome && IopBmxTape.getRequestIn with
  | some i => done { s with mActiveDevice := i, mDeviceStatus := IopBmxTape.getStatus }
  | none => { s with mDone := true, mBusy := true }

def doIo (fuel : Nat) (aFunction : Nat) (aData : IopInt) (s : IopChannelBmx) :
    Except Exn (IopInt × IopChannelBmx) :=
  match aFunction with
  | 0o00 => .ok (0, { s with mBusy := false, mDone := false, mInterruptEnabled := false })
  | 0o01 =>
    match (aData &&& 3).toNat with
    | 1 => do
      let _ ← assertActive s
      return (0, done s)
    | 2 => do
      let _ ← getActiveDevice s
      return (0, done s)
    | _ => .ok (0, done s)
  | 0o02 => do
    let s ← channelCommand fuel aData s
    return (0, done s)
  | 0o03 => .ok (0, requestInAddress s)
  | 0o04 => .error .assertion
  | 0o05 => .ok (0, { s with mDelayCounter := s.mDelayLimit, mDone := false, mBusy := true })
  | 0o06 => .ok (0, { s with mInterruptEnabled := false })
  | 0o07 => .ok (0, { s with mInterruptEnabled := true })
  | 0o10 =>
    let i : Fin 2 := if aData.getLsbD 0 then 1 else 0
    .ok (s.mLocalMemoryAdddress i &&& 0xfffe ||| aData &&& 1,
      { s with mChainingInterruptActive := false })
  | 0o11 =>
    if s.mByteCountStatusRegValid then
      .ok (s.mByteCountStatusReg, { s with mByteCountStatusRegValid := false })
    else .ok (s.mByteCounter, s)
  | 0o12 =>
    if s.mStatusRegValid then .ok (s.mStatusReg, { s with mStatusRegValid := false })
    else .ok (s.mDeviceStatus.setWidth 16 ||| BitVec.ofInt 16 s.mActiveDevice <<< 8, s)
  | 0o13 =>
    if s.mByteCounter = 0 then .ok (0x2000, s)
    else .ok (BitVec.ofNat 16 s.mActiveMemoryAddressIdx <<< 11 |||
      (if getDeviceInterrupt s then 0x10 else 0), s)
  | 0o14 =>
    let i : Fin 2 := if aData.getLsbD 0 then 1 else 0
    .ok (0, { s with
      mLocalMemoryAdddress := Function.update s.mLocalMemoryAdddress i (aData &&& 0xfffe)
      mLoadByteCounter := true })
  | 0o15 =>
    let s := { s with mByteCountStatusReg := aData, mByteCountStatusRegValid := true }
    .ok (0, { s with
      mByteCounter := if s.mLoadByteCounter then aData else s.mByteCounter
      mNextByteCounter := if s.mLoadByteCounter then s.mNextByteCounter else aData
      mLoadByteCounter := false })
  | 0o16 =>
    let mode := match (aData.extractLsb' 12 2).toNat with
      | 0 => InterruptMode.disabled
      | 1 => .requestIn
      | 2 => .statusIn
      | _ => .disconnectIn
    .ok (0, { s with
      mActiveDevice := (aData &&& 0xff).toNat
      mSkipFlag := aData.getLsbD 8
      mStackStatusFlag := aData.getLsbD 9
      mChainingMode := aData.extractLsb' 10 2
      mInterruptMode := mode
      mStatusReg := aData
      mStatusRegValid := true })
  | _ => .ok (0, s)

def tick (s : IopChannelBmx) : IopChannelBmx :=
  if s.mDelayCounter = 0 then s
  else if s.mDelayCounter = 1 then done { s with mDelayCounter := 0 }
  else { s with mDelayCounter := s.mDelayCounter - 1 }

end IopChannelBmx

end CraySim
