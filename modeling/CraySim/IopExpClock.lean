/-
  Subject:   The other devices of an expander channel: a dummy, the printer and the clock.

  The printer prints the memory when register C is set, register B counting up to zero. The clock
  takes a request byte by byte and gives the answer byte by byte; it stands at two addresses and
  has an active flag for each, but one enable flag.

  * `IopExpDummyDevice`, `IopExpPrinterDevice`, `IopExpClockDevice` -- the devices,
  * `print` -- the loop of the printer,
  * `processRequest` -- the answers of the clock.
-/
import CraySim.IopExpDevice

namespace CraySim

open IopExpDevice

/-! ## 1. The dummy -/

/-- `IopExpDummyDevice_c`. -/
structure IopExpDummyDevice where
  flags : DeviceFlags
  mRegA : IopInt
  mRegB : IopInt
  mRegC : IopInt

instance : IopExpDevice IopExpDummyDevice where
  flags d := d.flags
  withFlags d f := { d with flags := f }
  flags_withFlags _ _ := rfl

namespace IopExpDummyDevice

/-- The constructor. -/
def new : IopExpDummyDevice where
  flags := .new
  mRegA := 0
  mRegB := 0
  mRegC := 0

variable (scan : IopExpDummyDevice → Except Exn Bool)

def control (aControl : IopInt) (x : Plugged IopExpDummyDevice) :
    Except Exn (Plugged IopExpDummyDevice) :=
  if aControl &&& ~~~(controlStart ||| controlClear ||| controlPulse) ≠ 0 then .error .assertion
  else clearInt scan aControl x

/-- What the dummy does on a call. -/
def perform : Call → Plugged IopExpDummyDevice → Except Exn (IopInt × Plugged IopExpDummyDevice)
  | .setRegA v, x => silent (.ok { x with device := { x.device with mRegA := v } })
  | .setRegB v, x => silent (.ok { x with device := { x.device with mRegB := v } })
  | .setRegC v, x => silent (.ok { x with device := { x.device with mRegC := v } })
  | .setIntEnabled b, x => silent (setIntEnabled scan b x)
  | .getRegA, x => .ok (x.device.mRegA, x)
  | .getRegB, x => .ok (x.device.mRegB, x)
  | .getRegC, x => .ok (x.device.mRegC, x)
  | .control a, x => silent (control scan a x)
  | .tick, x => silent (.ok x)

end IopExpDummyDevice

/-! ## 2. The printer -/

/-- `IopExpPrinterDevice_c`, with the bytes it has printed and without its statistics. -/
structure IopExpPrinterDevice where
  flags : DeviceFlags
  mRegA : IopInt
  mRegB : IopInt
  mRegC : IopInt
  mStatus : IopInt
  mInGraphicsMode : Bool
  mPrintFile : List (BitVec 8)

instance : IopExpDevice IopExpPrinterDevice where
  flags d := d.flags
  withFlags d f := { d with flags := f }
  flags_withFlags _ _ := rfl

namespace IopExpPrinterDevice

/-- The constructor, for the file it appends to. -/
def new (mPrintFile : List (BitVec 8)) : IopExpPrinterDevice where
  flags := .new
  mRegA := 0
  mRegB := 0
  mRegC := 0
  mStatus := 0
  mInGraphicsMode := false
  mPrintFile := mPrintFile

def statusCodeDone : IopInt := 0x4000

/-- The bytes of a text. -/
def textBytes (aText : String) : List (BitVec 8) := aText.toList.map fun ch => BitVec.ofNat 8 ch.toNat

/-- What is printed of a parcel: its bits, or its characters. -/
def printed (mInGraphicsMode : Bool) (data : IopInt) : List (BitVec 8) :=
  if mInGraphicsMode then
    (List.range 16).map fun i => if data.getMsbD i then 0x58 else 0x20
  else [data.extractLsb' 8 8, data.extractLsb' 0 8]

/-- The end of a command without an interrupt. -/
def idle (d : IopExpPrinterDevice) : IopExpPrinterDevice :=
  { d with flags := { d.flags with mDone := true, mBusy := false } }

/-- Appends to the file. -/
def append (text : List (BitVec 8)) (d : IopExpPrinterDevice) : IopExpPrinterDevice :=
  { d with mPrintFile := d.mPrintFile ++ text }

variable (scan : IopExpPrinterDevice → Except Exn Bool)

/-- The loop over the parcels: register B counts up to zero. -/
def print (mem : IoMemory) (d : IopExpPrinterDevice) : IopExpPrinterDevice :=
  let cnt := (-d.mRegB).toNat
  let text := (mem.load d.mRegC cnt).flatMap (printed d.mInGraphicsMode)
  { append text d with mRegB := 0, mRegC := d.mRegC + BitVec.ofNat 16 cnt }

def setRegC (aValue : IopInt) (x : Plugged IopExpPrinterDevice) :
    Except Exn (Plugged IopExpPrinterDevice) := do
  let x ← setIntActive scan true { x with device := idle { x.device with mRegC := aValue } }
  return { x with device := { print x.ioMemory x.device with mStatus := statusCodeDone } }

/-- A PULSE. -/
def pulse (x : Plugged IopExpPrinterDevice) : Except Exn (Plugged IopExpPrinterDevice) := do
  let x := { x with device := idle x.device }
  match x.device.mRegA.toNat with
  | 6 =>
    let x ← setIntActive scan false x
    return { x with device := { x.device with mStatus := 0 } }
  | 4 => return { x with device := { x.device with mStatus := 0, mInGraphicsMode := false } }
  | 1 => return { x with device := { x.device with mStatus := 0, mInGraphicsMode := true } }
  | 3 =>
    let x ← setIntActive scan true x
    return { x with device := { append [0x0a] x.device with mStatus := statusCodeDone } }
  | 0 =>
    let x ← setIntActive scan true x
    return { x with device := { append [0x0c] x.device with mStatus := statusCodeDone } }
  | code =>
    let text := "------------------------- UNKOWN CODE " ++ toString code ++
      " --------------------------\n"
    return { x with device := { append (textBytes text) x.device with mStatus := 0 } }

def control (aControl : IopInt) (x : Plugged IopExpPrinterDevice) :
    Except Exn (Plugged IopExpPrinterDevice) :=
  if aControl &&& ~~~(controlStart ||| controlClear ||| controlPulse) ≠ 0 then .error .assertion
  else do
    let x ← clearInt scan aControl x
    if aControl &&& controlPulse ≠ 0 then pulse scan x else .ok x

/-- What the printer does on a call. -/
def perform :
    Call → Plugged IopExpPrinterDevice → Except Exn (IopInt × Plugged IopExpPrinterDevice)
  | .setRegA v, x => silent (.ok { x with device := { x.device with mRegA := v } })
  | .setRegB v, x => silent (.ok { x with device := { x.device with mRegB := v } })
  | .setRegC v, x => silent (setRegC scan v x)
  | .setIntEnabled b, x => silent (setIntEnabled scan b x)
  | .getRegA, x => .ok (x.device.mStatus, x)
  | .getRegB, x => .ok (x.device.mRegB, x)
  | .getRegC, x => .ok (x.device.mRegC, x)
  | .control a, x => silent (control scan a x)
  | .tick, x => silent (.ok x)

end IopExpPrinterDevice

/-! ## 3. The clock -/

/-- What the clock of the host shows. -/
structure HostTime where
  year : Nat
  month : Nat
  day : Nat
  hours : Nat
  minutes : Nat
  seconds : Nat

namespace IopExpClockDevice

/-- The configuration of the clock. -/
structure Config where
  mResponseTimeout : Nat
  mPrimaryChannelIdx : IopInt
  mRequestChannelIdx : IopInt
  mResponseChannelIdx : IopInt
  mYearLimit : Bool

end IopExpClockDevice

/-- `IopExpClockDevice_c`. -/
structure IopExpClockDevice where
  mRequest : List (BitVec 8)
  mResponse : List (BitVec 8)
  mRegA : IopInt
  mRegB : IopInt
  mRegC : IopInt
  mResponseTimer : Nat
  mBusy : Bool
  mDone : Bool
  mInterruptEnabled : Bool
  mInterruptActive : Fin 64 → Bool

namespace IopExpClockDevice

/-- The constructor. -/
def new : IopExpClockDevice where
  mRequest := []
  mResponse := []
  mRegA := 0
  mRegB := 0
  mRegC := 0
  mResponseTimer := 0
  mBusy := false
  mDone := false
  mInterruptEnabled := false
  mInterruptActive := fun _ => false

/-- `CRAY_ASSERT(aDeviceAddr < sizeof(mInterruptActive)/sizeof(bool))`. -/
def assertAddr (aDeviceAddr : IopInt) : Except Exn (Fin 64) :=
  if h : aDeviceAddr.toNat < 64 then .ok ⟨aDeviceAddr.toNat, h⟩ else .error .assertion

def getStatus (aDeviceAddr : IopInt) (d : IopExpClockDevice) : Except Exn IopInt := do
  let i ← assertAddr aDeviceAddr
  return statusOf d.mInterruptEnabled (d.mInterruptActive i) d.mBusy d.mDone

variable (c : Config) (now : HostTime) (scan : IopExpClockDevice → Except Exn Bool)

/-- `SetIntEnabled`: the flag is the one of all addresses. -/
def setIntEnabled (aInterruptEnabled : Bool) (x : Plugged IopExpClockDevice) :
    Except Exn (Plugged IopExpClockDevice) :=
  intStatusChanged scan
    { x with device := { x.device with mInterruptEnabled := aInterruptEnabled } }

def setIntActive (aDeviceAddr : IopInt) (aActive : Bool) (x : Plugged IopExpClockDevice) :
    Except Exn (Plugged IopExpClockDevice) := do
  let i ← assertAddr aDeviceAddr
  intStatusChanged scan { x with device := { x.device with
    mInterruptActive := Function.update x.device.mInterruptActive i aActive } }

def setRegA (aDeviceAddr aValue : IopInt) (x : Plugged IopExpClockDevice) :
    Except Exn (Plugged IopExpClockDevice) := do
  let x := { x with device := { x.device with mRegA := aValue } }
  let i ← assertAddr aDeviceAddr
  if x.device.mInterruptActive i then setIntActive scan aDeviceAddr false x else .ok x

/-- `GetRegA`: the next byte of the answer. -/
def getRegA (aDeviceAddr : IopInt) (x : Plugged IopExpClockDevice) :
    Except Exn (IopInt × Plugged IopExpClockDevice) :=
  if aDeviceAddr ≠ c.mResponseChannelIdx then .ok (0, x)
  else match x.device.mResponse with
    | [] => .ok (0, x)
    | b :: rest => do
      let x ← setIntActive scan aDeviceAddr true
        { x with device := { x.device with mResponse := rest } }
      return (b.setWidth 16, x)

/-- A number in two digits, or more. -/
def digits (n : Nat) : List (BitVec 8) :=
  if n < 10 then [0x30, BitVec.ofNat 8 (0x30 + n)]
  else IopExpPrinterDevice.textBytes (toString n)

/-- `ProcessRequest`: the answer. -/
def answer (mRequest : List (BitVec 8)) : List (BitVec 8) :=
  if mRequest = IopExpPrinterDevice.textBytes "ATRT" then
    digits now.hours ++ digits now.minutes ++ digits now.seconds ++ [0x0d]
  else if mRequest = IopExpPrinterDevice.textBytes "ATRD" then
    -- only years between 1980 and 1999 are accepted
    digits (if c.mYearLimit then now.year % 20 + 80 else now.year) ++ digits now.month ++
      digits now.day ++ [0x0d]
  -- the other requests, known or not, have the same answer
  else [0x30, 0x0d]

def processRequest (d : IopExpClockDevice) : IopExpClockDevice :=
  { d with mResponse := answer c now d.mRequest, mResponseTimer := 1 }

/-- A START: a byte of the request, or its end. -/
def received (d : IopExpClockDevice) : IopExpClockDevice :=
  if d.mRegA &&& 0xff = 0x0d then { processRequest c now d with mRequest := [] }
  else { d with mRequest := d.mRequest ++ [d.mRegA.setWidth 8] }

/-- The CLEAR of a control, if it has one; where there is more of the answer, the next interrupt
    follows. -/
def clearInt (aDeviceAddr aControl : IopInt) (x : Plugged IopExpClockDevice) :
    Except Exn (Plugged IopExpClockDevice) :=
  if aControl &&& controlClear = 0 then .ok x
  else do
    let x ← setIntActive scan aDeviceAddr false x
    return { x with device := { x.device with
      mResponseTimer := if aDeviceAddr = c.mResponseChannelIdx ∧ x.device.mResponse ≠ [] then 1
        else x.device.mResponseTimer } }

def control (aDeviceAddr aControl : IopInt) (x : Plugged IopExpClockDevice) :
    Except Exn (Plugged IopExpClockDevice) :=
  if aControl &&& ~~~(controlStart ||| controlClear ||| controlPulse) ≠ 0 then .error .assertion
  else do
    let x ← clearInt c scan aDeviceAddr aControl x
    if aControl &&& controlStart ≠ 0 then
      setIntActive scan aDeviceAddr true { x with device := received c now x.device }
    else .ok x

def tick (x : Plugged IopExpClockDevice) : Except Exn (Plugged IopExpClockDevice) :=
  if x.device.mResponseTimer = 0 then .ok x
  else
    let x := { x with device := { x.device with mResponseTimer := x.device.mResponseTimer + 1 } }
    if x.device.mResponseTimer ≤ c.mResponseTimeout then .ok x
    else do
      let x ← setIntActive scan c.mResponseChannelIdx true x
      return { x with device := { x.device with mResponseTimer := 0 } }

/-- What the clock does on a call, at one of its addresses. -/
def perform (aDeviceAddr : IopInt) :
    Call → Plugged IopExpClockDevice → Except Exn (IopInt × Plugged IopExpClockDevice)
  | .setRegA v, x => silent (setRegA scan aDeviceAddr v x)
  | .setRegB v, x => silent (.ok { x with device := { x.device with mRegB := v } })
  | .setRegC v, x => silent (.ok { x with device := { x.device with mRegC := v } })
  | .setIntEnabled b, x => silent (setIntEnabled scan b x)
  | .getRegA, x => getRegA c scan aDeviceAddr x
  | .getRegB, x => .ok (x.device.mRegB, x)
  | .getRegC, x => .ok (x.device.mRegC, x)
  | .control a, x => silent (control c now scan aDeviceAddr a x)
  | .tick, x => silent (tick c scan x)

end IopExpClockDevice

end CraySim
