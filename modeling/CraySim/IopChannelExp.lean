/-
  Subject:   The expander channel of an IOP.

  Up to 64 addresses, each with a device or none; a device may stand at two of them. The channel
  keeps in `mDeviceInterruptPending` whether a device has an interrupt, which its devices make it
  look for again. Besides calling its devices it only sets flags of its own, so a property of the
  devices and of the summary is kept by a function that makes calls which keep it.

  * `ExpDevice`, `perform` -- a device of one of the six classes, and a call to it,
  * `IopChannelExp`, `call` -- the channel, and a call from it to a device,
  * `setup` -- the devices of a configuration,
  * `Event`, `step` -- what happens to a channel,
  * `step_keeps` -- an event keeps what the calls keep.
-/
import CraySim.IopExpDisk
import CraySim.IopExpTape
import CraySim.IopExpClock

namespace CraySim

open IopExpDevice

/-! ## 1. Devices -/

/-- A device with its configuration. -/
inductive ExpDevice where
  | tape (mIsReadOnly : Bool) (d : IopExpTape)
  | ampex (c : IopExpDisk.Config) (d : IopExpDiskAmpexDM980)
  | cdc (c : IopExpDisk.Config) (d : IopExpDiskCDC9448)
  | dummy (d : IopExpDummyDevice)
  | printer (d : IopExpPrinterDevice)
  | clock (c : IopExpClockDevice.Config) (d : IopExpClockDevice)

namespace ExpDevice

/-- `GetStatus`, at an address of the device. -/
def getStatus (aDeviceAddr : IopInt) : ExpDevice → Except Exn IopInt
  | .tape _ d => .ok (IopExpDevice.getStatus d)
  | .ampex _ d => .ok (IopExpDevice.getStatus d)
  | .cdc _ d => .ok (IopExpDevice.getStatus d)
  | .dummy d => .ok (IopExpDevice.getStatus d)
  | .printer d => .ok (IopExpDevice.getStatus d)
  | .clock _ d => d.getStatus aDeviceAddr

def needsTick : ExpDevice → Bool
  | .clock _ _ => true
  | _ => false

/-- A call to a device of a class, for a device of any class. -/
def within {D : Type} (wrap : D → ExpDevice) (m : Plugged D → Except Exn (IopInt × Plugged D))
    (x : Plugged ExpDevice) (d : D) : Except Exn (IopInt × Plugged ExpDevice) :=
  (m ⟨d, x.ioMemory, x.mDeviceInterruptPending⟩).map fun r =>
    (r.1, ⟨wrap r.2.device, r.2.ioMemory, r.2.mDeviceInterruptPending⟩)

theorem of_within {D : Type} {wrap : D → ExpDevice} {d : D} {x r : Plugged ExpDevice}
    {m : Plugged D → Except Exn (IopInt × Plugged D)} {v : IopInt}
    (h : within wrap m x d = .ok (v, r)) :
    ∃ w y, m ⟨d, x.ioMemory, x.mDeviceInterruptPending⟩ = .ok (w, y) ∧
      r = ⟨wrap y.device, y.ioMemory, y.mDeviceInterruptPending⟩ := by
  rw [within] at h
  rcases hrun : m ⟨d, x.ioMemory, x.mDeviceInterruptPending⟩ with e | ⟨w, y⟩
  · rw [hrun] at h
    cases h
  · rw [hrun] at h
    exact ⟨w, y, rfl, (Prod.mk.inj (Except.ok.inj h)).2.symm⟩

/-- A call. -/
def perform (now : HostTime) (scan : ExpDevice → Except Exn Bool) (aDeviceAddr : IopInt)
    (a : Call) (x : Plugged ExpDevice) : Except Exn (IopInt × Plugged ExpDevice) :=
  match x.device with
  | .tape ro d => within (.tape ro) (IopExpTape.perform ro (fun d => scan (.tape ro d)) a) x d
  | .ampex c d =>
    within (.ampex c) (IopExpDiskAmpexDM980.perform c (fun d => scan (.ampex c d)) a) x d
  | .cdc c d => within (.cdc c) (IopExpDiskCDC9448.perform c (fun d => scan (.cdc c d)) a) x d
  | .dummy d => within .dummy (IopExpDummyDevice.perform (fun d => scan (.dummy d)) a) x d
  | .printer d => within .printer (IopExpPrinterDevice.perform (fun d => scan (.printer d)) a) x d
  | .clock c d =>
    within (.clock c) (IopExpClockDevice.perform c now (fun d => scan (.clock c d)) aDeviceAddr a)
      x d

end ExpDevice

/-! ## 2. The channel -/

namespace IopChannelExp

/-- `Operations_e`. -/
inductive Operation where
  | readA
  | readB
  | readC
  | readInterrupt
  | idle
  deriving DecidableEq, Repr

end IopChannelExp

/-- `IopChannelExp_c` and the memory of its IOP. The table of devices has the numbers of the
    devices, as a device can be in it twice. -/
structure IopChannelExp where
  mDone : Bool
  mBusy : Bool
  mInterruptEnabled : Bool
  mDeviceInterruptEnabled : Bool
  mDeviceInterruptPending : Bool
  mDevices : List (Option Nat)
  mTickedDevices : List Nat
  mDeviceIntMapping : List Nat
  mActiveChannel : Int
  mOperation : IopChannelExp.Operation
  device : Nat → ExpDevice
  ioMemory : IoMemory

namespace IopChannelExp

/-- The loop of `IntStatusChanged`, from an address on. -/
def lookAt (device : Nat → ExpDevice) : List (Option Nat) → Nat → Except Exn Bool
  | [], _ => .ok false
  | none :: rest, i => lookAt device rest (i + 1)
  | some k :: rest, i => do
    let status ← (device k).getStatus (BitVec.ofNat 16 i)
    if requests status then .ok true else lookAt device rest (i + 1)

/-- The loop counts in 16 bits. -/
def looked (mDevices : List (Option Nat)) : List (Option Nat) :=
  mDevices.take (mDevices.length % 2 ^ 16)

/-- What `IntStatusChanged` finds where the devices are these. -/
def pending (mDevices : List (Option Nat)) (device : Nat → ExpDevice) : Except Exn Bool :=
  lookAt device (looked mDevices) 0

variable (now : HostTime)

/-- A call to device `k`, which can look at the channel while it runs. -/
def call (k : Nat) (aDeviceAddr : IopInt) (a : Call) (s : IopChannelExp) :
    Except Exn (IopInt × IopChannelExp) := do
  let r ← ExpDevice.perform now
    (fun d => pending s.mDevices (Function.update s.device k d)) aDeviceAddr a
    ⟨s.device k, s.ioMemory, s.mDeviceInterruptPending⟩
  return (r.1, { s with
    device := Function.update s.device k r.2.device
    ioMemory := r.2.ioMemory
    mDeviceInterruptPending := r.2.mDeviceInterruptPending })

def masterClear (s : IopChannelExp) : IopChannelExp :=
  { s with
    mDone := false, mBusy := false, mInterruptEnabled := true
    mActiveChannel := -1, mOperation := .idle }

/-- The end of most functions. -/
def done (s : IopChannelExp) : IopChannelExp := { s with mBusy := false, mDone := true }

/-- `CRAY_ASSERT(mActiveChannel != -1)` and the device that is active, if there is one. -/
def activeDevice (s : IopChannelExp) : Except Exn (Option Nat) :=
  if s.mActiveChannel = -1 then .error .assertion
  else match s.mDevices[s.mActiveChannel.toNat]? with
    | some k => .ok k
    | none => .error .undefinedBehaviour

/-- The address of a call to the active device. -/
def activeAddr (s : IopChannelExp) : IopInt := BitVec.ofInt 16 s.mActiveChannel

/-- The functions that set a register of the active device, or control it. -/
def toActive (a : Call) (s : IopChannelExp) : Except Exn (IopInt × IopChannelExp) := do
  match ← activeDevice s with
  | some k =>
    let r ← call now k (activeAddr s) a s
    return (0, done r.2)
  | none => return (0, done s)

/-- The functions that say what is read next. -/
def selects (op : Operation) (s : IopChannelExp) : Except Exn (IopInt × IopChannelExp) :=
  if s.mActiveChannel = -1 then .error .assertion else .ok (0, done { s with mOperation := op })

/-- Function 010. -/
def readRegister (s : IopChannelExp) : Except Exn (IopInt × IopChannelExp) := do
  match ← activeDevice s with
  | none => return (0, s)
  | some k =>
    match s.mOperation with
    | .readA => call now k (activeAddr s) .getRegA s
    | .readB => call now k (activeAddr s) .getRegB s
    | .readC => call now k (activeAddr s) .getRegC s
    | _ => .error .assertion

/-- The call to device `k` at an address, if it has the interrupt that is asked for. -/
def enableOne (int : Option Nat) (b : Bool) (i k : Nat) (s : IopChannelExp) :
    Except Exn IopChannelExp :=
  match int, s.mDeviceIntMapping[i]? with
  | some _, none => .error .undefinedBehaviour
  | some n, some m =>
    if m = n then (call now k (activeAddr s) (.setIntEnabled b) s).map Prod.snd else .ok s
  | none, _ => (call now k (activeAddr s) (.setIntEnabled b) s).map Prod.snd

/-- The loop of a mask over the devices, from an address on: those with an interrupt in the mask
    are enabled or disabled. -/
def enableFrom (int : Option Nat) (b : Bool) :
    List (Option Nat) → Nat → IopChannelExp → Except Exn IopChannelExp
  | [], _, s => .ok s
  | none :: rest, i, s => enableFrom int b rest (i + 1) s
  | some k :: rest, i, s => do
    let s ← enableOne now int b i k s
    enableFrom int b rest (i + 1) s

/-- Function 006, where it takes the interrupts one by one. -/
def enableInts (aData : IopInt) : List Nat → IopChannelExp → Except Exn IopChannelExp
  | [], s => .ok s
  | n :: ns, s => do
    let s ← enableFrom now (some n) (!aData.getLsbD n) s.mDevices 0 s
    enableInts aData ns s

/-- Function 006. -/
def setMask (aData : IopInt) (s : IopChannelExp) : Except Exn IopChannelExp :=
  if aData = 0 ∨ aData = 0xffff then enableFrom now none (aData = 0) s.mDevices 0 s
  else enableInts now aData (List.range 16) s

/-- The first address of a device that has an interrupt, enabled or not. -/
def firstActive (device : Nat → ExpDevice) : List (Option Nat) → Nat → Except Exn IopInt
  | [], _ => .ok 0
  | none :: rest, i => firstActive device rest (i + 1)
  | some k :: rest, i => do
    let status ← (device k).getStatus (BitVec.ofNat 16 i)
    if status &&& statusInt ≠ 0 then .ok (BitVec.ofNat 16 i)
    else firstActive device rest (i + 1)

/-- The status of the active device with the bits of the channel. -/
def activeStatus (s : IopChannelExp) : Except Exn IopInt := do
  let status ← match ← activeDevice s with
    | some k => (s.device k).getStatus (activeAddr s)
    | none => .ok 0
  return status ||| (if s.mInterruptEnabled then 0x100 else 0) |||
    (if s.mBusy then 0x800 else 0) ||| (if s.mDone then 0x1000 else 0)

def doIo (aFunction : Nat) (aData : IopInt) (s : IopChannelExp) :
    Except Exn (IopInt × IopChannelExp) :=
  match aFunction with
  | 0o00 => .ok (0, { s with mBusy := false, mDone := false, mInterruptEnabled := false })
  | 0o01 => selects .readA s
  | 0o02 => selects .readB s
  | 0o03 => selects .readC s
  | 0o04 => selects .readInterrupt s
  | 0o05 => .ok (0, { s with mActiveChannel := (aData &&& 63).toNat })
  | 0o06 => do
    let s ← setMask now aData s
    return (0, s)
  | 0o07 =>
    .ok (0, { s with
      mInterruptEnabled := aData &&& 1 ≠ 0, mDeviceInterruptEnabled := aData &&& 2 ≠ 0 })
  | 0o10 => readRegister now s
  | 0o11 => do
    let status ← activeStatus s
    let first ← firstActive s.device (looked s.mDevices) 0
    return (status ||| first, s)
  | 0o13 => do
    let status ← activeStatus s
    return (status ||| activeAddr s, s)
  | 0o14 => toActive now (.setRegA aData) s
  | 0o15 => toActive now (.setRegB aData) s
  | 0o16 => toActive now (.setRegC aData) s
  | 0o17 => toActive now (.control aData) s
  | _ => .ok (0, s)

def tick (s : IopChannelExp) : Except Exn IopChannelExp :=
  s.mTickedDevices.foldlM (fun s k => (call now k 0 .tick s).map Prod.snd) s

def getInterrupt (s : IopChannelExp) : Bool :=
  s.mInterruptEnabled && s.mDone || s.mDeviceInterruptEnabled && s.mDeviceInterruptPending

/-- `GetInterrupt` with the loop that is commented out in place of the summary. -/
def getInterruptScanning (s : IopChannelExp) : Except Exn Bool :=
  if s.mInterruptEnabled && s.mDone then .ok true
  else if s.mDeviceInterruptEnabled then pending s.mDevices s.device
  else .ok false

/-! ## 3. The devices of a configuration -/

/-- A device in the configuration, with the medium it opens. -/
inductive DeviceParams where
  | tape (mChannelIdx : IopInt) (mIsReadOnly : Bool) (mTapeImage : PokedTapFile)
  | ampex (mChannelIdx : IopInt) (c : IopExpDisk.Config) (image : Option (List (BitVec 8)))
  | cdc (mChannelIdx : IopInt) (c : IopExpDisk.Config) (image : Option (List (BitVec 8)))
  | dummy (mChannelIdx : IopInt)
  | printer (mChannelIdx : IopInt) (mPrintFile : List (BitVec 8))
  | clock (c : IopExpClockDevice.Config)

namespace DeviceParams

/-- The constructor of the device. -/
def make : DeviceParams → ExpDevice
  | .tape _ ro image => .tape ro (IopExpTape.new image)
  | .ampex _ c image => .ampex c (IopExpDiskAmpexDM980.new image)
  | .cdc _ c image => .cdc c (IopExpDiskCDC9448.new image)
  | .dummy _ => .dummy IopExpDummyDevice.new
  | .printer _ file => .printer (IopExpPrinterDevice.new file)
  | .clock c => .clock c IopExpClockDevice.new

/-- `GetChannelIdx`, for all of `GetChannelCnt`. -/
def channelIdxs : DeviceParams → List Nat
  | .tape i _ _ | .ampex i _ _ | .cdc i _ _ | .dummy i | .printer i _ => [i.toNat]
  | .clock c => [c.mPrimaryChannelIdx.toNat, c.mRequestChannelIdx.toNat]

end DeviceParams

/-- The tables while they are made, and the number of devices so far. -/
structure Tables where
  mDevices : List (Option Nat)
  mDeviceIntMapping : List Nat
  device : Nat → ExpDevice
  cnt : Nat

/-- Puts device `k` at some addresses. -/
def place (k : Nat) : List Nat → List (Option Nat) → Except Exn (List (Option Nat))
  | [], mDevices => .ok mDevices
  | i :: rest, mDevices =>
    match mDevices[i]? with
    | none => .error .undefinedBehaviour
    | some (some _) => .error (.generic "expander channel index %1% is already in use" i)
    | some none => place k rest (mDevices.set i (some k))

/-- Looks for a device that has the interrupt already. -/
def interruptUsed (deviceInt : Nat) (mDevices : List (Option Nat)) :
    List Nat → Nat → Except Exn Bool
  | [], _ => .ok false
  | m :: rest, i =>
    if m = deviceInt then
      match mDevices[i]? with
      | none => .error .undefinedBehaviour
      | some (some _) => .ok true
      | some none => interruptUsed deviceInt mDevices rest (i + 1)
    else interruptUsed deviceInt mDevices rest (i + 1)

/-- Registers the interrupt at the addresses of its device. -/
def mapInterrupt (deviceInt : Nat) : List Nat → List Nat → Except Exn (List Nat)
  | [], mapping => .ok mapping
  | i :: rest, mapping =>
    if i < mapping.length then mapInterrupt deviceInt rest (mapping.set i deviceInt)
    else .error .undefinedBehaviour

/-- One device of the configuration. -/
def addDevice (t : Tables) (deviceInt : Nat) (p : DeviceParams) : Except Exn Tables :=
  if 16 ≤ deviceInt then .error (.generic "device interrupt %1% too large" deviceInt)
  else do
    let mDevices ← place t.cnt p.channelIdxs t.mDevices
    let used ← interruptUsed deviceInt mDevices t.mDeviceIntMapping 0
    if used then .error (.generic "device interrupt %1% is already in use" deviceInt)
    else
      let mapping ← mapInterrupt deviceInt p.channelIdxs t.mDeviceIntMapping
      return ⟨mDevices, mapping, Function.update t.device t.cnt p.make, t.cnt + 1⟩

/-- A dummy where there is no device, from an address on. -/
def fillDummies (t : Tables) : List (Option Nat) → List (Option Nat) → Tables
  | [], filled => { t with mDevices := filled }
  | some k :: rest, filled => fillDummies t rest (filled ++ [some k])
  | none :: rest, filled =>
    fillDummies
      { t with device := Function.update t.device t.cnt (.dummy .new), cnt := t.cnt + 1 }
      rest (filled ++ [some t.cnt])

/-- The configuration of the channel. -/
structure Configuration where
  deviceCount : Nat
  devices : List (Nat × DeviceParams)
  useDummyDevices : Bool

/-- `Setup`, on the memory of the IOP; `enabled` is what `mDeviceInterruptEnabled` is before it is
    set for the first time. -/
def setup (aConfig : Configuration) (enabled : Bool) (ioMemory : IoMemory) :
    Except Exn IopChannelExp := do
  let t ← aConfig.devices.foldlM (fun t d => addDevice t d.1 d.2)
    ⟨List.replicate aConfig.deviceCount none, List.replicate 64 0, fun _ => .dummy .new, 0⟩
  let t := if aConfig.useDummyDevices then fillDummies t t.mDevices [] else t
  let pending ← pending t.mDevices t.device
  return masterClear
    { mDone := false
      mBusy := false
      mInterruptEnabled := true
      mDeviceInterruptEnabled := enabled
      mDeviceInterruptPending := pending
      mDevices := t.mDevices
      mTickedDevices :=
        ((t.mDevices.filterMap id).filter fun k => (t.device k).needsTick).eraseDups
      mDeviceIntMapping := t.mDeviceIntMapping
      mActiveChannel := -1
      mOperation := .idle
      device := t.device
      ioMemory := ioMemory }

/-! ## 4. Events -/

/-- What happens to the channel; between the functions the IOP changes its memory. -/
inductive Event where
  | doIo (aFunction : Nat) (aData : IopInt) (now : HostTime)
  | tick (now : HostTime)
  | masterClear
  | compute (ioMemory : IoMemory)

/-- One event. -/
def step : Event → IopChannelExp → Except Exn IopChannelExp
  | .doIo f aData now, s => (doIo now f aData s).map Prod.snd
  | .tick now, s => tick now s
  | .masterClear, s => .ok (masterClear s)
  | .compute mem, s => .ok { s with ioMemory := mem }

/-! ## 5. Functions -/

/-- `I` is about the devices and the summary. -/
def OfDevices (I : IopChannelExp → Prop) : Prop :=
  ∀ s s', s'.mDevices = s.mDevices → s'.device = s.device →
    s'.mDeviceInterruptPending = s.mDeviceInterruptPending → I s → I s'

/-- The call keeps `I`, to any device. -/
def CallKeeps (now : HostTime) (I : IopChannelExp → Prop) (a : Call) : Prop :=
  ∀ k addr s v s', I s → call now k addr a s = .ok (v, s') → I s'

variable {I : IopChannelExp → Prop} {now : HostTime} {s s' : IopChannelExp} {v : IopInt}

/-- What a function returns besides the state does not matter. -/
theorem of_map_snd {α : Type} {r : Except Exn (α × IopChannelExp)}
    (h : r.map Prod.snd = .ok s') : ∃ a, r = .ok (a, s') := by
  rcases r with e | ⟨a, y⟩
  · cases h
  · exact ⟨a, congrArg (fun y => Except.ok (a, y)) (Except.ok.inj h)⟩

theorem call_snd_keeps {k : Nat} {addr : IopInt} {a : Call} (ha : CallKeeps now I a) (h : I s)
    (hr : (call now k addr a s).map Prod.snd = .ok s') : I s' := by
  obtain ⟨v, hcall⟩ := of_map_snd hr
  exact ha k addr s v s' h hcall

theorem toActive_keeps (hI : OfDevices I) {a : Call}
    (ha : ∀ k v y, activeDevice s = .ok (some k) → call now k (activeAddr s) a s = .ok (v, y) → I y)
    (h : I s) (hr : toActive now a s = .ok (v, s')) : I s' := by
  obtain ⟨o, hactive, hr⟩ := EventRun.exists_of_bind hr
  split at hr
  · obtain ⟨⟨w, y⟩, hcall, hr⟩ := EventRun.exists_of_bind hr
    obtain rfl := (Prod.mk.inj (Except.ok.inj hr)).2
    exact hI y (done y) rfl rfl rfl (ha _ w y hactive hcall)
  · obtain rfl := (Prod.mk.inj (Except.ok.inj hr)).2
    exact hI s (done s) rfl rfl rfl h

theorem readRegister_keeps (hA : CallKeeps now I .getRegA) (hB : CallKeeps now I .getRegB)
    (hC : CallKeeps now I .getRegC) (h : I s) (hr : readRegister now s = .ok (v, s')) : I s' := by
  obtain ⟨o, _, hr⟩ := EventRun.exists_of_bind hr
  split at hr
  · exact (Prod.mk.inj (Except.ok.inj hr)).2 ▸ h
  · split at hr
    · exact hA _ _ s v s' h hr
    · exact hB _ _ s v s' h hr
    · exact hC _ _ s v s' h hr
    · cases hr

theorem selects_keeps (hI : OfDevices I) {op : Operation} (h : I s)
    (hr : selects op s = .ok (v, s')) : I s' := by
  rw [selects] at hr
  split at hr
  · cases hr
  · obtain rfl := (Prod.mk.inj (Except.ok.inj hr)).2
    exact hI s _ rfl rfl rfl h

section mask
variable (ha : ∀ b, CallKeeps now I (.setIntEnabled b))
include ha

theorem enableOne_keeps {int : Option Nat} {b : Bool} {i k : Nat} (h : I s)
    (hr : enableOne now int b i k s = .ok s') : I s' := by
  rw [enableOne.eq_def] at hr
  split at hr
  · cases hr
  · split at hr
    · exact call_snd_keeps (ha b) h hr
    · exact Except.ok.inj hr ▸ h
  · exact call_snd_keeps (ha b) h hr

theorem enableFrom_keeps {int : Option Nat} {b : Bool} {l : List (Option Nat)} {i : Nat} (h : I s)
    (hr : enableFrom now int b l i s = .ok s') : I s' := by
  induction l generalizing i s with
  | nil => exact Except.ok.inj hr ▸ h
  | cons o rest ih =>
    cases o with
    | none => exact ih h hr
    | some k =>
      obtain ⟨y, hone, hr⟩ := EventRun.exists_of_bind hr
      exact ih (enableOne_keeps ha h hone) hr

theorem enableInts_keeps {aData : IopInt} {ns : List Nat} (h : I s)
    (hr : enableInts now aData ns s = .ok s') : I s' := by
  induction ns generalizing s with
  | nil => exact Except.ok.inj hr ▸ h
  | cons n ns ih =>
    obtain ⟨y, hone, hr⟩ := EventRun.exists_of_bind hr
    exact ih (enableFrom_keeps ha h hone) hr

theorem setMask_keeps {aData : IopInt} (h : I s) (hr : setMask now aData s = .ok s') : I s' := by
  rw [setMask] at hr
  split at hr
  · exact enableFrom_keeps ha h hr
  · exact enableInts_keeps ha h hr

end mask

/-- **A channel function** keeps what its calls keep; a control is called by function 017 only. -/
theorem doIo_keeps {aFunction : Nat} {aData : IopInt} (hI : OfDevices I)
    (hcall : ∀ a, (∀ w, a ≠ .control w) → CallKeeps now I a)
    (hcontrol : ∀ k v y, aFunction = 0o17 → activeDevice s = .ok (some k) →
      call now k (activeAddr s) (.control aData) s = .ok (v, y) → I y)
    (h : I s) (hr : doIo now aFunction aData s = .ok (v, s')) : I s' := by
  have hset : ∀ a : Call, (∀ w, a ≠ .control w) → ∀ k v y, activeDevice s = .ok (some k) →
      call now k (activeAddr s) a s = .ok (v, y) → I y :=
    fun a ha k v y _ hcalled => hcall a ha k (activeAddr s) s v y h hcalled
  rw [doIo.eq_def] at hr
  split at hr
  case h_2 | h_3 | h_4 | h_5 => exact selects_keeps hI h hr
  case h_7 =>
    obtain ⟨y, hmask, hr⟩ := EventRun.exists_of_bind hr
    exact (Prod.mk.inj (Except.ok.inj hr)).2 ▸
      setMask_keeps (fun b => hcall (.setIntEnabled b) nofun) h hmask
  case h_9 =>
    exact readRegister_keeps (hcall .getRegA nofun) (hcall .getRegB nofun) (hcall .getRegC nofun)
      h hr
  case h_10 =>
    obtain ⟨_, _, hr⟩ := EventRun.exists_of_bind hr
    obtain ⟨_, _, hr⟩ := EventRun.exists_of_bind hr
    exact (Prod.mk.inj (Except.ok.inj hr)).2 ▸ h
  case h_11 =>
    obtain ⟨_, _, hr⟩ := EventRun.exists_of_bind hr
    exact (Prod.mk.inj (Except.ok.inj hr)).2 ▸ h
  case h_12 => exact toActive_keeps hI (hset (.setRegA aData) nofun) h hr
  case h_13 => exact toActive_keeps hI (hset (.setRegB aData) nofun) h hr
  case h_14 => exact toActive_keeps hI (hset (.setRegC aData) nofun) h hr
  case h_15 => exact toActive_keeps hI (fun k v y => hcontrol k v y rfl) h hr
  all_goals
    obtain rfl := (Prod.mk.inj (Except.ok.inj hr)).2
    exact hI s _ rfl rfl rfl h

theorem tick_keeps (hcall : CallKeeps now I .tick) (h : I s) (hr : tick now s = .ok s') : I s' := by
  rw [tick] at hr
  generalize s.mTickedDevices = ks at hr
  induction ks generalizing s with
  | nil => exact Except.ok.inj hr ▸ h
  | cons k ks ih =>
    rw [List.foldlM_cons] at hr
    obtain ⟨y, hone, hr⟩ := EventRun.exists_of_bind hr
    exact ih (call_snd_keeps hcall h hone) hr

/-- **An event** keeps what the calls keep. -/
theorem step_keeps {e : Event} (hI : OfDevices I)
    (hcall : ∀ now a, (∀ w, a ≠ .control w) → CallKeeps now I a)
    (hcontrol : ∀ w now k v y, e = .doIo 0o17 w now → activeDevice s = .ok (some k) →
      call now k (activeAddr s) (.control w) s = .ok (v, y) → I y)
    (h : I s) (hr : step e s = .ok s') : I s' := by
  cases e with
  | doIo f w now =>
    obtain ⟨v, hdo⟩ := of_map_snd hr
    refine doIo_keeps hI (hcall now) (fun k v y hf => ?_) h hdo
    exact hcontrol w now k v y (hf ▸ rfl)
  | tick now => exact tick_keeps (hcall now .tick nofun) h hr
  | masterClear | compute mem =>
    obtain rfl := Except.ok.inj hr
    exact hI s _ rfl rfl rfl h

end IopChannelExp

end CraySim
