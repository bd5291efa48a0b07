/-
  Subject:   What the devices of an expander channel have in common.

  A device has flags for its work and its interrupt. When one of the interrupt flags changes, the
  device calls `IntStatusChanged` of its channel, which looks at all devices again and keeps in
  `mDeviceInterruptPending` whether one of them has an interrupt.

  * `statusOf`, `requests` -- the status of a device, and the test for an interrupt in it,
  * `IopExpDevice` -- a device by its flags,
  * `Plugged` -- a device with what it works on of its channel,
  * `intStatusChanged`, `setIntActive`, `setIntEnabled` -- the calls that end in the look,
  * `Call`, `Event`, `step` -- what happens to a device,
  * `Exact`, `FlagsOnly` -- the summary is right, and what it depends on.
-/
import CraySim.IoTransfer
import CraySim.Lib.EventRun

namespace CraySim

/-! ## 1. Status -/

namespace IopExpDevice

/-- `Controls_e`. -/
def controlStart : IopInt := 1
def controlClear : IopInt := 2
def controlPulse : IopInt := 4

/-- `Status_e`. -/
def statusDmaEnabled : IopInt := 0x80
def statusIntEnabled : IopInt := 0x200
def statusInt : IopInt := 0x2000
def statusDeviceBusy : IopInt := 0x4000
def statusDeviceDone : IopInt := 0x8000

/-- The status that a device returns. -/
def statusOf (mInterruptEnabled mInterruptActive mBusy mDone : Bool) : IopInt :=
  statusDmaEnabled ||| (if mInterruptEnabled then statusIntEnabled else 0) |||
    (if mInterruptActive then statusInt else 0) ||| (if mBusy then statusDeviceBusy else 0) |||
    (if mDone then statusDeviceDone else 0)

/-- An interrupt that is enabled and active. -/
def requests (status : IopInt) : Bool :=
  status &&& statusIntEnabled ≠ 0 && status &&& statusInt ≠ 0

theorem requests_statusOf (enabled active busy done : Bool) :
    requests (statusOf enabled active busy done) = (enabled && active) := by
  revert enabled active busy done
  decide

structure DeviceFlags where
  mBusy : Bool
  mDone : Bool
  mInterruptActive : Bool
  mInterruptEnabled : Bool
  deriving DecidableEq, Repr

/-- The flags of a new device. -/
def DeviceFlags.new : DeviceFlags where
  mBusy := false
  mDone := true
  mInterruptActive := false
  mInterruptEnabled := false

end IopExpDevice

open IopExpDevice

/-- `IopExpDevice_i`, for the devices that have a single interrupt. -/
class IopExpDevice (D : Type) where
  flags : D → DeviceFlags
  withFlags : D → DeviceFlags → D
  flags_withFlags : ∀ d f, flags (withFlags d f) = f

/-- A device, the memory of its IOP and the summary of its channel. -/
structure Plugged (D : Type) where
  device : D
  ioMemory : IoMemory
  mDeviceInterruptPending : Bool

namespace IopExpDevice

variable {D : Type}

/-! ## 2. Calls -/

/-- `IntStatusChanged`; `scan` is what it finds on the channel where this is the device. -/
def intStatusChanged (scan : D → Except Exn Bool) (x : Plugged D) : Except Exn (Plugged D) := do
  let pending ← scan x.device
  return { x with mDeviceInterruptPending := pending }

section

variable [IopExpDevice D]

def getStatus (d : D) : IopInt :=
  statusOf (flags d).mInterruptEnabled (flags d).mInterruptActive (flags d).mBusy (flags d).mDone

def setIntActive (scan : D → Except Exn Bool) (aActive : Bool) (x : Plugged D) :
    Except Exn (Plugged D) :=
  intStatusChanged scan
    { x with device := withFlags x.device { flags x.device with mInterruptActive := aActive } }

def setIntEnabled (scan : D → Except Exn Bool) (aInterruptEnabled : Bool) (x : Plugged D) :
    Except Exn (Plugged D) :=
  intStatusChanged scan
    { x with device :=
        withFlags x.device { flags x.device with mInterruptEnabled := aInterruptEnabled } }

/-- The CLEAR of a control, if it has one. -/
def clearInt (scan : D → Except Exn Bool) (aControl : IopInt) (x : Plugged D) :
    Except Exn (Plugged D) :=
  if aControl &&& controlClear ≠ 0 then setIntActive scan false x else .ok x

end

/-- The calls of a channel to a device. -/
inductive Call where
  | setRegA (aValue : IopInt)
  | setRegB (aValue : IopInt)
  | setRegC (aValue : IopInt)
  | setIntEnabled (aInterruptEnabled : Bool)
  | getRegA
  | getRegB
  | getRegC
  | control (aControl : IopInt)
  | tick

/-- A call that returns nothing. -/
def silent (r : Except Exn (Plugged D)) : Except Exn (IopInt × Plugged D) := r.map fun x => (0, x)

theorem map_snd_silent (r : Except Exn (Plugged D)) : (silent r).map Prod.snd = r := by
  cases r <;> rfl

theorem of_silent {m : Except Exn (Plugged D)} {v : IopInt} {r : Plugged D}
    (h : silent m = .ok (v, r)) : m = .ok r := by
  cases m with
  | error e => cases h
  | ok y =>
    obtain rfl := (Prod.mk.inj (Except.ok.inj h)).2
    rfl

/-- What happens to a device; between the calls the IOP changes its memory. -/
inductive Event where
  | call (aCall : Call)
  | compute (ioMemory : IoMemory)

/-- One event, for a device that does `perform` on a call. -/
def step (perform : Call → Plugged D → Except Exn (IopInt × Plugged D)) :
    Event → Plugged D → Except Exn (Plugged D)
  | .call a, x => (perform a x).map Prod.snd
  | .compute mem, x => .ok { x with ioMemory := mem }

/-! ## 3. The summary -/

/-- The summary is what a look finds. -/
def Exact (scan : D → Except Exn Bool) (x : Plugged D) : Prop :=
  scan x.device = .ok x.mDeviceInterruptPending

/-- A look at the channel sees the interrupt flags of the device, and nothing else of it. -/
def FlagsOnly [IopExpDevice D] (scan : D → Except Exn Bool) : Prop :=
  ∀ d d' : D, (flags d).mInterruptActive = (flags d').mInterruptActive →
    (flags d).mInterruptEnabled = (flags d').mInterruptEnabled → scan d = scan d'

variable {scan : D → Except Exn Bool} {x r : Plugged D}

/-- **After a look the summary is right**, whatever it was before. -/
theorem intStatusChanged_exact (h : intStatusChanged scan x = .ok r) : Exact scan r := by
  obtain ⟨pending, hscan, hr⟩ := EventRun.exists_of_bind h
  obtain rfl := Except.ok.inj hr
  exact hscan

variable [IopExpDevice D]

theorem setIntActive_exact {a : Bool} (h : setIntActive scan a x = .ok r) : Exact scan r :=
  intStatusChanged_exact h

theorem clearInt_exact {a : IopInt} (h : Exact scan x) (hr : clearInt scan a x = .ok r) :
    Exact scan r := by
  rw [clearInt] at hr
  split at hr
  · exact setIntActive_exact hr
  · exact Except.ok.inj hr ▸ h

theorem setIntEnabled_exact {a : Bool} (h : setIntEnabled scan a x = .ok r) : Exact scan r :=
  intStatusChanged_exact h

end IopExpDevice

end CraySim
