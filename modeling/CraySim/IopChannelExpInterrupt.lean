/-
  Subject:   The interrupt summary of an expander channel is exact.

  Every method of a device that changes an interrupt flag makes the channel look again behind the
  change, and the rest of the method changes no flag; so the summary is always what a look finds. The
  look counts the addresses in 16 bits.

  * `Quiet` -- no interrupt flag changed,
  * `perform_exact` -- a call, class by class,
  * `call_exact`, `step_exact` -- a call on the channel, and an event,
  * `DummiesFrom` -- the devices from an address on,
  * `Reachable`, `summary_exact` -- every state of a channel whose addresses are counted.
-/
import CraySim.IopChannelExp

namespace CraySim

/-! ## 1. Parts of a method -/

namespace IopExpDevice

variable {D : Type} {scan : D → Except Exn Bool} {x r : Plugged D} {v : IopInt}

variable [IopExpDevice D]

/-- No interrupt flag has changed, nor the summary. -/
structure Quiet (x r : Plugged D) : Prop where
  active : (flags r.device).mInterruptActive = (flags x.device).mInterruptActive
  enabled : (flags r.device).mInterruptEnabled = (flags x.device).mInterruptEnabled
  pending : r.mDeviceInterruptPending = x.mDeviceInterruptPending

theorem Quiet.trans {y : Plugged D} (h : Quiet x y) (h' : Quiet y r) : Quiet x r :=
  ⟨h'.active.trans h.active, h'.enabled.trans h.enabled, h'.pending.trans h.pending⟩

theorem Exact.of_quiet (hscan : FlagsOnly scan) (h : Exact scan x) (hr : Quiet x r) :
    Exact scan r := by
  rw [Exact, hr.pending, ← h]
  exact hscan _ _ hr.active hr.enabled

end IopExpDevice

open IopExpDevice

/-! ## 2. The classes -/

namespace IopExpDummyDevice

variable {scan : IopExpDummyDevice → Except Exn Bool} {x r : Plugged IopExpDummyDevice} {v : IopInt}

theorem control_exact {a : IopInt} (h : Exact scan x) (hr : control scan a x = .ok r) :
    Exact scan r := by
  rw [control] at hr
  split at hr
  · cases hr
  · exact clearInt_exact h hr

theorem perform_exact (hscan : FlagsOnly scan) {a : Call} (h : Exact scan x)
    (hr : perform scan a x = .ok (v, r)) : Exact scan r := by
  cases a with
  | setIntEnabled b => exact setIntEnabled_exact (of_silent hr)
  | control c => exact control_exact h (of_silent hr)
  | getRegA | getRegB | getRegC =>
    obtain rfl := (Prod.mk.inj (Except.ok.inj hr)).2
    exact h
  | setRegA w | setRegB w | setRegC w | tick =>
    obtain rfl := Except.ok.inj (of_silent hr)
    exact h.of_quiet hscan ⟨rfl, rfl, rfl⟩

end IopExpDummyDevice

namespace IopExpDiskAmpexDM980

variable {c : IopExpDisk.Config} {scan : IopExpDiskAmpexDM980 → Except Exn Bool}
  {x r : Plugged IopExpDiskAmpexDM980} {v : IopInt}

theorem start_exact (h : Exact scan x) (hr : start c scan x = .ok r) : Exact scan r := by
  rw [start] at hr
  split at hr
  case h_6 => exact Except.ok.inj hr ▸ h
  case h_4 | h_5 => exact setIntActive_exact hr
  all_goals
    obtain ⟨_, _, hfinish⟩ := EventRun.exists_of_bind hr
    exact setIntActive_exact hfinish

theorem control_exact {a : IopInt} (h : Exact scan x) (hr : control c scan a x = .ok r) :
    Exact scan r := by
  rw [control] at hr
  split at hr
  · cases hr
  · obtain ⟨y, hclear, hstart⟩ := EventRun.exists_of_bind hr
    have hy := clearInt_exact h hclear
    split at hstart
    · exact start_exact hy hstart
    · exact Except.ok.inj hstart ▸ hy

theorem setRegC_flags (w : IopInt) (d : IopExpDiskAmpexDM980) : (d.setRegC w).flags = d.flags := by
  rw [setRegC]
  split <;> rfl

theorem perform_exact (hscan : FlagsOnly scan) {a : Call} (h : Exact scan x)
    (hr : perform c scan a x = .ok (v, r)) : Exact scan r := by
  cases a with
  | setIntEnabled b => exact setIntEnabled_exact (of_silent hr)
  | control w => exact control_exact h (of_silent hr)
  | getRegA | getRegB | getRegC =>
    obtain rfl := (Prod.mk.inj (Except.ok.inj hr)).2
    exact h
  | setRegC w =>
    obtain rfl := Except.ok.inj (of_silent hr)
    have hflags := setRegC_flags w x.device
    exact h.of_quiet hscan
      ⟨congrArg DeviceFlags.mInterruptActive hflags, congrArg DeviceFlags.mInterruptEnabled hflags, rfl⟩
  | setRegA w | setRegB w | tick =>
    obtain rfl := Except.ok.inj (of_silent hr)
    exact h.of_quiet hscan ⟨rfl, rfl, rfl⟩

end IopExpDiskAmpexDM980

namespace IopExpDiskCDC9448

variable {c : IopExpDisk.Config} {scan : IopExpDiskCDC9448 → Except Exn Bool}
  {x r : Plugged IopExpDiskCDC9448} {v : IopInt}

theorem start_exact (hr : start c scan x = .ok r) : Exact scan r := by
  rw [start] at hr
  split at hr
  · cases hr
  · split at hr
    case h_4 => cases hr
    all_goals
      obtain ⟨_, _, hfinish⟩ := EventRun.exists_of_bind hr
      exact setIntActive_exact hfinish

theorem control_exact (hscan : FlagsOnly scan) {a : IopInt} (h : Exact scan x)
    (hr : control c scan a x = .ok r) : Exact scan r := by
  rw [control] at hr
  obtain ⟨y, hclear, hrest⟩ := EventRun.exists_of_bind hr
  have hy := clearInt_exact h hclear
  dsimp only at hrest
  split at hrest
  · exact start_exact hrest
  · obtain rfl := Except.ok.inj hrest
    exact hy.of_quiet hscan ⟨rfl, rfl, rfl⟩

theorem setRegC_flags (w : IopInt) (d : IopExpDiskCDC9448) : (d.setRegC w).flags = d.flags := by
  rw [setRegC]
  split <;> rfl

theorem perform_exact (hscan : FlagsOnly scan) {a : Call} (h : Exact scan x)
    (hr : perform c scan a x = .ok (v, r)) : Exact scan r := by
  cases a with
  | setIntEnabled b => exact setIntEnabled_exact (of_silent hr)
  | control w => exact control_exact hscan h (of_silent hr)
  | getRegA | getRegB | getRegC =>
    obtain rfl := (Prod.mk.inj (Except.ok.inj hr)).2
    exact h
  | setRegC w =>
    obtain rfl := Except.ok.inj (of_silent hr)
    have hflags := setRegC_flags w x.device
    exact h.of_quiet hscan
      ⟨congrArg DeviceFlags.mInterruptActive hflags, congrArg DeviceFlags.mInterruptEnabled hflags, rfl⟩
  | setRegA w | setRegB w | tick =>
    obtain rfl := Except.ok.inj (of_silent hr)
    exact h.of_quiet hscan ⟨rfl, rfl, rfl⟩

end IopExpDiskCDC9448

namespace IopExpTape

variable {mIsReadOnly : Bool} {scan : IopExpTape → Except Exn Bool} {x r : Plugged IopExpTape}
  {v : IopInt}

theorem onTape_quiet {α : Type} {m : Poked α} {a : α} (h : onTape m x = .ok (a, r)) :
    Quiet x r := by
  rw [onTape_eq h]
  exact ⟨rfl, rfl, rfl⟩

theorem readForward_exact (hr : readForward scan x = .ok r) : Exact scan r := by
  obtain ⟨⟨_, x₁⟩, _, hr⟩ := EventRun.exists_of_bind hr
  obtain ⟨_, _, hr⟩ := EventRun.exists_of_bind hr
  obtain ⟨⟨_, x₂⟩, _, hr⟩ := EventRun.exists_of_bind hr
  obtain ⟨⟨_, x₃⟩, _, hr⟩ := EventRun.exists_of_bind hr
  obtain ⟨⟨_, x₄⟩, _, hr⟩ := EventRun.exists_of_bind hr
  exact setIntActive_exact hr

theorem rewind_exact (hscan : FlagsOnly scan) (hr : rewind scan x = .ok r) : Exact scan r := by
  obtain ⟨⟨_, x₁⟩, _, hr⟩ := EventRun.exists_of_bind hr
  obtain ⟨⟨_, x₂⟩, _, hr⟩ := EventRun.exists_of_bind hr
  obtain ⟨x₃, hfinish, hr⟩ := EventRun.exists_of_bind hr
  obtain ⟨⟨_, x₄⟩, hclose, hr⟩ := EventRun.exists_of_bind hr
  obtain rfl := Except.ok.inj hr
  exact (setIntActive_exact hfinish).of_quiet hscan (onTape_quiet hclose)

/-- The loop either ends with the interrupt of a command, or changes no flag. -/
theorem spaceRecords_exact (hscan : FlagsOnly scan) {seek : Poked Unit} {n : Nat}
    (h : Exact scan x) (hr : spaceRecords scan seek n x = .ok r) : Exact scan r := by
  induction n generalizing x with
  | zero => exact Except.ok.inj hr ▸ h
  | succ n ih =>
    obtain ⟨⟨_, x₁⟩, hseek, hr⟩ := EventRun.exists_of_bind hr
    obtain ⟨⟨_, x₂⟩, hstate, hr⟩ := EventRun.exists_of_bind hr
    have hx₂ := h.of_quiet hscan ((onTape_quiet hseek).trans (onTape_quiet hstate))
    dsimp only at hr
    split at hr
    · exact setIntActive_exact hr
    · refine ih ?_ hr
      exact hx₂.of_quiet hscan ⟨rfl, rfl, rfl⟩

theorem space_exact (hscan : FlagsOnly scan) {seek : Poked Unit} (h : Exact scan x)
    (hr : space scan seek x = .ok r) : Exact scan r := by
  obtain ⟨⟨_, x₁⟩, hopen, hr⟩ := EventRun.exists_of_bind hr
  obtain ⟨_, _, hr⟩ := EventRun.exists_of_bind hr
  obtain ⟨⟨_, x₂⟩, htell, hr⟩ := EventRun.exists_of_bind hr
  obtain ⟨x₃, hloop, hr⟩ := EventRun.exists_of_bind hr
  have hx₂ := h.of_quiet hscan ((onTape_quiet hopen).trans (onTape_quiet htell))
  split at hr
  · exact setIntActive_exact hr
  · exact Except.ok.inj hr ▸ spaceRecords_exact hscan hx₂ hloop

theorem writeForward_exact (hr : writeForward mIsReadOnly scan x = .ok r) : Exact scan r := by
  rw [writeForward] at hr
  split at hr
  · cases hr
  · obtain ⟨⟨_, x₁⟩, _, hr⟩ := EventRun.exists_of_bind hr
    obtain ⟨_, _, hr⟩ := EventRun.exists_of_bind hr
    obtain ⟨⟨_, x₂⟩, _, hr⟩ := EventRun.exists_of_bind hr
    obtain ⟨⟨_, x₃⟩, _, hr⟩ := EventRun.exists_of_bind hr
    exact setIntActive_exact hr

theorem writeEOF_exact (hr : writeEOF mIsReadOnly scan x = .ok r) : Exact scan r := by
  rw [writeEOF] at hr
  split at hr
  · cases hr
  · obtain ⟨⟨_, x₁⟩, _, hr⟩ := EventRun.exists_of_bind hr
    obtain ⟨⟨_, x₂⟩, _, hr⟩ := EventRun.exists_of_bind hr
    obtain ⟨⟨_, x₃⟩, _, hr⟩ := EventRun.exists_of_bind hr
    exact setIntActive_exact hr

theorem start_exact (hscan : FlagsOnly scan) (h : Exact scan x)
    (hr : start mIsReadOnly scan x = .ok r) : Exact scan r := by
  have hx : Exact scan { x with device := { x.device with mRegAStat := 0 } } :=
    h.of_quiet hscan ⟨rfl, rfl, rfl⟩
  rw [start] at hr
  dsimp only at hr
  split at hr
  · exact readForward_exact hr
  · exact rewind_exact hscan hr
  · exact space_exact hscan hx hr
  · exact space_exact hscan hx hr
  · exact writeForward_exact hr
  · exact writeEOF_exact hr
  · cases hr

theorem control_exact (hscan : FlagsOnly scan) {a : IopInt} (h : Exact scan x)
    (hr : control mIsReadOnly scan a x = .ok r) : Exact scan r := by
  rw [control] at hr
  split at hr
  · cases hr
  · obtain ⟨y, hclear, hstart⟩ := EventRun.exists_of_bind hr
    have hy := clearInt_exact h hclear
    split at hstart
    · exact start_exact hscan hy hstart
    · exact Except.ok.inj hstart ▸ hy

theorem perform_exact (hscan : FlagsOnly scan) {a : Call} (h : Exact scan x)
    (hr : perform mIsReadOnly scan a x = .ok (v, r)) : Exact scan r := by
  cases a with
  | setIntEnabled b => exact setIntEnabled_exact (of_silent hr)
  | control w => exact control_exact hscan h (of_silent hr)
  | getRegA =>
    obtain ⟨⟨_, x₁⟩, hstate, hr⟩ := EventRun.exists_of_bind hr
    obtain rfl := (Prod.mk.inj (Except.ok.inj hr)).2
    exact h.of_quiet hscan (onTape_quiet hstate)
  | getRegB | getRegC =>
    obtain rfl := (Prod.mk.inj (Except.ok.inj hr)).2
    exact h
  | setRegA w | setRegB w | setRegC w | tick =>
    obtain rfl := Except.ok.inj (of_silent hr)
    exact h.of_quiet hscan ⟨rfl, rfl, rfl⟩

end IopExpTape

namespace IopExpPrinterDevice

variable {scan : IopExpPrinterDevice → Except Exn Bool} {x r : Plugged IopExpPrinterDevice}
  {v : IopInt}

theorem setRegC_exact (hscan : FlagsOnly scan) {w : IopInt} (hr : setRegC scan w x = .ok r) :
    Exact scan r := by
  obtain ⟨y, hset, hr⟩ := EventRun.exists_of_bind hr
  obtain rfl := Except.ok.inj hr
  exact (setIntActive_exact hset).of_quiet hscan ⟨rfl, rfl, rfl⟩

theorem pulse_exact (hscan : FlagsOnly scan) (h : Exact scan x) (hr : pulse scan x = .ok r) :
    Exact scan r := by
  rw [pulse] at hr
  dsimp only at hr
  split at hr
  case h_1 | h_4 | h_5 =>
    obtain ⟨y, hset, hr⟩ := EventRun.exists_of_bind hr
    obtain rfl := Except.ok.inj hr
    exact (setIntActive_exact hset).of_quiet hscan ⟨rfl, rfl, rfl⟩
  all_goals
    obtain rfl := Except.ok.inj hr
    exact h.of_quiet hscan ⟨rfl, rfl, rfl⟩

theorem control_exact (hscan : FlagsOnly scan) {a : IopInt} (h : Exact scan x)
    (hr : control scan a x = .ok r) : Exact scan r := by
  rw [control] at hr
  split at hr
  · cases hr
  · obtain ⟨y, hclear, hpulse⟩ := EventRun.exists_of_bind hr
    have hy := clearInt_exact h hclear
    split at hpulse
    · exact pulse_exact hscan hy hpulse
    · exact Except.ok.inj hpulse ▸ hy

theorem perform_exact (hscan : FlagsOnly scan) {a : Call} (h : Exact scan x)
    (hr : perform scan a x = .ok (v, r)) : Exact scan r := by
  cases a with
  | setIntEnabled b => exact setIntEnabled_exact (of_silent hr)
  | setRegC w => exact setRegC_exact hscan (of_silent hr)
  | control w => exact control_exact hscan h (of_silent hr)
  | getRegA | getRegB | getRegC =>
    obtain rfl := (Prod.mk.inj (Except.ok.inj hr)).2
    exact h
  | setRegA w | setRegB w | tick =>
    obtain rfl := Except.ok.inj (of_silent hr)
    exact h.of_quiet hscan ⟨rfl, rfl, rfl⟩

end IopExpPrinterDevice

namespace IopExpClockDevice

variable {c : Config} {now : HostTime} {scan : IopExpClockDevice → Except Exn Bool}
  {x r : Plugged IopExpClockDevice} {v addr : IopInt}

/-- A look sees the enable flag of the clock and its active flags, and nothing else of it. -/
def ClockFlagsOnly (scan : IopExpClockDevice → Except Exn Bool) : Prop :=
  ∀ d d', d.mInterruptActive = d'.mInterruptActive → d.mInterruptEnabled = d'.mInterruptEnabled →
    scan d = scan d'

theorem exact_of_clock (hscan : ClockFlagsOnly scan) (h : Exact scan x) {d : IopExpClockDevice}
    (hactive : d.mInterruptActive = x.device.mInterruptActive)
    (henabled : d.mInterruptEnabled = x.device.mInterruptEnabled) :
    Exact scan { x with device := d } :=
  (hscan _ _ hactive henabled).trans h

theorem setIntActive_exact {a : Bool} (hr : setIntActive scan addr a x = .ok r) :
    Exact scan r := by
  obtain ⟨_, _, hr⟩ := EventRun.exists_of_bind hr
  exact intStatusChanged_exact hr

theorem setRegA_exact (hscan : ClockFlagsOnly scan) {w : IopInt} (h : Exact scan x)
    (hr : setRegA scan addr w x = .ok r) : Exact scan r := by
  obtain ⟨_, _, hr⟩ := EventRun.exists_of_bind hr
  split at hr
  · exact setIntActive_exact hr
  · obtain rfl := Except.ok.inj hr
    exact exact_of_clock hscan h rfl rfl

theorem getRegA_exact (h : Exact scan x) (hr : getRegA c scan addr x = .ok (v, r)) :
    Exact scan r := by
  rw [getRegA] at hr
  split at hr
  · exact (Prod.mk.inj (Except.ok.inj hr)).2 ▸ h
  · split at hr
    · exact (Prod.mk.inj (Except.ok.inj hr)).2 ▸ h
    · obtain ⟨y, hset, hr⟩ := EventRun.exists_of_bind hr
      obtain rfl := (Prod.mk.inj (Except.ok.inj hr)).2
      exact setIntActive_exact hset

theorem clearInt_exact (hscan : ClockFlagsOnly scan) {a : IopInt} (h : Exact scan x)
    (hr : clearInt c scan addr a x = .ok r) : Exact scan r := by
  rw [clearInt] at hr
  split at hr
  · exact Except.ok.inj hr ▸ h
  · obtain ⟨y, hset, hr⟩ := EventRun.exists_of_bind hr
    obtain rfl := Except.ok.inj hr
    exact exact_of_clock hscan (setIntActive_exact hset) rfl rfl

theorem control_exact (hscan : ClockFlagsOnly scan) {a : IopInt} (h : Exact scan x)
    (hr : control c now scan addr a x = .ok r) : Exact scan r := by
  rw [control] at hr
  split at hr
  · cases hr
  · obtain ⟨y, hclear, hr⟩ := EventRun.exists_of_bind hr
    have hy := clearInt_exact hscan h hclear
    split at hr
    · exact setIntActive_exact hr
    · exact Except.ok.inj hr ▸ hy

theorem tick_exact (hscan : ClockFlagsOnly scan) (h : Exact scan x) (hr : tick c scan x = .ok r) :
    Exact scan r := by
  rw [tick] at hr
  split at hr
  · exact Except.ok.inj hr ▸ h
  · dsimp only at hr
    split at hr
    · obtain rfl := Except.ok.inj hr
      exact exact_of_clock hscan h rfl rfl
    · obtain ⟨y, hset, hr⟩ := EventRun.exists_of_bind hr
      obtain rfl := Except.ok.inj hr
      exact exact_of_clock hscan (setIntActive_exact hset) rfl rfl

theorem perform_exact (hscan : ClockFlagsOnly scan) {a : Call} (h : Exact scan x)
    (hr : perform c now scan addr a x = .ok (v, r)) : Exact scan r := by
  cases a with
  | setIntEnabled b => exact intStatusChanged_exact (of_silent hr)
  | setRegA w => exact setRegA_exact hscan h (of_silent hr)
  | control w => exact control_exact hscan h (of_silent hr)
  | tick => exact tick_exact hscan h (of_silent hr)
  | getRegA => exact getRegA_exact h hr
  | getRegB | getRegC => exact (Prod.mk.inj (Except.ok.inj hr)).2 ▸ h
  | setRegB w | setRegC w =>
    obtain rfl := Except.ok.inj (of_silent hr)
    exact exact_of_clock hscan h rfl rfl

end IopExpClockDevice

namespace IopExpDummyDevice

variable {scan : IopExpDummyDevice → Except Exn Bool} {x r : Plugged IopExpDummyDevice} {v : IopInt}

theorem perform_inactive {a : Call} (h : x.device.flags.mInterruptActive = false)
    (hr : perform scan a x = .ok (v, r)) : r.device.flags.mInterruptActive = false := by
  cases a with
  | setIntEnabled b =>
    obtain ⟨found, -, hr⟩ := EventRun.exists_of_bind (of_silent hr)
    obtain rfl := Except.ok.inj hr
    exact h
  | control c =>
    have hcontrol := of_silent hr
    rw [control] at hcontrol
    split at hcontrol
    · cases hcontrol
    · rw [clearInt] at hcontrol
      split at hcontrol
      · obtain ⟨found, -, hset⟩ := EventRun.exists_of_bind hcontrol
        obtain rfl := Except.ok.inj hset
        rfl
      · exact Except.ok.inj hcontrol ▸ h
  | getRegA | getRegB | getRegC =>
    obtain rfl := (Prod.mk.inj (Except.ok.inj hr)).2
    exact h
  | setRegA w | setRegB w | setRegC w | tick =>
    obtain rfl := Except.ok.inj (of_silent hr)
    exact h

end IopExpDummyDevice

/-! ## 3. The channel -/

namespace ExpDevice

/-- What a look sees of a device. -/
def seen (aDeviceAddr : IopInt) (d : ExpDevice) : Except Exn Bool :=
  (d.getStatus aDeviceAddr).map requests

/-- A look that depends on that only. -/
def SeesOnly (scan : ExpDevice → Except Exn Bool) : Prop :=
  ∀ d d', (∀ i, seen i d = seen i d') → scan d = scan d'

variable {now : HostTime} {scan : ExpDevice → Except Exn Bool} {x r : Plugged ExpDevice}
  {v addr : IopInt}

theorem seen_of_flags {D : Type} [IopExpDevice D] (d : D) :
    (Except.ok (IopExpDevice.getStatus d) : Except Exn IopInt).map requests =
      .ok ((flags d).mInterruptEnabled && (flags d).mInterruptActive) :=
  congrArg Except.ok (requests_statusOf _ _ _ _)

/-- A dummy has no interrupt. -/
def IsDummy (d : ExpDevice) : Prop :=
  ∃ e : IopExpDummyDevice, d = .dummy e ∧ e.flags.mInterruptActive = false

theorem IsDummy.not_seen {d : ExpDevice} (h : d.IsDummy) : d.seen addr = .ok false := by
  obtain ⟨e, rfl, hactive⟩ := h
  refine (seen_of_flags e).trans (congrArg Except.ok ?_)
  rw [show (IopExpDevice.flags e).mInterruptActive = false from hactive, Bool.and_false]

/-- For a device with a single interrupt such a look depends on its flags. -/
theorem flagsOnly {D : Type} [IopExpDevice D] {wrap : D → ExpDevice} (hscan : SeesOnly scan)
    (hwrap : ∀ d i, (wrap d).getStatus i = .ok (IopExpDevice.getStatus d)) :
    FlagsOnly fun d => scan (wrap d) := by
  intro d d' hactive henabled
  refine hscan _ _ fun i => ?_
  rw [seen, seen, hwrap, hwrap, seen_of_flags, seen_of_flags, hactive, henabled]

theorem clockFlagsOnly (c : IopExpClockDevice.Config) (hscan : SeesOnly scan) :
    IopExpClockDevice.ClockFlagsOnly fun d => scan (.clock c d) := by
  intro d d' hactive henabled
  refine hscan _ _ fun i => ?_
  rw [seen, seen, getStatus, getStatus, IopExpClockDevice.getStatus, IopExpClockDevice.getStatus]
  rcases IopExpClockDevice.assertAddr i with e | k
  · rfl
  · show Except.ok (requests _) = Except.ok (requests _)
    rw [requests_statusOf, requests_statusOf, hactive, henabled]

/-- A call to a device of a class keeps the summary of the channel right. -/
theorem within_exact {D : Type} {wrap : D → ExpDevice} {d : D}
    {m : Plugged D → Except Exn (IopInt × Plugged D)}
    (hm : ∀ y v r, Exact (fun d => scan (wrap d)) y → m y = .ok (v, r) →
      Exact (fun d => scan (wrap d)) r)
    (hd : x.device = wrap d) (h : Exact scan x) (hr : within wrap m x d = .ok (v, r)) :
    Exact scan r := by
  obtain ⟨w, y, hrun, rfl⟩ := of_within hr
  rw [Exact, hd] at h
  exact hm ⟨d, x.ioMemory, x.mDeviceInterruptPending⟩ w y h hrun

/-- **A call**, to a device of any class. -/
theorem perform_exact (hscan : SeesOnly scan) {a : Call} (h : Exact scan x)
    (hr : perform now scan addr a x = .ok (v, r)) : Exact scan r := by
  rw [perform] at hr
  split at hr
  case h_1 ro d hd =>
    exact within_exact (fun _ _ _ => IopExpTape.perform_exact (flagsOnly hscan fun _ _ => rfl))
      hd h hr
  case h_2 c d hd =>
    exact within_exact
      (fun _ _ _ => IopExpDiskAmpexDM980.perform_exact (flagsOnly hscan fun _ _ => rfl)) hd h hr
  case h_3 c d hd =>
    exact within_exact
      (fun _ _ _ => IopExpDiskCDC9448.perform_exact (flagsOnly hscan fun _ _ => rfl)) hd h hr
  case h_4 d hd =>
    exact within_exact
      (fun _ _ _ => IopExpDummyDevice.perform_exact (flagsOnly hscan fun _ _ => rfl)) hd h hr
  case h_5 d hd =>
    exact within_exact
      (fun _ _ _ => IopExpPrinterDevice.perform_exact (flagsOnly hscan fun _ _ => rfl)) hd h hr
  case h_6 c d hd =>
    exact within_exact
      (fun _ _ _ => IopExpClockDevice.perform_exact (clockFlagsOnly c hscan)) hd h hr

end ExpDevice

namespace IopChannelExp

variable {now : HostTime} {s s' : IopChannelExp} {v : IopInt}

/-- The summary is what a look at the devices finds. -/
def SummaryExact (s : IopChannelExp) : Prop :=
  pending s.mDevices s.device = .ok s.mDeviceInterruptPending

theorem lookAt_congr {device device' : Nat → ExpDevice} (l : List (Option Nat)) (i : Nat)
    (h : ∀ k i, (device k).seen i = (device' k).seen i) :
    lookAt device l i = lookAt device' l i := by
  induction l generalizing i with
  | nil => rfl
  | cons o rest ih =>
    cases o with
    | none => exact ih (i + 1)
    | some k =>
      have hk := h k (BitVec.ofNat 16 i)
      rw [ExpDevice.seen, ExpDevice.seen] at hk
      rw [lookAt, lookAt]
      generalize (device k).getStatus (BitVec.ofNat 16 i) = found at hk ⊢
      generalize (device' k).getStatus (BitVec.ofNat 16 i) = found' at hk ⊢
      rcases found with e | status <;> rcases found' with e' | status'
      · obtain rfl := Except.error.inj hk
        rfl
      · cases hk
      · cases hk
      · have hreq : requests status = requests status' := Except.ok.inj hk
        show (if requests status then _ else _) = if requests status' then _ else _
        rw [hreq, ih]

/-- A look at the channel sees of a device what a look sees. -/
theorem seesOnly_pending (mDevices : List (Option Nat)) (device : Nat → ExpDevice) (k : Nat) :
    ExpDevice.SeesOnly fun d => pending mDevices (Function.update device k d) := by
  intro d d' hd
  refine lookAt_congr _ _ fun j i => ?_
  by_cases hj : j = k
  · subst hj
    rw [Function.update_self, Function.update_self, hd]
  · rw [Function.update_of_ne hj, Function.update_of_ne hj]

/-- **A call** from the channel to one of its devices. -/
theorem call_exact {k : Nat} {addr : IopInt} {a : Call} (h : SummaryExact s)
    (hr : call now k addr a s = .ok (v, s')) : SummaryExact s' := by
  obtain ⟨⟨w, y⟩, hperform, hr⟩ := EventRun.exists_of_bind hr
  obtain rfl := (Prod.mk.inj (Except.ok.inj hr)).2
  refine ExpDevice.perform_exact (seesOnly_pending s.mDevices s.device k) ?_ hperform
  show pending s.mDevices (Function.update s.device k (s.device k)) = _
  rw [Function.update_eq_self]
  exact h

/-- **An event** keeps the summary exact, as every call does. -/
theorem step_exact (e : Event) (h : SummaryExact s) (hr : step e s = .ok s') :
    SummaryExact s' := by
  refine step_keeps ?_ (fun now a _ k addr s v s' h hcall => call_exact h hcall)
    (fun w now k v y _ _ hcall => call_exact h hcall) h hr
  rintro ⟨⟩ ⟨⟩ rfl rfl rfl hs
  exact hs

/-! ## 4. Where the devices stand -/

/-- From address `n` on there are dummies only. -/
def DummiesFrom (n : Nat) (mDevices : List (Option Nat)) (device : Nat → ExpDevice) : Prop :=
  ∀ i k, n ≤ i → mDevices[i]? = some (some k) → (device k).IsDummy

theorem call_dummy {k : Nat} {addr : IopInt} {a : Call} (hr : call now k addr a s = .ok (v, s')) :
    s'.mDevices = s.mDevices ∧ s'.mActiveChannel = s.mActiveChannel ∧
      ∀ j, (s.device j).IsDummy → (s'.device j).IsDummy := by
  obtain ⟨⟨w, y⟩, hperform, hr⟩ := EventRun.exists_of_bind hr
  obtain rfl := (Prod.mk.inj (Except.ok.inj hr)).2
  refine ⟨rfl, rfl, fun j hj => ?_⟩
  by_cases hjk : j = k
  · subst hjk
    obtain ⟨e, hdevice, hactive⟩ := hj
    rw [ExpDevice.perform] at hperform
    simp only [hdevice] at hperform
    obtain ⟨w', y', hdummy, rfl⟩ := ExpDevice.of_within hperform
    refine ⟨y'.device, ?_, IopExpDummyDevice.perform_inactive hactive hdummy⟩
    exact Function.update_self j _ s.device
  · show (Function.update s.device k y.device j).IsDummy
    rw [Function.update_of_ne hjk]
    exact hj

/-- **An event** leaves the addresses to the dummies. -/
theorem step_dummiesFrom {n : Nat} {e : Event} (h : DummiesFrom n s.mDevices s.device)
    (hr : step e s = .ok s') : DummiesFrom n s'.mDevices s'.device := by
  have hcall : ∀ now a, CallKeeps now (fun s => DummiesFrom n s.mDevices s.device) a := by
    intro now a k addr s v s' hs hcalled i j hi hj
    obtain ⟨hdevices, -, hdummy⟩ := call_dummy hcalled
    exact hdummy j (hs i j hi (hdevices ▸ hj))
  refine @step_keeps (fun s => DummiesFrom n s.mDevices s.device) _ _ _ ?_
    (fun now a _ => hcall now a) (fun w now k v y _ _ hcalled => ?_) h hr
  · intro s s' hdevices hdevice _ hs
    simp only [hdevices, hdevice]
    exact hs
  · exact hcall now (.control w) k _ s v y h hcalled

/-- **An event** leaves the table as it is. -/
theorem step_mDevices {e : Event} (hr : step e s = .ok s') : s'.mDevices = s.mDevices := by
  have hcall : ∀ now a, CallKeeps now (fun y => y.mDevices = s.mDevices) a :=
    fun now a k addr y v y' hy hcalled => (call_dummy hcalled).1.trans hy
  refine @step_keeps (fun y => y.mDevices = s.mDevices) _ _ _ ?_ (fun now a _ => hcall now a)
    (fun w now k v y _ _ hcalled => hcall now (.control w) k _ s v y rfl hcalled) rfl hr
  intro y y' hdevices _ _ hy
  exact hdevices.trans hy

/-- The dummies of a configuration. -/
def DeviceParams.IsDummy (p : DeviceParams) : Prop := ∃ i, p = .dummy i

/-- The devices of a table from address `n` on are dummies, and there are fewer than counted. -/
def PlacedFrom (n : Nat) (t : Tables) : Prop :=
  ∀ i k, n ≤ i → t.mDevices[i]? = some (some k) → k < t.cnt ∧ (t.device k).IsDummy

theorem place_at {k : Nat} {idxs : List Nat} {l l' : List (Option Nat)}
    (h : place k idxs l = .ok l') :
    l'.length = l.length ∧
      ∀ i j, l'[i]? = some (some j) → i ∈ idxs ∧ j = k ∨ l[i]? = some (some j) := by
  induction idxs generalizing l with
  | nil =>
    obtain rfl := Except.ok.inj h
    exact ⟨rfl, fun i j hi => .inr hi⟩
  | cons a rest ih =>
    rw [place] at h
    split at h
    · cases h
    · cases h
    · next hfree =>
      obtain ⟨hlen, hat⟩ := ih h
      rw [List.length_set] at hlen
      refine ⟨hlen, fun i j hi => ?_⟩
      rcases hat i j hi with ⟨hmem, hj⟩ | hset
      · exact .inl ⟨List.mem_cons_of_mem a hmem, hj⟩
      · by_cases hia : i = a
        · have hin := (List.getElem?_eq_some_iff.mp hfree).1
          rw [hia, List.getElem?_set_self hin] at hset
          exact .inl ⟨hia ▸ List.mem_cons_self, (Option.some.inj (Option.some.inj hset)).symm⟩
        · rw [List.getElem?_set_ne (Ne.symm hia)] at hset
          exact .inr hset

theorem mapInterrupt_inside {n : Nat} {idxs mapping mapping' : List Nat}
    (h : mapInterrupt n idxs mapping = .ok mapping') :
    mapping'.length = mapping.length ∧ ∀ i ∈ idxs, i < mapping.length := by
  induction idxs generalizing mapping with
  | nil =>
    obtain rfl := Except.ok.inj h
    exact ⟨rfl, fun i hi => absurd hi List.not_mem_nil⟩
  | cons a rest ih =>
    rw [mapInterrupt] at h
    split at h
    · obtain ⟨hlen, hinside⟩ := ih h
      rw [List.length_set] at hlen hinside
      refine ⟨hlen, fun i hi => ?_⟩
      rcases List.mem_cons.mp hi with rfl | hi
      · assumption
      · exact hinside i hi
    · cases h

/-- What adding a device does: its addresses are in the mapping, and the tables keep their sizes. -/
theorem addDevice_sizes {t t' : Tables} {deviceInt : Nat} {p : DeviceParams}
    (hr : addDevice t deviceInt p = .ok t') :
    t'.mDevices.length = t.mDevices.length ∧
      t'.mDeviceIntMapping.length = t.mDeviceIntMapping.length ∧
      (∀ i ∈ p.channelIdxs, i < t.mDeviceIntMapping.length) ∧
      ∀ n, PlacedFrom n t → (p.IsDummy ∨ ∀ i ∈ p.channelIdxs, i < n) → PlacedFrom n t' := by
  rw [addDevice] at hr
  split at hr
  · cases hr
  · obtain ⟨placed, hplace, hr⟩ := EventRun.exists_of_bind hr
    obtain ⟨used, -, hr⟩ := EventRun.exists_of_bind hr
    split at hr
    · cases hr
    · obtain ⟨mapping, hmap, hr⟩ := EventRun.exists_of_bind hr
      obtain rfl := Except.ok.inj hr
      obtain ⟨hlen, hinside⟩ := mapInterrupt_inside hmap
      obtain ⟨hsize, hat⟩ := place_at hplace
      refine ⟨hsize, hlen, hinside, fun n hn hp i k hi hk => ?_⟩
      rcases hat i k hk with ⟨hmem, rfl⟩ | hbefore
      · -- the new device
        refine ⟨Nat.lt_succ_self _, ?_⟩
        show (Function.update t.device t.cnt p.make t.cnt).IsDummy
        rw [Function.update_self]
        rcases hp with ⟨_, rfl⟩ | hbelow
        · exact ⟨_, rfl, rfl⟩
        · exact absurd (hbelow i hmem) (Nat.not_lt.mpr hi)
      · obtain ⟨hcnt, hdummy⟩ := hn i k hi hbefore
        refine ⟨Nat.lt_succ_of_lt hcnt, ?_⟩
        show (Function.update t.device t.cnt p.make k).IsDummy
        rw [Function.update_of_ne (Nat.ne_of_lt hcnt)]
        exact hdummy

theorem addDevices_sizes {l : List (Nat × DeviceParams)} {t t' : Tables}
    (hr : l.foldlM (fun t d => addDevice t d.1 d.2) t = .ok t') :
    t'.mDevices.length = t.mDevices.length ∧
      (∀ d ∈ l, ∀ i ∈ d.2.channelIdxs, i < t.mDeviceIntMapping.length) ∧
      ∀ n, PlacedFrom n t → (∀ d ∈ l, d.2.IsDummy ∨ ∀ i ∈ d.2.channelIdxs, i < n) →
        PlacedFrom n t' := by
  induction l generalizing t with
  | nil =>
    obtain rfl := Except.ok.inj hr
    exact ⟨rfl, fun d hd => absurd hd List.not_mem_nil, fun n hn _ => hn⟩
  | cons d rest ih =>
    rw [List.foldlM_cons] at hr
    obtain ⟨t₁, hadd, hr⟩ := EventRun.exists_of_bind hr
    obtain ⟨hsize, hmapping, hinside, hplaced⟩ := addDevice_sizes hadd
    obtain ⟨hsizes, hinsides, hplaceds⟩ := ih hr
    rw [hmapping] at hinsides
    refine ⟨hsizes.trans hsize, fun e he => ?_, fun n hn hl => ?_⟩
    · rcases List.mem_cons.mp he with rfl | he
      · exact hinside
      · exact hinsides e he
    · exact hplaceds n (hplaced n hn (hl d List.mem_cons_self))
        fun e he => hl e (List.mem_cons_of_mem d he)

/-- What is filled in is a dummy; `filled` is what is filled in already. -/
theorem fillDummies_from {n : Nat} {t : Tables} {l filled : List (Option Nat)}
    (h : ∀ i k, n ≤ i → (filled ++ l)[i]? = some (some k) → k < t.cnt ∧ (t.device k).IsDummy) :
    (fillDummies t l filled).mDevices.length = filled.length + l.length ∧
      DummiesFrom n (fillDummies t l filled).mDevices (fillDummies t l filled).device := by
  induction l generalizing t filled with
  | nil =>
    rw [List.append_nil] at h
    exact ⟨rfl, fun i k hi hk => (h i k hi hk).2⟩
  | cons o rest ih =>
    cases o with
    | some k₀ =>
      obtain ⟨hlen, hdummies⟩ := @ih t (filled ++ [some k₀]) (by rwa [← List.append_cons])
      rw [List.length_append, Nat.add_assoc, Nat.add_comm [some k₀].length] at hlen
      exact ⟨hlen, hdummies⟩
    | none =>
      refine (fun hkeep => ?_) (@ih
        { t with device := Function.update t.device t.cnt (.dummy .new), cnt := t.cnt + 1 }
        (filled ++ [some t.cnt]) ?_)
      · obtain ⟨hlen, hdummies⟩ := hkeep
        rw [List.length_append, Nat.add_assoc, Nat.add_comm [some t.cnt].length] at hlen
        exact ⟨hlen, hdummies⟩
      · intro i k hi hk
        have hset : filled ++ [some t.cnt] ++ rest =
            (filled ++ none :: rest).set filled.length (some t.cnt) := by simp
        rw [hset] at hk
        by_cases hil : i = filled.length
        · rw [hil, List.getElem?_set_self (by simp)] at hk
          obtain rfl := Option.some.inj (Option.some.inj hk)
          refine ⟨Nat.lt_succ_self _, ?_⟩
          show (Function.update t.device t.cnt (.dummy .new) t.cnt).IsDummy
          rw [Function.update_self]
          exact ⟨_, rfl, rfl⟩
        · rw [List.getElem?_set_ne (Ne.symm hil)] at hk
          obtain ⟨hcnt, hdummy⟩ := h i k hi hk
          refine ⟨Nat.lt_succ_of_lt hcnt, ?_⟩
          show (Function.update t.device t.cnt (.dummy .new) k).IsDummy
          rw [Function.update_of_ne (Nat.ne_of_lt hcnt)]
          exact hdummy

section setup
variable {aConfig : Configuration} {enabled : Bool} {mem : IoMemory}

/-- The tables that the loop over the configuration leaves. -/
theorem setup_tables (h : setup aConfig enabled mem = .ok s) :
    ∃ t, aConfig.devices.foldlM (fun t d => addDevice t d.1 d.2)
        ⟨List.replicate aConfig.deviceCount none, List.replicate 64 0, fun _ => .dummy .new, 0⟩ =
          .ok t ∧
      s.mDevices = (if aConfig.useDummyDevices then fillDummies t t.mDevices [] else t).mDevices ∧
      s.device = (if aConfig.useDummyDevices then fillDummies t t.mDevices [] else t).device := by
  obtain ⟨t, hadd, h⟩ := EventRun.exists_of_bind h
  obtain ⟨found, -, h⟩ := EventRun.exists_of_bind h
  obtain rfl := Except.ok.inj h
  exact ⟨t, hadd, rfl, rfl⟩

/-- A device that is registered stands below address 64. -/
theorem setup_below (h : setup aConfig enabled mem = .ok s) :
    ∀ d ∈ aConfig.devices, ∀ i ∈ d.2.channelIdxs, i < 64 := by
  obtain ⟨t, hadd, -, -⟩ := setup_tables h
  have hbelow := (addDevices_sizes hadd).2.1
  rwa [List.length_replicate] at hbelow

theorem setup_length (h : setup aConfig enabled mem = .ok s) :
    s.mDevices.length = aConfig.deviceCount := by
  obtain ⟨t, hadd, hdevices, -⟩ := setup_tables h
  have hlen := (addDevices_sizes hadd).1
  rw [List.length_replicate] at hlen
  rw [hdevices]
  split
  · rw [(fillDummies_from (n := t.mDevices.length) fun i k hi hk => ?_).1]
    · simpa using hlen
    · rw [List.nil_append, List.getElem?_eq_none hi] at hk
      cases hk
  · exact hlen

theorem setup_dummiesFrom {n : Nat}
    (hn : ∀ d ∈ aConfig.devices, d.2.IsDummy ∨ ∀ i ∈ d.2.channelIdxs, i < n)
    (h : setup aConfig enabled mem = .ok s) : DummiesFrom n s.mDevices s.device := by
  obtain ⟨t, hadd, hdevices, hdevice⟩ := setup_tables h
  have hplaced : PlacedFrom n t := by
    refine (addDevices_sizes hadd).2.2 n (fun i k _ hk => ?_) hn
    have := List.mem_of_getElem? hk
    rw [List.mem_replicate] at this
    cases this.2
  rw [hdevices, hdevice]
  split
  · exact (@fillDummies_from n t t.mDevices [] hplaced).2
  · exact fun i k hi hk => (hplaced i k hi hk).2

end setup

/-! ## 5. Runs -/

theorem setup_exact {aConfig : Configuration} {enabled : Bool} {mem : IoMemory}
    (h : setup aConfig enabled mem = .ok s) : SummaryExact s := by
  obtain ⟨t, _, h⟩ := EventRun.exists_of_bind h
  obtain ⟨found, hlook, h⟩ := EventRun.exists_of_bind h
  obtain rfl := Except.ok.inj h
  exact hlook

/-- The states of a channel. -/
def Reachable (s : IopChannelExp) : Prop :=
  ∃ aConfig enabled mem s₀ es,
    setup aConfig enabled mem = .ok s₀ ∧ EventRun.run step es s₀ = .ok s

/-- The states of a channel with this configuration. -/
def ReachableFrom (aConfig : Configuration) (s : IopChannelExp) : Prop :=
  ∃ enabled mem s₀ es, setup aConfig enabled mem = .ok s₀ ∧ EventRun.run step es s₀ = .ok s

theorem ReachableFrom.reachable {aConfig : Configuration} (h : ReachableFrom aConfig s) :
    Reachable s :=
  ⟨aConfig, h⟩

/-- **What a channel keeps**: what holds of a new channel, and every event preserves. -/
theorem ReachableFrom.keeps {aConfig : Configuration} {I : IopChannelExp → Prop}
    (hsetup : ∀ enabled mem s, setup aConfig enabled mem = .ok s → I s)
    (hstep : ∀ s e s', I s → step e s = .ok s' → I s') (h : ReachableFrom aConfig s) : I s := by
  obtain ⟨enabled, mem, s₀, es, hnew, hrun⟩ := h
  exact EventRun.run_keeps (fun _ _ _ hs _ hr => hstep _ _ _ hs hr) (hsetup _ _ _ hnew)
    (EventRun.along_true es s₀) hrun

theorem Reachable.keeps {I : IopChannelExp → Prop}
    (hsetup : ∀ aConfig enabled mem s, setup aConfig enabled mem = .ok s → I s)
    (hstep : ∀ s e s', I s → step e s = .ok s' → I s') (h : Reachable s) : I s := by
  obtain ⟨aConfig, h⟩ := h
  exact ReachableFrom.keeps (hsetup aConfig) hstep h

theorem Reachable.summaryExact (h : Reachable s) : SummaryExact s :=
  h.keeps (fun _ _ _ _ hnew => setup_exact hnew) fun _ e _ hs hr => step_exact e hs hr

/-- The state behind a run, by what is seen of it. -/
theorem exists_reachable {α : Type} {aConfig : Configuration} {enabled : Bool} {mem : IoMemory}
    {es : List Event} {f : IopChannelExp → α} {a : α}
    (h : ((setup aConfig enabled mem).bind (EventRun.run step es)).map f = .ok a) :
    ∃ s, ReachableFrom aConfig s ∧ f s = a := by
  rcases hrun : (setup aConfig enabled mem).bind (EventRun.run step es) with e | s
  · rw [hrun] at h
    cases h
  · obtain ⟨s₀, hsetup, hrun'⟩ := EventRun.exists_of_bind hrun
    rw [hrun] at h
    exact ⟨s, ⟨enabled, mem, s₀, es, hsetup, hrun'⟩, Except.ok.inj h⟩

/-- The device at an address has its interrupt enabled and active. -/
def RequestsAt (s : IopChannelExp) (i : Nat) : Prop :=
  ∃ k, s.mDevices[i]? = some (some k) ∧ (s.device k).seen (BitVec.ofNat 16 i) = .ok true

/-- What a look finds is there, and what is there is found. -/
theorem lookAt_iff {device : Nat → ExpDevice} {l : List (Option Nat)} {i : Nat} {b : Bool}
    (h : lookAt device l i = .ok b) :
    b = true ↔ ∃ j k, l[j]? = some (some k) ∧
      (device k).seen (BitVec.ofNat 16 (i + j)) = .ok true := by
  induction l generalizing i with
  | nil =>
    obtain rfl := Except.ok.inj h
    simp
  | cons o rest ih =>
    cases o with
    | none =>
      rw [ih h]
      constructor
      · rintro ⟨j, k, hj, hk⟩
        exact ⟨j + 1, k, hj, by rwa [← Nat.add_assoc, Nat.add_right_comm]⟩
      · rintro ⟨j, k, hj, hk⟩
        cases j with
        | zero => cases hj
        | succ j => exact ⟨j, k, hj, by rwa [Nat.add_right_comm, Nat.add_assoc]⟩
    | some k₀ =>
      obtain ⟨status, hstatus, hrest⟩ := EventRun.exists_of_bind h
      have hseen : (device k₀).seen (BitVec.ofNat 16 i) = .ok (requests status) := by
        rw [ExpDevice.seen, hstatus]
        rfl
      split at hrest
      · rename_i hreq
        obtain rfl := Except.ok.inj hrest
        exact ⟨fun _ => ⟨0, k₀, rfl, by rw [Nat.add_zero, hseen, hreq]⟩, fun _ => rfl⟩
      · rename_i hreq
        rw [ih hrest]
        constructor
        · rintro ⟨j, k, hj, hk⟩
          exact ⟨j + 1, k, hj, by rwa [← Nat.add_assoc, Nat.add_right_comm]⟩
        · rintro ⟨j, k, hj, hk⟩
          cases j with
          | zero =>
            obtain rfl : k₀ = k := Option.some.inj (Option.some.inj hj)
            rw [Nat.add_zero, hseen] at hk
            exact absurd (Except.ok.inj hk) hreq
          | succ j => exact ⟨j, k, hj, by rwa [Nat.add_right_comm, Nat.add_assoc]⟩

/-- **The summary** is about the addresses that the loop counts up to. -/
theorem pending_iff (h : SummaryExact s) : s.mDeviceInterruptPending = true ↔
    ∃ i < s.mDevices.length % 2 ^ 16, RequestsAt s i := by
  rw [lookAt_iff h]
  constructor
  · intro hfound
    obtain ⟨i, k, hk, hseen⟩ := hfound
    rw [looked, List.getElem?_take] at hk
    split at hk
    · exact ⟨i, ‹_›, k, hk, by rwa [Nat.zero_add] at hseen⟩
    · cases hk
  · intro hrequests
    obtain ⟨i, hi, k, hk, hseen⟩ := hrequests
    exact ⟨i, k, by rw [looked, List.getElem?_take, if_pos hi, hk], by rwa [Nat.zero_add]⟩

/-- The summary says whether a device anywhere in the table has an interrupt that is enabled and
    active, and `GetInterrupt` is what the loop in its place would give. -/
def SummaryRight (s : IopChannelExp) : Prop :=
  (s.mDeviceInterruptPending = true ↔ ∃ i, RequestsAt s i) ∧
    getInterruptScanning s = .ok (getInterrupt s)

/-- The number of addresses fits into 16 bits, or what is left of it there covers all devices that can
    have an interrupt. -/
def Configuration.Counted (aConfig : Configuration) : Prop :=
  aConfig.deviceCount < 2 ^ 16 ∨
    ∀ d ∈ aConfig.devices,
      d.2.IsDummy ∨ ∀ i ∈ d.2.channelIdxs, i < aConfig.deviceCount % 2 ^ 16

section counted
variable {aConfig : Configuration}

theorem ReachableFrom.length (h : ReachableFrom aConfig s) :
    s.mDevices.length = aConfig.deviceCount :=
  h.keeps (I := fun s => s.mDevices.length = aConfig.deviceCount)
    (fun _ _ _ hnew => setup_length hnew) fun _ _ _ hs hr => by rwa [step_mDevices hr]

theorem ReachableFrom.looked (h : ReachableFrom aConfig s) (hcounted : aConfig.Counted) {i : Nat}
    (hi : RequestsAt s i) : i < s.mDevices.length % 2 ^ 16 := by
  obtain ⟨k, hk, hseen⟩ := hi
  have hin := (List.getElem?_eq_some_iff.mp hk).1
  rw [h.length] at hin ⊢
  rcases hcounted with hsmall | hcovers
  · rwa [Nat.mod_eq_of_lt hsmall]
  · have hdummies : DummiesFrom (aConfig.deviceCount % 2 ^ 16) s.mDevices s.device :=
      h.keeps (I := fun s => DummiesFrom (aConfig.deviceCount % 2 ^ 16) s.mDevices s.device)
        (fun _ _ _ hnew => setup_dummiesFrom hcovers hnew) fun _ _ _ hs hr => step_dummiesFrom hs hr
    by_contra hge
    rw [(hdummies i k (Nat.not_lt.mp hge) hk).not_seen] at hseen
    cases hseen

end counted

/-- A clock at addresses 2 and 3. -/
def clockConfiguration : Configuration where
  deviceCount := 64
  devices := [(3, .clock { mResponseTimeout := 100, mPrimaryChannelIdx := 2
                           mRequestChannelIdx := 3, mResponseChannelIdx := 2, mYearLimit := true })]
  useDummyDevices := false

def midnight : HostTime := ⟨1990, 1, 1, 0, 0, 0⟩

/-- The interrupts are enabled, and the clock is sent a byte, which it answers with one. -/
def sendsByte : List Event :=
  [.doIo 0o05 3 midnight, .doIo 0o06 0 midnight, .doIo 0o07 2 midnight,
    .doIo 0o14 0x41 midnight, .doIo 0o17 1 midnight]

/-- `m + 2` addresses, and a printer at address 1. -/
def hugeConfiguration (m : Nat) : Configuration where
  deviceCount := m + 2
  devices := [(1, .printer 1 [])]
  useDummyDevices := false

/-- The interrupts are enabled, and the printer is given a command. -/
def printsOnce : List Event :=
  [.doIo 0o05 1 midnight, .doIo 0o06 0 midnight, .doIo 0o16 0 midnight]

/-- A table of `2 ^ 16` addresses counts as empty. -/
theorem pending_huge {mDevices : List (Option Nat)} (h : mDevices.length % 2 ^ 16 = 0)
    (device : Nat → ExpDevice) : pending mDevices device = .ok false := by
  rw [pending, looked, h, List.take_zero]
  rfl

theorem enableFrom_none {int : Option Nat} {b : Bool} (m i : Nat) :
    enableFrom now int b (List.replicate m none) i s = .ok s := by
  induction m generalizing i with
  | zero => rfl
  | succ m ih => exact ih (i + 1)

/-- A call that sets a flag of a printer, where the channel looks at no address. -/
theorem call_huge (h : s.mDevices.length % 2 ^ 16 = 0) (k : Nat) (addr : IopInt) (a : Call) :
    call now k addr a s = (ExpDevice.perform now (fun _ => .ok false) addr a
      ⟨s.device k, s.ioMemory, s.mDeviceInterruptPending⟩).map fun r => (r.1, { s with
        device := Function.update s.device k r.2.device
        ioMemory := r.2.ioMemory
        mDeviceInterruptPending := r.2.mDeviceInterruptPending }) := by
  have hlook : (fun d => pending s.mDevices (Function.update s.device k d)) = fun _ => .ok false :=
    funext fun d => pending_huge h _
  rw [call, hlook]
  rcases ExpDevice.perform now (fun _ => .ok false) addr a _ with e | r <;> rfl

/-- The channel of that configuration, with its printer. -/
def hugeChannel (m : Nat) (d : IopExpPrinterDevice) (mActiveChannel : Int) (mDone : Bool) :
    IopChannelExp where
  mDone := mDone
  mBusy := false
  mInterruptEnabled := true
  mDeviceInterruptEnabled := false
  mDeviceInterruptPending := false
  mDevices := none :: some 0 :: List.replicate m none
  mTickedDevices := []
  mDeviceIntMapping := (List.replicate 64 0).set 1 1
  mActiveChannel := mActiveChannel
  mOperation := .idle
  device := Function.update (fun _ => .dummy .new) 0 (.printer d)
  ioMemory := fun _ => 0

theorem setup_huge {m : Nat} (hm : (m + 2) % 2 ^ 16 = 0) :
    setup (hugeConfiguration m) false (fun _ => 0) = .ok (hugeChannel m (.new []) (-1) false) := by
  have hfold : (hugeConfiguration m).devices.foldlM (fun t d => addDevice t d.1 d.2)
      ⟨List.replicate (hugeConfiguration m).deviceCount none, List.replicate 64 0,
        fun _ => .dummy .new, 0⟩ =
      .ok ⟨none :: some 0 :: List.replicate m none, (List.replicate 64 0).set 1 1,
        Function.update (fun _ => .dummy .new) 0 (.printer (.new [])), 1⟩ := rfl
  rw [setup, hfold]
  show (pending (none :: some 0 :: List.replicate m none) _ >>= _) = _
  rw [pending_huge (by simpa using hm)]
  show Except.ok (masterClear _) = Except.ok (hugeChannel _ _ _ _)
  rw [masterClear, hugeChannel]
  simp [ExpDevice.needsTick, hugeConfiguration]

theorem call_hugeChannel {m : Nat} (hm : (m + 2) % 2 ^ 16 = 0) {d d' : IopExpPrinterDevice}
    {active : Int} {done : Bool} {addr v : IopInt} {a : Call}
    (h : IopExpPrinterDevice.perform (fun _ => .ok false) a ⟨d, fun _ => 0, false⟩ =
      .ok (v, ⟨d', fun _ => 0, false⟩)) :
    call now 0 addr a (hugeChannel m d active done) = .ok (v, hugeChannel m d' active done) := by
  rw [call_huge (by simpa [hugeChannel] using hm)]
  show (ExpDevice.within _ _ _ d).map _ = _
  rw [ExpDevice.within]
  show ((Except.map _ (IopExpPrinterDevice.perform _ a ⟨d, fun _ => 0, false⟩)).map _) = _
  rw [h]
  show Except.ok (v, _) = Except.ok (v, _)
  simp [hugeChannel]

/-- The printer with its interrupt enabled, and active. -/
def enabledPrinter : IopExpPrinterDevice :=
  { IopExpPrinterDevice.new [] with flags := { DeviceFlags.new with mInterruptEnabled := true } }

def donePrinter : IopExpPrinterDevice :=
  { enabledPrinter with
    flags := { enabledPrinter.flags with mInterruptActive := true }
    mStatus := IopExpPrinterDevice.statusCodeDone }

theorem run_huge {m : Nat} (hm : (m + 2) % 2 ^ 16 = 0) :
    EventRun.run step printsOnce (hugeChannel m (.new []) (-1) false) =
      .ok (hugeChannel m donePrinter 1 true) := by
  have hselect : step (.doIo 0o05 1 midnight) (hugeChannel m (.new []) (-1) false) =
      .ok (hugeChannel m (.new []) 1 false) := rfl
  have henable : step (.doIo 0o06 0 midnight) (hugeChannel m (.new []) 1 false) =
      .ok (hugeChannel m enabledPrinter 1 false) := by
    show ((((call midnight 0 1 (.setIntEnabled true) _).map Prod.snd >>= fun s =>
      enableFrom midnight none true (List.replicate m none) 2 s) >>= _).map Prod.snd) = _
    rw [@call_hugeChannel midnight m hm (.new []) enabledPrinter 1 false 1 0 (.setIntEnabled true) rfl]
    show ((enableFrom midnight none true (List.replicate m none) 2 _ >>= _).map Prod.snd) = _
    rw [enableFrom_none]
    rfl
  have hprint : step (.doIo 0o16 0 midnight) (hugeChannel m enabledPrinter 1 false) =
      .ok (hugeChannel m donePrinter 1 true) := by
    show ((call midnight 0 1 (.setRegC 0) _ >>= _).map Prod.snd) = _
    rw [@call_hugeChannel midnight m hm enabledPrinter donePrinter 1 false 1 0 (.setRegC 0) rfl]
    rfl
  exact (EventRun.run_cons hselect).trans ((EventRun.run_cons henable).trans
    ((EventRun.run_cons hprint).trans rfl))

end IopChannelExp

end CraySim
