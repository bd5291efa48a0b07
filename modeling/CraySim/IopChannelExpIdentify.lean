/-
  Subject:   Which device an expander channel names as the one with the interrupt.

  The summary looks for an interrupt that is enabled and active. Function 011 looks for one that is
  active, so a device whose interrupt is masked is named if it comes first.

  * `ActiveAt` -- an active interrupt at an address,
  * `firstActive_eq` -- what the look of function 011 finds,
  * `identifies_iff` -- **function 011 names the right device exactly if no masked interrupt
    comes first**.
-/
import CraySim.IopChannelExpInterrupt

namespace CraySim

open IopExpDevice

namespace ExpDevice

/-! ## 1. The status of a device -/

/-- A device has an active interrupt, enabled or not. -/
def active (aDeviceAddr : IopInt) (d : ExpDevice) : Except Exn Bool :=
  (d.getStatus aDeviceAddr).map fun status => decide (status &&& statusInt ≠ 0)

theorem active_statusOf (enabled active busy done : Bool) :
    (statusOf enabled active busy done &&& statusInt ≠ 0) ↔ active = true := by
  revert enabled active busy done
  decide

theorem low_statusOf (enabled active busy done : Bool) :
    statusOf enabled active busy done &&& 63 = 0 := by
  revert enabled active busy done
  decide

variable {d : ExpDevice} {addr status : IopInt}

theorem getStatus_eq (h : d.getStatus addr = .ok status) :
    ∃ enabled active busy done, status = statusOf enabled active busy done := by
  cases d with
  | clock c d =>
    obtain ⟨i, -, hstatus⟩ := EventRun.exists_of_bind h
    exact ⟨_, _, _, _, (Except.ok.inj hstatus).symm⟩
  | tape ro d => exact ⟨_, _, _, _, (Except.ok.inj h).symm⟩
  | ampex c d | cdc c d => exact ⟨_, _, _, _, (Except.ok.inj h).symm⟩
  | dummy d | printer d => exact ⟨_, _, _, _, (Except.ok.inj h).symm⟩

theorem getStatus_low (h : d.getStatus addr = .ok status) : status &&& 63 = 0 := by
  obtain ⟨_, _, _, _, rfl⟩ := getStatus_eq h
  exact low_statusOf _ _ _ _

/-- An interrupt that is enabled and active is active. -/
theorem active_of_seen (h : d.seen addr = .ok true) : d.active addr = .ok true := by
  rw [seen] at h
  rw [active]
  rcases hstatus : d.getStatus addr with e | status
  · rw [hstatus] at h
    cases h
  · rw [hstatus] at h
    obtain ⟨enabled, act, busy, done, rfl⟩ := getStatus_eq hstatus
    have hreq : requests (statusOf enabled act busy done) = true := Except.ok.inj h
    rw [requests_statusOf, Bool.and_eq_true] at hreq
    exact congrArg Except.ok (decide_eq_true ((active_statusOf _ _ _ _).mpr hreq.2))

theorem getStatus_ok (haddr : addr.toNat < 64) : ∃ status, d.getStatus addr = .ok status := by
  cases d with
  | clock c d =>
    rw [getStatus, IopExpClockDevice.getStatus, IopExpClockDevice.assertAddr, dif_pos haddr]
    exact ⟨_, rfl⟩
  | tape ro d => exact ⟨_, rfl⟩
  | ampex c d | cdc c d => exact ⟨_, rfl⟩
  | dummy d | printer d => exact ⟨_, rfl⟩

theorem IsDummy.not_active (h : IsDummy d) : d.active addr = .ok false := by
  obtain ⟨e, rfl, hactive⟩ := h
  rw [active, getStatus, IopExpDevice.getStatus]
  refine congrArg Except.ok (decide_eq_false fun hint => ?_)
  have := (active_statusOf _ _ _ _).mp hint
  rw [show (IopExpDevice.flags e).mInterruptActive = false from hactive] at this
  cases this

end ExpDevice

namespace IopChannelExp

variable {now : HostTime} {s s' : IopChannelExp} {v : IopInt}

/-! ## 2. The channel that is selected -/

/-- No channel is selected, or one that six bits name. -/
def SelectedInSixBits (mActiveChannel : Int) : Prop :=
  mActiveChannel = -1 ∨ 0 ≤ mActiveChannel ∧ mActiveChannel < 64

theorem call_selected (a : Call) :
    CallKeeps now (fun s => SelectedInSixBits s.mActiveChannel) a := by
  intro k addr s v s' hs hr
  rw [(call_dummy hr).2.1]
  exact hs

theorem doIo_selected {aFunction : Nat} {aData : IopInt} (h : SelectedInSixBits s.mActiveChannel)
    (hr : doIo now aFunction aData s = .ok (v, s')) : SelectedInSixBits s'.mActiveChannel := by
  have hselects : ∀ {op}, selects op s = .ok (v, s') → SelectedInSixBits s'.mActiveChannel := by
    intro op hr
    rw [selects] at hr
    split at hr
    · cases hr
    · obtain rfl := (Prod.mk.inj (Except.ok.inj hr)).2
      exact h
  have hactive : ∀ {a}, toActive now a s = .ok (v, s') → SelectedInSixBits s'.mActiveChannel := by
    intro a hr
    obtain ⟨o, -, hr⟩ := EventRun.exists_of_bind hr
    split at hr
    · obtain ⟨⟨w, y⟩, hcall, hr⟩ := EventRun.exists_of_bind hr
      obtain rfl := (Prod.mk.inj (Except.ok.inj hr)).2
      exact call_selected a _ _ s w y h hcall
    · obtain rfl := (Prod.mk.inj (Except.ok.inj hr)).2
      exact h
  rw [doIo.eq_def] at hr
  split at hr
  case h_2 | h_3 | h_4 | h_5 => exact hselects hr
  case h_6 =>
    obtain rfl := (Prod.mk.inj (Except.ok.inj hr)).2
    refine .inr ⟨Int.natCast_nonneg _, ?_⟩
    have hlow : (aData &&& 63).toNat = aData.toNat % 2 ^ 6 :=
      WordField.toNat_and_mask (n := 6) aData
    show ((aData &&& 63).toNat : Int) < 64
    omega
  case h_7 =>
    obtain ⟨y, hmask, hr⟩ := EventRun.exists_of_bind hr
    exact (Prod.mk.inj (Except.ok.inj hr)).2 ▸
      @setMask_keeps (fun s => SelectedInSixBits s.mActiveChannel) _ _ _
        (fun b => call_selected (.setIntEnabled b)) _ h hmask
  case h_9 =>
    exact @readRegister_keeps (fun s => SelectedInSixBits s.mActiveChannel) _ _ _ _
      (call_selected .getRegA) (call_selected .getRegB) (call_selected .getRegC) h hr
  case h_10 =>
    obtain ⟨_, _, hr⟩ := EventRun.exists_of_bind hr
    obtain ⟨_, _, hr⟩ := EventRun.exists_of_bind hr
    exact (Prod.mk.inj (Except.ok.inj hr)).2 ▸ h
  case h_11 =>
    obtain ⟨_, _, hr⟩ := EventRun.exists_of_bind hr
    exact (Prod.mk.inj (Except.ok.inj hr)).2 ▸ h
  case h_12 | h_13 | h_14 | h_15 => exact hactive hr
  all_goals
    obtain rfl := (Prod.mk.inj (Except.ok.inj hr)).2
    exact h

theorem step_selected {e : Event} (h : SelectedInSixBits s.mActiveChannel)
    (hr : step e s = .ok s') : SelectedInSixBits s'.mActiveChannel := by
  cases e with
  | doIo f w now =>
    obtain ⟨v, hdo⟩ := of_map_snd hr
    exact doIo_selected h hdo
  | tick now =>
    exact @tick_keeps (fun s => SelectedInSixBits s.mActiveChannel) _ _ _ (call_selected .tick) h hr
  | masterClear =>
    obtain rfl := Except.ok.inj hr
    exact .inl rfl
  | compute mem =>
    obtain rfl := Except.ok.inj hr
    exact h

/-! ## 3. What function 011 names -/

/-- The device at an address has its interrupt active, enabled or not. -/
def ActiveAt (s : IopChannelExp) (i : Nat) : Prop :=
  ∃ k, s.mDevices[i]? = some (some k) ∧ (s.device k).active (BitVec.ofNat 16 i) = .ok true

theorem RequestsAt.active {i : Nat} (h : RequestsAt s i) : ActiveAt s i := by
  obtain ⟨k, hk, hseen⟩ := h
  exact ⟨k, hk, ExpDevice.active_of_seen hseen⟩

/-- **The look of function 011**: where a device has an interrupt, it finds the first one that is
    active. -/
theorem firstActive_eq {device : Nat → ExpDevice} {l : List (Option Nat)} {i : Nat}
    (h : lookAt device l i = .ok true) :
    ∃ j k, firstActive device l i = .ok (BitVec.ofNat 16 (i + j)) ∧ l[j]? = some (some k) ∧
      (device k).active (BitVec.ofNat 16 (i + j)) = .ok true ∧
      ∀ j' < j, ∀ k', l[j']? = some (some k') →
        (device k').active (BitVec.ofNat 16 (i + j')) = .ok false := by
  induction l generalizing i with
  | nil => cases h
  | cons o rest ih =>
    have hshift : ∀ j, i + 1 + j = i + (j + 1) := fun j => by omega
    cases o with
    | none =>
      obtain ⟨j, k, hfirst, hk, hactive, hbefore⟩ := ih h
      rw [hshift] at hfirst hactive
      refine ⟨j + 1, k, hfirst, hk, hactive, fun j' hj' k' hk' => ?_⟩
      cases j' with
      | zero => cases hk'
      | succ j' => exact hshift j' ▸ hbefore j' (by omega) k' hk'
    | some k₀ =>
      obtain ⟨status, hstatus, hrest⟩ := EventRun.exists_of_bind h
      have hlook : firstActive device (some k₀ :: rest) i =
          if status &&& statusInt ≠ 0 then .ok (BitVec.ofNat 16 i)
          else firstActive device rest (i + 1) := by
        rw [firstActive, hstatus]
        rfl
      have hactive₀ : (device k₀).active (BitVec.ofNat 16 i) =
          .ok (decide (status &&& statusInt ≠ 0)) := by
        rw [ExpDevice.active, hstatus]
        rfl
      by_cases hint : status &&& statusInt ≠ 0
      · rw [if_pos hint] at hlook
        rw [decide_eq_true hint] at hactive₀
        exact ⟨0, k₀, hlook, rfl, hactive₀, fun j' hj' => absurd hj' (Nat.not_lt_zero j')⟩
      · have hreq : ¬ requests status = true := by
          rw [requests, Bool.and_eq_true, decide_eq_true_iff, decide_eq_true_iff]
          exact fun hboth => hint hboth.2
        rw [if_neg hreq] at hrest
        rw [if_neg hint] at hlook
        obtain ⟨j, k, hfirst, hk, hactive, hbefore⟩ := ih hrest
        rw [hshift] at hfirst hactive
        refine ⟨j + 1, k, hlook.trans hfirst, hk, hactive, fun j' hj' k' hk' => ?_⟩
        cases j' with
        | zero =>
          obtain rfl : k₀ = k' := Option.some.inj (Option.some.inj hk')
          rw [decide_eq_false hint] at hactive₀
          exact hactive₀
        | succ j' => exact hshift j' ▸ hbefore j' (by omega) k' hk'

/-- The device function 011 names, where there is one: the first with an active interrupt. -/
theorem exists_firstActive (hexact : SummaryExact s) (hpending : s.mDeviceInterruptPending = true) :
    ∃ j, firstActive s.device (looked s.mDevices) 0 = .ok (BitVec.ofNat 16 j) ∧ ActiveAt s j ∧
      ∀ j' < j, ¬ ActiveAt s j' := by
  have hlook : lookAt s.device (looked s.mDevices) 0 = .ok true := by
    rw [← hpending]
    exact hexact
  obtain ⟨j, k, hfirst, hk, hactive, hbefore⟩ := firstActive_eq hlook
  simp only [Nat.zero_add] at hfirst hactive hbefore
  rw [looked, List.getElem?_take] at hk
  split at hk
  · next hj =>
    refine ⟨j, hfirst, ⟨k, hk, hactive⟩, fun j' hj' hat => ?_⟩
    obtain ⟨k', hk', hactive'⟩ := hat
    have hno := hbefore j' hj' k' (by rw [looked, List.getElem?_take, if_pos (by omega), hk'])
    rw [hno] at hactive'
    cases hactive'
  · cases hk

/-- An address with an active interrupt is one that six bits name. -/
theorem ActiveAt.lt {j : Nat} (h : ActiveAt s j) (hupper : DummiesFrom 64 s.mDevices s.device) :
    j < 64 := by
  obtain ⟨k, hk, hactive⟩ := h
  by_contra hj
  rw [(hupper j k (by omega) hk).not_active] at hactive
  cases hactive

/-- A channel of the table is selected. -/
def Selected (s : IopChannelExp) : Prop :=
  s.mActiveChannel ≠ -1 ∧ s.mActiveChannel.toNat < s.mDevices.length

theorem selected_of_activeDevice {o : Option Nat} (h : activeDevice s = .ok o) : Selected s := by
  rw [activeDevice] at h
  split at h
  · cases h
  · refine ⟨‹_›, ?_⟩
    by_contra hlen
    rw [List.getElem?_eq_none (by omega)] at h
    cases h

/-- The status of the selected device and of the channel leaves the six bits free. -/
theorem activeStatus_low (hsel : Selected s) (hsix : SelectedInSixBits s.mActiveChannel) :
    ∃ w, activeStatus s = .ok w ∧ w &&& 63 = 0 := by
  have hdevice : activeDevice s = .ok (s.mDevices.get ⟨s.mActiveChannel.toNat, hsel.2⟩) := by
    rw [activeDevice, if_neg hsel.1, List.getElem?_eq_getElem hsel.2]
    rfl
  have hflags : ∀ (status : IopInt), status &&& 63 = 0 → ∀ b₁ b₂ b₃ : Bool,
      (status ||| (if b₁ then 0x100 else 0) ||| (if b₂ then 0x800 else 0) |||
        (if b₃ then 0x1000 else 0)) &&& 63 = 0 := by
    intro status hlow b₁ b₂ b₃
    have hrest : ((if b₁ then (0x100 : IopInt) else 0) ||| (if b₂ then 0x800 else 0) |||
        (if b₃ then 0x1000 else 0)) &&& 63 = 0 := by
      revert b₁ b₂ b₃
      decide
    rw [BitVec.or_assoc, BitVec.or_assoc, ← BitVec.or_assoc (if b₁ then 0x100 else 0),
      BitVec.and_or_distrib_right, hlow, hrest]
    rfl
  rcases hk : s.mDevices.get ⟨s.mActiveChannel.toNat, hsel.2⟩ with _ | k
  · rw [hk] at hdevice
    rw [activeStatus, hdevice]
    exact ⟨_, rfl, hflags 0 rfl _ _ _⟩
  · rw [hk] at hdevice
    have haddr : (activeAddr s).toNat < 64 := by
      obtain hnone | ⟨hpos, hlt⟩ := hsix
      · exact absurd hnone hsel.1
      · rw [activeAddr, BitVec.toNat_ofInt]
        omega
    obtain ⟨status, hstatus⟩ := @ExpDevice.getStatus_ok (s.device k) _ haddr
    have hok : activeStatus s = .ok (status ||| (if s.mInterruptEnabled then 0x100 else 0) |||
        (if s.mBusy then 0x800 else 0) ||| (if s.mDone then 0x1000 else 0)) := by
      rw [activeStatus, hdevice]
      show (((s.device k).getStatus (activeAddr s)) >>= _) = _
      rw [hstatus]
      rfl
    exact ⟨_, hok, hflags status (ExpDevice.getStatus_low hstatus) _ _ _⟩

theorem Reachable.upperDummies (h : Reachable s) : DummiesFrom 64 s.mDevices s.device :=
  h.keeps (I := fun s => DummiesFrom 64 s.mDevices s.device)
    (fun _ _ _ _ hnew => setup_dummiesFrom (fun d hd => .inr (setup_below hnew d hd)) hnew)
    fun _ _ _ hs hr => step_dummiesFrom hs hr

theorem setup_selected {aConfig : Configuration} {enabled : Bool} {mem : IoMemory}
    (h : setup aConfig enabled mem = .ok s) : SelectedInSixBits s.mActiveChannel := by
  obtain ⟨t, -, h⟩ := EventRun.exists_of_bind h
  obtain ⟨found, -, h⟩ := EventRun.exists_of_bind h
  obtain rfl := Except.ok.inj h
  exact .inl rfl

theorem Reachable.selected (h : Reachable s) : SelectedInSixBits s.mActiveChannel :=
  h.keeps (I := fun s => SelectedInSixBits s.mActiveChannel)
    (fun _ _ _ _ hnew => setup_selected hnew) fun _ _ _ hs hr => step_selected hs hr

/-- **Function 011** adds the address of the first active device to the status of the channel. -/
theorem doIo_firstActive {j : Nat} {w : IopInt} (now : HostTime) (aData : IopInt)
    (hfirst : firstActive s.device (looked s.mDevices) 0 = .ok (BitVec.ofNat 16 j))
    (hw : activeStatus s = .ok w) :
    doIo now 0o11 aData s = .ok (w ||| BitVec.ofNat 16 j, s) := by
  show (activeStatus s >>= fun status => firstActive s.device (looked s.mDevices) 0 >>= _) = _
  rw [hw, hfirst]
  rfl

theorem low_firstActive {j : Nat} {w : IopInt} (hj : j < 64) (hw : w &&& 63 = 0) :
    ((w ||| BitVec.ofNat 16 j) &&& 63).toNat = j := by
  rw [BitVec.and_or_distrib_right, hw, show (0 : IopInt) = 0#16 from rfl, BitVec.zero_or,
    show (63 : IopInt) = WordField.mask 16 6 from rfl, WordField.toNat_and_mask,
    BitVec.toNat_ofNat]
  omega

/-- Function 011 returns in its low six bits the lowest address of a device whose interrupt is
    enabled and active. -/
def Identifies (now : HostTime) (aData : IopInt) (s : IopChannelExp) : Prop :=
  ∃ v s' i, doIo now 0o11 aData s = .ok (v, s') ∧ RequestsAt s i ∧ (∀ j < i, ¬ RequestsAt s j) ∧
    (v &&& 63).toNat = i

/-- `GetInterrupt` is 1 because of a device. -/
structure DeviceInterrupt (s : IopChannelExp) : Prop where
  enabled : s.mDeviceInterruptEnabled = true
  pending : s.mDeviceInterruptPending = true

/-- **Identification**: in every state of a channel in which a device makes the interrupt, function
    011 names the right address exactly if a channel is selected and no device with a masked
    interrupt comes before the first device with an enabled one. -/
theorem identifies_iff (h : Reachable s) (hint : DeviceInterrupt s) (now : HostTime)
    (aData : IopInt) :
    Identifies now aData s ↔ Selected s ∧ ∀ j, ActiveAt s j → ∃ i ≤ j, RequestsAt s i := by
  obtain ⟨j, hfirst, hactive, hbefore⟩ := exists_firstActive h.summaryExact hint.pending
  have hj := hactive.lt h.upperDummies
  constructor
  · intro hid
    obtain ⟨v, s', i, hdo, hreq, hlowest, hv⟩ := hid
    obtain ⟨w, hw, -⟩ := EventRun.exists_of_bind hdo
    obtain ⟨o, hdevice, -⟩ := EventRun.exists_of_bind hw
    have hsel := selected_of_activeDevice hdevice
    obtain ⟨w', hw', hfree⟩ := activeStatus_low hsel h.selected
    -- what is named is the first device with an active interrupt
    rw [doIo_firstActive now aData hfirst hw'] at hdo
    obtain ⟨rfl, rfl⟩ := Prod.mk.inj (Except.ok.inj hdo)
    rw [low_firstActive hj hfree] at hv
    subst hv
    refine ⟨hsel, fun j' hj' => ⟨j, ?_, hreq⟩⟩
    by_contra hlt
    exact hbefore j' (by omega) hj'
  · intro hcond
    obtain ⟨hsel, hmasked⟩ := hcond
    obtain ⟨w, hw, hfree⟩ := activeStatus_low hsel h.selected
    obtain ⟨i, hij, hreq⟩ := hmasked j hactive
    obtain rfl : i = j := by
      by_contra hne
      exact hbefore i (by omega) hreq.active
    exact ⟨_, _, i, doIo_firstActive now aData hfirst hw, hreq,
      fun j' hj' hreq' => hbefore j' hj' hreq'.active, low_firstActive hj hfree⟩

/-- Printers at addresses 1 and 2. -/
def printerConfiguration : Configuration where
  deviceCount := 4
  devices := [(1, .printer 1 []), (2, .printer 2 [])]
  useDummyDevices := false

/-- The interrupts are masked, and both printers are given a command. -/
def bothPrint (mask : IopInt) : List Event :=
  [.doIo 0o05 1 midnight, .doIo 0o06 mask midnight, .doIo 0o07 2 midnight,
    .doIo 0o16 0 midnight, .doIo 0o05 2 midnight, .doIo 0o16 0 midnight]

/-- What is seen of a channel with two printers. -/
def printersSeen (s : IopChannelExp) :
    (Bool × Bool) × List (Option Nat) × Except Exn Bool × Except Exn IopInt :=
  ((s.mDeviceInterruptEnabled, s.mDeviceInterruptPending), s.mDevices, (s.device 0).seen 1,
    (doIo midnight 0o11 0 s).map Prod.fst)

theorem exists_of_printersSeen {b : Bool} {v : IopInt} {mask : IopInt}
    (h : ((setup printerConfiguration false fun _ => 0).bind
      (EventRun.run step (bothPrint mask))).map printersSeen =
        .ok ((true, true), [none, some 0, some 1, none], .ok b, .ok v)) :
    ∃ s, Reachable s ∧ DeviceInterrupt s ∧ s.mDevices = [none, some 0, some 1, none] ∧
      (s.device 0).seen 1 = .ok b ∧ ∃ s', doIo midnight 0o11 0 s = .ok (v, s') := by
  obtain ⟨s, hfrom, hs⟩ := exists_reachable h
  have hreach := hfrom.reachable
  obtain ⟨hflags, hs⟩ := Prod.mk.inj hs
  obtain ⟨henabled, hpending⟩ := Prod.mk.inj hflags
  obtain ⟨hdevices, hs⟩ := Prod.mk.inj hs
  obtain ⟨hseen, hdo⟩ := Prod.mk.inj hs
  refine ⟨s, hreach, ⟨henabled, hpending⟩, hdevices, hseen, ?_⟩
  rcases hrun : doIo midnight 0o11 0 s with e | ⟨w, s'⟩
  · rw [hrun] at hdo
    cases hdo
  · rw [hrun] at hdo
    exact ⟨s', congrArg (fun w => Except.ok (w, s')) (Except.ok.inj hdo)⟩

/-- With both interrupts enabled the first printer is named. -/
theorem identifies_iff_printers :
    ∃ s, Reachable s ∧ DeviceInterrupt s ∧ Identifies midnight 0 s ∧ Selected s ∧
      ∀ j, ActiveAt s j → ∃ i ≤ j, RequestsAt s i := by
  obtain ⟨s, hreach, hint, hdevices, hseen, s', hdo⟩ :=
    @exists_of_printersSeen true 0xb281 0 (by decide)
  have hid : Identifies midnight 0 s := by
    refine ⟨_, s', 1, hdo, ⟨0, by rw [hdevices]; rfl, hseen⟩, fun j hj hreq => ?_, by decide⟩
    obtain rfl : j = 0 := by omega
    obtain ⟨k, hk, -⟩ := hreq
    rw [hdevices] at hk
    cases hk
  exact ⟨s, hreach, hint, hid, (identifies_iff hreach hint midnight 0).mp hid⟩

/-- With the interrupt of the first printer masked it is named all the same. -/
theorem not_identifies_masked :
    ∃ s, Reachable s ∧ DeviceInterrupt s ∧ Selected s ∧ ¬ Identifies midnight 0 s := by
  obtain ⟨s, hreach, hint, hdevices, hseen, s', hdo⟩ :=
    @exists_of_printersSeen false 0xb281 2 (by decide)
  refine ⟨s, hreach, hint, ?_, fun hid => ?_⟩
  · obtain ⟨w, hw, -⟩ := EventRun.exists_of_bind hdo
    obtain ⟨o, hdevice, -⟩ := EventRun.exists_of_bind hw
    exact selected_of_activeDevice hdevice
  · obtain ⟨v, s'', i, hdo', hreq, -, hv⟩ := hid
    rw [hdo] at hdo'
    obtain ⟨rfl, -⟩ := Prod.mk.inj (Except.ok.inj hdo')
    obtain rfl : 1 = i := by
      rw [← hv]
      decide
    obtain ⟨k, hk, hseen'⟩ := hreq
    rw [hdevices] at hk
    obtain rfl := Option.some.inj (Option.some.inj hk)
    rw [show BitVec.ofNat 16 1 = (1 : IopInt) from rfl, hseen] at hseen'
    cases hseen'

end IopChannelExp

end CraySim
