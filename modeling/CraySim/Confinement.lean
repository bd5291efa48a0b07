/-
  Subject:   A program in user mode is confined.

  The privileged effects are spread over the codes 0010 to 0014 and each of them guards itself.
  The decoders' specification says that an instruction makes privileged requests in monitor mode
  only; what is left to show is that no other request reaches a privileged register.

  * `Confined` -- what a program in user mode must leave as it was,
  * `Effect.confined` -- a request that is not privileged leaves it,
  * `user_mode_confined` -- so does every instruction in user mode.
-/
import CraySim.Transitions

namespace CraySim

/-- **What a program in user mode leaves as it was**: the privileged registers of its processor,
    the other processors, the clock and the channels. -/
structure Confined {pm : Params} (me : Fin pm.cpuCnt) (s s' : System pm) : Prop where
  ExchangePacketAddress :
    (s'.mCpus me).ExchangePacketAddress = (s.mCpus me).ExchangePacketAddress
  InstBaseAddr : (s'.mCpus me).InstBaseAddr = (s.mCpus me).InstBaseAddr
  InstLimitAddr : (s'.mCpus me).InstLimitAddr = (s.mCpus me).InstLimitAddr
  DataBaseAddr : (s'.mCpus me).DataBaseAddr = (s.mCpus me).DataBaseAddr
  DataLimitAddr : (s'.mCpus me).DataLimitAddr = (s.mCpus me).DataLimitAddr
  Cluster : (s'.mCpus me).Cluster = (s.mCpus me).Cluster
  mMonitorMode : (s'.mCpus me).Mode.mMonitorMode = (s.mCpus me).Mode.mMonitorMode
  PeriodicInterruptLimit :
    (s'.mCpus me).PeriodicInterruptLimit = (s.mCpus me).PeriodicInterruptLimit
  PeriodicInterruptCountDown :
    (s'.mCpus me).PeriodicInterruptCountDown = (s.mCpus me).PeriodicInterruptCountDown
  PeriodicInterruptEnabled :
    (s'.mCpus me).PeriodicInterruptEnabled = (s.mCpus me).PeriodicInterruptEnabled
  otherCpus : ∀ i, i ≠ me → s'.mCpus i = s.mCpus i
  mRealTimeClock : s'.mRealTimeClock = s.mRealTimeClock
  mRealTimeStart : s'.mRealTimeStart = s.mRealTimeStart
  /-- A reading of the host's clock is remembered, so that the next one is later. -/
  mLastRealTimeReading :
    pm.useHostRealTimeClock = false → s'.mLastRealTimeReading = s.mLastRealTimeReading
  mChannels : s'.mChannels = s.mChannels

section confined
variable {pm : Params} {me : Fin pm.cpuCnt} {s s' s'' : System pm}

theorem Confined.refl (me : Fin pm.cpuCnt) (s : System pm) : Confined me s s :=
  ⟨rfl, rfl, rfl, rfl, rfl, rfl, rfl, rfl, rfl, rfl, fun _ _ => rfl, rfl, rfl, fun _ => rfl, rfl⟩

theorem Confined.trans (h : Confined me s s') (h' : Confined me s' s'') : Confined me s s'' where
  ExchangePacketAddress := h'.1.trans h.1
  InstBaseAddr := h'.2.trans h.2
  InstLimitAddr := h'.3.trans h.3
  DataBaseAddr := h'.4.trans h.4
  DataLimitAddr := h'.5.trans h.5
  Cluster := h'.6.trans h.6
  mMonitorMode := h'.7.trans h.7
  PeriodicInterruptLimit := h'.8.trans h.8
  PeriodicInterruptCountDown := h'.9.trans h.9
  PeriodicInterruptEnabled := h'.10.trans h.10
  otherCpus := fun i hi => (h'.otherCpus i hi).trans (h.otherCpus i hi)
  mRealTimeClock := h'.mRealTimeClock.trans h.mRealTimeClock
  mRealTimeStart := h'.mRealTimeStart.trans h.mRealTimeStart
  mLastRealTimeReading := fun hu => (h'.mLastRealTimeReading hu).trans (h.mLastRealTimeReading hu)
  mChannels := h'.mChannels.trans h.mChannels

/-- The privileged registers of one processor. -/
def Cpu.privileged (c : Cpu) :=
  (c.ExchangePacketAddress, c.InstBaseAddr, c.InstLimitAddr, c.DataBaseAddr, c.DataLimitAddr,
    c.Cluster, c.Mode.mMonitorMode, c.PeriodicInterruptLimit, c.PeriodicInterruptCountDown,
    c.PeriodicInterruptEnabled)

/-- A change of the own processor that keeps its privileged registers. -/
theorem Confined.modifyCpu {f : Cpu → Cpu} (hf : ∀ c, (f c).privileged = c.privileged) :
    Confined me s (s.modifyCpu me f) := by
  have h := hf (s.mCpus me)
  rw [← System.modifyCpu_self s me f] at h
  simp only [Cpu.privileged, Prod.mk.injEq] at h
  obtain ⟨h1, h2, h3, h4, h5, h6, h7, h8, h9, h10⟩ := h
  exact ⟨h1, h2, h3, h4, h5, h6, h7, h8, h9, h10, fun _ hi => System.modifyCpu_ne s me f hi,
    rfl, rfl, fun _ => rfl, rfl⟩

theorem Confined.modifyCluster (cl : Fin pm.clusterCnt) (f : InterCpuCluster → InterCpuCluster) :
    Confined me s (s.modifyCluster cl f) :=
  ⟨rfl, rfl, rfl, rfl, rfl, rfl, rfl, rfl, rfl, rfl, fun _ _ => rfl, rfl, rfl, fun _ => rfl, rfl⟩

theorem RegWrite.privileged (w : RegWrite) (c : Cpu) : (w.apply c).privileged = c.privileged := by
  cases w <;> rfl

/-- **A request that is not privileged reaches no privileged register.** -/
theorem Effect.confined {r : Req} (h : Effect me s r s') (hr : r.isPrivileged = false) :
    Confined me s s' := by
  cases h with
  | none => exact Confined.refl me s
  | @write w => exact Confined.modifyCpu w.privileged
  | store => exact ⟨rfl, rfl, rfl, rfl, rfl, rfl, rfl, rfl, rfl, rfl, fun _ _ => rfl, rfl, rfl,
      fun _ => rfl, rfl⟩
  | take => exact (Confined.modifyCluster _ _).trans (Confined.modifyCpu fun _ => rfl)
  | block => exact (Confined.modifyCluster _ _).trans (Confined.modifyCpu fun _ => rfl)
  | shared => exact Confined.modifyCluster _ _
  | clockRead hu => exact ⟨rfl, rfl, rfl, rfl, rfl, rfl, rfl, rfl, rfl, rfl, fun _ _ => rfl, rfl,
      rfl, fun hu' => absurd (hu.symm.trans hu') (by decide), rfl⟩
  | privWrite | clockSet | posted | sameCluster | changeCluster | badCluster | channel => cases hr

/-- In user mode an instruction makes no privileged request. -/
theorem Allowed.unprivileged {f : Fields} {monitor : Prop} {r : Req} (h : Allowed pm f monitor r)
    (hm : ¬ monitor) : r.isPrivileged = false := by
  cases r with
  | privWrite w =>
    cases w with
    | clearProgrammableClockInterrupt => exact absurd h.1 hm
    | _ => exact absurd h hm
  | setCluster v => exact absurd h.1 hm
  | setRealTimeClock | setInterProcessorInterrupt | channelOp => exact absurd h hm
  | _ => rfl

/-- **The run of a decoder in user mode**, for any window of parcels. -/
theorem decode_confined (b : Bool) (aParcels : CInt)
    (hm : (s.mCpus me).isMonitorMode = false) :
    Confined me s ((Inst.decode pm b aParcels).run (handler me) s).2 := by
  refine (decode_run (I := Confined me s) b aParcels ?_ (Confined.refl me s)).1
  intro r t ha _ _ hI
  exact hI.trans ((SysRun.handler_effect me t r).confined (ha.unprivileged (by simp [hm])))

theorem SysRun.Outcome.confined (h : SysRun.Outcome me s s')
    (hm : (s.mCpus me).isMonitorMode = false) : Confined me s s' := by
  have hrun : Confined me s (SysRun.execute me s).2 := decode_confined true _ hm
  cases h with
  | fetchFails h => exact Confined.modifyCpu fun _ => rfl
  | executes h he =>
    rw [he] at hrun
    exact hrun.trans (Confined.modifyCpu fun _ => rfl)
  | throws h he =>
    rw [he] at hrun
    exact hrun.trans (Confined.modifyCpu fun _ => rfl)

end confined

/-- **User-mode confinement**: from a state with the monitor mode bit clear, no instruction changes
    a privileged register, whatever its parcels are and whether it returns or throws. -/
theorem user_mode_confined {pm : Params} (me : Fin pm.cpuCnt) (s : System pm)
    (hm : (s.mCpus me).Mode.mMonitorMode = false) :
    (∀ aParcels, Confined me s ((Inst.decode pm true aParcels).run (handler me) s).2) ∧
      Confined me s (SysRun.instruction me s).2 :=
  ⟨fun aParcels => decode_confined true aParcels hm,
    (SysRun.instruction_outcome me s).confined hm⟩

/-! Two Y-MP processors in user mode, which run one program: `RT S1`, `0,0 S1` and `S2 0,0`. The
    data of each begin at a word of its own. -/

theorem Params.two_lt : 2 < 2 ^ 64 := by decide

abbrev ympTwo : Params := Params.standard .YMP 2 Params.two_lt

def program : List (BitVec 8) := [0x03, 0x08, 0xb0, 0x40, 0, 0, 0, 0, 0xa0, 0x80, 0, 0, 0, 0]

def System.loaded : System ympTwo :=
  { System.powerOn ympTwo with
    mCpus := fun i =>
      { Cpu.powerOn ympTwo i.val with
        S := fun _ => 7
        InstLimitAddr := 2
        DataBaseAddr := BitVec.ofNat 32 (16 * (i.val + 1))
        DataLimitAddr := BitVec.ofNat 32 (16 * (i.val + 1) + 8)
        mInReset := false }
    mMemory := fun a => program.getD a 0 }

/-- The law applied to the instruction that sets the clock in monitor mode. -/
theorem user_mode_confined_clock :
    SysRun.fetched System.loaded (0 : Fin 2) >>> 32 = 0o001410 ∧
      Confined (0 : Fin 2) System.loaded (SysRun.instruction (0 : Fin 2) System.loaded).2 :=
  ⟨rfl, (user_mode_confined (0 : Fin 2) System.loaded rfl).2⟩

end CraySim
