/-
  Subject:   No interrupt is lost or invented.

  An interrupt waits for a processor as one of its flags, or, posted by another part of the
  mainframe, as a `mNot…` flag that is down. An exchange saves what fires and takes away what it
  serves; the mask it does both under is read once.

  * `Cpu.posted`, `Cpu.pending` -- the interrupts that wait for a processor,
  * `checkInterrupts_eq`, `exchange_flags` -- the check, and what an exchange saves and clears,
  * `Action.raises`, `Action.clears` -- the interrupts an action can raise and clear,
  * `interrupts_kept` -- the same over whole runs.
-/
import CraySim.PacketContents
import CraySim.Transitions

namespace CraySim

/-! ## 1. Pending interrupts -/

/-- The flag of an interrupt that was posted: its `mNot…` flag is down. -/
def Flags.posted (aNot : Bool) (aFlag : CraySim.Flags) : CraySim.Flags := if aNot then 0 else aFlag

/-- The interrupts that were posted and are no flags yet. -/
def Cpu.posted (c : Cpu) : CraySim.Flags :=
  Flags.posted c.mNotInterProcessorInterrupt Flags.InterProcessorInterrupt
    ||| Flags.posted c.mNotDeadLockInterrupt Flags.Deadlock
    ||| Flags.posted c.mNotMcuInterrupt Flags.McuInterrupt
    ||| Flags.posted c.mNotIoInterrupt Flags.IoInterrupt

/-- The interrupts that wait for a processor. -/
def Cpu.pending (c : Cpu) : CraySim.Flags := c.Flags ||| c.posted

/-- The processor after `MirrorExternalInterrupts`. -/
def Cpu.mirrored (c : Cpu) : Cpu :=
  { c with
    Flags := c.pending
    mNotInterProcessorInterrupt := true
    mNotDeadLockInterrupt := true
    mNotMcuInterrupt := true
    mNotIoInterrupt := true }

/-- The end of the reset. -/
def Cpu.started (c : Cpu) : Cpu := { c with mInReset := false }

@[simp] theorem Cpu.mirrored_posted (c : Cpu) : c.mirrored.posted = 0 := by
  have hzero : (0#16 ||| 0#16 ||| 0#16 ||| 0#16 : CraySim.Flags) = 0 := by decide
  exact hzero

@[simp] theorem Cpu.mirrored_pending (c : Cpu) : c.mirrored.pending = c.pending := by
  unfold Cpu.pending
  rw [Cpu.mirrored_posted]
  exact BitVec.or_zero

theorem Cpu.interruptMask_fits (c : Cpu) :
    c.interruptMaskFromState &&& 0x07FF = c.interruptMaskFromState := by
  unfold Cpu.interruptMaskFromState
  generalize c.Mode.mMonitorMode = monitor
  generalize c.Mode.mInterruptMonitorMode = interruptMonitor
  generalize c.mInReset = reset
  generalize c.Mode.mFloatingPointErrorMode = fpe
  generalize c.Mode.mOperandRangeErrorMode = ore
  generalize (c.Mode.mCorrectableMemoryErrorMode || c.Mode.mUncorrectableMemoryErrorMode) = mem
  revert monitor interruptMonitor reset fpe ore mem
  decide

theorem Cpu.fitFlag_firing (c : Cpu) (mt : MachineTypes) :
    Accessor.fitFlag mt c.firingInterrupts = c.firingInterrupts := by
  have hfit : c.firingInterrupts &&& 0x07FF = c.firingInterrupts := by
    unfold Cpu.firingInterrupts
    rw [BitVec.and_assoc, BitVec.and_comm c.Flags, ← BitVec.and_assoc, c.interruptMask_fits]
  unfold Accessor.fitFlag
  cases mt.isXmp with
  | true => exact hfit
  | false =>
    have hsub : (0x07FF#16 : CraySim.Flags) &&& 0x0FFF = 0x07FF := rfl
    rw [← hfit, BitVec.and_assoc]
    exact congrArg _ hsub

/-! ## 2. The check and the exchange -/

section exchange
variable {pm : Params} {me : Fin pm.cpuCnt} {s : System pm}

theorem mirrorExternalInterrupts_eq (me : Fin pm.cpuCnt) (s : System pm) :
    SysRun.mirrorExternalInterrupts me s = (.ok (), s.modifyCpu me Cpu.mirrored) := by
  have hmirror : (fun c : Cpu => { c with
      Flags := c.Flags
        ||| (if c.mNotInterProcessorInterrupt then 0 else Flags.InterProcessorInterrupt)
        ||| (if c.mNotDeadLockInterrupt then 0 else Flags.Deadlock)
        ||| (if c.mNotMcuInterrupt then 0 else Flags.McuInterrupt)
        ||| (if c.mNotIoInterrupt then 0 else Flags.IoInterrupt)
      mNotInterProcessorInterrupt := true
      mNotDeadLockInterrupt := true
      mNotMcuInterrupt := true
      mNotIoInterrupt := true }) = Cpu.mirrored := by
    funext c
    unfold Cpu.mirrored Cpu.pending Cpu.posted Flags.posted
    simp only [BitVec.or_assoc]
  unfold SysRun.mirrorExternalInterrupts
  rw [hmirror]
  rfl

/-- **The check** asks what is pending for what the mode enables. -/
theorem checkInterrupts_eq (me : Fin pm.cpuCnt) (s : System pm) :
    SysRun.checkInterrupts me s =
      (.ok ((s.mCpus me).interruptMaskFromState &&& (s.mCpus me).pending != 0),
        s.modifyCpu me Cpu.mirrored) := by
  have hfire : ((s.modifyCpu me Cpu.mirrored).mCpus me).firingInterrupts =
      (s.mCpus me).interruptMaskFromState &&& (s.mCpus me).pending := by
    rw [System.modifyCpu_self]
    rfl
  unfold SysRun.checkInterrupts
  rw [Run.bind_apply_ok (mirrorExternalInterrupts_eq me s), Run.bind_apply_ok SysRun.cpu_apply,
    hfire]
  rfl

theorem created_flag {c : Cpu} {p : ExchangePacket} (h : ExchangePacket.ofState pm c = .ok p) :
    (p.setRegisters c.A c.S).getFlag = c.firingInterrupts := by
  have hregs : c.registerEntries.map Sigma.fst =
      (List.finRange 8).flatMap fun i => [Accessor.a i, Accessor.s i] := rfl
  have hbeside : Accessor.beside pm.machineType .flag (c.registerEntries.map Sigma.fst) = true := by
    rw [hregs]
    cases pm.machineType <;> rfl
  have hlast : c.contextEntries pm ++ c.registerEntries =
      (c.contextEntries pm).dropLast ++ ⟨.flag, c.firingInterrupts⟩ :: c.registerEntries := by
    unfold Cpu.contextEntries
    cases pm.isXmp with
    | true => rfl
    | false => rfl
  have hget := created_get h hlast (fun _ _ h => nomatch h) rfl hbeside
  exact (Except.ok.inj hget).trans (c.fitFlag_firing pm.machineType)

/-- What the restore leaves of a system: the interrupts, the memory and the other processors. -/
structure SameInterrupts (me : Fin pm.cpuCnt) (s s' : System pm) : Prop where
  Flags : (s'.mCpus me).Flags = (s.mCpus me).Flags
  posted : (s'.mCpus me).posted = (s.mCpus me).posted
  mInReset : (s'.mCpus me).mInReset = (s.mCpus me).mInReset
  mMemory : s'.mMemory = s.mMemory
  otherCpus : ∀ i, i ≠ me → s'.mCpus i = s.mCpus i

theorem SameInterrupts.refl (me : Fin pm.cpuCnt) (s : System pm) : SameInterrupts me s s :=
  ⟨rfl, rfl, rfl, rfl, fun _ _ => rfl⟩

theorem SameInterrupts.trans {s' s'' : System pm} (h : SameInterrupts me s s')
    (h' : SameInterrupts me s' s'') : SameInterrupts me s s'' where
  Flags := h'.Flags.trans h.Flags
  posted := h'.posted.trans h.posted
  mInReset := h'.mInReset.trans h.mInReset
  mMemory := h'.mMemory.trans h.mMemory
  otherCpus := fun i hi => (h'.otherCpus i hi).trans (h.otherCpus i hi)

theorem SameInterrupts.modifyCpu {g : Cpu → Cpu} (hflags : ∀ c, (g c).Flags = c.Flags)
    (hposted : ∀ c, (g c).posted = c.posted) (hreset : ∀ c, (g c).mInReset = c.mInReset) :
    SameInterrupts me s (s.modifyCpu me g) where
  Flags := by rw [System.modifyCpu_self, hflags]
  posted := by rw [System.modifyCpu_self, hposted]
  mInReset := by rw [System.modifyCpu_self, hreset]
  mMemory := rfl
  otherCpus := fun i hi => System.modifyCpu_ne s me g hi

theorem SameInterrupts.modifySelected (v : BitVec 8) (f : InterCpuCluster → InterCpuCluster) :
    SameInterrupts me s (s.modifySelected v f) := by
  unfold System.modifySelected
  split
  · exact ⟨rfl, rfl, rfl, rfl, fun _ _ => rfl⟩
  · exact SameInterrupts.refl me s

theorem setCluster_sameInterrupts (v : BitVec 8) (s : System pm) :
    SameInterrupts me s (SysRun.setCluster me v s).2 := by
  have hown : ∀ t, SameInterrupts me t (t.modifyCpu me fun c => c.setCluster v) := fun _ =>
    SameInterrupts.modifyCpu (fun _ => rfl) (fun _ => rfl) fun _ => rfl
  rw [SysRun.setCluster_eq]
  split
  · exact hown s
  · split
    · exact SameInterrupts.refl me s
    · split
      · exact SameInterrupts.modifySelected _ _
      · exact ((SameInterrupts.modifySelected _ _).trans (SameInterrupts.modifySelected _ _)).trans
          (hown _)

theorem SysRun.RestoreStep.posted {p : ExchangePacket} {c c' : Cpu}
    (h : SysRun.RestoreStep p c c') : c'.posted = c.posted := by
  unfold Cpu.posted
  rw [h.mNotInterProcessorInterrupt, h.mNotDeadLockInterrupt, h.mNotMcuInterrupt,
    h.mNotIoInterrupt]

/-- **The restore touches no interrupt**, whether it returns or throws. -/
theorem restore_sameInterrupts (me : Fin pm.cpuCnt) (p : ExchangePacket) (s : System pm) :
    SameInterrupts me s (SysRun.restoreFromExchangePacket me p s).2 := by
  refine SysRun.restore_keeps (I := SameInterrupts me s) ?_ ?_ s (SameInterrupts.refl me s)
  · intro g hg t ht
    exact ht.trans (SameInterrupts.modifyCpu (fun c => (hg c).Flags) (fun c => (hg c).posted)
      fun c => (hg c).mInReset)
  · intro v _ t ht
    exact ht.trans (setCluster_sameInterrupts v t)

/-- **What an exchange saves and clears**: the packet it leaves in memory holds what fires, and of
    that it clears what an exchange serves. -/
theorem exchange_flags (h : pm.machineType ≠ .C90 ∧ pm.machineType ≠ .T90) (me : Fin pm.cpuCnt)
    (s : System pm) :
    (ExchangePacket.read pm.machineType (SysRun.exchange me s).2.mMemory
        (s.mCpus me).packetAddress).getFlag = (s.mCpus me).firingInterrupts ∧
      ((SysRun.exchange me s).2.mCpus me).Flags =
        (s.mCpus me).Flags.clearBits
          ((s.mCpus me).firingInterrupts &&& Flags.clearedOnExchange) ∧
      ((SysRun.exchange me s).2.mCpus me).posted = (s.mCpus me).posted ∧
      ∀ i, i ≠ me → (SysRun.exchange me s).2.mCpus i = s.mCpus i := by
  obtain ⟨p, hp⟩ := ofState_returns h (s.mCpus me)
  rcases SysRun.exchange_cases me s with ⟨e, he, -⟩ | ⟨p', hp', hx⟩
  · rw [hp] at he
    cases he
  · cases hp.symm.trans hp'
    have hrest := restore_sameInterrupts me (s.nextContext me).clearFlags (SysRun.swapped me s p)
    rw [hx]
    refine ⟨?_, ?_, ?_, ?_⟩
    · have hread := @ExchangePacket.get_read_write (p.setRegisters (s.mCpus me).A (s.mCpus me).S)
        s.mMemory (s.mCpus me).packetAddress .flag rfl (fun h => nomatch h)
      rw [created_machineType hp] at hread
      rw [hrest.mMemory]
      exact (Except.ok.inj hread).trans (created_flag hp)
    · rw [hrest.Flags]
      unfold SysRun.swapped
      dsimp only
      rw [System.modifyCpu_self]
      rfl
    · rw [hrest.posted]
      unfold SysRun.swapped
      dsimp only
      rw [System.modifyCpu_self]
      rfl
    · intro i hi
      rw [hrest.otherCpus i hi]
      exact System.modifyCpu_ne s me _ hi

/-- Without a layout for the packet nothing happens. -/
theorem exchange_unchanged (h : pm.machineType = .C90 ∨ pm.machineType = .T90)
    (me : Fin pm.cpuCnt) (s : System pm) : (SysRun.exchange me s).2 = s := by
  obtain ⟨e, he⟩ := ofState_fails h (s.mCpus me)
  rcases SysRun.exchange_cases me s with ⟨e', -, hx⟩ | ⟨p, hp, -⟩
  · rw [hx]
  · rw [he] at hp
    cases hp

end exchange

/-! ## 3. What an action can raise and clear -/

/-- `q` is `p` but for flags of `r` that went up and flags of `k` that went down. -/
structure Flags.Moves (r k p q : CraySim.Flags) : Prop where
  raised : ∀ b, q.getLsbD b = true → p.getLsbD b = true ∨ r.getLsbD b = true
  cleared : ∀ b, p.getLsbD b = true → q.getLsbD b = true ∨ k.getLsbD b = true

namespace Flags.Moves

variable {r k p q t x : CraySim.Flags}

theorem refl (r k p : CraySim.Flags) : Moves r k p p :=
  ⟨fun _ h => .inl h, fun _ h => .inl h⟩

theorem trans (h : Moves r k p q) (h' : Moves r k q t) : Moves r k p t where
  raised := fun b hb => by
    rcases h'.raised b hb with hq | hr
    · exact h.raised b hq
    · exact .inr hr
  cleared := fun b hb => by
    rcases h.cleared b hb with hq | hk
    · exact h'.cleared b hq
    · exact .inr hk

/-- Flags of `r` go up. -/
theorem up (h : ∀ b, x.getLsbD b = true → r.getLsbD b = true)
    (hq : ∀ b, q.getLsbD b = (p.getLsbD b || x.getLsbD b)) : Moves r k p q where
  raised := fun b hb => by
    rw [hq, Bool.or_eq_true] at hb
    exact hb.imp_right (h b)
  cleared := fun b hb => .inl (by rw [hq, hb, Bool.true_or])

/-- Flags of `k` go down. -/
theorem down (h : ∀ b, p.getLsbD b = true → q.getLsbD b = true ∨ k.getLsbD b = true)
    (hq : ∀ b, q.getLsbD b = true → p.getLsbD b = true) : Moves r k p q where
  raised := fun b hb => .inl (hq b hb)
  cleared := h

end Flags.Moves

theorem Cpu.getLsbD_pending (c : Cpu) (b : Nat) :
    c.pending.getLsbD b = (c.Flags.getLsbD b || c.posted.getLsbD b) := BitVec.getLsbD_or

/-- The flag an interrupt from outside becomes. -/
def ExternalInterrupt.flag : ExternalInterrupt → CraySim.Flags
  | interProcessor => Flags.InterProcessorInterrupt
  | deadLock => Flags.Deadlock
  | mcu => Flags.McuInterrupt
  | io => Flags.IoInterrupt

/-- What the instruction of a processor can raise: an interrupt of any processor in monitor mode,
    errors and exits of its own. -/
def instructionRaises (aOwn aMonitor : Bool) : CraySim.Flags :=
  (if aMonitor then Flags.InterProcessorInterrupt else 0)
    ||| (if aOwn then Flags.ProgramRangeError ||| Flags.OperandRangeError ||| Flags.ErrorExit
          ||| Flags.NormalExit else 0)

/-- What the instruction of a processor can clear, interrupts of its own only: the floating point
    error, in monitor mode the interrupts other parts post, and by `CCI` the one of the clock. -/
def instructionClears (aOwn aMonitor aCCI : Bool) : CraySim.Flags :=
  if aOwn then
    Flags.FloatingPointError
      ||| (if aMonitor then Flags.IoInterrupt ||| Flags.InterProcessorInterrupt else 0)
      ||| (if aMonitor && aCCI then Flags.ProgrammableClockInterrupt else 0)
  else 0

/-- What the programmable clock raises: its interrupt, when the count is down. -/
def Cpu.clockRaises (c : Cpu) : CraySim.Flags :=
  if c.PeriodicInterruptCountDown = 0 then
    if c.PeriodicInterruptEnabled then Flags.ProgrammableClockInterrupt else 0
  else 0

/-- The interrupts of processor `i` an action can raise. -/
def Action.raises {pm : Params} (s : System pm) (i : Fin pm.cpuCnt) : Action pm → CraySim.Flags
  | .counters me => if i = me then (s.mCpus i).clockRaises else 0
  | .instruction me => instructionRaises (i = me) (s.mCpus me).isMonitorMode
  | .deadStart me _ => if i = me then Flags.McuInterrupt else 0
  | .post me e => if i = me then e.flag else 0
  | _ => 0

/-- The interrupts of processor `i` an action can clear; an exchange clears what it has saved. -/
def Action.clears {pm : Params} (s : System pm) (i : Fin pm.cpuCnt) : Action pm → CraySim.Flags
  | .interrupt me =>
    if i = me then (s.mCpus i).started.firingInterrupts &&& Flags.clearedOnExchange else 0
  | .instruction me =>
    instructionClears (i = me) (s.mCpus me).isMonitorMode
      (extractFields (SysRun.fetched s me)).isCCI
  | .masterClear me => if i = me then BitVec.allOnes 16 else 0
  | _ => 0

section steps
variable {pm : Params} {me i : Fin pm.cpuCnt} {s s' : System pm} {b : Nat}

/-- A flag goes up for processor `me`. -/
theorem moves_modifyCpu {g : Cpu → Cpu} {r k : CraySim.Flags}
    (h : i = me → Flags.Moves r k (s.mCpus i).pending (g (s.mCpus i)).pending) :
    Flags.Moves r k (s.mCpus i).pending ((s.modifyCpu me g).mCpus i).pending := by
  by_cases hi : i = me
  · rw [← hi, System.modifyCpu_self]
    exact h hi
  · rw [System.modifyCpu_ne s me g hi]
    exact Flags.Moves.refl r k _

theorem Cpu.raise_pending (c : Cpu) (fl : CraySim.Flags) (b : Nat) :
    (c.raise fl).pending.getLsbD b = (c.pending.getLsbD b || fl.getLsbD b) := by
  have hposted : (c.raise fl).posted = c.posted := rfl
  rw [Cpu.getLsbD_pending, Cpu.getLsbD_pending, hposted, Cpu.raise, BitVec.getLsbD_or]
  cases c.Flags.getLsbD b <;> cases fl.getLsbD b <;> cases c.posted.getLsbD b <;> rfl

theorem ExternalInterrupt.post_posted (e : ExternalInterrupt) (c : Cpu) :
    (e.post c).posted = c.posted ||| e.flag := by
  unfold Cpu.posted
  cases e with
  | _ =>
    simp only [post, flag]
    generalize c.mNotInterProcessorInterrupt = ip
    generalize c.mNotDeadLockInterrupt = dl
    generalize c.mNotMcuInterrupt = mcu
    generalize c.mNotIoInterrupt = io
    revert ip dl mcu io
    decide

theorem ExternalInterrupt.post_pending (e : ExternalInterrupt) (c : Cpu) (b : Nat) :
    (e.post c).pending.getLsbD b = (c.pending.getLsbD b || e.flag.getLsbD b) := by
  have hflags : (e.post c).Flags = c.Flags := by cases e <;> rfl
  rw [Cpu.getLsbD_pending, Cpu.getLsbD_pending, hflags, post_posted, BitVec.getLsbD_or,
    Bool.or_assoc]

theorem getLsbD_of_and {x y : CraySim.Flags} (h : x &&& y = x) (b : Nat)
    (hb : x.getLsbD b = true) : y.getLsbD b = true := by
  rw [← h, BitVec.getLsbD_and, Bool.and_eq_true] at hb
  exact hb.2

theorem moves_raise {c : Cpu} {r k x : CraySim.Flags} (hx : x &&& r = x) :
    Flags.Moves r k c.pending (c.raise x).pending :=
  Flags.Moves.up (getLsbD_of_and hx) (c.raise_pending x)

/-- Flags go down; an interrupt that was posted in the meantime still waits. -/
theorem moves_clear {c c' : Cpu} {r k x : CraySim.Flags} (hx : x &&& k = x)
    (hflags : c'.Flags = c.Flags &&& ~~~x) (hposted : c'.posted = c.posted) :
    Flags.Moves r k c.pending c'.pending := by
  have hbit : ∀ b, c'.pending.getLsbD b =
      (c.Flags.getLsbD b && (~~~x).getLsbD b || c.posted.getLsbD b) := fun b => by
    rw [Cpu.getLsbD_pending, hflags, hposted, BitVec.getLsbD_and]
  refine Flags.Moves.down (fun b hb => ?_) fun b hb => ?_
  · by_cases hxb : x.getLsbD b = true
    · exact .inr (getLsbD_of_and hx b hxb)
    · left
      have hlt : b < 16 := by
        by_contra hge
        rw [BitVec.getLsbD_of_ge _ _ (by omega)] at hb
        cases hb
      rw [Cpu.getLsbD_pending] at hb
      rw [hbit, BitVec.getLsbD_not, decide_eq_true hlt, Bool.eq_false_iff.mpr hxb, Bool.not_false,
        Bool.and_true, Bool.and_true]
      exact hb
  · rw [hbit, Bool.or_eq_true, Bool.and_eq_true] at hb
    rw [Cpu.getLsbD_pending, Bool.or_eq_true]
    exact hb.imp_left And.left

/-- The errors and exits an instruction can raise. -/
theorem raises_own (m : Bool) {x : CraySim.Flags}
    (h : x = Flags.ProgramRangeError ∨ x = Flags.OperandRangeError ∨ x = Flags.ErrorExit ∨
      x = Flags.NormalExit) : x &&& instructionRaises true m = x := by
  rcases h with rfl | rfl | rfl | rfl <;> cases m <;> decide

theorem raises_monitor (own : Bool) :
    Flags.InterProcessorInterrupt &&& instructionRaises own true = Flags.InterProcessorInterrupt := by
  cases own <;> decide

theorem clears_own (m cci : Bool) :
    Flags.FloatingPointError &&& instructionClears true m cci = Flags.FloatingPointError := by
  cases m <;> cases cci <;> decide

theorem clears_monitor (cci : Bool) {x : CraySim.Flags}
    (h : x = Flags.IoInterrupt ∨ x = Flags.InterProcessorInterrupt) :
    x &&& instructionClears true true cci = x := by
  rcases h with rfl | rfl <;> cases cci <;> decide

/-- **What one request does to the pending interrupts of a processor.** -/
theorem CpuEffect.moves {own : Prop} [Decidable own] {r : Req} {c c' : Cpu} {f : Fields}
    {m : Bool} (h : CpuEffect own r c c') (ha : Allowed pm f (m = true) r) :
    Flags.Moves (instructionRaises own m) (instructionClears own m f.isCCI)
      c.pending c'.pending := by
  cases h with
  | none | blocked | cluster => exact Flags.Moves.refl _ _ _
  | @write w _ hown =>
    rw [decide_eq_true hown]
    cases w with
    | setErrorExit => exact moves_raise (raises_own m (.inr (.inr (.inl rfl))))
    | setNormalExit => exact moves_raise (raises_own m (.inr (.inr (.inr rfl))))
    | clearFloatingPointError => exact moves_clear (clears_own m f.isCCI) rfl rfl
    | _ => exact Flags.Moves.refl _ _ _
  | @privWrite w _ hown =>
    rw [decide_eq_true hown]
    cases w with
    | clearIoInterrupt =>
      have hm : m = true := ha
      rw [hm]
      exact moves_clear (clears_monitor f.isCCI (.inl rfl)) rfl rfl
    | clearInterProcessorInterrupt =>
      have hm : m = true := ha
      rw [hm]
      exact moves_clear (clears_monitor f.isCCI (.inr rfl)) rfl rfl
    | clearProgrammableClockInterrupt =>
      have hcci : Flags.ProgrammableClockInterrupt &&& instructionClears true true true =
          Flags.ProgrammableClockInterrupt := by decide
      rw [show m = true from ha.1, ha.2]
      exact moves_clear hcci rfl rfl
    | _ => exact Flags.Moves.refl _ _ _
  | posted =>
    have hm : m = true := ha
    rw [hm]
    exact Flags.Moves.up (getLsbD_of_and (raises_monitor _))
      (ExternalInterrupt.interProcessor.post_pending c)

/-- The flag of a range error is one an instruction can raise. -/
theorem raises_rangeFlag (m : Bool) (e : Exn) :
    SysRun.rangeFlag e &&& instructionRaises true m = SysRun.rangeFlag e := by
  cases e with
  | instFetchOutOfBoundsError => exact raises_own m (.inl rfl)
  | dataReadOutOfBoundsError => exact raises_own m (.inr (.inl rfl))
  | dataWriteOutOfBoundsError => exact raises_own m (.inr (.inl rfl))
  | _ => exact BitVec.zero_and

/-- The same for an instruction, whatever it ends in. -/
theorem instruction_moves (me i : Fin pm.cpuCnt) (s : System pm) :
    Flags.Moves (Action.raises s i (.instruction me)) (Action.clears s i (.instruction me))
      (s.mCpus i).pending ((SysRun.instruction me s).2.mCpus i).pending := by
  generalize hr : Action.raises s i (.instruction me) = r
  generalize hk : Action.clears s i (.instruction me) = k
  have hraise : ∀ (t : System pm) (e : Exn),
      Flags.Moves r k (t.mCpus i).pending
        ((t.modifyCpu me fun c => c.raise (SysRun.rangeFlag e)).mCpus i).pending := by
    intro t e
    refine moves_modifyCpu fun hi => moves_raise ?_
    rw [← hr, Action.raises, decide_eq_true hi]
    exact raises_rangeFlag _ e
  have hrun : Flags.Moves r k (s.mCpus i).pending ((SysRun.execute me s).2.mCpus i).pending := by
    refine (decode_run (I := fun t => Flags.Moves r k (s.mCpus i).pending (t.mCpus i).pending) true
      (SysRun.fetched s me) ?_ (Flags.Moves.refl r k _)).1
    intro q t ha _ _ ht
    have hstep := ((SysRun.handler_effect me t q).cpu i).moves ha
    rw [← hr, ← hk] at ht ⊢
    exact ht.trans hstep
  have ho := SysRun.instruction_outcome me s
  generalize (SysRun.instruction me s).2 = s' at ho
  cases ho with
  | fetchFails => exact hraise s .instFetchOutOfBoundsError
  | executes _ he =>
    rw [he] at hrun
    exact hrun.trans (moves_modifyCpu fun _ => Flags.Moves.refl r k _)
  | throws _ he =>
    rw [he] at hrun
    exact hrun.trans (hraise _ _)

theorem interrupt_eq (me : Fin pm.cpuCnt) (s : System pm) :
    SysRun.interrupt me s = SysRun.exchange me (s.modifyCpu me Cpu.started) := rfl

theorem interrupt_moves (me i : Fin pm.cpuCnt) (s : System pm) :
    Flags.Moves (Action.raises s i (.interrupt me)) (Action.clears s i (.interrupt me))
      (s.mCpus i).pending ((SysRun.interrupt me s).2.mCpus i).pending := by
  have hstart : ∀ i, ((s.modifyCpu me Cpu.started).mCpus i).pending = (s.mCpus i).pending := by
    intro i
    by_cases hi : i = me
    · rw [hi, System.modifyCpu_self]
      rfl
    · rw [System.modifyCpu_ne s me _ hi]
  rw [interrupt_eq, ← hstart i]
  by_cases hmt : pm.machineType = .C90 ∨ pm.machineType = .T90
  · rw [exchange_unchanged hmt]
    exact Flags.Moves.refl _ _ _
  · obtain ⟨-, hflags, hposted, hother⟩ := exchange_flags (not_or.mp hmt) me
      (s.modifyCpu me Cpu.started)
    by_cases hi : i = me
    · subst hi
      refine moves_clear ?_ hflags hposted
      rw [Action.clears, if_pos rfl, System.modifyCpu_self, BitVec.and_self]
    · rw [hother i hi]
      exact Flags.Moves.refl _ _ _

/-- The processor after `HandleCounters`. -/
def Cpu.counted (c : Cpu) : Cpu :=
  if c.PeriodicInterruptCountDown = 0 then
    { c with
      Flags := c.Flags
        ||| (if c.PeriodicInterruptEnabled then Flags.ProgrammableClockInterrupt else 0)
      PeriodicInterruptCountDown := c.PeriodicInterruptLimit }
  else if c.PeriodicInterruptCountDown < c.mTimerIncrement then
    { c with PeriodicInterruptCountDown := 0 }
  else { c with PeriodicInterruptCountDown := c.PeriodicInterruptCountDown - c.mTimerIncrement }

theorem handleCounters_eq (me : Fin pm.cpuCnt) (s : System pm) :
    SysRun.handleCounters me s = (.ok (), s.modifyCpu me Cpu.counted) := rfl

theorem Cpu.counted_pending (c : Cpu) (b : Nat) :
    c.counted.pending.getLsbD b = (c.pending.getLsbD b || c.clockRaises.getLsbD b) := by
  have hraise := fun fl => c.raise_pending fl b
  unfold Cpu.counted Cpu.clockRaises
  by_cases h0 : c.PeriodicInterruptCountDown = 0
  · rw [if_pos h0, if_pos h0]
    exact hraise _
  · rw [if_neg h0, if_neg h0, ← hraise, Cpu.raise_zero]
    split
    · rfl
    · rfl

theorem modifyCpu_pending {g : Cpu → Cpu} {x : CraySim.Flags}
    (hg : ∀ b, (g (s.mCpus me)).pending.getLsbD b =
      ((s.mCpus me).pending.getLsbD b || x.getLsbD b)) (i : Fin pm.cpuCnt) (b : Nat) :
    ((s.modifyCpu me g).mCpus i).pending.getLsbD b =
      ((s.mCpus i).pending.getLsbD b || (if i = me then x else 0 : CraySim.Flags).getLsbD b) := by
  by_cases hi : i = me
  · rw [if_pos hi, hi, ← hg, System.modifyCpu_self]
  · rw [if_neg hi, System.modifyCpu_ne s me g hi]
    simp

/-- The actions that clear nothing: what they raise is pending afterwards, beside what was. -/
def Action.onlyRaises : Action pm → Bool
  | .interrupt _ | .instruction _ | .masterClear _ => false
  | _ => true

theorem Step.pending_eq {a : Action pm} (h : Step a s s') (ha : a.onlyRaises = true)
    (i : Fin pm.cpuCnt) (b : Nat) :
    (s'.mCpus i).pending.getLsbD b =
      ((s.mCpus i).pending.getLsbD b || (a.raises s i).getLsbD b) := by
  have hzero : ∀ p : CraySim.Flags, p.getLsbD b = (p.getLsbD b || (0 : CraySim.Flags).getLsbD b) := by
    simp
  cases h with
  | @counters me =>
    have hown := modifyCpu_pending (s := s) (fun b => (s.mCpus me).counted_pending b) i b
    rw [handleCounters_eq, hown]
    by_cases hi : i = me
    · rw [hi]
      rfl
    · rw [if_neg hi, Action.raises, if_neg hi]
  | @mirror me =>
    rw [mirrorExternalInterrupts_eq]
    by_cases hi : i = me
    · rw [hi, System.modifyCpu_self, Cpu.mirrored_pending]
      exact hzero _
    · rw [System.modifyCpu_ne s me _ hi]
      exact hzero _
  | @interrupt me => cases ha
  | @instruction me => cases ha
  | @masterClear me => cases ha
  | @deadStart me pokes =>
    exact modifyCpu_pending (s := { s with mMemory := _ })
      (fun b => ExternalInterrupt.mcu.post_pending (s.mCpus me) b) i b
  | @post me e => exact modifyCpu_pending (fun b => e.post_pending _ b) i b
  | device => exact hzero _

/-- The processor after `MasterClear`. -/
def Cpu.masterCleared (c : Cpu) : Cpu :=
  { c with
    mInReset := true
    TestAndSetBlocked := false
    Mode := { c.Mode with mMonitorMode := false }
    Flags := 0
    mNotInterProcessorInterrupt := true
    mNotDeadLockInterrupt := true
    mNotMcuInterrupt := true
    mNotIoInterrupt := true }

theorem masterClear_eq (me : Fin pm.cpuCnt) (s : System pm) :
    SysRun.masterClear me s = (.ok (), s.modifyCpu me Cpu.masterCleared) := rfl

theorem Cpu.masterCleared_pending (c : Cpu) : c.masterCleared.pending = 0 := by
  have hnone : (0#16 ||| (0#16 ||| 0#16 ||| 0#16 ||| 0#16) : CraySim.Flags) = 0 := by decide
  exact hnone

/-- **Every step**: an interrupt comes or goes only as the action says. -/
theorem Step.moves {a : Action pm} (h : Step a s s') (i : Fin pm.cpuCnt) :
    Flags.Moves (a.raises s i) (a.clears s i) (s.mCpus i).pending (s'.mCpus i).pending := by
  have hup : a.onlyRaises = true →
      Flags.Moves (a.raises s i) (a.clears s i) (s.mCpus i).pending (s'.mCpus i).pending :=
    fun ha => Flags.Moves.up (fun _ hb => hb) (h.pending_eq ha i)
  cases h with
  | @interrupt me => exact interrupt_moves me i s
  | @instruction me => exact instruction_moves me i s
  | @masterClear me =>
    have hclears : Action.clears s i (.masterClear me) =
        if i = me then BitVec.allOnes 16 else 0 := rfl
    rw [hclears, masterClear_eq]
    refine moves_modifyCpu fun hi => ?_
    rw [if_pos hi, Cpu.masterCleared_pending]
    refine Flags.Moves.down (fun b hb => .inr ?_) fun b hb => ?_
    · rw [BitVec.getLsbD_allOnes]
      exact decide_eq_true (BitVec.lt_of_getLsbD hb)
    · simp at hb
  | _ => exact hup rfl

end steps

/-! ## 4. Whole runs -/

section runs
variable {pm : Params} {i : Fin pm.cpuCnt} {s s0 : System pm} {b : Nat}

/-- **Nothing is lost**: an interrupt waits until an action clears it. -/
theorem Reaches.pending_kept
    (h : Reaches (fun a t => (a.clears t i).getLsbD b = false) s0 s)
    (h0 : (s0.mCpus i).pending.getLsbD b = true) : (s.mCpus i).pending.getLsbD b = true := by
  refine h.invariant (I := fun t => (t.mCpus i).pending.getLsbD b = true) h0 ?_
  intro a t t' hC hs ht
  rcases (hs.moves i).cleared b ht with hp | hk
  · exact hp
  · rw [hC] at hk
    cases hk

/-- **Nothing is invented**: an interrupt that waits was raised by an action. -/
theorem Reaches.pending_raised
    (h : Reaches (fun a t => (a.raises t i).getLsbD b = false) s0 s)
    (hb : (s.mCpus i).pending.getLsbD b = true) : (s0.mCpus i).pending.getLsbD b = true := by
  by_contra h0
  refine absurd hb (h.invariant (I := fun t => ¬ (t.mCpus i).pending.getLsbD b = true) h0 ?_)
  intro a t t' hC hs ht hp
  rcases (hs.moves i).raised b hp with hq | hr
  · exact ht hq
  · rw [hC] at hr
    cases hr

/-- The action is a `CCI` of processor `i` that takes effect. -/
def Action.executesCCI (s : System pm) (i : Fin pm.cpuCnt) (a : Action pm) : Prop :=
  a = .instruction i ∧ ¬ SysRun.fetchFails pm (s.mCpus i) ∧
    (extractFields (SysRun.fetched s i)).isCCI = true ∧ (s.mCpus i).isMonitorMode = true

theorem and_clock_ne_zero (x : CraySim.Flags) :
    x &&& Flags.ProgrammableClockInterrupt ≠ 0 ↔ x.getLsbD 8 = true := by
  have hpow : Flags.ProgrammableClockInterrupt = BitVec.twoPow 16 8 := by decide
  rw [hpow, BitVec.and_twoPow]
  cases x.getLsbD 8 with
  | true => exact ⟨fun _ => rfl, fun _ => by decide⟩
  | false => exact ⟨fun h => absurd rfl h, fun h => nomatch h⟩

theorem instructionClears_clock (own m cci : Bool) :
    (instructionClears own m cci).getLsbD 8 = (own && m && cci) := by
  cases own <;> cases m <;> cases cci <;> decide

/-- An exchange never clears the interrupt of the clock. -/
theorem clears_clock {a : Action pm} (ha : a ≠ .masterClear i)
    (hinst : ∀ me, a ≠ .instruction me) : (a.clears s i).getLsbD 8 = false := by
  have hzero : (0 : CraySim.Flags).getLsbD 8 = false := by decide
  cases a with
  | interrupt me =>
    have hcleared : Flags.clearedOnExchange.getLsbD 8 = false := by decide
    rw [Action.clears]
    split
    · rw [BitVec.getLsbD_and, hcleared, Bool.and_false]
    · exact hzero
  | masterClear me =>
    have hne : ¬ i = me := fun hi => ha (by rw [hi])
    rw [Action.clears, if_neg hne]
    exact hzero
  | instruction me => exact absurd rfl (hinst me)
  | _ => exact hzero

/-- **The clock's interrupt waits for `CCI`**, one instruction. -/
theorem instruction_clock (me : Fin pm.cpuCnt)
    (hcci : ¬ (Action.instruction me).executesCCI s i)
    (h : (s.mCpus i).pending.getLsbD 8 = true) :
    ((SysRun.instruction me s).2.mCpus i).pending.getLsbD 8 = true := by
  by_cases hf : SysRun.fetchFails pm (s.mCpus me)
  · rw [SysRun.instruction_of_error (SysRun.singleStep_fails hf)]
    refine ((moves_modifyCpu fun _ => moves_raise (k := 0) BitVec.and_self).cleared 8
      h).resolve_right fun hk => ?_
    simp at hk
  · refine ((instruction_moves me i s).cleared 8 h).resolve_right fun hk => ?_
    rw [Action.clears, instructionClears_clock, Bool.and_eq_true, Bool.and_eq_true,
      decide_eq_true_eq] at hk
    obtain ⟨⟨rfl, hm⟩, hc⟩ := hk
    exact hcci ⟨rfl, hf, hc, hm⟩

theorem Reaches.clock_kept
    (h : Reaches (fun a t => a ≠ .masterClear i ∧ ¬ a.executesCCI t i) s0 s)
    (h0 : (s0.mCpus i).pending &&& Flags.ProgrammableClockInterrupt ≠ 0) :
    (s.mCpus i).pending &&& Flags.ProgrammableClockInterrupt ≠ 0 := by
  rw [and_clock_ne_zero] at h0 ⊢
  refine h.invariant (I := fun t => (t.mCpus i).pending.getLsbD 8 = true) h0 ?_
  intro a t t' hC hs ht
  by_cases hinst : ∃ me, a = .instruction me
  · obtain ⟨me, rfl⟩ := hinst
    cases hs
    exact instruction_clock me hC.2 ht
  · refine ((hs.moves i).cleared 8 ht).resolve_right fun hk => ?_
    rw [clears_clock hC.1 fun me hme => hinst ⟨me, hme⟩] at hk
    cases hk

/-- In reset a processor is in user mode, so that the end of the reset does not change its mask. -/
def Cpu.ResetInUserMode (c : Cpu) : Prop := c.mInReset = true → c.isMonitorMode = false

theorem Cpu.ResetInUserMode.mask {c : Cpu} (h : c.ResetInUserMode) :
    c.started.interruptMaskFromState = c.interruptMaskFromState := by
  cases hr : c.mInReset with
  | false =>
    have hsame : c.started = c := by
      unfold Cpu.started
      rw [← hr]
    rw [hsame]
  | true =>
    have hm : c.Mode.mMonitorMode = false := h hr
    have hm' : c.started.Mode.mMonitorMode = false := hm
    unfold Cpu.interruptMaskFromState
    rw [hm, hm']
    rfl

/-- A change of a processor that keeps its reset and its privilege. -/
def Cpu.SameModes (c c' : Cpu) : Prop :=
  c'.mInReset = c.mInReset ∧ c'.isMonitorMode = c.isMonitorMode

theorem Cpu.SameModes.resetInUserMode {c c' : Cpu} (h : c.SameModes c')
    (hc : c.ResetInUserMode) : c'.ResetInUserMode := by
  intro hr
  rw [h.1] at hr
  rw [h.2]
  exact hc hr

theorem sameModes_modifyCpu {g : Cpu → Cpu} (hg : ∀ c, Cpu.SameModes c (g c)) (me : Fin pm.cpuCnt)
    (t : System pm) : (t.mCpus i).SameModes ((t.modifyCpu me g).mCpus i) := by
  by_cases hi : i = me
  · rw [hi, System.modifyCpu_self]
    exact hg _
  · rw [System.modifyCpu_ne t me g hi]
    exact ⟨rfl, rfl⟩

theorem Cpu.counted_sameModes (c : Cpu) : c.SameModes c.counted := by
  unfold Cpu.counted
  split
  · exact ⟨rfl, rfl⟩
  · split
    · exact ⟨rfl, rfl⟩
    · exact ⟨rfl, rfl⟩

theorem instruction_sameModes (me : Fin pm.cpuCnt) (t : System pm) :
    (t.mCpus i).SameModes ((SysRun.instruction me t).2.mCpus i) := by
  have htrans : ∀ {c c' c'' : Cpu}, c.SameModes c' → c'.SameModes c'' → c.SameModes c'' :=
    fun h h' => ⟨h'.1.trans h.1, h'.2.trans h.2⟩
  refine (SysRun.instruction_outcome me t).keeps
    (I := fun u => (t.mCpus i).SameModes (u.mCpus i)) ?_ ?_ ?_ ⟨rfl, rfl⟩
  · intro r u _ _ hu
    have hstep := (SysRun.handler_effect me u r).cpu i
    exact htrans hu ⟨hstep.inReset, hstep.mode.2⟩
  · intro u n hu
    exact htrans hu (sameModes_modifyCpu (g := fun c => c.advance n) (fun _ => ⟨rfl, rfl⟩) me u)
  · intro u fl hu
    exact htrans hu (sameModes_modifyCpu (g := fun c => c.raise fl) (fun _ => ⟨rfl, rfl⟩) me u)

theorem exchange_inReset (me : Fin pm.cpuCnt) (t : System pm) :
    ((SysRun.exchange me t).2.mCpus me).mInReset = (t.mCpus me).mInReset ∧
      ∀ i, i ≠ me → (SysRun.exchange me t).2.mCpus i = t.mCpus i := by
  rcases SysRun.exchange_cases me t with ⟨e, -, hx⟩ | ⟨p, -, hx⟩
  · rw [hx]
    exact ⟨rfl, fun _ _ => rfl⟩
  · have hrest := restore_sameInterrupts me (t.nextContext me).clearFlags (SysRun.swapped me t p)
    rw [hx]
    refine ⟨?_, fun i hi => ?_⟩
    · rw [hrest.mInReset]
      have hcreated : (SysRun.swapped me t p).mCpus me = (t.mCpus me).packetCreated :=
        System.modifyCpu_self t me Cpu.packetCreated
      rw [hcreated]
      rfl
    · rw [hrest.otherCpus i hi]
      exact System.modifyCpu_ne t me _ hi

theorem Step.resetInUserMode {a : Action pm} {t t' : System pm} (h : Step a t t')
    (ht : (t.mCpus i).ResetInUserMode) : (t'.mCpus i).ResetInUserMode := by
  cases h with
  | @counters me => exact (sameModes_modifyCpu Cpu.counted_sameModes me t).resetInUserMode ht
  | @mirror me =>
    rw [mirrorExternalInterrupts_eq]
    exact (sameModes_modifyCpu (g := Cpu.mirrored) (fun _ => ⟨rfl, rfl⟩) me t).resetInUserMode ht
  | @interrupt me =>
    obtain ⟨hreset, hother⟩ := exchange_inReset me (t.modifyCpu me Cpu.started)
    rw [interrupt_eq]
    by_cases hi : i = me
    · intro hr
      rw [hi, hreset, System.modifyCpu_self] at hr
      cases hr
    · rw [hother i hi, System.modifyCpu_ne t me _ hi]
      exact ht
  | @instruction me => exact (instruction_sameModes me t).resetInUserMode ht
  | @masterClear me =>
    rw [masterClear_eq]
    by_cases hi : i = me
    · rw [hi, System.modifyCpu_self]
      exact fun _ => rfl
    · rw [System.modifyCpu_ne t me _ hi]
      exact ht
  | @deadStart me pokes =>
    exact (sameModes_modifyCpu (g := ExternalInterrupt.mcu.post) (fun _ => ⟨rfl, rfl⟩) me
      { t with mMemory := _ }).resetInUserMode ht
  | @post me e =>
    refine (sameModes_modifyCpu (g := e.post) (fun c => ?_) me t).resetInUserMode ht
    cases e <;> exact ⟨rfl, rfl⟩
  | device => exact ht

/-- The mask the check asks for is the one the exchange serves. -/
theorem Reaches.mask {C : Action pm → System pm → Prop} (h : Reaches C s0 s)
    (h0 : (s0.mCpus i).ResetInUserMode) :
    (s.mCpus i).started.interruptMaskFromState = (s.mCpus i).interruptMaskFromState :=
  (h.invariant (I := fun t => (t.mCpus i).ResetInUserMode) h0
    fun _ _ _ _ hs ht => hs.resetInUserMode ht).mask

end runs

/-- **No interrupt is lost or invented.** The check asks what is pending for what the mode enables.
    An exchange saves exactly what is pending and enabled, clears of that what it serves, and
    leaves the rest as it was, and so the other processors; on a machine without a layout for the
    packet it does nothing. What an event posts or the clock raises is pending afterwards, beside
    what was. Over a run an interrupt comes only by an action that raises it and goes only by one
    that clears it; the one of the programmable clock goes only by `CCI` in monitor mode or a
    master clear. The mask of the check is the mask of the exchange that follows, in every run from
    a state with no processor in reset and monitor mode at once. -/
theorem interrupts_kept {pm : Params} (i : Fin pm.cpuCnt) :
    (∀ s, SysRun.checkInterrupts i s =
      (.ok ((s.mCpus i).interruptMaskFromState &&& (s.mCpus i).pending != 0),
        s.modifyCpu i Cpu.mirrored)) ∧
    (∀ s, pm.machineType ≠ .C90 ∧ pm.machineType ≠ .T90 →
      let c := s.mCpus i
      let t := (SysRun.exchange i s).2
      (ExchangePacket.read pm.machineType t.mMemory c.packetAddress).getFlag =
          c.interruptMaskFromState &&& c.Flags ∧
        (t.mCpus i).Flags =
          c.Flags &&& ~~~(c.interruptMaskFromState &&& c.Flags &&& Flags.clearedOnExchange) ∧
        (t.mCpus i).posted = c.posted ∧ ∀ j, j ≠ i → t.mCpus j = s.mCpus j) ∧
    (∀ s, pm.machineType = .C90 ∨ pm.machineType = .T90 → (SysRun.exchange i s).2 = s) ∧
    (∀ a s s', Step a s s' → a.onlyRaises = true →
      (s'.mCpus i).pending = (s.mCpus i).pending ||| a.raises s i) ∧
    (∀ s0 s b, Reaches (fun a t => (a.clears t i).getLsbD b = false) s0 s →
      (s0.mCpus i).pending.getLsbD b = true → (s.mCpus i).pending.getLsbD b = true) ∧
    (∀ s0 s b, Reaches (fun a t => (a.raises t i).getLsbD b = false) s0 s →
      (s.mCpus i).pending.getLsbD b = true → (s0.mCpus i).pending.getLsbD b = true) ∧
    (∀ s0 s, Reaches (fun a t => a ≠ .masterClear i ∧ ¬ a.executesCCI t i) s0 s →
      (s0.mCpus i).pending &&& Flags.ProgrammableClockInterrupt ≠ 0 →
      (s.mCpus i).pending &&& Flags.ProgrammableClockInterrupt ≠ 0) ∧
    ∀ s0 s, Reaches (fun _ _ => True) s0 s → (s0.mCpus i).ResetInUserMode →
      (s.mCpus i).started.interruptMaskFromState = (s.mCpus i).interruptMaskFromState := by
  refine ⟨fun s => checkInterrupts_eq i s, fun s h => exchange_flags h i s,
    fun s h => exchange_unchanged h i s, fun a s s' hs ha => ?_, fun _ _ _ h => h.pending_kept,
    fun _ _ _ h => h.pending_raised, fun _ _ h => h.clock_kept, fun _ _ h => h.mask⟩
  apply BitVec.eq_of_getLsbD_eq
  intro b _
  rw [hs.pending_eq ha i b, BitVec.getLsbD_or]

/-- An exchange of a Y-MP with an interrupt of the clock and one of a channel, in user mode: both are
    saved, and the one of the clock stays. -/
theorem interrupts_kept_ymp :
    let s := (System.powerOn (Params.standard .YMP 1 (by decide))).modifyCpu (0 : Fin 1) fun c =>
      c.raise (Flags.ProgrammableClockInterrupt ||| Flags.IoInterrupt)
    let t := (SysRun.exchange (0 : Fin 1) s).2
    (ExchangePacket.read .YMP t.mMemory 0).getFlag = 0x0104#16 ∧
      (t.mCpus (0 : Fin 1)).Flags = 0x0100#16 := by
  have h := (@interrupts_kept (Params.standard .YMP 1 (by decide)) (0 : Fin 1)).2.1
    ((System.powerOn (Params.standard .YMP 1 (by decide))).modifyCpu (0 : Fin 1) fun c =>
      c.raise (Flags.ProgrammableClockInterrupt ||| Flags.IoInterrupt)) ⟨by decide, by decide⟩
  exact ⟨h.1, h.2.1⟩

end CraySim
