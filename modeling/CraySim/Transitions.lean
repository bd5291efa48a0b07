/-
  Subject:   The runs of the mainframe.

  The processors tick in any order, channels and other processors post interrupts, devices write
  memory, and a processor is master-cleared between its ticks. A run is a sequence of the actions
  below; what one action does to a system is its `Step`.

  * `Outcome`, `instruction_outcome` -- what one instruction can end in,
  * `Action`, `Step` -- the transitions,
  * `Reaches` -- runs whose actions all meet a condition,
  * `tick_reaches` -- a tick is such a run,
  * `System.Initial`, `System.powerOn` -- the system its constructor leaves.
-/
import CraySim.Effects

namespace CraySim

/-! ## 1. One instruction -/

/-- An interrupt flag goes up. -/
def Cpu.raise (c : Cpu) (aFlags : CraySim.Flags) : Cpu := { c with Flags := c.Flags ||| aFlags }

def Cpu.advance (c : Cpu) (aIncrement : Nat) : Cpu :=
  { c with ProgramAddress := c.ProgramAddress + BitVec.ofNat 32 aIncrement }

theorem Cpu.raise_zero (c : Cpu) : c.raise 0 = c := by
  have h : c.Flags ||| 0 = c.Flags := BitVec.or_zero
  unfold Cpu.raise
  rw [h]

namespace SysRun

variable {pm : Params} {me : Fin pm.cpuCnt} {s : System pm}

theorem readInstMem_eq (aAddr : CAddr) :
    readInstMem me aAddr s =
      if (s.mCpus me).InstLimitAddr.toNat ≤
          instParcel pm (s.mCpus me) aAddr / cParcelsPerWord then
        (.error .instFetchOutOfBoundsError, s)
      else (.ok (parcelWindow s.mMemory (instParcel pm (s.mCpus me) aAddr)), s) := by
  unfold readInstMem
  rw [Run.bind_apply_ok cpu_apply]
  split
  · rfl
  · rfl

/-- The fetch of the next instruction is past the limit. -/
def fetchFails (pm : Params) (c : Cpu) : Prop :=
  c.InstLimitAddr.toNat ≤ instParcel pm c c.ProgramAddress / cParcelsPerWord

/-- The parcels the next instruction is decoded from. -/
def fetched (s : System pm) (me : Fin pm.cpuCnt) : CInt :=
  parcelWindow s.mMemory (instParcel pm (s.mCpus me) (s.mCpus me).ProgramAddress)

/-- The run of the next instruction, up to the increment of `P`. -/
def execute (me : Fin pm.cpuCnt) (s : System pm) : Except Exn Decoded × System pm :=
  (Inst.decode pm true (fetched s me)).run (handler me) s

theorem singleStep_fails (h : fetchFails pm (s.mCpus me)) :
    singleStep me s = (.error .instFetchOutOfBoundsError, s) := by
  have hread : readInstMem me (s.mCpus me).ProgramAddress s =
      (.error .instFetchOutOfBoundsError, s) := by
    rw [readInstMem_eq]
    exact if_pos h
  unfold singleStep
  rw [Run.bind_apply_ok cpu_apply]
  exact Run.bind_apply_error hread

theorem singleStep_executes (h : ¬ fetchFails pm (s.mCpus me)) :
    singleStep me s =
      match execute me s with
      | (.ok d, s') => (.ok d.breakBurst, s'.modifyCpu me fun c => c.advance d.increment)
      | (.error e, s') => (.error e, s') := by
  have hread : readInstMem me (s.mCpus me).ProgramAddress s = (.ok (fetched s me), s) := by
    rw [readInstMem_eq]
    exact if_neg h
  unfold singleStep
  rw [Run.bind_apply_ok cpu_apply, Run.bind_apply_ok hread]
  rcases he : execute me s with ⟨e | d, s'⟩
  · exact Run.bind_apply_error he
  · exact Run.bind_apply_ok he

theorem catchRangeErrors_ok {m : SysRun pm Unit} {s' : System pm} (h : m s = (.ok (), s')) :
    catchRangeErrors me m s = (.ok (), s') := by
  unfold catchRangeErrors
  rw [h]

theorem catchRangeErrors_congr {m m' : SysRun pm Unit} {s' : System pm} (h : m s = m' s') :
    catchRangeErrors me m s = catchRangeErrors me m' s' := by
  unfold catchRangeErrors
  rw [h]

/-- The flag an exception of an instruction raises. -/
def rangeFlag : Exn → Flags
  | .instFetchOutOfBoundsError => Flags.ProgramRangeError
  | .dataReadOutOfBoundsError => Flags.OperandRangeError
  | .dataWriteOutOfBoundsError => Flags.OperandRangeError
  | _ => 0

theorem catchRangeErrors_error {m : SysRun pm Unit} {s' : System pm} {e : Exn}
    (h : m s = (.error e, s')) :
    (catchRangeErrors me m s).2 = s'.modifyCpu me fun c => c.raise (rangeFlag e) := by
  have hid : s'.modifyCpu me (fun c => c.raise 0) = s' := by
    simp only [Cpu.raise_zero]
    exact s'.modifyCpu_id me
  unfold catchRangeErrors
  rw [h]
  cases e with
  | instFetchOutOfBoundsError => rfl
  | dataReadOutOfBoundsError => rfl
  | dataWriteOutOfBoundsError => rfl
  | _ => exact hid.symm

/-- **Every outcome of an instruction**: the fetch fails, it executes and `P` moves on, or it
    throws; a range error becomes a flag. -/
inductive Outcome (me : Fin pm.cpuCnt) (s : System pm) : System pm → Prop where
  | fetchFails (h : fetchFails pm (s.mCpus me)) :
      Outcome me s (s.modifyCpu me fun c => c.raise Flags.ProgramRangeError)
  | executes {d : Decoded} {s' : System pm} (h : ¬ SysRun.fetchFails pm (s.mCpus me))
      (he : execute me s = (.ok d, s')) :
      Outcome me s (s'.modifyCpu me fun c => c.advance d.increment)
  | throws {e : Exn} {s' : System pm} (h : ¬ SysRun.fetchFails pm (s.mCpus me))
      (he : execute me s = (.error e, s')) :
      Outcome me s (s'.modifyCpu me fun c => c.raise (rangeFlag e))

theorem instruction_of_error {e : Exn} {s' : System pm} (h : singleStep me s = (.error e, s')) :
    (instruction me s).2 = s'.modifyCpu me fun c => c.raise (rangeFlag e) :=
  catchRangeErrors_error (Run.bind_apply_error h)

theorem instruction_of_ok {b : Bool} {s' : System pm} (h : singleStep me s = (.ok b, s')) :
    instruction me s = (.ok (), s') :=
  catchRangeErrors_ok (Run.bind_apply_ok h)

theorem instruction_outcome (me : Fin pm.cpuCnt) (s : System pm) :
    Outcome me s (instruction me s).2 := by
  by_cases hf : fetchFails pm (s.mCpus me)
  · rw [instruction_of_error (singleStep_fails hf)]
    exact Outcome.fetchFails hf
  · rcases he : execute me s with ⟨e | d, s'⟩
    · have hs : singleStep me s = (.error e, s') := by
        rw [singleStep_executes hf, he]
      rw [instruction_of_error hs]
      exact Outcome.throws hf he
    · have hs : singleStep me s =
          (.ok d.breakBurst, s'.modifyCpu me fun c => c.advance d.increment) := by
        rw [singleStep_executes hf, he]
      rw [instruction_of_ok hs]
      exact Outcome.executes hf he

/-- What an instruction keeps, from what its requests, an increment of `P` and a flag keep. -/
theorem Outcome.keeps {I : System pm → Prop} {s' : System pm} (ho : Outcome me s s')
    (hreq : ∀ r t, Allowed pm (extractFields (fetched s me)) ((s.mCpus me).isMonitorMode = true) r →
      (t.mCpus me).isMonitorMode = (s.mCpus me).isMonitorMode → I t → I (handler me r t).2)
    (hadv : ∀ t n, I t → I (t.modifyCpu me fun c => c.advance n))
    (hraise : ∀ t fl, I t → I (t.modifyCpu me fun c => c.raise fl)) (hs : I s) : I s' := by
  have hrun : I (execute me s).2 :=
    (decode_run true (fetched s me) (fun r t ha _ hm => hreq r t ha hm) hs).1
  cases ho with
  | fetchFails h => exact hraise s _ hs
  | executes h he =>
    rw [he] at hrun
    exact hadv _ _ hrun
  | throws h he =>
    rw [he] at hrun
    exact hraise _ _ hrun

end SysRun

/-! ## 2. Transitions -/

/-- The interrupts other parts of the mainframe post. -/
inductive ExternalInterrupt where
  | interProcessor
  | deadLock
  | mcu
  | io
  deriving DecidableEq

/-- `SetInterProcessorInterrupt`, `SetDeadLockInterrupt`, `SetMcuInterrupt`, `SetIoInterrupt`. -/
def ExternalInterrupt.post : ExternalInterrupt → Cpu → Cpu
  | interProcessor, c => { c with mNotInterProcessorInterrupt := false }
  | deadLock, c => { c with mNotDeadLockInterrupt := false }
  | mcu, c => { c with mNotMcuInterrupt := false }
  | io, c => { c with mNotIoInterrupt := false }

/-- What happens next. -/
inductive Action (pm : Params) where
  | counters (me : Fin pm.cpuCnt)
  | mirror (me : Fin pm.cpuCnt)
  | interrupt (me : Fin pm.cpuCnt)
  | instruction (me : Fin pm.cpuCnt)
  | masterClear (me : Fin pm.cpuCnt)
  | deadStart (me : Fin pm.cpuCnt) (aMemoryPokes : List SysRun.MemoryPoke)
  | post (me : Fin pm.cpuCnt) (e : ExternalInterrupt)
  /-- Channels, devices and the clock. -/
  | device (mem : Nat → BitVec 8) (channels : Fin pm.channelCnt → Option Channel) (clock : CInt)
      (timer : Nat)

open SysRun in
/-- **The transitions of the mainframe.** -/
inductive Step {pm : Params} : Action pm → System pm → System pm → Prop where
  | counters {me : Fin pm.cpuCnt} {s : System pm} : Step (.counters me) s (handleCounters me s).2
  | mirror {me : Fin pm.cpuCnt} {s : System pm} :
      Step (.mirror me) s (mirrorExternalInterrupts me s).2
  | interrupt {me : Fin pm.cpuCnt} {s : System pm} (h : (s.mCpus me).firingInterrupts ≠ 0) :
      Step (.interrupt me) s (interrupt me s).2
  | instruction {me : Fin pm.cpuCnt} {s : System pm} (h : (s.mCpus me).mInReset = false) :
      Step (.instruction me) s (instruction me s).2
  | masterClear {me : Fin pm.cpuCnt} {s : System pm} :
      Step (.masterClear me) s (masterClear me s).2
  | deadStart {me : Fin pm.cpuCnt} {aMemoryPokes : List MemoryPoke} {s : System pm} :
      Step (.deadStart me aMemoryPokes) s (deadStart me aMemoryPokes s).2
  | post {me : Fin pm.cpuCnt} {e : ExternalInterrupt} {s : System pm} :
      Step (.post me e) s (s.modifyCpu me e.post)
  | device {mem : Nat → BitVec 8} {channels : Fin pm.channelCnt → Option Channel} {clock : CInt}
      {timer : Nat} {s : System pm} :
      Step (.device mem channels clock timer) s
        { s with
          mMemory := mem, mChannels := channels, mRealTimeClock := clock, mRealTimeTimer := timer }

/-- The systems reached from `s0` by actions that meet the condition `C` where they are taken. -/
inductive Reaches {pm : Params} (C : Action pm → System pm → Prop) (s0 : System pm) :
    System pm → Prop where
  | start : Reaches C s0 s0
  | step {a : Action pm} {s s' : System pm} (h : Reaches C s0 s) (hC : C a s) (hs : Step a s s') :
      Reaches C s0 s'

section reaches
variable {pm : Params} {C : Action pm → System pm → Prop} {s0 s s' : System pm}

theorem Reaches.trans (h : Reaches C s0 s) (h' : Reaches C s s') : Reaches C s0 s' := by
  induction h' with
  | start => exact h
  | step _ hC hs ih => exact .step ih hC hs

/-- **The invariant rule of runs.** -/
theorem Reaches.invariant {I : System pm → Prop} (h : Reaches C s0 s) (h0 : I s0)
    (hstep : ∀ a s s', C a s → Step a s s' → I s → I s') : I s := by
  induction h with
  | start => exact h0
  | step _ hC hs ih => exact hstep _ _ _ hC hs ih

end reaches

/-! ## 3. A tick is a run -/

namespace SysRun

variable {pm : Params} {me : Fin pm.cpuCnt}

theorem execute_keeps_inReset (me : Fin pm.cpuCnt) (s : System pm) :
    ((execute me s).2.mCpus me).mInReset = (s.mCpus me).mInReset := by
  refine (decode_run (I := fun t => (t.mCpus me).mInReset = (s.mCpus me).mInReset) true
    (fetched s me) ?_ rfl).1
  intro r t _ _ _ hI
  exact ((handler_effect me t r).cpu me).inReset.trans hI

theorem singleStep_keeps_inReset {s s' : System pm} {b : Bool}
    (h : singleStep me s = (.ok b, s')) : (s'.mCpus me).mInReset = (s.mCpus me).mInReset := by
  have hkeep := execute_keeps_inReset me s
  by_cases hf : fetchFails pm (s.mCpus me)
  · rw [singleStep_fails hf] at h
    cases h
  · rw [singleStep_executes hf] at h
    rcases he : execute me s with ⟨e | d, t⟩
    · rw [he] at h
      cases h
    · rw [he] at h hkeep
      cases h
      rw [System.modifyCpu_self]
      exact hkeep

/-- A burst is a run of instructions; the exception that ends it belongs to the last one. -/
theorem burst_reaches (n : Nat) (s : System pm) (hr : (s.mCpus me).mInReset = false) :
    Reaches (fun _ _ => True) s (catchRangeErrors me (burst me n) s).2 := by
  induction n generalizing s with
  | zero => exact .start
  | succ n ih =>
    have hstep : Reaches (fun _ _ => True) s (instruction me s).2 :=
      Reaches.start.step trivial (Step.instruction hr)
    rcases hs : singleStep me s with ⟨e | b, s'⟩
    · rw [instruction_of_error hs] at hstep
      have hb : burst me (n + 1) s = (.error e, s') := Run.bind_apply_error hs
      rw [catchRangeErrors_error hb]
      exact hstep
    · rw [instruction_of_ok hs] at hstep
      have hb : burst me (n + 1) s = (if b then pure () else burst me n : SysRun pm Unit) s' :=
        Run.bind_apply_ok hs
      rw [catchRangeErrors_congr hb]
      have hr' := (singleStep_keeps_inReset hs).trans hr
      cases b with
      | true => exact hstep
      | false => exact hstep.trans (ih s' hr')

/-- **A tick is a run of the mainframe.** -/
theorem tick_reaches (me : Fin pm.cpuCnt) (s : System pm) :
    Reaches (fun _ _ => True) s (tick me s).2 := by
  have hc : Reaches (fun _ _ => True) s (handleCounters me s).2 :=
    Reaches.start.step trivial Step.counters
  have hm : Reaches (fun _ _ => True) s
      (mirrorExternalInterrupts me (handleCounters me s).2).2 := hc.step trivial Step.mirror
  generalize ht : (mirrorExternalInterrupts me (handleCounters me s).2).2 = t at hm
  have hcheck : checkInterrupts me (handleCounters me s).2 =
      (.ok ((t.mCpus me).firingInterrupts != 0), t) := by
    rw [← ht]
    rfl
  have hcount : handleCounters me s = (.ok (), (handleCounters me s).2) := rfl
  have heq : tick me s =
      (if (t.mCpus me).firingInterrupts != 0 then interrupt me else do
        let c ← cpu me
        if c.mInReset then pure ()
        else catchRangeErrors me (burst me (c.mInstructionBurstSize + 1))) t :=
    (Run.bind_apply_ok hcount).trans (Run.bind_apply_ok hcheck)
  rw [heq]
  split
  · rename_i hfire
    exact hm.step trivial (Step.interrupt (bne_iff_ne.mp hfire))
  · rw [Run.bind_apply_ok cpu_apply]
    split
    · exact hm
    · rename_i hreset
      exact hm.trans (burst_reaches _ t (Bool.eq_false_iff.mpr hreset))

end SysRun

/-! ## 4. The start of a run -/

/-- A processor as its constructor leaves it, in the parts runs are about. -/
structure Cpu.Initial (c : Cpu) : Prop where
  ProgramAddress : c.ProgramAddress = 0
  VL : c.VL = 0
  Cluster : c.Cluster = 0
  TestAndSetBlocked : c.TestAndSetBlocked = false
  Flags : c.Flags = 0
  mInReset : c.mInReset = true

/-- The system its constructor leaves: every processor in reset, every cluster empty. -/
structure System.Initial {pm : Params} (s : System pm) : Prop where
  mCpus : ∀ i, (s.mCpus i).Initial
  TestAndSetBlockedCnt : ∀ c, (s.mClusters c).TestAndSetBlockedCnt = 0
  ClusterCpuCnt : ∀ c, (s.mClusters c).ClusterCpuCnt = 0

theorem Params.one_lt : 1 < 2 ^ 64 := by decide

/-- The default configuration of a mainframe. -/
def Params.standard (aMachineType : MachineTypes) (aCpuCnt : Nat) (h : aCpuCnt < 2 ^ 64) :
    Params where
  machineType := aMachineType
  cpuCnt := aCpuCnt
  cpuCnt_lt := h
  clusterCnt := aCpuCnt + 1
  channelCnt := 0
  memSizeInWords := 8 * 1024 * 1024
  memSize_pos := by decide
  useHostRealTimeClock := true
  realTimeClockIncrement := 10
  realTimeClockChunkLimit := 5000
  deltaClocks := fun t => BitVec.ofNat 64 (t / 6)

/-- `CpuState_s()` and `SoftCpu_c(…)` with the default configuration; what they leave
    uninitialised is 0. -/
def Cpu.powerOn (pm : Params) (aCpuId : Nat) : Cpu where
  A _ := 0
  B _ := 0
  S _ := 0
  T _ := 0
  V _ _ := 0
  VL := 0
  VM := 0
  ExchangePacketAddress := 0
  ProgramAddress := 0
  InstBaseAddr := 0
  InstLimitAddr := 0
  DataBaseAddr := 0
  DataLimitAddr := 0
  Mode := CraySim.Mode.ofRaw 0 pm.machineType
  Flags := 0
  PeriodicInterruptLimit := 0
  PeriodicInterruptCountDown := 0
  PeriodicInterruptEnabled := false
  Cluster := 0
  TestAndSetBlocked := false
  VectorNotUsed := true
  EnableSecondVectorLogical := false
  XmpProgramState := false
  BitMatrix _ := 0
  AddrMask := 0xffffffff
  XMode := false
  XmpEnhancedAddressingMode := false
  mCpuId := aCpuId
  mInReset := true
  mNotInterProcessorInterrupt := true
  mNotDeadLockInterrupt := true
  mNotMcuInterrupt := true
  mNotIoInterrupt := true
  mTimerIncrement := 1000
  mThrowOnUnknown := false
  mThrowOnUnimplemented := false
  mInstructionBurstSize := 99

/-- `Mainframe_c(…)` without image files and channels. -/
def System.powerOn (pm : Params) : System pm where
  mCpus i := Cpu.powerOn pm i
  mClusters _ :=
    { SB := fun _ => 0, ST := fun _ => 0, SM := fun _ => false, TestAndSetBlockedCnt := 0,
      ClusterCpuCnt := 0 }
  mChannels _ := none
  mMemory _ := 0
  mRealTimeClock := 0
  mRealTimeStart := 0
  mLastRealTimeReading := 0
  mRealTimeTimer := 0

theorem System.powerOn_initial (pm : Params) : (System.powerOn pm).Initial :=
  ⟨fun _ => ⟨rfl, rfl, rfl, rfl, rfl, rfl⟩, fun _ => rfl, fun _ => rfl⟩

end CraySim
