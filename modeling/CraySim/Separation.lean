/-
  Subject:   Programs that share nothing do not notice each other.

  Each processor gets a share of the mainframe: bytes it may read, bytes it may write, and its
  cluster. Where no processor can write what another one reads and no two have a cluster in
  common, user programs that stay in their shares are separated. The host's clock is shared too:
  a reading of it is remembered, so that the next processor sees a later one; programs read it
  only where the clock is simulated.

  * `Partition`, `Partition.Inside` -- shares, and requests that stay in one,
  * `Turn`, `Partition.Allows` -- what happens to a processor between two exchanges,
  * `Partition.View` -- what a processor sees of the mainframe,
  * `Partition.separated` -- the turns of user programs are separated,
  * `processors_run_alone` -- a processor ends as if it had run alone,
  * `turns_reorder` -- the mainframe ends the same in whatever order they run.
-/
import CraySim.Confinement
import CraySim.Lib.SideBySide
import CraySim.Lib.Turns

namespace CraySim

open SysRun

/-! ## 1. Shares -/

/-- The bytes of a word of the memory. -/
def wordBytes (aWord a : Nat) : Prop := memIndex aWord ≤ a ∧ a < memIndex aWord + 8

/-- The bytes of the three parcels from `aIdx` on. -/
def windowBytes (aIdx a : Nat) : Prop := 2 * aIdx ≤ a ∧ a < 2 * aIdx + 6

/-- **Shares of the mainframe**: no processor writes what another one reads, no cluster is used
    by two of them. -/
structure Partition (pm : Params) where
  Readable : Fin pm.cpuCnt → Nat → Prop
  Writable : Fin pm.cpuCnt → Nat → Prop
  cluster : Fin pm.cpuCnt → BitVec 8
  readable : ∀ i a, Writable i a → Readable i a
  apart : ∀ i j, i ≠ j → ∀ a, Writable i a → ¬ Readable j a
  clustersApart : ∀ i j, i ≠ j → ∀ cl, clusterIdx pm (cluster i) = some cl →
    clusterIdx pm (cluster j) ≠ some cl

namespace Partition

variable {pm : Params} (P : Partition pm) (i : Fin pm.cpuCnt)

/-- A request of processor `i`, whose registers are `c`, that stays in its share. -/
def Inside (c : Cpu) : Req → Prop
  | .readDataMem a =>
    dataWord pm c a < c.DataLimitAddr.toNat →
      ∀ x, wordBytes (dataWord pm c a) x → P.Readable i x
  | .writeDataMem a _ =>
    dataWord pm c a < c.DataLimitAddr.toNat →
      ∀ x, wordBytes (dataWord pm c a) x → P.Writable i x
  | _ => True

/-- **What processor `i` sees of the mainframe.** -/
structure View (s t : System pm) : Prop where
  mCpus : s.mCpus i = t.mCpus i
  mClusters : ∀ cl, clusterIdx pm (P.cluster i) = some cl → s.mClusters cl = t.mClusters cl
  mMemory : ∀ a, P.Readable i a → s.mMemory a = t.mMemory a
  mChannels : s.mChannels = t.mChannels
  mRealTimeClock : s.mRealTimeClock = t.mRealTimeClock
  mRealTimeStart : s.mRealTimeStart = t.mRealTimeStart
  mLastRealTimeReading : s.mLastRealTimeReading = t.mLastRealTimeReading
  mRealTimeTimer : s.mRealTimeTimer = t.mRealTimeTimer

/-- Only what belongs to processor `i` has changed. -/
structure Own (s s' : System pm) : Prop where
  mCpus : ∀ j, j ≠ i → s'.mCpus j = s.mCpus j
  mClusters : ∀ cl, clusterIdx pm (P.cluster i) ≠ some cl → s'.mClusters cl = s.mClusters cl
  mMemory : ∀ a, ¬ P.Writable i a → s'.mMemory a = s.mMemory a
  mChannels : s'.mChannels = s.mChannels
  mRealTimeClock : s'.mRealTimeClock = s.mRealTimeClock
  mRealTimeStart : s'.mRealTimeStart = s.mRealTimeStart
  mLastRealTimeReading : s'.mLastRealTimeReading = s.mLastRealTimeReading
  mRealTimeTimer : s'.mRealTimeTimer = s.mRealTimeTimer

theorem view_equivalence : Equivalence (P.View i) where
  refl _ := ⟨rfl, fun _ _ => rfl, fun _ _ => rfl, rfl, rfl, rfl, rfl, rfl⟩
  symm h := ⟨h.mCpus.symm, fun cl hcl => (h.mClusters cl hcl).symm,
    fun a ha => (h.mMemory a ha).symm, h.mChannels.symm, h.mRealTimeClock.symm,
    h.mRealTimeStart.symm, h.mLastRealTimeReading.symm, h.mRealTimeTimer.symm⟩
  trans h h' := ⟨h.mCpus.trans h'.mCpus,
    fun cl hcl => (h.mClusters cl hcl).trans (h'.mClusters cl hcl),
    fun a ha => (h.mMemory a ha).trans (h'.mMemory a ha), h.mChannels.trans h'.mChannels,
    h.mRealTimeClock.trans h'.mRealTimeClock, h.mRealTimeStart.trans h'.mRealTimeStart,
    h.mLastRealTimeReading.trans h'.mLastRealTimeReading,
    h.mRealTimeTimer.trans h'.mRealTimeTimer⟩

variable {P i} {s s' s'' t : System pm}

theorem Own.refl : P.Own i s s :=
  ⟨fun _ _ => rfl, fun _ _ => rfl, fun _ _ => rfl, rfl, rfl, rfl, rfl, rfl⟩

theorem Own.trans (h : P.Own i s s') (h' : P.Own i s' s'') : P.Own i s s'' where
  mCpus j hj := (h'.mCpus j hj).trans (h.mCpus j hj)
  mClusters cl hcl := (h'.mClusters cl hcl).trans (h.mClusters cl hcl)
  mMemory a ha := (h'.mMemory a ha).trans (h.mMemory a ha)
  mChannels := h'.mChannels.trans h.mChannels
  mRealTimeClock := h'.mRealTimeClock.trans h.mRealTimeClock
  mRealTimeStart := h'.mRealTimeStart.trans h.mRealTimeStart
  mLastRealTimeReading := h'.mLastRealTimeReading.trans h.mLastRealTimeReading
  mRealTimeTimer := h'.mRealTimeTimer.trans h.mRealTimeTimer

theorem Own.modifyCpu (s : System pm) (f : Cpu → Cpu) : P.Own i s (s.modifyCpu i f) :=
  ⟨fun _ hj => System.modifyCpu_ne s i f hj, fun _ _ => rfl, fun _ _ => rfl, rfl, rfl, rfl, rfl,
    rfl⟩

theorem Own.modifyCluster {cl : Fin pm.clusterCnt} (h : clusterIdx pm (P.cluster i) = some cl)
    (s : System pm) (f : InterCpuCluster → InterCpuCluster) : P.Own i s (s.modifyCluster cl f) :=
  ⟨fun _ _ => rfl,
    fun _ hcl => System.modifyCluster_ne s cl f fun heq => hcl (h.trans (congrArg some heq.symm)),
    fun _ _ => rfl, rfl, rfl, rfl, rfl, rfl⟩

/-- **Another processor does not see it.** -/
theorem Own.view (h : P.Own i s s') {j : Fin pm.cpuCnt} (hij : i ≠ j) : P.View j s s' where
  mCpus := (h.mCpus j hij.symm).symm
  mClusters cl hcl := (h.mClusters cl fun hi => P.clustersApart i j hij cl hi hcl).symm
  mMemory a ha := (h.mMemory a fun hw => P.apart i j hij a hw ha).symm
  mChannels := h.mChannels.symm
  mRealTimeClock := h.mRealTimeClock.symm
  mRealTimeStart := h.mRealTimeStart.symm
  mLastRealTimeReading := h.mLastRealTimeReading.symm
  mRealTimeTimer := h.mRealTimeTimer.symm

/-! ## 2. One request -/

theorem memWrite_of_outside (mem : Nat → BitVec 8) {aWord x : Nat} (v : CInt)
    (h : ¬ wordBytes aWord x) : memWrite mem aWord v x = mem x := by
  unfold wordBytes at h
  unfold memWrite
  exact ByteStore.store_of_outside (n := 8) v (by omega)

theorem memRead_congr {mem mem' : Nat → BitVec 8} {aWord : Nat}
    (h : ∀ x, wordBytes aWord x → mem x = mem' x) : memRead mem aWord = memRead mem' aWord := by
  unfold memRead
  exact ByteStore.load_congr fun k hk => h _ ⟨by omega, by omega⟩

/-- **A request inside the share changes the share only**, and leaves the cluster register. -/
theorem own_of_effect {r : Req} (h : Effect i s r s') (hr : r.isPrivileged = false)
    (hin : P.Inside i (s.mCpus i) r) (hclock : r = .realTimeClock → pm.useHostRealTimeClock = false)
    (hc : (s.mCpus i).Cluster = P.cluster i) : P.Own i s s' := by
  cases h with
  | none => exact Own.refl
  | write => exact Own.modifyCpu s _
  | @store a v hlt =>
    have hout : ∀ x, ¬ P.Writable i x →
        memWrite s.mMemory (dataWord pm (s.mCpus i) a) v x = s.mMemory x :=
      fun x hx => memWrite_of_outside s.mMemory v fun hb => hx (hin hlt x hb)
    exact ⟨fun _ _ => rfl, fun _ _ => rfl, hout, rfl, rfl, rfl, rfl, rfl⟩
  | take hcl => exact (Own.modifyCluster (hc ▸ hcl) s _).trans (Own.modifyCpu _ _)
  | block hcl => exact (Own.modifyCluster (hc ▸ hcl) s _).trans (Own.modifyCpu _ _)
  | shared hcl => exact Own.modifyCluster (hc ▸ hcl) s _
  | clockRead hu => exact absurd (hu.symm.trans (hclock rfl)) (by decide)
  | privWrite | clockSet | posted | sameCluster | changeCluster | badCluster | channel => cases hr

theorem View.modifyCpu (h : P.View i s t) (f : Cpu → Cpu) :
    P.View i (s.modifyCpu i f) (t.modifyCpu i f) := by
  refine ⟨?_, h.mClusters, h.mMemory, h.mChannels, h.mRealTimeClock, h.mRealTimeStart,
    h.mLastRealTimeReading, h.mRealTimeTimer⟩
  rw [System.modifyCpu_self, System.modifyCpu_self, h.mCpus]

theorem View.modifyCluster (h : P.View i s t) {cl : Fin pm.clusterCnt}
    (hcl : clusterIdx pm (P.cluster i) = some cl) (f : InterCpuCluster → InterCpuCluster) :
    P.View i (s.modifyCluster cl f) (t.modifyCluster cl f) := by
  refine ⟨h.mCpus, ?_, h.mMemory, h.mChannels, h.mRealTimeClock, h.mRealTimeStart,
    h.mLastRealTimeReading, h.mRealTimeTimer⟩
  intro cl' hcl'
  cases hcl.symm.trans hcl'
  rw [System.modifyCluster_self, System.modifyCluster_self, h.mClusters cl hcl]

/-- Two answers that are the same, from states that look the same. -/
def Same {α : Type} (P : Partition pm) (i : Fin pm.cpuCnt) (x y : Except Exn α × System pm) :
    Prop :=
  x.1 = y.1 ∧ P.View i x.2 y.2

theorem same_ownCluster {α : Type} {f g : Fin pm.clusterCnt → SysRun pm α} (h : P.View i s t)
    (hc : (s.mCpus i).Cluster = P.cluster i)
    (hfg : ∀ cl, clusterIdx pm (P.cluster i) = some cl → P.Same i (f cl s) (g cl t)) :
    P.Same i ((ownCluster i >>= f) s) ((ownCluster i >>= g) t) := by
  rw [ownCluster_bind, ownCluster_bind, ← h.mCpus, hc]
  cases hcl : clusterIdx pm (P.cluster i) with
  | none => exact ⟨rfl, h⟩
  | some cl => exact hfg cl hcl

theorem same_readDataMem (h : P.View i s t) {a : CAddr} (hin : P.Inside i (s.mCpus i) (.readDataMem a)) :
    P.Same i (readDataMem i a s) (readDataMem i a t) := by
  rw [readDataMem_eq, readDataMem_eq, ← h.mCpus]
  split
  · split
    · exact ⟨rfl, h⟩
    · exact ⟨rfl, h⟩
  · rename_i hlt
    have hload : memRead s.mMemory (dataWord pm (s.mCpus i) a) =
        memRead t.mMemory (dataWord pm (s.mCpus i) a) :=
      memRead_congr fun x hx => h.mMemory x (hin (Nat.lt_of_not_le hlt) x hx)
    exact ⟨congrArg Except.ok hload, h⟩

theorem same_writeDataMem (h : P.View i s t) (a : CAddr) (v : CInt) :
    P.Same i (writeDataMem i a v s) (writeDataMem i a v t) := by
  rw [writeDataMem_eq, writeDataMem_eq, ← h.mCpus]
  split
  · split
    · exact ⟨rfl, h⟩
    · exact ⟨rfl, h⟩
  · refine ⟨rfl, h.mCpus, h.mClusters, ?_, h.mChannels, h.mRealTimeClock, h.mRealTimeStart,
      h.mLastRealTimeReading, h.mRealTimeTimer⟩
    intro x hx
    exact ByteStore.store_congr (n := 8) v (h.mMemory x hx)

theorem same_testAndSet (h : P.View i s t) (hc : (s.mCpus i).Cluster = P.cluster i)
    (jk : Fin 32) : P.Same i (testAndSet i jk s) (testAndSet i jk t) := by
  cases hcl : clusterIdx pm (P.cluster i) with
  | none =>
    rw [testAndSet_none jk (hc ▸ hcl), testAndSet_none jk ((h.mCpus ▸ hc) ▸ hcl)]
    exact ⟨rfl, h⟩
  | some cl =>
    rw [testAndSet_ok jk (hc ▸ hcl), testAndSet_ok jk ((h.mCpus ▸ hc) ▸ hcl), ← h.mCpus,
      ← h.mClusters cl hcl]
    have htake := (h.modifyCluster hcl fun k => k.take jk (s.mCpus i).TestAndSetBlocked).modifyCpu
      fun c => c.setTestAndSetBlocked false
    have hblock := (h.modifyCluster hcl fun k => k.block (s.mCpus i).TestAndSetBlocked).modifyCpu
      fun c => c.setTestAndSetBlocked true
    split
    · exact ⟨rfl, htake⟩
    · exact ⟨rfl, hblock⟩

theorem same_realTimeClock (h : P.View i s t) :
    P.Same i (getRealTimeClock s) (getRealTimeClock t) := by
  have hview : ∀ v, P.View i { s with mLastRealTimeReading := v }
      { t with mLastRealTimeReading := v } := fun v =>
    ⟨h.mCpus, h.mClusters, h.mMemory, h.mChannels, h.mRealTimeClock, h.mRealTimeStart, rfl,
      h.mRealTimeTimer⟩
  unfold getRealTimeClock
  rw [Run.bind_apply_ok (Run.get_apply s), Run.bind_apply_ok (Run.get_apply t),
    ← h.mRealTimeClock, ← h.mRealTimeStart, ← h.mLastRealTimeReading, ← h.mRealTimeTimer]
  split
  · dsimp only
    split
    · exact ⟨rfl, hview _⟩
    · exact ⟨rfl, hview _⟩
  · exact ⟨rfl, h⟩

/-- **A request inside the share answers the same** from states that look the same, and leaves
    such states. -/
theorem same_handler {r : Req} (h : P.View i s t) (hr : r.isPrivileged = false)
    (hin : P.Inside i (s.mCpus i) r) (hc : (s.mCpus i).Cluster = P.cluster i) :
    P.Same i (handler i r s) (handler i r t) := by
  cases r with
  | cpu => exact ⟨congrArg Except.ok h.mCpus, h⟩
  | write w => exact ⟨rfl, h.modifyCpu _⟩
  | readDataMem a => exact same_readDataMem h hin
  | writeDataMem a v => exact same_writeDataMem h a v
  | cluster =>
    exact same_ownCluster h hc fun cl hcl => ⟨congrArg Except.ok (h.mClusters cl hcl), h⟩
  | testAndSet jk => exact same_testAndSet h hc jk
  | setSM jk v =>
    exact same_ownCluster h hc fun cl hcl =>
      ⟨rfl, h.modifyCluster hcl fun k => { k with SM := Function.update k.SM jk v }⟩
  | setSB j v =>
    refine same_ownCluster h hc fun cl hcl => ?_
    rw [Run.bind_apply_ok cpu_apply, Run.bind_apply_ok cpu_apply, ← h.mCpus]
    exact ⟨rfl, h.modifyCluster hcl fun k =>
      { k with SB := Function.update k.SB j (v &&& (s.mCpus i).AddrMask) }⟩
  | setST j v =>
    exact same_ownCluster h hc fun cl hcl =>
      ⟨rfl, h.modifyCluster hcl fun k => { k with ST := Function.update k.ST j v }⟩
  | realTimeClock => exact same_realTimeClock h
  | channels =>
    exact ⟨congrArg (fun c => Except.ok (List.ofFn c)) h.mChannels, h⟩
  | privWrite | setRealTimeClock | setInterProcessorInterrupt | setCluster | channelOp => cases hr

end Partition

/-! ## 3. One instruction -/

section instruction
variable {pm : Params} {me : Fin pm.cpuCnt} {s : System pm}

/-- What is done to the processor when an instruction has returned or thrown. -/
def Cpu.finish : Except Exn Decoded → Cpu → Cpu
  | .ok d, c => c.advance d.increment
  | .error e, c => c.raise (rangeFlag e)

/-- **An instruction in one equation.** -/
theorem instruction_state (me : Fin pm.cpuCnt) (s : System pm) :
    (instruction me s).2 =
      if (s.mCpus me).InstLimitAddr.toNat ≤
          instParcel pm (s.mCpus me) (s.mCpus me).ProgramAddress / cParcelsPerWord then
        s.modifyCpu me fun c => c.raise Flags.ProgramRangeError
      else (execute me s).2.modifyCpu me (Cpu.finish (execute me s).1) := by
  split
  · rename_i h
    exact instruction_of_error (singleStep_fails h)
  · rename_i h
    have hstep := singleStep_executes h
    rcases he : execute me s with ⟨e | d, s'⟩
    · rw [he] at hstep
      exact instruction_of_error hstep
    · rw [he] at hstep
      rw [instruction_of_ok hstep]
      rfl

/-- In user mode none of the requests that are made is privileged, and each is made in a state
    that differs from the first one in what a user program may change. -/
theorem trace_confined (b : Bool) (aParcels : CInt) (hm : (s.mCpus me).isMonitorMode = false) :
    ∀ q ∈ (Inst.decode pm b aParcels).trace (handler me) s,
      q.1.isPrivileged = false ∧ Confined me s q.2 := by
  have hmonitor : ¬ (s.mCpus me).isMonitorMode = true := by simp [hm]
  have hstep : ∀ r t, Allowed pm (extractFields aParcels)
        ((s.mCpus me).isMonitorMode = true) r →
      ((t.mCpus me).XMode = (s.mCpus me).XMode ∧ Confined me s t) →
      (((handler me r t).2.mCpus me).XMode = (s.mCpus me).XMode ∧
        Confined me s (handler me r t).2) ∧
      ∀ a, (handler me r t).1 = .ok a →
        Answers (s.mCpus me).XMode ((s.mCpus me).isMonitorMode = true) r a := by
    rintro r t hr ⟨hx, hconf⟩
    have he := handler_effect me t r
    refine ⟨⟨(he.cpu me).mode.1.trans hx, hconf.trans (he.confined (hr.unprivileged hmonitor))⟩, ?_⟩
    intro a ha
    cases r with
    | cpu =>
      cases ha
      exact ⟨hx, fun h => hconf.mMonitorMode.symm.trans h⟩
    | _ => trivial
  intro q hq
  obtain ⟨hallowed, -, hconf⟩ := Program.trace_within hstep
    (Inst.decode_decodes pm b aParcels (s.mCpus me).XMode ((s.mCpus me).isMonitorMode = true))
    ⟨rfl, Confined.refl me s⟩ q hq
  exact ⟨hallowed.unprivileged hmonitor, hconf⟩

end instruction

/-! ## 4. Turns -/

/-- What happens to a processor between two exchanges. -/
inductive Turn (pm : Params) where
  | counters (me : Fin pm.cpuCnt)
  | mirror (me : Fin pm.cpuCnt)
  | post (me : Fin pm.cpuCnt) (e : ExternalInterrupt)
  | masterClear (me : Fin pm.cpuCnt)
  | instruction (me : Fin pm.cpuCnt)

namespace Turn

variable {pm : Params}

def owner : Turn pm → Fin pm.cpuCnt
  | counters me | mirror me | post me _ | masterClear me | instruction me => me

def step : Turn pm → System pm → System pm
  | counters me, s => (handleCounters me s).2
  | mirror me, s => (mirrorExternalInterrupts me s).2
  | post me e, s => s.modifyCpu me e.post
  | masterClear me, s => (SysRun.masterClear me s).2
  | instruction me, s => (SysRun.instruction me s).2

/-- A turn that is no instruction changes the registers of its processor only. -/
theorem step_cases (a : Turn pm) :
    (∃ me, a = .instruction me) ∨ ∃ f : Cpu → Cpu, ∀ s, a.step s = s.modifyCpu a.owner f := by
  have hmodify : ∀ (me : Fin pm.cpuCnt) (f : Cpu → Cpu) (s : System pm),
      (SysRun.modifyCpu me f s).2 = s.modifyCpu me f := fun _ _ _ => rfl
  cases a with
  | instruction me => exact Or.inl ⟨me, rfl⟩
  | counters me => exact Or.inr ⟨_, hmodify me _⟩
  | mirror me => exact Or.inr ⟨_, hmodify me _⟩
  | post me e => exact Or.inr ⟨e.post, fun _ => rfl⟩
  | masterClear me => exact Or.inr ⟨_, hmodify me _⟩

/-- The transition of the mainframe a turn is. -/
def action : Turn pm → Action pm
  | counters me => .counters me
  | mirror me => .mirror me
  | post me e => .post me e
  | masterClear me => .masterClear me
  | instruction me => .instruction me

end Turn

namespace Partition

variable {pm : Params} (P : Partition pm)

/-- The instruction of processor `i` stays in its share: where it is fetched, it is fetched from
    readable bytes, and every request it makes is inside. -/
structure Stays (i : Fin pm.cpuCnt) (s : System pm) : Prop where
  user : (s.mCpus i).isMonitorMode = false
  cluster : (s.mCpus i).Cluster = P.cluster i
  fetch : ¬ fetchFails pm (s.mCpus i) →
    ∀ x, windowBytes (instParcel pm (s.mCpus i) (s.mCpus i).ProgramAddress) x → P.Readable i x
  requests : ¬ fetchFails pm (s.mCpus i) →
    ∀ q ∈ (Inst.decode pm true (fetched s i)).trace (handler i) s, P.Inside i (q.2.mCpus i) q.1

/-- It also leaves the host's clock alone, and the processor is running. -/
structure Keeps (i : Fin pm.cpuCnt) (s : System pm) : Prop extends P.Stays i s where
  running : (s.mCpus i).mInReset = false
  clock : ¬ fetchFails pm (s.mCpus i) →
    ∀ q ∈ (Inst.decode pm true (fetched s i)).trace (handler i) s,
      q.1 = .realTimeClock → pm.useHostRealTimeClock = false

/-- **The turns of user programs that keep to their shares.** -/
def Allows : Turn pm → System pm → Prop
  | .instruction me, s => P.Keeps me s
  | _, _ => True

variable {P} {i : Fin pm.cpuCnt} {s t : System pm}

theorem Allows.step {a : Turn pm} (h : P.Allows a s) : Step a.action s (a.step s) := by
  cases a with
  | counters me => exact .counters
  | mirror me => exact .mirror
  | post me e => exact .post
  | masterClear me => exact .masterClear
  | instruction me => exact .instruction (Keeps.running h)

theorem memParcel_congr {mem mem' : Nat → BitVec 8} {aIdx : Nat}
    (h : ∀ x, 2 * aIdx ≤ x → x < 2 * aIdx + 2 → mem x = mem' x) :
    memParcel mem aIdx = memParcel mem' aIdx := by
  unfold memParcel
  exact ByteStore.load_congr fun k hk => h _ (by omega) (by omega)

theorem parcelWindow_congr {mem mem' : Nat → BitVec 8} {aIdx : Nat}
    (h : ∀ x, windowBytes aIdx x → mem x = mem' x) :
    parcelWindow mem aIdx = parcelWindow mem' aIdx := by
  unfold parcelWindow
  rw [memParcel_congr fun x hlo hhi => h x ⟨by omega, by omega⟩,
    @memParcel_congr _ _ (aIdx + 1) fun x hlo hhi => h x ⟨by omega, by omega⟩,
    @memParcel_congr _ _ (aIdx + 2) fun x hlo hhi => h x ⟨by omega, by omega⟩]

theorem Stays.fetched_eq (h : P.Stays i s) (hst : P.View i s t)
    (hf : ¬ fetchFails pm (s.mCpus i)) : fetched t i = fetched s i := by
  unfold fetched
  rw [← hst.mCpus]
  exact (parcelWindow_congr fun x hx => hst.mMemory x (h.fetch hf x hx)).symm

/-- A request of an instruction that keeps to its share, with what it may rely on. -/
def Rests (P : Partition pm) (i : Fin pm.cpuCnt) (q : Req × System pm) : Prop :=
  q.1.isPrivileged = false ∧ P.Inside i (q.2.mCpus i) q.1

theorem Stays.rests (h : P.Stays i s) (hf : ¬ fetchFails pm (s.mCpus i)) :
    ∀ q ∈ (Inst.decode pm true (fetched s i)).trace (handler i) s, P.Rests i q :=
  fun q hq => ⟨(trace_confined true _ h.user q hq).1, h.requests hf q hq⟩

theorem cluster_of_effect {r : Req} {s' : System pm} (h : Effect i s r s')
    (hr : r.isPrivileged = false) : (s'.mCpus i).Cluster = (s.mCpus i).Cluster :=
  (h.confined hr).Cluster

/-- **An instruction that keeps to its share changes the share only.** -/
theorem Keeps.own (h : P.Keeps i s) : P.Own i s (instruction i s).2 := by
  rw [instruction_state]
  split
  · exact Own.modifyCpu s _
  · rename_i hf
    have hrun : P.Own i s (execute i s).2 ∧ ((execute i s).2.mCpus i).Cluster = P.cluster i := by
      refine Program.run_of_trace
        (p := fun q => P.Rests i q ∧ (q.1 = .realTimeClock → pm.useHostRealTimeClock = false))
        (I := fun u => P.Own i s u ∧ (u.mCpus i).Cluster = P.cluster i) ?_
        (fun q hq => ⟨h.rests hf q hq, h.clock hf q hq⟩) ⟨Own.refl, h.cluster⟩
      rintro r u ⟨⟨hr, hin⟩, hclock⟩ ⟨hown, hc⟩
      have he := handler_effect i u r
      exact ⟨hown.trans (own_of_effect he hr hin hclock hc), (cluster_of_effect he hr).trans hc⟩
    exact hrun.1.trans (Own.modifyCpu _ _)

/-- States that look the same to processor `i`, which has its cluster. -/
def Alike (P : Partition pm) (i : Fin pm.cpuCnt) (s t : System pm) : Prop :=
  P.View i s t ∧ (s.mCpus i).Cluster = P.cluster i

theorem alike_step (r : Req) (u v : System pm) (hq : P.Rests i (r, u)) (huv : P.Alike i u v) :
    (handler i r u).1 = (handler i r v).1 ∧ P.Alike i (handler i r u).2 (handler i r v).2 := by
  obtain ⟨hanswer, hview⟩ := same_handler huv.1 hq.1 hq.2 huv.2
  exact ⟨hanswer, hview, (cluster_of_effect (handler_effect i u r) hq.1).trans huv.2⟩

/-- The run of the instruction in states that look the same. -/
theorem Stays.agree (h : P.Stays i s) (hst : P.View i s t) (hf : ¬ fetchFails pm (s.mCpus i)) :
    P.Same i (execute i s) (execute i t) ∧
      ∀ q ∈ (Inst.decode pm true (fetched t i)).trace (handler i) t,
        ∃ q0 ∈ (Inst.decode pm true (fetched s i)).trace (handler i) s,
          q0.1 = q.1 ∧ q0.2.mCpus i = q.2.mCpus i := by
  obtain ⟨⟨hanswer, halike⟩, htrace⟩ := Program.run_agree (R := P.Alike i) (h := handler i)
    (p := P.Rests i) alike_step (h.rests hf) (⟨hst, h.cluster⟩ : P.Alike i s t)
  unfold Same execute
  rw [h.fetched_eq hst hf]
  refine ⟨⟨hanswer, halike.1⟩, ?_⟩
  intro q hq
  obtain ⟨q0, hq0, heq, hview⟩ := htrace q hq
  exact ⟨q0, hq0, heq, hview.1.mCpus⟩

theorem Keeps.congr (h : P.Keeps i s) (hst : P.View i s t) : P.Keeps i t where
  running := hst.mCpus ▸ h.running
  user := hst.mCpus ▸ h.user
  cluster := hst.mCpus ▸ h.cluster
  fetch := by
    rw [← hst.mCpus]
    exact h.fetch
  requests := by
    intro hf q hq
    rw [← hst.mCpus] at hf
    obtain ⟨q0, hq0, heq, hcpu⟩ := (h.agree hst hf).2 q hq
    rw [← heq, ← hcpu]
    exact h.requests hf q0 hq0
  clock := by
    intro hf q hq hr
    rw [← hst.mCpus] at hf
    obtain ⟨q0, hq0, heq, -⟩ := (h.agree hst hf).2 q hq
    exact h.clock hf q0 hq0 (heq.trans hr)

/-- **An instruction that stays in its share goes the same way** in states that look the same. -/
theorem Stays.view (h : P.Stays i s) (hst : P.View i s t) :
    P.View i (instruction i s).2 (instruction i t).2 := by
  rw [instruction_state, instruction_state, ← hst.mCpus]
  split
  · exact hst.modifyCpu _
  · rename_i hf
    obtain ⟨⟨hanswer, hview⟩, -⟩ := h.agree hst hf
    rw [← hanswer]
    exact hview.modifyCpu _

theorem Allows.own {a : Turn pm} (h : P.Allows a s) : P.Own a.owner s (a.step s) := by
  rcases a.step_cases with ⟨me, rfl⟩ | ⟨f, hf⟩
  · exact Keeps.own h
  · rw [hf]
    exact Own.modifyCpu s f

variable (P) in
/-- **User programs that keep to their shares are separated.** -/
theorem separated : Turns.Separated Turn.step Turn.owner P.Allows P.View where
  equivalence := P.view_equivalence
  respects hne h := h.own.view hne
  allowed := by
    intro a s t h hst
    cases a with
    | instruction me => exact Keeps.congr h hst
    | _ => trivial
  consistent := by
    intro a s t h hst
    rcases a.step_cases with ⟨me, rfl⟩ | ⟨f, hf⟩
    · exact Stays.view (Keeps.toStays h) hst
    · rw [hf, hf]
      exact hst.modifyCpu f

/-! ## 5. Whole runs -/

/-- What belongs to no share stays as it was over a run. -/
structure Unowned (P : Partition pm) (s s' : System pm) : Prop where
  mClusters : ∀ cl, (∀ i, clusterIdx pm (P.cluster i) ≠ some cl) → s'.mClusters cl = s.mClusters cl
  mMemory : ∀ a, (∀ i, ¬ P.Writable i a) → s'.mMemory a = s.mMemory a
  mChannels : s'.mChannels = s.mChannels
  mRealTimeClock : s'.mRealTimeClock = s.mRealTimeClock
  mRealTimeStart : s'.mRealTimeStart = s.mRealTimeStart
  mLastRealTimeReading : s'.mLastRealTimeReading = s.mLastRealTimeReading
  mRealTimeTimer : s'.mRealTimeTimer = s.mRealTimeTimer

theorem run_unowned {l : List (Turn pm)} (hl : Turns.Along Turn.step P.Allows l s) :
    P.Unowned s (Turns.run Turn.step l s) := by
  refine Turns.run_keeps (I := P.Unowned s) ?_ hl
    ⟨fun _ _ => rfl, fun _ _ => rfl, rfl, rfl, rfl, rfl, rfl⟩
  intro a u ha hu
  have hown := ha.own
  exact ⟨fun cl hcl => (hown.mClusters cl (hcl _)).trans (hu.mClusters cl hcl),
    fun x hx => (hown.mMemory x (hx _)).trans (hu.mMemory x hx),
    hown.mChannels.trans hu.mChannels, hown.mRealTimeClock.trans hu.mRealTimeClock,
    hown.mRealTimeStart.trans hu.mRealTimeStart,
    hown.mLastRealTimeReading.trans hu.mLastRealTimeReading,
    hown.mRealTimeTimer.trans hu.mRealTimeTimer⟩

/-- States that look the same to every processor, and are the same outside the shares. -/
theorem eq_of_views {u v : System pm} (hu : P.Unowned s u) (hv : P.Unowned s v)
    (h : ∀ i, P.View i u v) : u = v := by
  have hcpus : u.mCpus = v.mCpus := funext fun i => (h i).mCpus
  have hclusters : u.mClusters = v.mClusters := by
    funext cl
    by_cases hcl : ∃ i, clusterIdx pm (P.cluster i) = some cl
    · obtain ⟨i, hi⟩ := hcl
      exact (h i).mClusters cl hi
    · have hno : ∀ i, clusterIdx pm (P.cluster i) ≠ some cl := fun i hi => hcl ⟨i, hi⟩
      exact (hu.mClusters cl hno).trans (hv.mClusters cl hno).symm
  have hmemory : u.mMemory = v.mMemory := by
    funext a
    by_cases ha : ∃ i, P.Writable i a
    · obtain ⟨i, hi⟩ := ha
      exact (h i).mMemory a (P.readable i a hi)
    · have hno : ∀ i, ¬ P.Writable i a := fun i hi => ha ⟨i, hi⟩
      exact (hu.mMemory a hno).trans (hv.mMemory a hno).symm
  have hchannels := hu.mChannels.trans hv.mChannels.symm
  have hclock := hu.mRealTimeClock.trans hv.mRealTimeClock.symm
  have hstart := hu.mRealTimeStart.trans hv.mRealTimeStart.symm
  have hreading := hu.mLastRealTimeReading.trans hv.mLastRealTimeReading.symm
  have htimer := hu.mRealTimeTimer.trans hv.mRealTimeTimer.symm
  cases u
  cases v
  simp only at hcpus hclusters hmemory hchannels hclock hstart hreading htimer
  subst hcpus hclusters hmemory hchannels hclock hstart hreading htimer
  rfl

end Partition

/-- **A processor ends as if it had run alone**: in a run in which user programs keep to their
    shares, however their turns are interleaved, the registers, the cluster and the memory of a
    processor are in the end those of the run of its own turns alone. -/
theorem processors_run_alone {pm : Params} (P : Partition pm) (i : Fin pm.cpuCnt)
    (l : List (Turn pm)) (s : System pm) (hl : Turns.Along Turn.step P.Allows l s) :
    Turns.Along Turn.step P.Allows (Turns.own Turn.owner i l) s ∧
      P.View i (Turns.run Turn.step l s) (Turns.run Turn.step (Turns.own Turn.owner i l) s) :=
  Turns.runs_alone P.separated i hl

/-- The processors share the program for reading, and each has eight words for its data. -/
def Partition.data : Partition ympTwo where
  Readable i a := a < 20 ∨ 128 * (i.val + 1) ≤ a ∧ a < 128 * (i.val + 1) + 64
  Writable i a := 128 * (i.val + 1) ≤ a ∧ a < 128 * (i.val + 1) + 64
  cluster _ := 0
  readable _ _ h := Or.inr h
  apart i j hij a hi hj := by
    have hne : i.val ≠ j.val := fun heq => hij (Fin.ext heq)
    omega
  clustersApart _ _ _ _ h := absurd (clusterIdx_zero.symm.trans h) (Option.some_ne_none _).symm

/-- The requests of the store and of the load. -/
def memoryReqs : List Req := [.cpu, .writeDataMem 0 7, .readDataMem 0, .write (.S 2 7)]

/-- A processor keeps to its share while it makes these. -/
theorem Partition.data_keeps {i : Fin 2} {s : System ympTwo}
    (hcpu : (s.mCpus i).mInReset = false ∧ (s.mCpus i).isMonitorMode = false ∧
      (s.mCpus i).Cluster = 0 ∧ (s.mCpus i).DataBaseAddr = BitVec.ofNat 32 (16 * (i.val + 1)))
    (hfetch : instParcel ympTwo (s.mCpus i) (s.mCpus i).ProgramAddress ≤ 4)
    (hreqs : ∀ r ∈ ((Inst.decode ympTwo true (fetched s i)).trace (handler i) s).map Prod.fst,
      r ∈ memoryReqs) :
    Partition.data.Keeps i s := by
  obtain ⟨hrunning, huser, hcluster, hbase⟩ := hcpu
  have hword : ∀ q ∈ (Inst.decode ympTwo true (fetched s i)).trace (handler i) s, ∀ x,
      wordBytes (dataWord ympTwo (q.2.mCpus i) 0) x → Partition.data.Writable i x := by
    intro q hq x hx
    have hsame : dataWord ympTwo (q.2.mCpus i) 0 = 16 * (i.val + 1) := by
      unfold dataWord
      rw [(trace_confined true _ huser q hq).2.DataBaseAddr, hbase]
      exact i.cases rfl fun i => i.cases rfl fun i => i.elim0
    unfold wordBytes memIndex at hx
    rw [hsame] at hx
    exact ⟨by omega, by omega⟩
  have hreq : ∀ q ∈ (Inst.decode ympTwo true (fetched s i)).trace (handler i) s,
      q.1 ∈ memoryReqs := fun q hq => hreqs q.1 (List.mem_map_of_mem hq)
  refine ⟨⟨huser, hcluster, fun _ x hx => ?_, fun _ q hq => ?_⟩, hrunning, fun _ q hq hr => ?_⟩
  · unfold windowBytes at hx
    exact Or.inl (by omega)
  · have hmem := hreq q hq
    have hown := hword q hq
    obtain ⟨r, t⟩ := q
    simp only [memoryReqs, List.mem_cons, List.not_mem_nil, or_false] at hmem
    rcases hmem with rfl | rfl | rfl | rfl
    · trivial
    · exact fun _ x hx => hown x hx
    · exact fun _ x hx => Or.inr (hown x hx)
    · trivial
  · have hmem := hreq q hq
    rw [hr] at hmem
    exact absurd hmem (by decide)

/-- The program from its store on. -/
def System.storing : System ympTwo :=
  { System.loaded with mCpus := fun i => { System.loaded.mCpus i with ProgramAddress := 1 } }

/-- Both processors store and load, in turns. -/
def interleaved : List (Turn ympTwo) :=
  [.instruction (0 : Fin 2), .instruction (1 : Fin 2), .post (0 : Fin 2) .io,
    .instruction (1 : Fin 2), .instruction (0 : Fin 2)]

theorem interleaved_along : Turns.Along Turn.step Partition.data.Allows interleaved System.storing := by
  refine ⟨Partition.data_keeps ⟨rfl, rfl, rfl, rfl⟩ (by decide) ?_,
    Partition.data_keeps ⟨rfl, rfl, rfl, rfl⟩ (by decide) ?_, trivial,
    Partition.data_keeps ⟨rfl, rfl, rfl, rfl⟩ (by decide) ?_,
    Partition.data_keeps ⟨rfl, rfl, rfl, rfl⟩ (by decide) ?_, trivial⟩
  all_goals decide

/-- The law applied to the second processor: its word holds what it has stored. -/
theorem processors_run_alone_storing :
    Partition.data.View (1 : Fin 2) (Turns.run Turn.step interleaved System.storing)
        (Turns.run Turn.step [.instruction (1 : Fin 2), .instruction (1 : Fin 2)] System.storing) ∧
      memRead (Turns.run Turn.step interleaved System.storing).mMemory 32 = 7 :=
  ⟨(processors_run_alone Partition.data (1 : Fin 2) _ _ interleaved_along).2, rfl⟩

/-- **The order of the turns does not matter**: where user programs keep to their shares in one
    order of the turns, they do so in every other one that gives each processor the same turns,
    and the mainframe ends in the same state. -/
theorem turns_reorder {pm : Params} (P : Partition pm) (l l' : List (Turn pm)) (s : System pm)
    (hl : Turns.Along Turn.step P.Allows l s)
    (heq : ∀ i, Turns.own Turn.owner i l = Turns.own Turn.owner i l') :
    Turns.Along Turn.step P.Allows l' s ∧
      Turns.run Turn.step l s = Turns.run Turn.step l' s := by
  obtain ⟨hl', hview⟩ := Turns.runs_reorder P.separated hl heq
  exact ⟨hl', Partition.eq_of_views (Partition.run_unowned hl) (Partition.run_unowned hl') hview⟩

/-- One program behind the other. -/
def inSuccession : List (Turn ympTwo) :=
  [.instruction (1 : Fin 2), .instruction (1 : Fin 2), .instruction (0 : Fin 2),
    .post (0 : Fin 2) .io, .instruction (0 : Fin 2)]

/-- The law applied to the interleaved programs. -/
theorem turns_reorder_storing :
    Turns.run Turn.step interleaved System.storing =
      Turns.run Turn.step inSuccession System.storing :=
  (turns_reorder Partition.data interleaved inSuccession System.storing interleaved_along
    (Fin.forall_fin_two.mpr ⟨rfl, rfl⟩)).2

end CraySim
