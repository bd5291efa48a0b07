/-
  Subject:   What each request of an instruction changes.

  The invariants of the mainframe do not unfold `handler`: they go through the closed forms of
  this module.

  * `readDataMem_eq`, `testAndSet_ok`, `setCluster_eq` … -- the operations in one equation each,
  * `Effect`, `handler_effect` -- what a request can do to the mainframe,
  * `CpuEffect`, `Effect.cpu` -- the same as one processor sees it,
  * `decode_run` -- the invariant rule for the run of an instruction.
-/
import CraySim.Step

namespace CraySim

namespace SysRun

variable {pm : Params} {me : Fin pm.cpuCnt} {s : System pm}

/-! ## 1. Equations of the computations -/

theorem cpu_apply : cpu me s = (.ok (s.mCpus me), s) := rfl

theorem crayAssert_true {b : Bool} (h : b = true) :
    (crayAssert b : SysRun pm Unit) s = (.ok (), s) := by
  rw [crayAssert, if_pos h]
  rfl

theorem crayAssert_false {b : Bool} (h : b = false) :
    (crayAssert b : SysRun pm Unit) s = (.error .assertion, s) := by
  rw [crayAssert, h]
  rfl

theorem getCluster_apply (idx : Nat) :
    (getCluster idx : SysRun pm (Fin pm.clusterCnt)) s =
      if h : idx < pm.clusterCnt then (.ok ⟨idx, h⟩, s) else (.error .assertion, s) := by
  unfold getCluster
  split
  · rfl
  · rfl

/-- **A load in one equation.** -/
theorem readDataMem_eq (aAddr : CAddr) :
    readDataMem me aAddr s =
      if (s.mCpus me).DataLimitAddr.toNat ≤ dataWord pm (s.mCpus me) aAddr then
        if (s.mCpus me).Mode.mOperandRangeErrorMode then (.error .dataReadOutOfBoundsError, s)
        else (.ok 0, s)
      else (.ok (memRead s.mMemory (dataWord pm (s.mCpus me) aAddr)), s) := by
  have hlt : dataWord pm (s.mCpus me) aAddr < pm.memSizeInWords := Nat.mod_lt _ pm.memSize_pos
  unfold readDataMem
  rw [Run.bind_apply_ok cpu_apply]
  split
  · split
    · rfl
    · rfl
  · rw [Run.bind_apply_ok (crayAssert_true (decide_eq_true hlt))]
    rfl

/-- **A store in one equation.** -/
theorem writeDataMem_eq (aAddr : CAddr) (aData : CInt) :
    writeDataMem me aAddr aData s =
      if (s.mCpus me).DataLimitAddr.toNat ≤ dataWord pm (s.mCpus me) aAddr then
        if (s.mCpus me).Mode.mOperandRangeErrorMode then (.error .dataWriteOutOfBoundsError, s)
        else (.ok (), s)
      else
        (.ok (), { s with
          mMemory := memWrite s.mMemory (dataWord pm (s.mCpus me) aAddr) aData }) := by
  have hlt : dataWord pm (s.mCpus me) aAddr < pm.memSizeInWords := Nat.mod_lt _ pm.memSize_pos
  unfold writeDataMem
  rw [Run.bind_apply_ok cpu_apply]
  split
  · split
    · rfl
    · rfl
  · rw [Run.bind_apply_ok (crayAssert_true (decide_eq_true hlt))]
    rfl

/-- The cluster a cluster register selects; clusters count from 1. -/
def clusterIdx (pm : Params) (v : BitVec 8) : Option (Fin pm.clusterCnt) :=
  if h : v ≠ 0 ∧ v.toNat - 1 < pm.clusterCnt then some ⟨v.toNat - 1, h.2⟩ else none

theorem ownCluster_apply :
    ownCluster me s =
      match clusterIdx pm (s.mCpus me).Cluster with
      | some cl => (.ok cl, s)
      | none => (.error .assertion, s) := by
  unfold ownCluster
  rw [Run.bind_apply_ok cpu_apply]
  by_cases h0 : (s.mCpus me).Cluster = 0
  · rw [Run.bind_apply_error (crayAssert_false (by simpa using h0)), clusterIdx,
      dif_neg fun h => h.1 h0]
  · rw [Run.bind_apply_ok (crayAssert_true (by simpa using h0)), getCluster_apply, clusterIdx]
    by_cases hlt : (s.mCpus me).Cluster.toNat - 1 < pm.clusterCnt
    · rw [dif_pos hlt, dif_pos ⟨h0, hlt⟩]
    · rw [dif_neg hlt, dif_neg fun h => hlt h.2]

/-- An operation on the own cluster: nothing happens if there is none. -/
theorem ownCluster_bind {α : Type} (f : Fin pm.clusterCnt → SysRun pm α) :
    (ownCluster me >>= f) s =
      match clusterIdx pm (s.mCpus me).Cluster with
      | some cl => f cl s
      | none => (.error .assertion, s) := by
  rw [Run.bind_apply, ownCluster_apply]
  cases clusterIdx pm (s.mCpus me).Cluster with
  | none => rfl
  | some cl => rfl

end SysRun

/-- The cluster after its semaphore is taken by a processor that was blocked or not. -/
def InterCpuCluster.take (k : InterCpuCluster) (jk : Fin 32) (blocked : Bool) : InterCpuCluster :=
  { k with
    SM := Function.update k.SM jk true
    TestAndSetBlockedCnt :=
      if blocked then k.TestAndSetBlockedCnt - 1 else k.TestAndSetBlockedCnt }

/-- The cluster after a processor blocks on a semaphore, again or for the first time. -/
def InterCpuCluster.block (k : InterCpuCluster) (blocked : Bool) : InterCpuCluster :=
  { k with
    TestAndSetBlockedCnt :=
      if blocked then k.TestAndSetBlockedCnt else k.TestAndSetBlockedCnt + 1 }

def Cpu.setTestAndSetBlocked (c : Cpu) (v : Bool) : Cpu := { c with TestAndSetBlocked := v }

def Cpu.setCluster (c : Cpu) (v : BitVec 8) : Cpu := { c with Cluster := v }

def Cpu.postInterProcessorInterrupt (c : Cpu) : Cpu := { c with mNotInterProcessorInterrupt := false }

namespace System

variable {pm : Params} (s : System pm)

theorem modifyCluster_comp (cl : Fin pm.clusterCnt) (f g : InterCpuCluster → InterCpuCluster) :
    (s.modifyCluster cl f).modifyCluster cl g = s.modifyCluster cl fun k => g (f k) := by
  unfold modifyCluster
  simp only [Function.update_self, Function.update_idem]

theorem modifyCluster_id (cl : Fin pm.clusterCnt) : (s.modifyCluster cl fun k => k) = s := by
  unfold modifyCluster
  rw [Function.update_eq_self]

theorem modifyCpu_id (i : Fin pm.cpuCnt) : (s.modifyCpu i fun c => c) = s := by
  unfold modifyCpu
  rw [Function.update_eq_self]

theorem modifyCpu_comp (i : Fin pm.cpuCnt) (f g : Cpu → Cpu) :
    (s.modifyCpu i f).modifyCpu i g = s.modifyCpu i fun c => g (f c) := by
  unfold modifyCpu
  simp only [Function.update_self, Function.update_idem]

theorem modifyCpu_congr {s : System pm} {i : Fin pm.cpuCnt} {f g : Cpu → Cpu}
    (h : f (s.mCpus i) = g (s.mCpus i)) : s.modifyCpu i f = s.modifyCpu i g := by
  unfold modifyCpu
  rw [h]

end System

namespace SysRun

variable {pm : Params} {me : Fin pm.cpuCnt} {s : System pm}

/-- **A test-and-set in one equation**: a free semaphore is taken, an occupied one blocks. -/
theorem testAndSet_ok (jk : Fin 32) {cl : Fin pm.clusterCnt}
    (hcl : clusterIdx pm (s.mCpus me).Cluster = some cl) :
    testAndSet me jk s =
      if (s.mClusters cl).SM jk = false then
        (.ok false, (s.modifyCluster cl fun k => k.take jk (s.mCpus me).TestAndSetBlocked).modifyCpu
          me fun c => c.setTestAndSetBlocked false)
      else
        (.ok true, (s.modifyCluster cl fun k => k.block (s.mCpus me).TestAndSetBlocked).modifyCpu
          me fun c => c.setTestAndSetBlocked true) := by
  unfold testAndSet
  rw [ownCluster_bind, hcl]
  dsimp only
  rw [Run.bind_apply_ok cpu_apply, Run.bind_apply_ok (Run.get_apply s)]
  cases hsm : (s.mClusters cl).SM jk
  · cases hb : (s.mCpus me).TestAndSetBlocked
    · rfl
    · show (_, _) = (_, _)
      simp only [System.modifyCluster_comp]
      rfl
  · cases hb : (s.mCpus me).TestAndSetBlocked
    · rfl
    · have hid : (s.modifyCluster cl fun k => k.block true) = s := System.modifyCluster_id s cl
      simp only [hid]
      rfl

theorem testAndSet_none (jk : Fin 32) (hcl : clusterIdx pm (s.mCpus me).Cluster = none) :
    testAndSet me jk s = (.error .assertion, s) := by
  unfold testAndSet
  rw [ownCluster_bind, hcl]

end SysRun

/-! ## 2. A change of cluster -/

/-- A cluster register that selects no cluster the mainframe has; 0 selects none at all. -/
def badCluster (pm : Params) (v : BitVec 8) : Bool :=
  v != 0 && (SysRun.clusterIdx pm v).isNone

namespace System

variable {pm : Params}

/-- A change of the cluster a register selects; nothing happens where there is none. -/
def modifySelected (s : System pm) (v : BitVec 8) (f : InterCpuCluster → InterCpuCluster) :
    System pm :=
  match SysRun.clusterIdx pm v with
  | some cl => s.modifyCluster cl f
  | none => s

@[simp] theorem modifySelected_cpus (s : System pm) (v : BitVec 8)
    (f : InterCpuCluster → InterCpuCluster) : (s.modifySelected v f).mCpus = s.mCpus := by
  unfold modifySelected
  split
  · rfl
  · rfl

end System

def InterCpuCluster.leave (k : InterCpuCluster) : InterCpuCluster :=
  { k with ClusterCpuCnt := k.ClusterCpuCnt - 1 }

def InterCpuCluster.enter (k : InterCpuCluster) : InterCpuCluster :=
  { k with ClusterCpuCnt := k.ClusterCpuCnt + 1 }

namespace SysRun

variable {pm : Params} {me : Fin pm.cpuCnt} {s : System pm}

theorem clusterIdx_zero : clusterIdx pm 0 = none := dif_neg fun h => h.1 rfl

/-- A change of the cluster a register selects, with what comes after it. -/
theorem select_bind {α : Type} (v : BitVec 8) (f : InterCpuCluster → InterCpuCluster)
    (k : SysRun pm α) :
    (if (v != 0) = true then do
        let cl ← getCluster (v.toNat - 1)
        Run.modify fun s => s.modifyCluster cl f
        k
      else k) s =
      if badCluster pm v then (.error .assertion, s) else k (s.modifySelected v f) := by
  by_cases hv : v = 0
  · subst hv
    rw [System.modifySelected, clusterIdx_zero]
    rfl
  · have hv' : (v != 0) = true := by simpa using hv
    rw [if_pos hv', Run.bind_apply, getCluster_apply]
    by_cases h : v.toNat - 1 < pm.clusterCnt
    · have hcl : clusterIdx pm v = some ⟨v.toNat - 1, h⟩ := dif_pos ⟨hv, h⟩
      rw [dif_pos h, badCluster, hcl, System.modifySelected, hcl, hv']
      rfl
    · have hcl : clusterIdx pm v = none := dif_neg fun h' => h h'.2
      rw [dif_neg h, badCluster, hcl, hv']
      rfl

/-- **A change of cluster in one equation**; a cluster that is not there is noticed too late. -/
theorem setCluster_eq (v : BitVec 8) :
    setCluster me v s =
      if (s.mCpus me).Cluster = v then (.ok (), s.modifyCpu me fun c => c.setCluster v)
      else if badCluster pm (s.mCpus me).Cluster then (.error .assertion, s)
      else if badCluster pm v then
        (.error .assertion, s.modifySelected (s.mCpus me).Cluster InterCpuCluster.leave)
      else
        (.ok (), ((s.modifySelected (s.mCpus me).Cluster InterCpuCluster.leave).modifySelected v
          InterCpuCluster.enter).modifyCpu me fun c => c.setCluster v) := by
  unfold setCluster
  rw [Run.bind_apply_ok cpu_apply]
  by_cases hov : (s.mCpus me).Cluster = v
  · rw [if_pos hov, if_neg (by simpa using hov)]
    rfl
  · rw [if_neg hov, if_pos (by simpa using hov)]
    refine (select_bind (s.mCpus me).Cluster InterCpuCluster.leave _).trans ?_
    cases badCluster pm (s.mCpus me).Cluster with
    | true => rfl
    | false => exact select_bind v InterCpuCluster.enter _

end SysRun

/-! ## 3. What a request can do -/

/-- The requests for a shared register or a semaphore of the own cluster. -/
def Req.sharedWrite : Req → Option (Cpu → InterCpuCluster → InterCpuCluster)
  | .setSM jk v => some fun _ k => { k with SM := Function.update k.SM jk v }
  | .setSB j v => some fun c k => { k with SB := Function.update k.SB j (v &&& c.AddrMask) }
  | .setST j v => some fun _ k => { k with ST := Function.update k.ST j v }
  | _ => none

/-- **Every outcome of a request** of processor `me`. -/
inductive Effect {pm : Params} (me : Fin pm.cpuCnt) (s : System pm) : Req → System pm → Prop where
  | none {r : Req} : Effect me s r s
  | write {w : RegWrite} : Effect me s (.write w) (s.modifyCpu me w.apply)
  | privWrite {w : PrivWrite} : Effect me s (.privWrite w) (s.modifyCpu me w.apply)
  | store {a : CAddr} {v : CInt}
      (h : SysRun.dataWord pm (s.mCpus me) a < (s.mCpus me).DataLimitAddr.toNat) :
      Effect me s (.writeDataMem a v)
        { s with mMemory := SysRun.memWrite s.mMemory (SysRun.dataWord pm (s.mCpus me) a) v }
  | take {jk : Fin 32} {cl : Fin pm.clusterCnt}
      (hcl : SysRun.clusterIdx pm (s.mCpus me).Cluster = some cl)
      (h : (s.mClusters cl).SM jk = false) :
      Effect me s (.testAndSet jk)
        ((s.modifyCluster cl fun k => k.take jk (s.mCpus me).TestAndSetBlocked).modifyCpu me
          fun c => c.setTestAndSetBlocked false)
  | block {jk : Fin 32} {cl : Fin pm.clusterCnt}
      (hcl : SysRun.clusterIdx pm (s.mCpus me).Cluster = some cl)
      (h : ¬ (s.mClusters cl).SM jk = false) :
      Effect me s (.testAndSet jk)
        ((s.modifyCluster cl fun k => k.block (s.mCpus me).TestAndSetBlocked).modifyCpu me
          fun c => c.setTestAndSetBlocked true)
  | shared {r : Req} {f : Cpu → InterCpuCluster → InterCpuCluster} {cl : Fin pm.clusterCnt}
      (hcl : SysRun.clusterIdx pm (s.mCpus me).Cluster = some cl) (hr : r.sharedWrite = some f) :
      Effect me s r (s.modifyCluster cl (f (s.mCpus me)))
  | clockRead {v : CInt} (h : pm.useHostRealTimeClock = true) :
      Effect me s .realTimeClock { s with mLastRealTimeReading := v }
  | clockSet {v : CInt} {start : Nat} {last : CInt} :
      Effect me s (.setRealTimeClock v)
        { s with mRealTimeStart := start, mLastRealTimeReading := last, mRealTimeClock := v }
  | posted {idx : Nat} {i : Fin pm.cpuCnt} :
      Effect me s (.setInterProcessorInterrupt idx) (s.modifyCpu i Cpu.postInterProcessorInterrupt)
  | sameCluster {v : BitVec 8} (h : (s.mCpus me).Cluster = v) :
      Effect me s (.setCluster v) (s.modifyCpu me fun c => c.setCluster v)
  | changeCluster {v : BitVec 8} (h : (s.mCpus me).Cluster ≠ v)
      (hold : badCluster pm (s.mCpus me).Cluster = false) (hnew : badCluster pm v = false) :
      Effect me s (.setCluster v)
        (((s.modifySelected (s.mCpus me).Cluster InterCpuCluster.leave).modifySelected v
          InterCpuCluster.enter).modifyCpu me fun c => c.setCluster v)
  | badCluster {v : BitVec 8} (h : (s.mCpus me).Cluster ≠ v)
      (hold : badCluster pm (s.mCpus me).Cluster = false) (hnew : badCluster pm v = true) :
      Effect me s (.setCluster v) (s.modifySelected (s.mCpus me).Cluster InterCpuCluster.leave)
  | channel {idx : Nat} {op : ChannelOp} {ch : Fin pm.channelCnt} :
      Effect me s (.channelOp idx op) (s.modifyChannel ch op.apply)

namespace SysRun

variable {pm : Params} (me : Fin pm.cpuCnt) (s : System pm)

theorem readDataMem_state (aAddr : CAddr) : (readDataMem me aAddr s).2 = s := by
  rw [readDataMem_eq]
  split
  · split
    · rfl
    · rfl
  · rfl

theorem writeDataMem_effect (aAddr : CAddr) (aData : CInt) :
    Effect me s (.writeDataMem aAddr aData) (writeDataMem me aAddr aData s).2 := by
  rw [writeDataMem_eq]
  split
  · split
    · exact Effect.none
    · exact Effect.none
  · exact Effect.store (Nat.lt_of_not_le ‹_›)

theorem testAndSet_effect (jk : Fin 32) :
    Effect me s (.testAndSet jk) (testAndSet me jk s).2 := by
  cases hcl : clusterIdx pm (s.mCpus me).Cluster with
  | none =>
    rw [testAndSet_none jk hcl]
    exact Effect.none
  | some cl =>
    rw [testAndSet_ok jk hcl]
    split
    · exact Effect.take hcl ‹_›
    · exact Effect.block hcl ‹_›

/-- An operation on the own cluster changes at most that cluster. -/
theorem ownCluster_effect {r : Req} {g : Fin pm.clusterCnt → SysRun pm Unit}
    {f : Cpu → InterCpuCluster → InterCpuCluster} (hr : r.sharedWrite = some f)
    (hg : ∀ cl, (g cl s).2 = s.modifyCluster cl (f (s.mCpus me))) :
    Effect me s r ((ownCluster me >>= g) s).2 := by
  rw [ownCluster_bind]
  cases hcl : clusterIdx pm (s.mCpus me).Cluster with
  | none => exact Effect.none
  | some cl =>
    dsimp only
    rw [hg]
    exact Effect.shared hcl hr

theorem cluster_state : (handler me .cluster s).2 = s := by
  have h := @ownCluster_bind pm me s _ fun cl => do
    return (← Run.get).mClusters cl
  refine (congrArg Prod.snd h).trans ?_
  split
  · rfl
  · rfl

theorem setInterProcessorInterrupt_effect (idx : Nat) :
    Effect me s (.setInterProcessorInterrupt idx) (setInterProcessorInterrupt idx s).2 := by
  unfold setInterProcessorInterrupt
  split
  · exact Effect.posted
  · exact Effect.none

theorem channelOp_effect (idx : Nat) (op : ChannelOp) :
    Effect me s (.channelOp idx op) (channelOp idx op s).2 := by
  unfold channelOp getChannel
  split
  · exact Effect.channel
  · exact Effect.none

theorem getRealTimeClock_effect :
    Effect me s .realTimeClock (getRealTimeClock s).2 := by
  unfold getRealTimeClock
  rw [Run.bind_apply_ok (Run.get_apply s)]
  split
  · dsimp only
    split
    · exact Effect.clockRead ‹_›
    · exact Effect.clockRead ‹_›
  · exact Effect.none

theorem setRealTimeClock_effect (v : CInt) :
    Effect me s (.setRealTimeClock v) (setRealTimeClock v s).2 := by
  unfold setRealTimeClock
  rw [Run.modify_apply]
  split
  · exact Effect.clockSet
  · exact @Effect.clockSet pm me s v s.mRealTimeStart s.mLastRealTimeReading

theorem setCluster_effect (v : BitVec 8) :
    Effect me s (.setCluster v) (setCluster me v s).2 := by
  rw [setCluster_eq]
  split
  · exact Effect.sameCluster ‹_›
  · split
    · exact Effect.none
    · split
      · exact Effect.badCluster ‹_› (Bool.eq_false_iff.mpr ‹_›) ‹_›
      · exact Effect.changeCluster ‹_› (Bool.eq_false_iff.mpr ‹_›) (Bool.eq_false_iff.mpr ‹_›)

/-- **A request does one of the things `Effect` lists.** -/
theorem handler_effect (r : Req) : Effect me s r (handler me r s).2 := by
  cases r with
  | cpu => exact Effect.none
  | write w => exact Effect.write
  | readDataMem a =>
    have h : (handler me (.readDataMem a) s).2 = s := readDataMem_state me s a
    rw [h]
    exact Effect.none
  | writeDataMem a v => exact writeDataMem_effect me s a v
  | cluster =>
    rw [cluster_state]
    exact Effect.none
  | testAndSet jk => exact testAndSet_effect me s jk
  | setSM jk v => exact ownCluster_effect me s (r := .setSM jk v) rfl fun _ => rfl
  | setSB j v => exact ownCluster_effect me s (r := .setSB j v) rfl fun _ => rfl
  | setST j v => exact ownCluster_effect me s (r := .setST j v) rfl fun _ => rfl
  | realTimeClock => exact getRealTimeClock_effect me s
  | channels => exact Effect.none
  | privWrite w => exact Effect.privWrite
  | setRealTimeClock v => exact setRealTimeClock_effect me s v
  | setInterProcessorInterrupt idx => exact setInterProcessorInterrupt_effect me s idx
  | setCluster v => exact setCluster_effect me s v
  | channelOp idx op => exact channelOp_effect me s idx op

end SysRun

/-! ## 4. Requests as a processor sees them -/

/-- The change of a processor by a request; `own` says that the request is its own. -/
inductive CpuEffect (own : Prop) : Req → Cpu → Cpu → Prop where
  | none {r : Req} {c : Cpu} : CpuEffect own r c c
  | write {w : RegWrite} {c : Cpu} (h : own) : CpuEffect own (.write w) c (w.apply c)
  | privWrite {w : PrivWrite} {c : Cpu} (h : own) : CpuEffect own (.privWrite w) c (w.apply c)
  | blocked {jk : Fin 32} {c : Cpu} {v : Bool} (h : own) :
      CpuEffect own (.testAndSet jk) c (c.setTestAndSetBlocked v)
  | posted {idx : Nat} {c : Cpu} :
      CpuEffect own (.setInterProcessorInterrupt idx) c c.postInterProcessorInterrupt
  | cluster {v : BitVec 8} {c : Cpu} (h : own) : CpuEffect own (.setCluster v) c (c.setCluster v)

section cpuEffect
variable {pm : Params} {me : Fin pm.cpuCnt} {s s' : System pm} {r : Req}

theorem CpuEffect.modifyCpu {f : Cpu → Cpu} (h : ∀ c, CpuEffect True r c (f c))
    (i : Fin pm.cpuCnt) : CpuEffect (i = me) r (s.mCpus i) ((s.modifyCpu me f).mCpus i) := by
  by_cases hi : i = me
  · subst hi
    rw [System.modifyCpu_self, eq_self]
    exact h (s.mCpus i)
  · rw [System.modifyCpu_ne s me f hi]
    exact CpuEffect.none

theorem Effect.cpu (h : Effect me s r s') (i : Fin pm.cpuCnt) :
    CpuEffect (i = me) r (s.mCpus i) (s'.mCpus i) := by
  cases h with
  | none | store | shared | clockRead | clockSet | channel => exact CpuEffect.none
  | write => exact CpuEffect.modifyCpu (fun _ => CpuEffect.write trivial) i
  | privWrite => exact CpuEffect.modifyCpu (fun _ => CpuEffect.privWrite trivial) i
  | take => exact CpuEffect.modifyCpu (fun _ => CpuEffect.blocked trivial) i
  | block => exact CpuEffect.modifyCpu (fun _ => CpuEffect.blocked trivial) i
  | @posted idx j =>
    by_cases hi : i = j
    · rw [hi, System.modifyCpu_self]
      exact CpuEffect.posted
    · rw [System.modifyCpu_ne s _ _ hi]
      exact CpuEffect.none
  | sameCluster => exact CpuEffect.modifyCpu (fun _ => CpuEffect.cluster trivial) i
  | @changeCluster v =>
    have h : CpuEffect (i = me) (.setCluster v) _ _ := CpuEffect.modifyCpu
      (s := (s.modifySelected (s.mCpus me).Cluster InterCpuCluster.leave).modifySelected v
        InterCpuCluster.enter) (f := fun c => c.setCluster v)
      (fun _ => CpuEffect.cluster trivial) i
    rwa [System.modifySelected_cpus, System.modifySelected_cpus] at h
  | badCluster =>
    rw [System.modifySelected_cpus]
    exact CpuEffect.none

end cpuEffect

/-- The addressing mode and the privilege of a processor, which no request changes. -/
theorem CpuEffect.mode {own : Prop} {r : Req} {c c' : Cpu} (h : CpuEffect own r c c') :
    c'.XMode = c.XMode ∧ c'.isMonitorMode = c.isMonitorMode := by
  cases h with
  | write => rename_i w _; cases w <;> exact ⟨rfl, rfl⟩
  | privWrite => rename_i w _; cases w <;> exact ⟨rfl, rfl⟩
  | none | blocked | posted | cluster => exact ⟨rfl, rfl⟩

theorem CpuEffect.inReset {own : Prop} {r : Req} {c c' : Cpu} (h : CpuEffect own r c c') :
    c'.mInReset = c.mInReset := by
  cases h with
  | write => rename_i w _; cases w <;> rfl
  | privWrite => rename_i w _; cases w <;> rfl
  | none | blocked | posted | cluster => rfl

/-! ## 5. The invariant rule of an instruction -/

section decode
variable {pm : Params} {me : Fin pm.cpuCnt} {s : System pm}

/-- **What every request of an instruction keeps, the instruction keeps**; the requests are those
    allowed in the mode the instruction starts in. -/
theorem decode_run {I : System pm → Prop} (b : Bool) (parcels : CInt)
    (hstep : ∀ r s', Allowed pm (extractFields parcels) ((s.mCpus me).isMonitorMode = true) r →
      (s'.mCpus me).XMode = (s.mCpus me).XMode →
      (s'.mCpus me).isMonitorMode = (s.mCpus me).isMonitorMode →
      I s' → I (handler me r s').2) (hs : I s) :
    I ((Inst.decode pm b parcels).run (handler me) s).2 ∧
      ∀ d, ((Inst.decode pm b parcels).run (handler me) s).1 = .ok d →
        Advance (extractFields parcels) (s.mCpus me).XMode d := by
  have hreq : ∀ r s', Allowed pm (extractFields parcels) ((s.mCpus me).isMonitorMode = true) r →
      (I s' ∧ (s'.mCpus me).XMode = (s.mCpus me).XMode ∧
        (s'.mCpus me).isMonitorMode = (s.mCpus me).isMonitorMode) →
      (I (handler me r s').2 ∧ ((handler me r s').2.mCpus me).XMode = (s.mCpus me).XMode ∧
        ((handler me r s').2.mCpus me).isMonitorMode = (s.mCpus me).isMonitorMode) ∧
      ∀ a, (handler me r s').1 = .ok a →
        Answers (s.mCpus me).XMode ((s.mCpus me).isMonitorMode = true) r a := by
    rintro r s' hr ⟨hI, hx, hm⟩
    obtain ⟨hx', hm'⟩ := ((SysRun.handler_effect me s' r).cpu me).mode
    refine ⟨⟨hstep r s' hr hx hm hI, hx'.trans hx, hm'.trans hm⟩, ?_⟩
    intro a ha
    cases r with
    | cpu =>
      cases ha
      exact ⟨hx, fun h => hm ▸ h⟩
    | _ => trivial
  obtain ⟨h, hd⟩ := Program.run_invariant hreq
    (Inst.decode_decodes pm b parcels (s.mCpus me).XMode ((s.mCpus me).isMonitorMode = true))
    ⟨hs, rfl, rfl⟩
  exact ⟨h.1, hd⟩

end decode

end CraySim
