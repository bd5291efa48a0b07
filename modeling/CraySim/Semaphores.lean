/-
  Subject:   The semaphores of a cluster exclude each other's owners.

  `SMjk 1,TS`, `SMjk 0`, `SMjk 1` and `SM Si` write the 32 semaphores of the own cluster, `Si SM`
  reads them as one word. The runs of the mainframe are runs of a bank of test-and-set cells; what
  holds of every interleaving is read off that bank.

  * `semaphoreEvent`, `Action.semaphoreEvents` -- the operations on the semaphores of a cluster,
  * `Logged` -- runs of the mainframe with their operations,
  * `semaphores_path` -- such a run is a run of the bank,
  * `events_testAndSet` … -- what each of the instructions does,
  * `semaphoreWord_bit` -- the word `Si SM` reads,
  * `semaphores_safe` -- mutual exclusion and consistency.
-/
import CraySim.Exchange
import CraySim.InstructionLength
import CraySim.Lib.TestAndSet

namespace CraySim

open TestAndSet

variable {pm : Params}

/-! ## 1. Operations on semaphores -/

/-- The operation a request is on the semaphores of cluster `cl`. -/
def semaphoreEvent (me : Fin pm.cpuCnt) (cl : Fin pm.clusterCnt) (c : Req × System pm) :
    Option (Event (Fin 32)) :=
  if SysRun.clusterIdx pm (c.2.mCpus me).Cluster = some cl then
    match c.1 with
    | .testAndSet jk => some (.testAndSet jk (!(c.2.mClusters cl).SM jk))
    | .setSM jk v => some (.store jk v)
    | _ => none
  else none

/-- The operations of a program, in order. -/
def semaphoreEvents {α : Type} (me : Fin pm.cpuCnt) (cl : Fin pm.clusterCnt) (m : Inst α)
    (s : System pm) : List (Event (Fin 32)) :=
  (m.trace (handler me) s).filterMap (semaphoreEvent me cl)

instance (c : Cpu) : Decidable (SysRun.fetchFails pm c) := inferInstanceAs (Decidable (_ ≤ _))

/-- The operations of an action; only instructions operate on semaphores. -/
def Action.semaphoreEvents (cl : Fin pm.clusterCnt) (s : System pm) :
    Action pm → List (Event (Fin 32))
  | .instruction me =>
    if SysRun.fetchFails pm (s.mCpus me) then []
    else CraySim.semaphoreEvents me cl (Inst.decode pm true (SysRun.fetched s me)) s
  | _ => []

theorem Action.semaphoreEvents_instruction (me : Fin pm.cpuCnt) (cl : Fin pm.clusterCnt)
    (s : System pm) :
    (Action.instruction me).semaphoreEvents cl s =
      if SysRun.fetchFails pm (s.mCpus me) then []
      else CraySim.semaphoreEvents me cl (Inst.decode pm true (SysRun.fetched s me)) s := rfl

/-- The runs of the mainframe, each with its operations on the semaphores of a cluster. -/
inductive Logged (cl : Fin pm.clusterCnt) (s0 : System pm) :
    List (Event (Fin 32)) → System pm → Prop where
  | start : Logged cl s0 [] s0
  | step {l : List (Event (Fin 32))} {a : Action pm} {s s' : System pm} (h : Logged cl s0 l s)
      (hs : Step a s s') : Logged cl s0 (l ++ a.semaphoreEvents cl s) s'

/-! ## 2. Runs of the mainframe are runs of the bank -/

section path
variable (me : Fin pm.cpuCnt) (cl : Fin pm.clusterCnt)

theorem modifyCluster_SM {s : System pm} {cl' : Fin pm.clusterCnt}
    {f : InterCpuCluster → InterCpuCluster} (hf : ∀ k, (f k).SM = k.SM) :
    ((s.modifyCluster cl' f).mClusters cl).SM = (s.mClusters cl).SM := by
  by_cases h : cl = cl'
  · subst h
    rw [System.modifyCluster_self, hf]
  · rw [System.modifyCluster_ne s cl' f h]

theorem modifySelected_SM {s : System pm} {v : BitVec 8} {f : InterCpuCluster → InterCpuCluster}
    (hf : ∀ k, (f k).SM = k.SM) :
    ((s.modifySelected v f).mClusters cl).SM = (s.mClusters cl).SM := by
  unfold System.modifySelected
  split
  · exact modifyCluster_SM cl hf
  · rfl

theorem changeCluster_SM {s : System pm} {v w : BitVec 8} :
    ((((s.modifySelected v InterCpuCluster.leave).modifySelected w
      InterCpuCluster.enter).mClusters cl).SM) = (s.mClusters cl).SM :=
  (modifySelected_SM cl (f := InterCpuCluster.enter) fun _ => rfl).trans
    (modifySelected_SM cl (f := InterCpuCluster.leave) fun _ => rfl)

theorem setCluster_SM (v : BitVec 8) (s : System pm) :
    (((SysRun.setCluster me v s).2).mClusters cl).SM = (s.mClusters cl).SM := by
  rw [SysRun.setCluster_eq]
  split
  · rfl
  · split
    · rfl
    · split
      · exact modifySelected_SM cl fun _ => rfl
      · exact changeCluster_SM cl

variable {me cl}

theorem modifyCluster_SM_ne {s : System pm} {cl' : Fin pm.clusterCnt}
    {f : InterCpuCluster → InterCpuCluster} (hne : cl ≠ cl') :
    ((s.modifyCluster cl' f).mClusters cl).SM = (s.mClusters cl).SM := by
  rw [System.modifyCluster_ne s cl' f hne]

/-- A request that is no operation on the semaphores of the cluster. -/
theorem Effect.keeps_SM {r : Req} {s s' : System pm} (h : Effect me s r s')
    (hr : semaphoreEvent me cl (r, s) = Option.none) : (s'.mClusters cl).SM = (s.mClusters cl).SM := by
  -- an operation on a semaphore is one on another cluster
  have hne : ∀ {cl'}, SysRun.clusterIdx pm (s.mCpus me).Cluster = some cl' →
      ((∃ jk, r = .testAndSet jk) ∨ ∃ jk v, r = .setSM jk v) → cl ≠ cl' := by
    rintro cl' hcl hop rfl
    unfold semaphoreEvent at hr
    rw [if_pos hcl] at hr
    rcases hop with ⟨jk, rfl⟩ | ⟨jk, v, rfl⟩
    · cases hr
    · cases hr
  cases h with
  | none | write | privWrite | store | clockRead | clockSet | posted | sameCluster | channel => rfl
  | take hcl =>
    rw [System.modifyCpu_clusters]
    exact modifyCluster_SM_ne (hne hcl (Or.inl ⟨_, rfl⟩))
  | block hcl =>
    rw [System.modifyCpu_clusters]
    exact modifyCluster_SM_ne (hne hcl (Or.inl ⟨_, rfl⟩))
  | shared hcl hf =>
    cases r with
    | setSM jk v => exact modifyCluster_SM_ne (hne hcl (Or.inr ⟨_, _, rfl⟩))
    | setSB j v =>
      cases hf
      exact modifyCluster_SM cl fun _ => rfl
    | setST j v =>
      cases hf
      exact modifyCluster_SM cl fun _ => rfl
    | _ => cases hf
  | changeCluster => exact changeCluster_SM cl
  | badCluster => exact modifySelected_SM cl fun _ => rfl

theorem modifyCluster_store {s : System pm} {f : InterCpuCluster → InterCpuCluster} {jk : Fin 32}
    {v : Bool} (hf : ∀ k, (f k).SM = Function.update k.SM jk v) :
    ((s.modifyCluster cl f).mClusters cl).SM = Function.update (s.mClusters cl).SM jk v := by
  rw [System.modifyCluster_self, hf]

theorem testAndSet_path (jk : Fin 32) (s : System pm)
    (hcl : SysRun.clusterIdx pm (s.mCpus me).Cluster = some cl) :
    Path (s.mClusters cl).SM [.testAndSet jk (!(s.mClusters cl).SM jk)]
      (((SysRun.testAndSet me jk s).2).mClusters cl).SM := by
  refine Path.cons rfl ?_
  rw [SysRun.testAndSet_ok jk hcl]
  split
  · have h : (((s.modifyCluster cl fun k =>
        k.take jk (s.mCpus me).TestAndSetBlocked)).mClusters cl).SM =
          Function.update (s.mClusters cl).SM jk true := modifyCluster_store fun _ => rfl
    rw [System.modifyCpu_clusters, h]
    exact Path.nil
  · rename_i hsm
    have hsm' : (s.mClusters cl).SM jk = true := by simpa using hsm
    have h : (((s.modifyCluster cl fun k =>
        k.block (s.mCpus me).TestAndSetBlocked)).mClusters cl).SM = (s.mClusters cl).SM :=
      modifyCluster_SM cl fun _ => rfl
    have hsame : (Event.testAndSet jk (!(s.mClusters cl).SM jk)).apply (s.mClusters cl).SM =
        (s.mClusters cl).SM := by
      rw [Event.apply]
      exact (congrArg _ hsm'.symm).trans (Function.update_eq_self jk _)
    rw [System.modifyCpu_clusters, h, hsame]
    exact Path.nil

theorem setSM_eq (jk : Fin 32) (v : Bool) (s : System pm)
    (hcl : SysRun.clusterIdx pm (s.mCpus me).Cluster = some cl) :
    handler me (.setSM jk v) s =
      (.ok (), s.modifyCluster cl fun k => { k with SM := Function.update k.SM jk v }) := by
  have h := @SysRun.ownCluster_bind pm me s _ fun cl =>
    SysRun.modifyCluster cl fun k => { k with SM := Function.update k.SM jk v }
  rw [hcl] at h
  exact h

/-- **A request is at most one operation.** -/
theorem handler_path (r : Req) (s : System pm) :
    Path (s.mClusters cl).SM (semaphoreEvent me cl (r, s)).toList
      (((handler me r s).2).mClusters cl).SM := by
  cases he : semaphoreEvent me cl (r, s) with
  | none =>
    rw [(SysRun.handler_effect me s r).keeps_SM he]
    exact Path.nil
  | some e =>
    unfold semaphoreEvent at he
    split at he
    · rename_i hcl
      cases r with
      | testAndSet jk =>
        cases he
        exact testAndSet_path jk s hcl
      | setSM jk v =>
        cases he
        rw [setSM_eq jk v s hcl, modifyCluster_store fun _ => rfl]
        exact Path.cons trivial Path.nil
      | _ => cases he
    · cases he

theorem program_path {α : Type} (m : Inst α) (s : System pm) :
    Path (s.mClusters cl).SM (semaphoreEvents me cl m s)
      (((m.run (handler me) s).2).mClusters cl).SM := by
  induction m generalizing s with
  | ret a => exact Path.nil
  | raise e => exact Path.nil
  | ask r k ih =>
    have hstep := @handler_path pm me cl r s
    have hcons : ∀ l, (semaphoreEvent me cl (r, s)).toList ++ l.filterMap (semaphoreEvent me cl) =
        ((r, s) :: l).filterMap (semaphoreEvent me cl) := by
      intro l
      rw [List.filterMap_cons]
      cases semaphoreEvent me cl (r, s) with
      | none => rfl
      | some e => rfl
    unfold semaphoreEvents
    rw [Program.trace_ask, ← hcons]
    rcases hr : handler me r s with ⟨e | x, s'⟩
    · rw [Program.run_ask_error hr]
      rw [hr] at hstep
      exact hstep.append Path.nil
    · rw [Program.run_ask_ok hr]
      rw [hr] at hstep
      exact hstep.append (ih x s')

end path

/-! ## 3. Runs of the mainframe -/

section run
variable {me : Fin pm.cpuCnt} {cl : Fin pm.clusterCnt} {s s' s0 : System pm}

theorem exchange_SM (me : Fin pm.cpuCnt) (cl : Fin pm.clusterCnt) (s : System pm) :
    (((SysRun.exchange me s).2).mClusters cl).SM = (s.mClusters cl).SM := by
  refine SysRun.exchange_keeps (I := fun t => (t.mClusters cl).SM = (s.mClusters cl).SM) rfl
    (fun _ _ h => h) (fun _ _ _ h => h) fun v _ t h => ?_
  exact (setCluster_SM me cl v t).trans h

theorem instruction_path (me : Fin pm.cpuCnt) (cl : Fin pm.clusterCnt) (s : System pm) :
    Path (s.mClusters cl).SM ((Action.instruction me).semaphoreEvents cl s)
      (((SysRun.instruction me s).2).mClusters cl).SM := by
  have hrun := @program_path pm me cl _
    (Inst.decode pm true (SysRun.fetched s me)) s
  have ho := SysRun.instruction_outcome me s
  generalize (SysRun.instruction me s).2 = s' at ho
  rw [Action.semaphoreEvents_instruction]
  cases ho with
  | fetchFails h =>
    rw [if_pos h]
    exact Path.nil
  | executes h he =>
    rw [if_neg h]
    change Path _ _ ((SysRun.execute me s).2.mClusters cl).SM at hrun
    rw [he] at hrun
    exact hrun
  | throws h he =>
    rw [if_neg h]
    change Path _ _ ((SysRun.execute me s).2.mClusters cl).SM at hrun
    rw [he] at hrun
    exact hrun

theorem Step.semaphores_path {a : Action pm} (h : Step a s s') :
    Path (s.mClusters cl).SM (a.semaphoreEvents cl s) (s'.mClusters cl).SM := by
  cases h with
  | @interrupt me =>
    have h : (((SysRun.interrupt me s).2).mClusters cl).SM = (s.mClusters cl).SM :=
      exchange_SM me cl _
    rw [h]
    exact Path.nil
  | @instruction me => exact instruction_path me cl s
  | counters | mirror | masterClear | deadStart | post | device => exact Path.nil

/-- **A run of the mainframe is a run of the bank.** -/
theorem semaphores_path {l : List (Event (Fin 32))} (h : Logged cl s0 l s) :
    Path (s0.mClusters cl).SM l (s.mClusters cl).SM := by
  induction h with
  | start => exact Path.nil
  | step _ hs ih => exact ih.append hs.semaphores_path

end run

/-! ## 4. The instructions -/

namespace Fields

variable (f : Fields)

/-- `SMjk 0` and `SMjk 1`. -/
def isSetSM (v : Bool) : Bool := f.gh == 0o003 && f.i == (if v then 7 else 6)

/-- `Si SM`. -/
def isReadSM : Bool := f.gh == 0o072 && f.k == 2

/-- `SM Si`. -/
def isWriteSM : Bool := f.gh == 0o073 && f.k == 2

end Fields

section instructions
variable {me : Fin pm.cpuCnt} {cl : Fin pm.clusterCnt} {s : System pm} {aParcels : CInt}

open Program Inst

theorem events_bind {α β : Type} {m : Inst α} {f : α → Inst β} {s' : System pm} {a : α}
    (hm : m.run (handler me) s = (.ok a, s')) :
    semaphoreEvents me cl (m >>= f) s =
      semaphoreEvents me cl m s ++ semaphoreEvents me cl (f a) s' := by
  unfold semaphoreEvents
  rw [trace_bind_ok hm, List.filterMap_append]

theorem events_cpu : semaphoreEvents me cl cpu s = [] := by
  unfold semaphoreEvents
  change [(Req.cpu, s)].filterMap _ = _
  rw [List.filterMap_cons, semaphoreEvent, ite_self]
  rfl

theorem cluster_run (hcl : SysRun.clusterIdx pm (s.mCpus me).Cluster = some cl) :
    cluster.run (handler me) s = (.ok (s.mClusters cl), s) := by
  have h := @SysRun.ownCluster_bind pm me s _ fun cl => do
    return (← Run.get).mClusters cl
  rw [hcl] at h
  exact run_ask_ok h

theorem events_cluster : semaphoreEvents me cl cluster s = [] := by
  have htrace : cluster.trace (handler me) s = [(Req.cluster, s)] := trace_request Req.cluster s
  unfold semaphoreEvents
  rw [htrace, List.filterMap_cons, semaphoreEvent, ite_self]
  rfl

/-- A processor in a cluster has a cluster register that is not 0. -/
theorem cluster_ne_zero (hcl : SysRun.clusterIdx pm (s.mCpus me).Cluster = some cl) :
    (s.mCpus me).Cluster ≠ 0 := by
  intro h
  rw [h, SysRun.clusterIdx_zero] at hcl
  cases hcl

theorem cluster_pos (hcl : SysRun.clusterIdx pm (s.mCpus me).Cluster = some cl) :
    (s.mCpus me).Cluster.toNat > 0 := by
  have hne : (s.mCpus me).Cluster.toNat ≠ 0 := fun h0 =>
    cluster_ne_zero hcl (BitVec.eq_of_toNat_eq h0)
  omega

theorem decode_testAndSet (h : (extractFields aParcels).isTestAndSet = true) :
    decode pm true aParcels = testAndSetInst true (extractFields aParcels) := by
  simp only [Fields.isTestAndSet, Bool.and_eq_true] at h
  have hi : (extractFields aParcels).i.val = 4 := congrArg Fin.val (eq_of_beq h.2)
  rw [decode_of_gh (eq_of_beq h.1) rfl, decode0003, crayAssert_gh h.1, hi]
  rfl

theorem decode_setSM {v : Bool} (h : (extractFields aParcels).isSetSM v = true) :
    decode pm true aParcels = semaphoreInst true (extractFields aParcels) v := by
  simp only [Fields.isSetSM, Bool.and_eq_true] at h
  have hi := congrArg Fin.val (eq_of_beq h.2)
  rw [decode_of_gh (eq_of_beq h.1) rfl, decode0003, crayAssert_gh h.1, hi]
  cases v with
  | true => rfl
  | false => rfl

/-- `SMjk 1,TS` is one test-and-set of semaphore `jk`. -/
theorem events_testAndSet (hcl : SysRun.clusterIdx pm (s.mCpus me).Cluster = some cl)
    (h : (extractFields aParcels).isTestAndSet = true)
    (hjk : (extractFields aParcels).jk.val < 32) :
    semaphoreEvents me cl (decode pm true aParcels) s =
      [.testAndSet ⟨_, hjk⟩ (!(s.mClusters cl).SM ⟨_, hjk⟩)] := by
  have hstep : ∀ k : Bool → Inst Decoded, (∀ v, ∃ d, k v = pure d) →
      semaphoreEvents me cl (testAndSet ⟨_, hjk⟩ >>= k) s =
        [.testAndSet ⟨_, hjk⟩ (!(s.mClusters cl).SM ⟨_, hjk⟩)] := by
    intro k hk
    have hts : (testAndSet ⟨_, hjk⟩).trace (handler me) s = [(Req.testAndSet ⟨_, hjk⟩, s)] :=
      trace_request (Req.testAndSet ⟨_, hjk⟩) s
    have htrace : ((testAndSet ⟨_, hjk⟩ >>= k).trace (handler me) s) =
        [(Req.testAndSet ⟨_, hjk⟩, s)] := by
      rw [trace_bind, hts]
      split
      · rename_i v s' _
        obtain ⟨d, hd⟩ := hk v
        rw [hd]
        rfl
      · rfl
    unfold semaphoreEvents
    rw [htrace, List.filterMap_cons, semaphoreEvent, if_pos hcl]
    rfl
  rw [decode_testAndSet h]
  unfold testAndSetInst
  rw [if_pos rfl, events_bind cpu_run, events_cpu, List.nil_append, if_neg (cluster_ne_zero hcl),
    events_bind (cluster_run hcl), events_cluster, List.nil_append, dif_pos hjk]
  refine hstep _ fun v => ?_
  cases v with
  | true => exact ⟨_, rfl⟩
  | false => exact ⟨_, rfl⟩

/-- A test-and-set that takes its semaphore goes on, one that does not is executed again. -/
theorem run_testAndSet (hcl : SysRun.clusterIdx pm (s.mCpus me).Cluster = some cl)
    (h : (extractFields aParcels).isTestAndSet = true)
    (hjk : (extractFields aParcels).jk.val < 32) :
    ((decode pm true aParcels).run (handler me) s).1 =
      .ok ⟨if (s.mClusters cl).SM ⟨_, hjk⟩ then 0 else 1, true⟩ := by
  have hts : ∀ {v t}, SysRun.testAndSet me ⟨_, hjk⟩ s = (.ok v, t) →
      (testAndSet ⟨_, hjk⟩).run (handler me) s = (.ok v, t) := fun h => run_ask_ok h
  rw [decode_testAndSet h]
  unfold testAndSetInst
  rw [if_pos rfl, run_bind, Run.bind_apply_ok cpu_run, if_neg (cluster_ne_zero hcl), run_bind,
    Run.bind_apply_ok (cluster_run hcl), dif_pos hjk, run_bind]
  have heq := SysRun.testAndSet_ok ⟨_, hjk⟩ hcl
  cases hsm : (s.mClusters cl).SM ⟨_, hjk⟩ with
  | true =>
    rw [if_neg (by simp [hsm])] at heq
    rw [Run.bind_apply_ok (hts heq)]
    rfl
  | false =>
    rw [if_pos hsm] at heq
    rw [Run.bind_apply_ok (hts heq)]
    rfl

theorem setSM_run (hcl : SysRun.clusterIdx pm (s.mCpus me).Cluster = some cl) (jk : Fin 32)
    (v : Bool) : (command (.setSM jk v)).run (handler me) s =
      (.ok (), s.modifyCluster cl fun k => { k with SM := Function.update k.SM jk v }) :=
  run_ask_ok (setSM_eq jk v s hcl)

theorem events_setSM_command (hcl : SysRun.clusterIdx pm (s.mCpus me).Cluster = some cl)
    (jk : Fin 32) (v : Bool) :
    semaphoreEvents me cl (command (.setSM jk v)) s = [.store jk v] := by
  have htrace : (command (.setSM jk v)).trace (handler me) s = [(Req.setSM jk v, s)] := by
    change (Program.ask (Req.setSM jk v) fun _ => Program.ret ()).trace (handler me) s = _
    rw [trace_ask, setSM_eq jk v s hcl]
    rfl
  unfold semaphoreEvents
  rw [htrace, List.filterMap_cons, semaphoreEvent, if_pos hcl]
  rfl

/-- `SMjk 0` and `SMjk 1` are one store to semaphore `jk`. -/
theorem events_setSM {v : Bool} (hcl : SysRun.clusterIdx pm (s.mCpus me).Cluster = some cl)
    (h : (extractFields aParcels).isSetSM v = true) (hjk : (extractFields aParcels).jk.val < 32) :
    semaphoreEvents me cl (decode pm true aParcels) s = [.store ⟨_, hjk⟩ v] := by
  have hpos := cluster_pos hcl
  rw [decode_setSM h]
  unfold semaphoreInst
  rw [if_pos rfl, events_bind cpu_run, events_cpu, List.nil_append, if_pos hpos, dif_pos hjk,
    events_bind (setSM_run hcl _ _), events_setSM_command hcl]
  rfl

theorem finRange_32 : List.finRange 32 = (List.range' 0 32).map (Fin.ofNat 32) := by decide

/-- The loop of `SM Si` stores to one semaphore after the other. -/
theorem events_stores (v : Nat → Bool) (n i : Nat)
    (hcl : SysRun.clusterIdx pm (s.mCpus me).Cluster = some cl) :
    semaphoreEvents me cl
        (foldFrom (fun j (_ : Unit) => command (.setSM (Fin.ofNat 32 j) (v j))) n i ()) s =
      (List.range' i n).map (fun j => .store (Fin.ofNat 32 j) (v j)) ∧
    ∃ s', (foldFrom (fun j (_ : Unit) => command (.setSM (Fin.ofNat 32 j) (v j))) n i ()).run
      (handler me) s = (.ok (), s') := by
  induction n generalizing i s with
  | zero => exact ⟨rfl, s, rfl⟩
  | succ n ih =>
    have hrun := setSM_run hcl (Fin.ofNat 32 i) (v i)
    obtain ⟨hev, s', hs'⟩ := @ih (s.modifyCluster cl fun k =>
      { k with SM := Function.update k.SM (Fin.ofNat 32 i) (v i) }) (i + 1) hcl
    refine ⟨?_, s', ?_⟩
    · refine (@events_bind pm me cl s _ _ _ _ _ _ hrun).trans ?_
      rw [hev, events_setSM_command hcl]
      rfl
    · refine (congrFun (run_bind (command (.setSM (Fin.ofNat 32 i) (v i))) _) s).trans ?_
      rw [Run.bind_apply_ok hrun]
      exact hs'

/-- `SM Si` stores bit `63 - n` of the register to every semaphore `n`. -/
theorem events_writeSM (hcl : SysRun.clusterIdx pm (s.mCpus me).Cluster = some cl)
    (h : (extractFields aParcels).isWriteSM = true) :
    semaphoreEvents me cl (decode pm true aParcels) s =
      (List.finRange 32).map fun n =>
        .store n (((s.mCpus me).S (extractFields aParcels).i).getLsbD (63 - n.val)) := by
  simp only [Fields.isWriteSM, Bool.and_eq_true] at h
  have hk : (extractFields aParcels).k.val = 2 := congrArg Fin.val (eq_of_beq h.2)
  have hpos := cluster_pos hcl
  rw [decode_of_gh (eq_of_beq h.1) rfl, decode0073, crayAssert_gh h.1, hk]
  change semaphoreEvents me cl (cpu >>= _) s = _
  rw [events_bind cpu_run, events_cpu, List.nil_append, if_pos hpos]
  obtain ⟨hev, s', hs'⟩ := events_stores
    (fun j => getBit ((s.mCpus me).refS (extractFields aParcels).i) (63 - j) != 0) 32 0 hcl
  refine (@events_bind pm me cl s _ _ _ _ _ _ hs').trans ?_
  rw [hev, finRange_32, List.map_map]
  refine (List.append_nil _).trans (List.map_congr_left fun j hj => ?_)
  have hj : j < 32 := by simpa using hj
  have hval : (Fin.ofNat 32 j).val = j := Nat.mod_eq_of_lt hj
  rw [Function.comp_apply, getBit_ne_zero, hval]
  rfl

/-- `Si SM` reads the semaphores of its cluster as one word and changes none. -/
theorem run_readSM (hcl : SysRun.clusterIdx pm (s.mCpus me).Cluster = some cl)
    (h : (extractFields aParcels).isReadSM = true) :
    (decode pm true aParcels).run (handler me) s = (.ok ⟨1, true⟩, s.modifyCpu me
      (RegWrite.S (extractFields aParcels).i (semaphoreWord (s.mClusters cl))).apply) := by
  simp only [Fields.isReadSM, Bool.and_eq_true] at h
  have hk : (extractFields aParcels).k.val = 2 := congrArg Fin.val (eq_of_beq h.2)
  have hpos := cluster_pos hcl
  rw [decode_of_gh (eq_of_beq h.1) rfl, decode0072, crayAssert_gh h.1, hk]
  change (cpu >>= _ : Inst Decoded).run (handler me) s = _
  rw [run_bind, Run.bind_apply_ok cpu_run, if_pos hpos, run_bind,
    Run.bind_apply_ok (cluster_run hcl)]
  rfl

end instructions

/-! ## 5. The semaphores as a word -/

/-- The word after the first `m` semaphores. -/
theorem semaphoreWord_loop (sm : Nat → Bool) (m k : Nat) (hm : m ≤ 32) (hk : k < 64) :
    ((List.range m).foldl (fun (ret : CInt) n =>
      (if sm n then ret ||| ((1 : CInt) <<< 31) else ret) <<< 1) 0).getLsbD k =
      (decide (32 ≤ k ∧ k < 32 + m) && sm (31 + m - k)) := by
  induction m generalizing k with
  | zero => simp
  | succ m ih =>
    rw [List.range_succ, List.foldl_append, List.foldl_cons, List.foldl_nil]
    generalize hw : (List.range m).foldl (fun (ret : CInt) n =>
      (if sm n then ret ||| ((1 : CInt) <<< 31) else ret) <<< 1) 0 = w at ih
    rw [BitVec.getLsbD_shiftLeft]
    rcases k with _ | k
    · simp
    · have hbit : (if sm m then w ||| ((1 : CInt) <<< 31) else w).getLsbD k =
          (w.getLsbD k || (decide (k = 31) && sm m)) := by
        have hpow : (1 : CInt) <<< 31 = BitVec.twoPow 64 31 := rfl
        have hone : ((1 : CInt) <<< 31).getLsbD k = decide (k = 31) := by
          rw [hpow, BitVec.getLsbD_twoPow, decide_eq_true (by decide), Bool.true_and]
          exact decide_eq_decide.mpr eq_comm
        cases sm m with
        | true => rw [if_pos rfl, BitVec.getLsbD_or, hone, Bool.and_true]
        | false => simp
      rw [Nat.add_sub_cancel, hbit, ih k (by omega) (by omega)]
      have hk' : decide (k + 1 < 64) = true := by simpa using hk
      have h1 : decide (k + 1 < 1) = false := by simp
      rw [hk', h1]
      by_cases h31 : k = 31
      · subst h31
        have hidx : 31 + (m + 1) - (31 + 1) = m := by omega
        rw [hidx]
        simp
      · have hidx : 31 + (m + 1) - (k + 1) = 31 + m - k := by omega
        have hiff : (32 ≤ k ∧ k < 32 + m) ↔ (32 ≤ k + 1 ∧ k + 1 < 32 + (m + 1)) := by omega
        have hdec : decide (32 ≤ k ∧ k < 32 + m) = decide (32 ≤ k + 1 ∧ k + 1 < 32 + (m + 1)) :=
          decide_eq_decide.mpr hiff
        rw [hidx, hdec]
        simp [h31]

/-- **The word of the semaphores**: bit `63 - n` is semaphore `n`, the low half is zero. -/
theorem semaphoreWord_bit (k : InterCpuCluster) :
    (∀ n : Fin 32, (Inst.semaphoreWord k).getLsbD (63 - n.val) = k.SM n) ∧
      ∀ b, b < 32 → (Inst.semaphoreWord k).getLsbD b = false := by
  have hword : Inst.semaphoreWord k = (List.range 32).foldl (fun (ret : CInt) n =>
      (if k.SM (Fin.ofNat 32 n) then ret ||| ((1 : CInt) <<< 31) else ret) <<< 1) 0 := by
    unfold Inst.semaphoreWord
    rw [finRange_32, List.foldl_map]
    rfl
  constructor
  · intro n
    rw [hword, semaphoreWord_loop (fun n => k.SM (Fin.ofNat 32 n)) 32 _ (le_refl 32) (by omega)]
    have hidx : 31 + 32 - (63 - n.val) = n.val := by omega
    have hn : Fin.ofNat 32 n.val = n := Fin.ext (Nat.mod_eq_of_lt n.isLt)
    have hrange : 32 ≤ 63 - n.val ∧ 63 - n.val < 32 + 32 := by omega
    rw [hidx, hn, decide_eq_true hrange, Bool.true_and]
  · intro b hb
    rw [hword, semaphoreWord_loop (fun n => k.SM (Fin.ofNat 32 n)) 32 _ (le_refl 32) (by omega)]
    have hrange : ¬ (32 ≤ b ∧ b < 32 + 32) := by omega
    rw [decide_eq_false hrange, Bool.false_and]

/-! ## 6. Mutual exclusion and consistency -/

section safe
variable {me : Fin pm.cpuCnt} {cl : Fin pm.clusterCnt} {s : System pm}

/-- A semaphore no operation of the program addresses. -/
theorem program_keeps_SM {α : Type} {m : Inst α} {n : Fin 32}
    (h : ∀ e ∈ semaphoreEvents me cl m s, e.cell ≠ n) :
    ((m.run (handler me) s).2.mClusters cl).SM n = (s.mClusters cl).SM n :=
  (program_path m s).eq_of_forall (fun e he hn => absurd hn (h e he)) (Or.inl rfl)

/-- Writing back the word of the semaphores changes nothing. -/
theorem writeSM_readSM {aParcels : CInt}
    (hcl : SysRun.clusterIdx pm (s.mCpus me).Cluster = some cl)
    (h : (extractFields aParcels).isWriteSM = true)
    (hS : (s.mCpus me).S (extractFields aParcels).i = Inst.semaphoreWord (s.mClusters cl)) :
    (((Inst.decode pm true aParcels).run (handler me) s).2.mClusters cl).SM =
      (s.mClusters cl).SM := by
  refine (program_path (Inst.decode pm true aParcels) s).unchanged ?_
  rw [events_writeSM hcl h, hS]
  intro e he
  obtain ⟨n, -, rfl⟩ := List.mem_map.mp he
  exact (semaphoreWord_bit (s.mClusters cl)).1 n

end safe

/-- **Mutual exclusion and consistency of the semaphores.** In every run of the mainframe, whatever
    its processors do and in which order, a semaphore of cluster `cl` holds what was stored to it
    last, and between two test-and-sets that take it there is a store that clears it. A processor
    of the cluster operates on semaphore `jk` alone by `SMjk 1,TS`, `SMjk 0` and `SMjk 1`, on all
    of them by `SM Si`; `Si SM` reads them as one word, and writing that back changes nothing. -/
theorem semaphores_safe {pm : Params} (cl : Fin pm.clusterCnt) (s0 : System pm) :
    (∀ l s, Logged cl s0 l s →
      (∀ n, (s.mClusters cl).SM n = lastStored n ((s0.mClusters cl).SM n) l) ∧
      ∀ n l₁ l₂ l₃, l = l₁ ++ .testAndSet n true :: (l₂ ++ .testAndSet n true :: l₃) →
        Event.store n false ∈ l₂) ∧
    ∀ (me : Fin pm.cpuCnt) (s : System pm) (aParcels : CInt),
      SysRun.clusterIdx pm (s.mCpus me).Cluster = some cl →
      let f := extractFields aParcels
      let m := Inst.decode pm true aParcels
      let s' := (m.run (handler me) s).2
      (f.isTestAndSet = true → ∀ hjk : f.jk.val < 32,
        semaphoreEvents me cl m s = [.testAndSet ⟨_, hjk⟩ (!(s.mClusters cl).SM ⟨_, hjk⟩)] ∧
        (m.run (handler me) s).1 =
          .ok ⟨if (s.mClusters cl).SM ⟨_, hjk⟩ then 0 else 1, true⟩ ∧
        ∀ n, n ≠ ⟨_, hjk⟩ → (s'.mClusters cl).SM n = (s.mClusters cl).SM n) ∧
      (∀ v, f.isSetSM v = true → ∀ hjk : f.jk.val < 32,
        semaphoreEvents me cl m s = [.store ⟨_, hjk⟩ v] ∧
        ∀ n, n ≠ ⟨_, hjk⟩ → (s'.mClusters cl).SM n = (s.mClusters cl).SM n) ∧
      (f.isWriteSM = true →
        semaphoreEvents me cl m s = (List.finRange 32).map (fun n =>
          .store n (((s.mCpus me).S f.i).getLsbD (63 - n.val))) ∧
        ((s.mCpus me).S f.i = Inst.semaphoreWord (s.mClusters cl) →
          (s'.mClusters cl).SM = (s.mClusters cl).SM)) ∧
      (f.isReadSM = true →
        (s'.mCpus me).S f.i = Inst.semaphoreWord (s.mClusters cl) ∧
        s'.mClusters = s.mClusters ∧
        (∀ n : Fin 32, ((s'.mCpus me).S f.i).getLsbD (63 - n.val) = (s.mClusters cl).SM n) ∧
        ∀ b, b < 32 → ((s'.mCpus me).S f.i).getLsbD b = false) := by
  refine ⟨fun l s h => ⟨(semaphores_path h).last_stored, ?_⟩, fun me s aParcels hcl => ?_⟩
  · rintro n l₁ l₂ l₃ rfl
    exact (semaphores_path h).clear_between
  · refine ⟨fun h hjk => ?_, fun v h hjk => ?_, fun h => ?_, fun h => ?_⟩
    · have hev := events_testAndSet hcl h hjk
      refine ⟨hev, run_testAndSet hcl h hjk, fun n hn => program_keeps_SM fun e he => ?_⟩
      rw [hev, List.mem_singleton] at he
      rw [he]
      exact hn.symm
    · have hev := events_setSM hcl h hjk
      refine ⟨hev, fun n hn => program_keeps_SM fun e he => ?_⟩
      rw [hev, List.mem_singleton] at he
      rw [he]
      exact hn.symm
    · exact ⟨events_writeSM hcl h, writeSM_readSM hcl h⟩
    · have hrun := run_readSM hcl h
      have hS : ((((Inst.decode pm true aParcels).run (handler me) s).2).mCpus me).S
          (extractFields aParcels).i = Inst.semaphoreWord (s.mClusters cl) := by
        rw [hrun, System.modifyCpu_self]
        exact Function.update_self _ _ _
      have hbits := semaphoreWord_bit (s.mClusters cl)
      rw [← hS] at hbits
      refine ⟨hS, ?_, hbits⟩
      rw [hrun]
      rfl

/-- `SM3 1,TS` of the only processor of cluster 1, after power on. -/
theorem semaphores_safe_powerOn :
    let s := (System.powerOn (Params.standard .YMP 1 (by decide))).modifyCpu (0 : Fin 1) fun c =>
      c.setCluster 1
    semaphoreEvents (0 : Fin 1) (0 : Fin 2)
      (Inst.decode (Params.standard .YMP 1 (by decide)) true (0o003403 <<< 32)) s =
      [.testAndSet 3 true] :=
  (((semaphores_safe (0 : Fin 2) (System.powerOn (Params.standard .YMP 1 (by decide)))).2
    (0 : Fin 1) ((System.powerOn (Params.standard .YMP 1 (by decide))).modifyCpu (0 : Fin 1)
      fun c => c.setCluster 1) (0o003403 <<< 32) rfl).1 rfl (by decide)).1

end CraySim
