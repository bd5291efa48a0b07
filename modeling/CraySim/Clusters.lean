/-
  Subject:   The processors a cluster counts.

  A cluster counts its processors and those of them that are blocked on a semaphore. A change of
  cluster moves the first count only, and a master clear moves none: a processor that is blocked
  takes its part of the second count with it, and leaves it behind.

  * `Counted` -- both counts are right, for every cluster,
  * `MayChange` -- a change of cluster both counts survive,
  * `Action.keepsCounts` -- the actions both counts survive,
  * `cluster_accounting` -- every run of such actions,
  * `not_counted` -- a run with a master clear of a blocked processor.
-/
import CraySim.InstructionLength
import CraySim.Lib.Tally
import CraySim.Interrupts

namespace CraySim

open SysRun (clusterIdx)
open Tally (Tracks)

variable {pm : Params}

/-! ## 1. Both counts are right -/

/-- The processor is in cluster `cl`. -/
def Cpu.inCluster (cl : Fin pm.clusterCnt) (c : Cpu) : Bool :=
  decide (clusterIdx pm c.Cluster = some cl)

/-- The processor is in cluster `cl` and blocked on a semaphore. -/
def Cpu.blockedIn (cl : Fin pm.clusterCnt) (c : Cpu) : Bool :=
  c.inCluster cl && c.TestAndSetBlocked

/-- **The counts of a system are right**: a cluster counts the processors whose register selects
    it, and those of them that are blocked. -/
structure Counted (s : System pm) : Prop where
  ClusterCpuCnt : ∀ cl, (s.mClusters cl).ClusterCpuCnt.toNat =
    (Finset.univ.filter fun i => (s.mCpus i).inCluster cl = true).card
  TestAndSetBlockedCnt : ∀ cl, (s.mClusters cl).TestAndSetBlockedCnt.toNat =
    (Finset.univ.filter fun i => (s.mCpus i).blockedIn cl = true).card

theorem Cpu.inCluster_iff {cl : Fin pm.clusterCnt} {c : Cpu} :
    c.inCluster cl = true ↔ clusterIdx pm c.Cluster = some cl := decide_eq_true_iff

theorem System.Initial.counted {s : System pm} (h : s.Initial) : Counted s where
  ClusterCpuCnt cl := by
    rw [h.ClusterCpuCnt]
    refine (Tally.tally_of_none (p := fun c : Cpu => c.inCluster cl = true) fun i hi => ?_).symm
    rw [Cpu.inCluster_iff, (h.mCpus i).Cluster, SysRun.clusterIdx_zero] at hi
    cases hi
  TestAndSetBlockedCnt cl := by
    rw [h.TestAndSetBlockedCnt]
    refine (Tally.tally_of_none (p := fun c : Cpu => c.blockedIn cl = true) fun i hi => ?_).symm
    rw [Cpu.blockedIn, (h.mCpus i).TestAndSetBlocked, Bool.and_false] at hi
    cases hi

/-! ## 2. One processor changes -/

/-- A counter after a member of its family was in the counted state, and is now. -/
def recounted (was is : Bool) (n : BitVec 64) : BitVec 64 :=
  if was then (if is then n else n - 1) else if is then n + 1 else n

@[simp] theorem recounted_same (b : Bool) (n : BitVec 64) : recounted b b n = n := by
  cases b <;> rfl

section changes
variable {s s' : System pm} {me : Fin pm.cpuCnt}

/-- **The rule of the counts**: one processor changes, and each cluster counts it anew. -/
theorem Counted.change (h : Counted s) {c : Cpu}
    (hcpu : s'.mCpus = Function.update s.mCpus me c)
    (hcnt : ∀ cl, (s'.mClusters cl).ClusterCpuCnt =
      recounted ((s.mCpus me).inCluster cl) (c.inCluster cl) (s.mClusters cl).ClusterCpuCnt)
    (hblk : ∀ cl, (s'.mClusters cl).TestAndSetBlockedCnt =
      recounted ((s.mCpus me).blockedIn cl) (c.blockedIn cl)
        (s.mClusters cl).TestAndSetBlockedCnt) : Counted s' := by
  have hsmall : Fintype.card (Fin pm.cpuCnt) < 2 ^ 64 := by
    rw [Fintype.card_fin]
    exact pm.cpuCnt_lt
  constructor
  · intro cl
    have htrack : Tracks (fun c : Cpu => c.inCluster cl = true) s.mCpus
        (s.mClusters cl).ClusterCpuCnt := h.ClusterCpuCnt cl
    rw [hcpu]
    exact htrack.recount hsmall (hcnt cl)
  · intro cl
    have htrack : Tracks (fun c : Cpu => c.blockedIn cl = true) s.mCpus
        (s.mClusters cl).TestAndSetBlockedCnt := h.TestAndSetBlockedCnt cl
    rw [hcpu]
    exact htrack.recount hsmall (hblk cl)

/-- A change that leaves the cluster and the block of the processor as they are. -/
theorem Counted.modifyCpu (h : Counted s) {g : Cpu → Cpu}
    (hcluster : (g (s.mCpus me)).Cluster = (s.mCpus me).Cluster)
    (hblocked : (g (s.mCpus me)).TestAndSetBlocked = (s.mCpus me).TestAndSetBlocked) :
    Counted (s.modifyCpu me g) := by
  have hin : ∀ cl : Fin pm.clusterCnt,
      (g (s.mCpus me)).inCluster cl = (s.mCpus me).inCluster cl := fun cl =>
    congrArg (fun v => decide (clusterIdx pm v = some cl)) hcluster
  refine h.change rfl (fun cl => ?_) fun cl => ?_
  · rw [hin, recounted_same]
    rfl
  · rw [Cpu.blockedIn, Cpu.blockedIn, hin, hblocked, recounted_same]
    rfl

/-- A change of a cluster that leaves its counts as they are. -/
theorem Counted.modifyCluster (h : Counted s) (cl : Fin pm.clusterCnt)
    {f : InterCpuCluster → InterCpuCluster} (hcnt : ∀ k, (f k).ClusterCpuCnt = k.ClusterCpuCnt)
    (hblk : ∀ k, (f k).TestAndSetBlockedCnt = k.TestAndSetBlockedCnt) :
    Counted (s.modifyCluster cl f) where
  ClusterCpuCnt cl' := by
    rw [System.modifyCluster_cpus, ← h.ClusterCpuCnt cl']
    by_cases hcl : cl' = cl
    · rw [hcl, System.modifyCluster_self, hcnt]
    · rw [System.modifyCluster_ne s cl f hcl]
  TestAndSetBlockedCnt cl' := by
    rw [System.modifyCluster_cpus, ← h.TestAndSetBlockedCnt cl']
    by_cases hcl : cl' = cl
    · rw [hcl, System.modifyCluster_self, hblk]
    · rw [System.modifyCluster_ne s cl f hcl]

/-- A processor of a cluster blocks or goes on, and its cluster counts it anew. -/
theorem Counted.blocked (h : Counted s) {cl : Fin pm.clusterCnt}
    (hcl : clusterIdx pm (s.mCpus me).Cluster = some cl) {v : Bool}
    {f : InterCpuCluster → InterCpuCluster} (hcnt : ∀ k, (f k).ClusterCpuCnt = k.ClusterCpuCnt)
    (hblk : ∀ k, (f k).TestAndSetBlockedCnt =
      recounted (s.mCpus me).TestAndSetBlocked v k.TestAndSetBlockedCnt) :
    Counted ((s.modifyCluster cl f).modifyCpu me fun c => c.setTestAndSetBlocked v) := by
  refine h.change rfl (fun cl' => ?_) fun cl' => ?_
  · have hsame : ((s.mCpus me).setTestAndSetBlocked v).inCluster cl' =
        (s.mCpus me).inCluster cl' := rfl
    rw [System.modifyCluster_cpus, hsame, recounted_same, System.modifyCpu_clusters]
    by_cases hne : cl' = cl
    · rw [hne, System.modifyCluster_self, hcnt]
    · rw [System.modifyCluster_ne s cl f hne]
  · have hsame : ((s.mCpus me).setTestAndSetBlocked v).inCluster cl' =
        (s.mCpus me).inCluster cl' := rfl
    rw [System.modifyCluster_cpus, Cpu.blockedIn, Cpu.blockedIn, hsame, System.modifyCpu_clusters]
    by_cases hne : cl' = cl
    · have hin : (s.mCpus me).inCluster cl = true := Cpu.inCluster_iff.mpr hcl
      rw [hne, System.modifyCluster_self, hblk, hin]
      rfl
    · have hout : (s.mCpus me).inCluster cl' = false := by
        rw [← Bool.not_eq_true, Cpu.inCluster_iff, hcl]
        exact fun hc => hne (Option.some.inj hc).symm
      rw [System.modifyCluster_ne s cl f hne, hout, Bool.false_and, Bool.false_and, recounted_same]

/-! ## 3. A change of cluster -/

/-- Two registers that select the same cluster are equal. -/
theorem clusterIdx_inj {v w : BitVec 8} {cl : Fin pm.clusterCnt} (hv : clusterIdx pm v = some cl)
    (hw : clusterIdx pm w = some cl) : v = w := by
  unfold clusterIdx at hv hw
  split at hv
  · rename_i h
    split at hw
    · rename_i h'
      have hval := congrArg Fin.val ((Option.some.inj hv).trans (Option.some.inj hw).symm)
      have hv0 : v.toNat ≠ 0 := fun h0 => h.1 (BitVec.eq_of_toNat_eq h0)
      have hw0 : w.toNat ≠ 0 := fun h0 => h'.1 (BitVec.eq_of_toNat_eq h0)
      dsimp only at hval
      exact BitVec.eq_of_toNat_eq (by omega)
    · cases hw
  · cases hv

theorem modifySelected_at (s : System pm) (v : BitVec 8)
    (f : InterCpuCluster → InterCpuCluster) (cl : Fin pm.clusterCnt) :
    (s.modifySelected v f).mClusters cl =
      if clusterIdx pm v = some cl then f (s.mClusters cl) else s.mClusters cl := by
  unfold System.modifySelected
  cases hv : clusterIdx pm v with
  | none => rfl
  | some c =>
    by_cases hc : cl = c
    · rw [hc, if_pos rfl]
      exact System.modifyCluster_self s c f
    · rw [if_neg fun he => hc (Option.some.inj he).symm]
      exact System.modifyCluster_ne s c f hc

/-- **A change of cluster that both counts survive**: to the own cluster, from one that is not
    there, to one that is not there from none at all, and otherwise by a processor that is not
    blocked. -/
def MayChange (pm : Params) (c : Cpu) (v : BitVec 8) : Prop :=
  c.Cluster = v ∨ badCluster pm c.Cluster = true ∨
    if badCluster pm v then c.Cluster = 0 else c.TestAndSetBlocked = false

/-- The count of a cluster that one processor has left for another one. -/
theorem changed_count {c : Cpu} {v : BitVec 8} (hne : c.Cluster ≠ v) (cl : Fin pm.clusterCnt)
    (k : InterCpuCluster) :
    (if clusterIdx pm v = some cl then
        (if clusterIdx pm c.Cluster = some cl then k.leave else k).enter
      else if clusterIdx pm c.Cluster = some cl then k.leave else k).ClusterCpuCnt =
      recounted (c.inCluster cl) ((c.setCluster v).inCluster cl) k.ClusterCpuCnt := by
  have hin : c.inCluster cl = decide (clusterIdx pm c.Cluster = some cl) := rfl
  have hin' : (c.setCluster v).inCluster cl = decide (clusterIdx pm v = some cl) := rfl
  rw [hin, hin']
  by_cases hv : clusterIdx pm v = some cl
  · have hc : ¬ clusterIdx pm c.Cluster = some cl := fun hc => hne (clusterIdx_inj hc hv)
    rw [if_pos hv, if_neg hc, decide_eq_true hv, decide_eq_false hc]
    rfl
  · rw [if_neg hv, decide_eq_false hv]
    by_cases hc : clusterIdx pm c.Cluster = some cl
    · rw [if_pos hc, decide_eq_true hc]
      rfl
    · rw [if_neg hc, decide_eq_false hc]
      rfl

theorem Counted.setCluster (h : Counted s) {v : BitVec 8} (hmay : MayChange pm (s.mCpus me) v) :
    Counted (SysRun.setCluster me v s).2 := by
  rw [SysRun.setCluster_eq]
  by_cases hsame : (s.mCpus me).Cluster = v
  · rw [if_pos hsame]
    exact Counted.modifyCpu (g := fun c => c.setCluster v) h hsame.symm rfl
  · rw [if_neg hsame]
    cases hold : badCluster pm (s.mCpus me).Cluster with
    | true => exact h
    | false =>
      have hmay := (hmay.resolve_left hsame).resolve_left (by rw [hold]; decide)
      cases hnew : badCluster pm v with
      | true =>
        rw [hnew, if_pos rfl] at hmay
        rw [hmay, System.modifySelected, SysRun.clusterIdx_zero]
        exact h
      | false =>
        rw [hnew, if_neg (by decide)] at hmay
        rw [if_neg (by decide), if_neg (by decide)]
        -- both selects are seen in the own processor only, the counts in both clusters
        have hcpus : ((((s.modifySelected (s.mCpus me).Cluster InterCpuCluster.leave).modifySelected v
            InterCpuCluster.enter).modifyCpu me fun c => c.setCluster v)).mCpus =
              Function.update s.mCpus me ((s.mCpus me).setCluster v) := by
          unfold System.modifyCpu
          rw [System.modifySelected_cpus, System.modifySelected_cpus]
        refine h.change hcpus (fun cl => ?_) fun cl => ?_
        · rw [System.modifyCpu_clusters, modifySelected_at, modifySelected_at]
          exact changed_count hsame cl (s.mClusters cl)
        · rw [System.modifyCpu_clusters, modifySelected_at, modifySelected_at, Cpu.blockedIn,
            Cpu.blockedIn, Cpu.setCluster, hmay, Bool.and_false, Bool.and_false, recounted_same]
          split
          · split
            · rfl
            · rfl
          · split
            · rfl
            · rfl

/-! ## 4. Instructions -/

theorem Counted.effect (h : Counted s) {r : Req} (he : Effect me s r s')
    (hr : ∀ v, r ≠ .setCluster v) : Counted s' := by
  cases he with
  | none => exact h
  | @write w =>
    have hkeep : (w.apply (s.mCpus me)).Cluster = (s.mCpus me).Cluster ∧
        (w.apply (s.mCpus me)).TestAndSetBlocked = (s.mCpus me).TestAndSetBlocked := by
      cases w <;> exact ⟨rfl, rfl⟩
    exact h.modifyCpu hkeep.1 hkeep.2
  | @privWrite w =>
    have hkeep : (w.apply (s.mCpus me)).Cluster = (s.mCpus me).Cluster ∧
        (w.apply (s.mCpus me)).TestAndSetBlocked = (s.mCpus me).TestAndSetBlocked := by
      cases w <;> exact ⟨rfl, rfl⟩
    exact h.modifyCpu hkeep.1 hkeep.2
  | store | clockRead | clockSet | channel => exact ⟨h.1, h.2⟩
  | @take jk cl hcl =>
    refine Counted.blocked h hcl (f := fun k => k.take jk (s.mCpus me).TestAndSetBlocked)
      (fun _ => rfl) fun k => ?_
    unfold InterCpuCluster.take
    cases (s.mCpus me).TestAndSetBlocked with
    | true => rfl
    | false => rfl
  | @block jk cl hcl =>
    refine Counted.blocked h hcl (f := fun k => k.block (s.mCpus me).TestAndSetBlocked)
      (fun _ => rfl) fun k => ?_
    unfold InterCpuCluster.block
    cases (s.mCpus me).TestAndSetBlocked with
    | true => rfl
    | false => rfl
  | @shared r f cl hcl hf =>
    have hkeep : ∀ k, (f (s.mCpus me) k).ClusterCpuCnt = k.ClusterCpuCnt ∧
        (f (s.mCpus me) k).TestAndSetBlockedCnt = k.TestAndSetBlockedCnt := by
      intro k
      cases r with
      | setSM | setSB | setST =>
        cases hf
        exact ⟨rfl, rfl⟩
      | _ => cases hf
    exact h.modifyCluster cl (fun k => (hkeep k).1) fun k => (hkeep k).2
  | @posted idx i => exact h.modifyCpu rfl rfl
  | @sameCluster v | @changeCluster v | @badCluster v => exact absurd rfl (hr v)

/-- The cluster a `CLN` changes to, if it gets that far. -/
def clnTarget (pm : Params) (c : Cpu) (f : Fields) : Option (BitVec 8) :=
  if f.isCLN && c.isMonitorMode && (pm.isXmp || !c.XMode) then
    let clusterIdx := if pm.isXmp then f.j.val else (c.refAj f.j).toNat
    if pm.clusterCnt < clusterIdx then none else some (BitVec.ofNat 8 clusterIdx)
  else none

/-- **`CLN` in one equation**: a change of cluster, or nothing. -/
theorem run_CLN {aParcels : CInt} (h : (extractFields aParcels).isCLN = true) :
    ((Inst.decode pm true aParcels).run (handler me) s).2 =
      match clnTarget pm (s.mCpus me) (extractFields aParcels) with
      | some v => (SysRun.setCluster me v s).2
      | none => s := by
  have hcln := h
  simp only [Fields.isCLN, Bool.and_eq_true] at h
  obtain ⟨⟨hgh, hi⟩, hk⟩ := h
  have hi4 : (extractFields aParcels).i.val = 4 := congrArg Fin.val (eq_of_beq hi)
  have hk3 : (extractFields aParcels).k.val = 3 := congrArg Fin.val (eq_of_beq hk)
  rw [Inst.decode_of_gh (eq_of_beq hgh) rfl, Inst.decode0001, Inst.crayAssert_gh hgh, hi4]
  unfold Inst.decode0001i4
  rw [hk3]
  unfold Inst.monitorInst clnTarget
  rw [hcln, Bool.true_and]
  change ((Inst.cpu >>= _ : Inst Decoded).run (handler me) s).2 = _
  rw [Program.run_bind, Run.bind_apply_ok Inst.cpu_run]
  cases hm : (s.mCpus me).isMonitorMode with
  | false => rfl
  | true =>
    rw [if_pos rfl, Bool.true_and]
    dsimp only
    cases (pm.isXmp || !(s.mCpus me).XMode) with
    | false => rfl
    | true =>
      rw [if_pos rfl]
      generalize (if pm.isXmp = true then (extractFields aParcels).j.val
        else ((s.mCpus me).refAj (extractFields aParcels).j).toNat) = idx
      change ((if pm.clusterCnt < idx then _ else _ : Inst Decoded).run (handler me) s).2 = _
      by_cases hidx : pm.clusterCnt < idx
      · rw [if_pos hidx, if_pos hidx]
        rfl
      · rw [if_neg hidx, if_neg hidx]
        change ((Program.ask (Req.setCluster (BitVec.ofNat 8 idx)) _).run (handler me) s).2 = _
        rcases hset : handler me (.setCluster (BitVec.ofNat 8 idx)) s with ⟨e | x, t⟩
        · rw [Program.run_ask_error hset]
          exact (congrArg Prod.snd hset).symm
        · rw [Program.run_ask_ok hset]
          exact (congrArg Prod.snd hset).symm

/-- An instruction keeps both counts if the change of cluster it makes does. -/
theorem Counted.instruction (h : Counted s)
    (hmay : ¬ SysRun.fetchFails pm (s.mCpus me) → ∀ v,
      clnTarget pm (s.mCpus me) (extractFields (SysRun.fetched s me)) = some v →
        MayChange pm (s.mCpus me) v) : Counted (SysRun.instruction me s).2 := by
  have hraise : ∀ {t : System pm} (fl : CraySim.Flags), Counted t →
      Counted (t.modifyCpu me fun c => c.raise fl) := fun fl ht =>
    Counted.modifyCpu (g := fun c => c.raise fl) ht rfl rfl
  have hadvance : ∀ {t : System pm} (n : Nat), Counted t →
      Counted (t.modifyCpu me fun c => c.advance n) := fun n ht =>
    Counted.modifyCpu (g := fun c => c.advance n) ht rfl rfl
  have hrun : ¬ SysRun.fetchFails pm (s.mCpus me) → Counted (SysRun.execute me s).2 := by
    intro hf
    cases hcln : (extractFields (SysRun.fetched s me)).isCLN with
    | true =>
      unfold SysRun.execute
      rw [run_CLN hcln]
      split
      · exact h.setCluster (hmay hf _ ‹_›)
      · exact h
    | false =>
      refine (decode_run (I := Counted) true (SysRun.fetched s me) (fun r t ha _ _ ht => ?_) h).1
      refine ht.effect (SysRun.handler_effect me t r) fun v hr => ?_
      subst hr
      have hc := ha.2.2
      rw [hcln] at hc
      cases hc
  have ho := SysRun.instruction_outcome me s
  generalize (SysRun.instruction me s).2 = s' at ho
  cases ho with
  | fetchFails => exact hraise _ h
  | executes hf he =>
    have ht := hrun hf
    rw [he] at ht
    exact hadvance _ ht
  | throws hf he =>
    have ht := hrun hf
    rw [he] at ht
    exact hraise _ ht

/-! ## 5. Exchanges -/

theorem setCluster_cpu (me : Fin pm.cpuCnt) (v : BitVec 8) (s : System pm) :
    ((SysRun.setCluster me v s).2.mCpus me).TestAndSetBlocked = (s.mCpus me).TestAndSetBlocked ∧
      (((SysRun.setCluster me v s).2.mCpus me).Cluster = (s.mCpus me).Cluster ∨
        ((SysRun.setCluster me v s).2.mCpus me).Cluster = v) := by
  have hcpu := (SysRun.setCluster_effect me s v).cpu me
  generalize (SysRun.setCluster me v s).2.mCpus me = c at hcpu
  cases hcpu with
  | none => exact ⟨rfl, .inl rfl⟩
  | cluster => exact ⟨rfl, .inr rfl⟩

/-- An exchange keeps both counts if the change of cluster to the one of the packet does. -/
theorem Counted.exchange (h : Counted s)
    (hmay : ∀ v, (s.nextContext me).clearFlags.get clusterNumber = .ok v →
      MayChange pm (s.mCpus me) v) : Counted (SysRun.exchange me s).2 := by
  let I : System pm → Prop := fun t => Counted t ∧
    (t.mCpus me).TestAndSetBlocked = (s.mCpus me).TestAndSetBlocked ∧
    ((t.mCpus me).Cluster = (s.mCpus me).Cluster ∨
      (s.nextContext me).clearFlags.get clusterNumber = .ok (t.mCpus me).Cluster)
  have hsame : ∀ {t : System pm} {g : Cpu → Cpu},
      (g (t.mCpus me)).Cluster = (t.mCpus me).Cluster →
      (g (t.mCpus me)).TestAndSetBlocked = (t.mCpus me).TestAndSetBlocked → I t →
      I (t.modifyCpu me g) := by
    rintro t g hc hb ⟨ht, hblocked, hcluster⟩
    refine ⟨ht.modifyCpu hc hb, ?_, ?_⟩
    · rw [System.modifyCpu_self, hb, hblocked]
    · rw [System.modifyCpu_self, hc]
      exact hcluster
  have hI : I (SysRun.exchange me s).2 := by
    refine SysRun.exchange_keeps (I := I) ⟨h, rfl, .inl rfl⟩ ?_ ?_ ?_
    · intro t mem ht
      obtain ⟨hcnt, hrest⟩ := hsame (g := Cpu.packetCreated) rfl rfl ht
      exact ⟨⟨hcnt.1, hcnt.2⟩, hrest⟩
    · intro g hg t ht
      exact hsame (hg _).Cluster (hg _).TestAndSetBlocked ht
    · rintro v hv t ⟨hcnt, hblocked, hcluster⟩
      obtain ⟨hb, hc⟩ := setCluster_cpu me v t
      refine ⟨hcnt.setCluster ?_, hb.trans hblocked, ?_⟩
      · rcases hcluster with hold | hnew
        · unfold MayChange
          rw [hold, hblocked]
          exact hmay v hv
        · exact .inl (Except.ok.inj (hnew.symm.trans hv))
      · rcases hc with hold | hnew
        · rw [hold]
          exact hcluster
        · rw [hnew]
          exact .inr hv
  exact hI.1

end changes

/-! ## 6. Runs -/

/-- **The actions both counts survive**: a processor leaves its cluster, by `CLN` or for the one of
    an exchange packet, and is master-cleared, only when it is not blocked; and the cluster it
    changes to is there. -/
def Action.keepsCounts (a : Action pm) (s : System pm) : Prop :=
  match a with
  | .instruction me => ¬ SysRun.fetchFails pm (s.mCpus me) → ∀ v,
      clnTarget pm (s.mCpus me) (extractFields (SysRun.fetched s me)) = some v →
        MayChange pm (s.mCpus me) v
  | .interrupt me => pm.machineType ≠ .C90 ∧ pm.machineType ≠ .T90 → ∀ v,
      (s.nextContext me).clearFlags.get clusterNumber = .ok v → MayChange pm (s.mCpus me) v
  | .masterClear me => (s.mCpus me).TestAndSetBlocked = false ∨
      clusterIdx pm (s.mCpus me).Cluster = none
  | _ => True

theorem Counted.step {a : Action pm} {s s' : System pm} (h : Counted s) (hs : Step a s s')
    (ha : a.keepsCounts s) : Counted s' := by
  cases hs with
  | @counters me =>
    rw [handleCounters_eq]
    have hkeep : (s.mCpus me).counted.Cluster = (s.mCpus me).Cluster ∧
        (s.mCpus me).counted.TestAndSetBlocked = (s.mCpus me).TestAndSetBlocked := by
      unfold Cpu.counted
      split
      · exact ⟨rfl, rfl⟩
      · split
        · exact ⟨rfl, rfl⟩
        · exact ⟨rfl, rfl⟩
    exact h.modifyCpu hkeep.1 hkeep.2
  | @mirror me =>
    rw [mirrorExternalInterrupts_eq]
    exact Counted.modifyCpu (g := Cpu.mirrored) h rfl rfl
  | @interrupt me =>
    have hstart : Counted (s.modifyCpu me Cpu.started) :=
      Counted.modifyCpu (g := Cpu.started) h rfl rfl
    rw [interrupt_eq]
    by_cases hmt : pm.machineType = .C90 ∨ pm.machineType = .T90
    · rw [exchange_unchanged hmt]
      exact hstart
    · refine hstart.exchange fun v hv => ?_
      have hnext : (s.modifyCpu me Cpu.started).nextContext me = s.nextContext me := by
        unfold System.nextContext
        rw [System.modifyCpu_self]
        rfl
      rw [hnext] at hv
      rw [System.modifyCpu_self]
      exact ha (not_or.mp hmt) v hv
  | @instruction me => exact h.instruction ha
  | @masterClear me =>
    rw [masterClear_eq]
    refine Counted.change h (c := (s.mCpus me).masterCleared) rfl (fun cl => ?_) fun cl => ?_
    · exact (recounted_same _ _).symm
    · have hin : (s.mCpus me).masterCleared.blockedIn cl = false := Bool.and_false _
      have hout : (s.mCpus me).blockedIn cl = false := by
        rcases ha with hb | hc
        · rw [Cpu.blockedIn, hb, Bool.and_false]
        · rw [Cpu.blockedIn, Cpu.inCluster, hc]
          rfl
      rw [hin, hout, recounted_same]
      rfl
  | @deadStart me pokes =>
    have hmem : Counted { s with mMemory := pokes.foldl (fun mem poke => poke.apply mem) s.mMemory } :=
      ⟨h.1, h.2⟩
    exact Counted.modifyCpu (g := ExternalInterrupt.mcu.post) hmem rfl rfl
  | @post me e =>
    have hkeep : (e.post (s.mCpus me)).Cluster = (s.mCpus me).Cluster ∧
        (e.post (s.mCpus me)).TestAndSetBlocked = (s.mCpus me).TestAndSetBlocked := by
      cases e <;> exact ⟨rfl, rfl⟩
    exact h.modifyCpu hkeep.1 hkeep.2
  | device => exact ⟨h.1, h.2⟩

/-- **Cluster accounting.** In every run from a mainframe just constructed whose actions keep the
    counts, in every state and for every cluster, the count of processors is the number of those
    whose register selects the cluster, and the count of blocked ones the number of those that are
    blocked. -/
theorem cluster_accounting (s0 s : System pm) (h0 : s0.Initial)
    (h : Reaches Action.keepsCounts s0 s) : Counted s :=
  h.invariant h0.counted fun _ _ _ ha hs ht => ht.step hs ha

/-- An exchange packet of cluster 1, and two test-and-sets of semaphore 0. -/
def blockingImage (aIdx : Nat) : BitVec 8 :=
  match aIdx with
  | 3 => 0x40
  | 17 => 0xff
  | 18 => 0xff
  | 43 => 1
  | 128 => 0x07
  | 130 => 0x07
  | _ => 0

/-- A Y-MP of two processors. -/
def ympPair : Params := Params.standard .YMP 2 (by decide)

def firstCpu : Fin ympPair.cpuCnt := (0 : Fin 2)

/-- The image is loaded, and the first processor is to start. -/
def startedSystem : System ympPair :=
  System.modifyCpu { System.powerOn ympPair with mMemory := blockingImage } firstCpu
    ExternalInterrupt.mcu.post

theorem startedSystem_reached {C : Action ympPair → System ympPair → Prop}
    (hdevice : ∀ mem channels clock timer s, C (.device mem channels clock timer) s)
    (hpost : ∀ s, C (.post firstCpu .mcu) s) :
    Reaches C (System.powerOn ympPair) startedSystem := by
  have himage : Reaches C (System.powerOn ympPair)
      { System.powerOn ympPair with mMemory := blockingImage } :=
    Reaches.start.step (a := .device blockingImage _ _ _) (hdevice _ _ _ _ _) Step.device
  exact himage.step (hpost _) Step.post

/-- It has exchanged: it is in cluster 1. -/
def enteredSystem : System ympPair :=
  (SysRun.interrupt firstCpu (SysRun.mirrorExternalInterrupts firstCpu startedSystem).2).2

/-- The law applied to a processor that takes semaphore 0 and blocks on it. -/
theorem cluster_accounting_blocked :
    let s := (SysRun.instruction firstCpu (SysRun.instruction firstCpu enteredSystem).2).2
    Counted s ∧ (s.mClusters (0 : Fin 3)).ClusterCpuCnt = 1 ∧
      (s.mClusters (0 : Fin 3)).TestAndSetBlockedCnt = 1 := by
  have hstarted : Reaches Action.keepsCounts (System.powerOn ympPair) startedSystem :=
    startedSystem_reached (fun _ _ _ _ _ => trivial) fun _ => trivial
  have hmirrored := hstarted.step (a := .mirror firstCpu) trivial Step.mirror
  have henters : Action.keepsCounts (.interrupt firstCpu)
      (SysRun.mirrorExternalInterrupts firstCpu startedSystem).2 := by
    intro _ v hv
    have hone : ((SysRun.mirrorExternalInterrupts firstCpu startedSystem).2.nextContext
        firstCpu).clearFlags.get clusterNumber = .ok 1 := rfl
    cases hone.symm.trans hv
    exact Or.inr (Or.inr rfl)
  have hentered : Reaches Action.keepsCounts (System.powerOn ympPair) enteredSystem :=
    hmirrored.step henters (Step.interrupt (by decide))
  have hfirst : clnTarget ympPair (enteredSystem.mCpus firstCpu)
      (extractFields (SysRun.fetched enteredSystem firstCpu)) = none := by
    decide +kernel
  have htaken := hentered.step (a := .instruction firstCpu)
    (fun _ v hv => absurd (hfirst.symm.trans hv) (Option.some_ne_none v).symm) (Step.instruction rfl)
  have hsecond : clnTarget ympPair ((SysRun.instruction firstCpu enteredSystem).2.mCpus firstCpu)
      (extractFields (SysRun.fetched (SysRun.instruction firstCpu enteredSystem).2 firstCpu)) =
        none := by
    decide +kernel
  have hblocked := htaken.step (a := .instruction firstCpu)
    (fun _ v hv => absurd (hsecond.symm.trans hv) (Option.some_ne_none v).symm)
    (Step.instruction (by decide +kernel))
  exact ⟨cluster_accounting _ _ (System.powerOn_initial ympPair) hblocked, by decide +kernel,
    by decide +kernel⟩

/-! ## 7. A processor that is cleared while it is blocked -/

/-- In the first tick it exchanges, in the second it takes semaphore 0, in the third it blocks. -/
def blockedSystem : System ympPair :=
  (SysRun.tick firstCpu (SysRun.tick firstCpu (SysRun.tick firstCpu startedSystem).2).2).2

theorem blockedSystem_reached :
    Reaches (fun _ _ => True) (System.powerOn ympPair) blockedSystem := by
  have hstarted : Reaches (fun _ _ => True) (System.powerOn ympPair) startedSystem :=
    startedSystem_reached (fun _ _ _ _ _ => trivial) fun _ => trivial
  exact ((hstarted.trans (SysRun.tick_reaches firstCpu _)).trans
    (SysRun.tick_reaches firstCpu _)).trans (SysRun.tick_reaches firstCpu _)

/-- A master clear of a blocked processor leaves its part of the count behind. -/
theorem not_counted :
    ¬ ∀ (pm : Params) (s0 s : System pm), s0.Initial → Reaches (fun _ _ => True) s0 s →
      Counted s := by
  intro hall
  have hcounted := hall _ _ _ (System.powerOn_initial ympPair)
    (blockedSystem_reached.step (a := .masterClear firstCpu) trivial Step.masterClear)
  have hone : ((SysRun.masterClear firstCpu blockedSystem).2.mClusters
      (0 : Fin 3)).TestAndSetBlockedCnt.toNat = 1 := by decide +kernel
  have hnone : ∀ i : Fin 2, @Cpu.blockedIn ympPair (0 : Fin 3)
      ((SysRun.masterClear firstCpu blockedSystem).2.mCpus i) = false := by decide +kernel
  rw [hcounted.TestAndSetBlockedCnt (0 : Fin 3)] at hone
  obtain ⟨i, hi⟩ := Finset.card_pos.mp (hone ▸ Nat.one_pos)
  rw [Finset.mem_filter, hnone i] at hi
  cases hi.2

end CraySim
