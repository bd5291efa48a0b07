/-
  Subject:   What the limit registers of a process bound.

  A data address is relocated by the base register, reduced to the size of the memory and
  compared with the limit register; it is not compared with the base. So the window of a process
  is the words below its limit, and all of them: addresses wrap around to those below the base. An
  instruction is fetched from three parcels, of which the first is compared with the limit.

  * `DataWindow`, `FetchWindow` -- the bytes a process gets at,
  * `store_reaches_iff` -- a store gets at the bytes of the data window, and at each of them,
  * `UserAction`, `limits_hold` -- runs of user programs leave all bytes beyond their windows,
  * `window_decides` -- and are decided by the bytes within them.
-/
import CraySim.Separation

namespace CraySim

open SysRun CraySim.Partition

variable {pm : Params}

/-! ## 1. Windows -/

/-- The bytes of the words below the data limit. -/
def DataWindow (pm : Params) (c : Cpu) (a : Nat) : Prop :=
  ∃ w, w < pm.memSizeInWords ∧ w < c.DataLimitAddr.toNat ∧ wordBytes w a

/-- The bytes of the words below the instruction limit, and two parcels more. -/
def FetchWindow (pm : Params) (c : Cpu) (a : Nat) : Prop :=
  a < 8 * min c.InstLimitAddr.toNat pm.memSizeInWords + 4

theorem dataWord_lt (c : Cpu) (a : CAddr) : dataWord pm c a < pm.memSizeInWords :=
  Nat.mod_lt _ pm.memSize_pos

/-- **Every word has an address**, on either side of the base. -/
theorem exists_dataWord (c : Cpu) {w : Nat} (hw : w < pm.memSizeInWords) (hw32 : w < 2 ^ 32) :
    ∃ a, dataWord pm c a = w := by
  refine ⟨BitVec.ofNat 32 w - c.DataBaseAddr, ?_⟩
  unfold dataWord
  rw [BitVec.sub_add_cancel, BitVec.toNat_ofNat, Nat.mod_eq_of_lt hw32, Nat.mod_eq_of_lt hw]

/-- Two stores at one place differ in each of its bytes. -/
theorem memWrite_differs (mem : Nat → BitVec 8) {w a : Nat} (h : wordBytes w a) :
    memWrite mem w 0 a ≠ memWrite mem w (BitVec.allOnes 64) a := by
  unfold wordBytes at h
  have hk : memIndex w + (a - memIndex w) = a := by omega
  have hlt : a - memIndex w < 8 := by omega
  have hzero : memWrite mem w 0 a = 0 := by
    have h0 := ByteStore.store_byte (n := 8) mem (memIndex w) 0 hlt
    rw [hk] at h0
    refine h0.trans ?_
    simp
  have hones : memWrite mem w (BitVec.allOnes 64) a = BitVec.allOnes 8 := by
    have h1 := ByteStore.store_byte (n := 8) mem (memIndex w) (BitVec.allOnes 64) hlt
    rw [hk] at h1
    refine h1.trans ?_
    apply BitVec.eq_of_getLsbD_eq
    intro k hk8
    have hbit : 8 * (8 - 1 - (a - memIndex w)) + k < 64 := by omega
    rw [BitVec.getLsbD_setWidth, BitVec.getLsbD_ushiftRight, BitVec.getLsbD_allOnes,
      BitVec.getLsbD_allOnes, decide_eq_true hbit, Bool.and_true]
  rw [hzero, hones]
  decide

/-- **What a store gets at**: a process can change a byte by a store if and only if the byte is in
    a word below its limit, whatever its base register is. -/
theorem store_reaches_iff (me : Fin pm.cpuCnt) (s : System pm) (a : Nat) :
    (∃ aAddr aData, (writeDataMem me aAddr aData s).2.mMemory a ≠ s.mMemory a) ↔
      DataWindow pm (s.mCpus me) a := by
  constructor
  · rintro ⟨aAddr, aData, hne⟩
    rw [writeDataMem_eq] at hne
    split at hne
    · split at hne
      · exact absurd rfl hne
      · exact absurd rfl hne
    · rename_i hlt
      refine ⟨_, dataWord_lt _ aAddr, Nat.lt_of_not_le hlt, ?_⟩
      by_contra hout
      exact hne (memWrite_of_outside s.mMemory aData hout)
  · rintro ⟨w, hw, hlimit, hbytes⟩
    obtain ⟨aAddr, haddr⟩ := exists_dataWord (s.mCpus me) hw
      (Nat.lt_trans hlimit (s.mCpus me).DataLimitAddr.isLt)
    have hstore : ∀ v, (writeDataMem me aAddr v s).2.mMemory = memWrite s.mMemory w v := by
      intro v
      rw [writeDataMem_eq, haddr, if_neg (by omega)]
    -- of two words that differ in the byte, one changes it
    by_cases hzero : memWrite s.mMemory w 0 a = s.mMemory a
    · refine ⟨aAddr, BitVec.allOnes 64, ?_⟩
      rw [hstore]
      exact fun hones => memWrite_differs s.mMemory hbytes (hzero.trans hones.symm)
    · refine ⟨aAddr, 0, ?_⟩
      rw [hstore]
      exact hzero

/-- The parcels of an instruction that is fetched are in the fetch window. -/
theorem fetchWindow_of_fetched {c : Cpu} (hf : ¬ fetchFails pm c) {a : Nat}
    (ha : windowBytes (instParcel pm c c.ProgramAddress) a) : FetchWindow pm c a := by
  have hlimit : instParcel pm c c.ProgramAddress / cParcelsPerWord < c.InstLimitAddr.toNat :=
    Nat.lt_of_not_le hf
  have hmem : instParcel pm c c.ProgramAddress < pm.memSizeInParcels :=
    Nat.mod_lt _ (Nat.mul_pos pm.memSize_pos (by decide))
  unfold windowBytes at ha
  unfold Params.memSizeInParcels at hmem
  unfold FetchWindow
  rw [show cParcelsPerWord = 4 from rfl] at hlimit hmem
  omega

/-! ## 2. Nothing beyond the windows is written -/

/-- User programs run and interrupts arise, but no process is exchanged and no device writes. -/
def UserAction : Action pm → System pm → Prop
  | .instruction me, s => (s.mCpus me).isMonitorMode = false
  | .interrupt _, _ | .deadStart _ _, _ | .device _ _ _ _, _ => False
  | _, _ => True

/-- The limits are those of `s0`, and so is every byte beyond the data windows. -/
structure WithinLimits (s0 s : System pm) : Prop where
  limits : ∀ i, (s.mCpus i).DataLimitAddr = (s0.mCpus i).DataLimitAddr
  memory : ∀ a, (∀ i, ¬ DataWindow pm (s0.mCpus i) a) → s.mMemory a = s0.mMemory a

section limits
variable {me : Fin pm.cpuCnt} {s0 s s' : System pm}

theorem WithinLimits.modifyCpu (h : WithinLimits s0 s) (f : Cpu → Cpu)
    (hf : ∀ c, (f c).DataLimitAddr = c.DataLimitAddr) : WithinLimits s0 (s.modifyCpu me f) := by
  refine ⟨fun i => ?_, h.memory⟩
  by_cases hi : i = me
  · subst hi
    rw [System.modifyCpu_self, hf]
    exact h.limits i
  · rw [System.modifyCpu_ne s me f hi]
    exact h.limits i

/-- The same for a change that is made as a computation. -/
theorem WithinLimits.modified (h : WithinLimits s0 s) {f : Cpu → Cpu}
    (hf : ∀ c, (f c).DataLimitAddr = c.DataLimitAddr) :
    WithinLimits s0 (SysRun.modifyCpu me f s).2 :=
  h.modifyCpu f hf

/-- A request of a user program stays below the limit of its process. -/
theorem WithinLimits.effect {r : Req} (h : WithinLimits s0 s) (he : Effect me s r s')
    (hr : r.isPrivileged = false) : WithinLimits s0 s' := by
  have hconf := he.confined hr
  have hlimits : ∀ i, (s'.mCpus i).DataLimitAddr = (s.mCpus i).DataLimitAddr := by
    intro i
    by_cases hi : i = me
    · subst hi
      exact hconf.DataLimitAddr
    · rw [hconf.otherCpus i hi]
  refine ⟨fun i => (hlimits i).trans (h.limits i), ?_⟩
  intro a ha
  refine Eq.trans ?_ (h.memory a ha)
  cases he with
  | @store aAddr v hlt =>
    rw [h.limits me] at hlt
    exact memWrite_of_outside s.mMemory v fun hb => ha me ⟨_, dataWord_lt _ aAddr, hlt, hb⟩
  | none | write | take | block | shared | clockRead => rfl
  | privWrite | clockSet | posted | sameCluster | changeCluster | badCluster | channel => cases hr

theorem WithinLimits.instruction (h : WithinLimits s0 s)
    (hm : (s.mCpus me).isMonitorMode = false) : WithinLimits s0 (instruction me s).2 :=
  (instruction_outcome me s).keeps
    (fun r t hr _ ht => ht.effect (handler_effect me t r) (hr.unprivileged (by simp [hm])))
    (fun _ _ ht => ht.modifyCpu _ fun _ => rfl) (fun _ _ ht => ht.modifyCpu _ fun _ => rfl) h

theorem WithinLimits.step {a : Action pm} (h : WithinLimits s0 s) (hC : UserAction a s)
    (hs : Step a s s') : WithinLimits s0 s' := by
  cases hs with
  | counters =>
    refine h.modified fun c => ?_
    split
    · rfl
    · split
      · rfl
      · rfl
  | mirror => exact h.modified fun _ => rfl
  | interrupt => exact hC.elim
  | instruction => exact h.instruction hC
  | masterClear => exact h.modified fun _ => rfl
  | deadStart => exact hC.elim
  | @post me e => exact h.modifyCpu _ fun _ => by cases e <;> rfl
  | device => exact hC.elim

end limits

/-- **The limits hold over whole runs**: however the instructions of user programs on all
    processors follow each other, with interrupts posted, counted and noticed in between, every
    byte beyond the data windows of all processes stays as it was, and so do the limits. -/
theorem limits_hold (s0 s : System pm) (h : Reaches UserAction s0 s) :
    (∀ i, (s.mCpus i).DataLimitAddr = (s0.mCpus i).DataLimitAddr) ∧
      ∀ a, (∀ i, ¬ DataWindow pm (s0.mCpus i) a) → s.mMemory a = s0.mMemory a := by
  have hkeep : WithinLimits s0 s := h.invariant ⟨fun _ => rfl, fun _ _ => rfl⟩
    fun _ _ _ hC hs hI => hI.step hC hs
  exact ⟨hkeep.limits, hkeep.memory⟩

/-- The windows of the two processors reach up to the forty words of the second one. -/
theorem System.storing_window {i : Fin 2} {a : Nat} (ha : 320 ≤ a) :
    ¬ DataWindow ympTwo (System.storing.mCpus i) a := by
  intro h
  obtain ⟨w, -, hlimit, hword⟩ := h
  have hforty : (System.storing.mCpus i).DataLimitAddr.toNat ≤ 40 :=
    i.cases (by decide) fun i => i.cases (by decide) fun i => i.elim0
  unfold wordBytes memIndex at hword
  omega

/-- The law applied to the stores of both processors: the words of their windows hold what they
    have stored, a byte beyond is as it was. -/
theorem limits_hold_storing :
    let s := (instruction (1 : Fin 2) (instruction (0 : Fin 2) System.storing).2).2
    memRead s.mMemory 16 = 7 ∧ memRead s.mMemory 32 = 7 ∧
      s.mMemory 1000 = System.storing.mMemory 1000 := by
  have hstep : Reaches UserAction System.storing (instruction (0 : Fin 2) System.storing).2 :=
    Reaches.start.step (a := .instruction (0 : Fin 2)) rfl (.instruction rfl)
  have huser : UserAction (.instruction (1 : Fin 2)) (instruction (0 : Fin 2) System.storing).2 :=
    rfl
  refine ⟨rfl, rfl, (limits_hold System.storing _ (hstep.step huser (.instruction rfl))).2 1000 ?_⟩
  exact fun i => System.storing_window (by decide)

/-! ## 3. Nothing beyond the windows is read -/

/-- The share of one process: it reads its windows and writes its data window. -/
def Partition.windows (pm : Params) (me : Fin pm.cpuCnt) (c : Cpu) : Partition pm where
  Readable i a := i = me ∧ (DataWindow pm c a ∨ FetchWindow pm c a)
  Writable i a := i = me ∧ DataWindow pm c a
  cluster i := if i = me then c.Cluster else 0
  readable _ _ h := ⟨h.1, Or.inl h.2⟩
  apart _ _ hij _ hi hj := hij (hi.1.trans hj.1.symm)
  clustersApart i j hij cl hi hj := by
    by_cases h : i = me
    · rw [if_neg fun hj => hij (h.trans hj.symm), clusterIdx_zero] at hj
      cases hj
    · rw [if_neg h, clusterIdx_zero] at hi
      cases hi

/-- The registers that say what a process gets at. -/
structure SameLimits (c c' : Cpu) : Prop where
  user : c'.isMonitorMode = false
  cluster : c'.Cluster = c.Cluster
  inst : c'.InstLimitAddr = c.InstLimitAddr
  data : c'.DataLimitAddr = c.DataLimitAddr

section windows
variable {me : Fin pm.cpuCnt} {c : Cpu} {s t : System pm}

theorem SameLimits.confined {s' : System pm} (h : SameLimits c (s.mCpus me))
    (hc : Confined me s s') : SameLimits c (s'.mCpus me) :=
  ⟨hc.mMonitorMode.trans h.user, hc.Cluster.trans h.cluster, hc.InstLimitAddr.trans h.inst,
    hc.DataLimitAddr.trans h.data⟩

/-- **A user program stays in its windows by itself.** -/
theorem stays_of_sameLimits (h : SameLimits c (s.mCpus me)) :
    (Partition.windows pm me c).Stays me s where
  user := h.user
  cluster := h.cluster.trans (if_pos rfl).symm
  fetch hf x hx := by
    have hwindow := fetchWindow_of_fetched hf hx
    unfold FetchWindow at hwindow
    rw [h.inst] at hwindow
    exact ⟨rfl, Or.inr hwindow⟩
  requests _ q hq := by
    have hlimits := h.confined (trace_confined true _ h.user q hq).2
    obtain ⟨r, u⟩ := q
    cases r with
    | readDataMem a =>
      intro hlt x hx
      rw [hlimits.data] at hlt
      exact ⟨rfl, Or.inl ⟨_, dataWord_lt _ a, hlt, hx⟩⟩
    | writeDataMem a v =>
      intro hlt x hx
      rw [hlimits.data] at hlt
      exact ⟨rfl, _, dataWord_lt _ a, hlt, hx⟩
    | _ => trivial

theorem SameLimits.modified {f : Cpu → Cpu} (h : SameLimits c (s.mCpus me))
    (hf : ∀ c', SameLimits c c' → SameLimits c (f c')) :
    SameLimits c ((SysRun.modifyCpu me f s).2.mCpus me) := by
  show SameLimits c ((s.modifyCpu me f).mCpus me)
  rw [System.modifyCpu_self]
  exact hf _ h

theorem SameLimits.turn {a : Turn pm} (h : SameLimits c (s.mCpus me)) (ha : a.owner = me) :
    SameLimits c ((a.step s).mCpus me) := by
  cases a with
  | instruction i =>
    cases ha
    exact h.confined (user_mode_confined i s h.user).2
  | counters i =>
    cases ha
    refine h.modified fun c' hc => ?_
    split
    · exact ⟨hc.user, hc.cluster, hc.inst, hc.data⟩
    · split
      · exact ⟨hc.user, hc.cluster, hc.inst, hc.data⟩
      · exact ⟨hc.user, hc.cluster, hc.inst, hc.data⟩
  | mirror i =>
    cases ha
    exact h.modified fun c' hc => ⟨hc.user, hc.cluster, hc.inst, hc.data⟩
  | post i e =>
    cases ha
    refine h.modified fun c' hc => ?_
    cases e <;> exact ⟨hc.user, hc.cluster, hc.inst, hc.data⟩
  | masterClear i =>
    cases ha
    exact h.modified fun c' hc => ⟨rfl, hc.cluster, hc.inst, hc.data⟩

end windows

/-- **A user program is decided by its windows**: in two systems that are the same to a process in
    user mode, in its registers, its cluster, the clock and the bytes in its windows, any turns of
    it end the same in all of these, whatever the memory beyond the windows holds. -/
theorem window_decides (me : Fin pm.cpuCnt) (s t : System pm)
    (hm : (s.mCpus me).isMonitorMode = false)
    (hst : (Partition.windows pm me (s.mCpus me)).View me s t) (l : List (Turn pm))
    (hl : ∀ a ∈ l, a.owner = me) :
    (Partition.windows pm me (s.mCpus me)).View me (Turns.run Turn.step l s)
      (Turns.run Turn.step l t) := by
  have key : ∀ (l : List (Turn pm)) (c : Cpu) (u v : System pm), (∀ a ∈ l, a.owner = me) →
      SameLimits c (u.mCpus me) → (Partition.windows pm me c).View me u v →
      (Partition.windows pm me c).View me (Turns.run Turn.step l u) (Turns.run Turn.step l v) := by
    intro l
    induction l with
    | nil => exact fun _ _ _ _ _ huv => huv
    | cons a l ih =>
      intro c u v hl hu huv
      have ha : a.owner = me := hl a List.mem_cons_self
      refine ih c _ _ (fun b hb => hl b (List.mem_cons_of_mem a hb)) (hu.turn ha) ?_
      rcases a.step_cases with ⟨i, rfl⟩ | ⟨f, hf⟩
      · cases ha
        exact (stays_of_sameLimits hu).view huv
      · rw [hf, hf, ha]
        exact huv.modifyCpu f
  exact key l (s.mCpus me) s t hl ⟨hm, rfl, rfl, rfl⟩ hst

/-- The law applied to a store and a load, and a byte beyond the windows. -/
theorem window_decides_storing :
    (Partition.windows ympTwo (0 : Fin 2) (System.storing.mCpus (0 : Fin 2))).View (0 : Fin 2)
      (Turns.run Turn.step [.instruction (0 : Fin 2), .instruction (0 : Fin 2)] System.storing)
      (Turns.run Turn.step [.instruction (0 : Fin 2), .instruction (0 : Fin 2)]
        { System.storing with mMemory := ByteStore.update System.storing.mMemory 1000 1 }) := by
  refine window_decides (0 : Fin 2) System.storing _ rfl ?_ _ ?_
  · refine ⟨rfl, fun _ _ => rfl, fun a ha => ?_, rfl, rfl, rfl, rfl, rfl⟩
    have hlt : a < 1000 := by
      refine Nat.not_le.mp fun hle => ?_
      rcases ha.2 with hdata | hfetch
      · exact System.storing_window (Nat.le_trans (by decide) hle) hdata
      · have hfetched : a < 20 := hfetch
        omega
    exact (ByteStore.update_ne _ _ (Nat.ne_of_lt hlt)).symm
  · intro a ha
    simp only [List.mem_cons, List.not_mem_nil, or_false, or_self] at ha
    rw [ha]
    rfl

end CraySim
