/-
  Subject:   The disassembler and the executor agree on the length of an instruction.

  Every decoder is one function for both uses. Without execution it returns the parcels of the
  instruction; with execution it returns them too, unless it writes a new `P` or blocks on a
  semaphore.

  * `Transfers` -- the requests after which `P` is not what follows,
  * `decode_length` -- a decoder returns the length until such a request,
  * `disassembler_executor` -- so the listing and the execution stay in step.
-/
import CraySim.Transitions
import Mathlib.Tactic.IntervalCases

namespace CraySim

/-! ## 1. The length a decoder returns -/

/-- `P` is written, or the processor blocks on a semaphore. -/
def Transfers : (r : Req) → Resp r → Prop
  | .write (.ProgramAddress _), _ => True
  | .testAndSet _, (blocked : Bool) => blocked = true
  | _, _ => False

/-- The answers of a processor in an addressing mode; with execution, up to the first transfer. -/
def Straight (b : Bool) (x : Bool) (r : Req) (a : Resp r) : Prop :=
  Answers x True r a ∧ (b = true → ¬ Transfers r a)

namespace Inst

open Program

/-- Until a transfer the decoder returns the length of the instruction. -/
def HasLength (b : Bool) (f : Fields) (x : Bool) (m : Inst Decoded) : Prop :=
  m.Within (Straight b x) (fun _ => True) fun d => d.increment = f.length x

section length
variable {pm : Params} {b : Bool} {f : Fields} {x : Bool}

@[simp] theorem straight_cpu {post : Cpu → Prop} :
    cpu.Within (Straight b x) (fun _ => True) post ↔ ∀ c : Cpu, c.XMode = x → post c := by
  constructor
  · rintro ⟨-, h⟩ c hx
    exact h c ⟨⟨hx, fun _ => trivial⟩, fun _ => id⟩
  · intro h
    exact ⟨trivial, fun c hc => h c hc.1.1⟩

@[simp] theorem straight_write {w : RegWrite} {post : Unit → Prop} :
    (write w).Within (Straight b x) (fun _ => True) post ↔
      ((b = true → ¬ Transfers (.write w) ()) → post ()) := by
  constructor
  · rintro ⟨-, h⟩ hw
    exact h () ⟨trivial, hw⟩
  · intro h
    exact ⟨trivial, fun _ hw => h hw.2⟩

@[simp] theorem straight_testAndSet {jk : Fin 32} {post : Bool → Prop} :
    (testAndSet jk).Within (Straight b x) (fun _ => True) post ↔
      ∀ blocked : Bool, (b = true → blocked = false) → post blocked := by
  constructor
  · rintro ⟨-, h⟩ blocked hb
    refine h blocked ⟨trivial, fun h' hblocked => ?_⟩
    exact Bool.false_ne_true ((hb h').symm.trans hblocked)
  · intro h
    refine ⟨trivial, fun blocked ha => h blocked fun hb => ?_⟩
    exact Bool.eq_false_iff.mpr (ha.2 hb)

@[simp] theorem straight_cluster {post : InterCpuCluster → Prop} :
    cluster.Within (Straight b x) (fun _ => True) post ↔ ∀ cl, post cl :=
  ⟨fun h cl => h.2 cl ⟨trivial, fun _ => id⟩, fun h => ⟨trivial, fun cl _ => h cl⟩⟩

/-- An instruction that neither jumps nor blocks. -/
theorem hasLength_of_decodes {m : Inst Decoded} (h : Decodes pm f x True m)
    (hjump : f.isJump = false) (hts : f.isTestAndSet = false) : HasLength b f x m := by
  refine h.mono (fun r a ha => ha.1) (fun _ _ => trivial) ?_
  rintro d (hd | ⟨-, hd | hd⟩)
  · exact hd
  · rw [hjump] at hd
    cases hd
  · rw [hts] at hd
    cases hd

theorem jumpInst_hasLength {aGh : Nat} {cond : Cpu → Bool} (hgh : 0o010 ≤ aGh ∧ aGh ≤ 0o017) :
    HasLength b f x (jumpInst aGh b f cond) := by
  unfold HasLength jumpInst
  rw [within_bind, within_crayAssert]
  intro h
  have htwo : f.length x = 2 := Fields.length_of_gh h (if_pos ⟨by omega, hgh.2⟩)
  cases b
  · exact htwo.symm
  · simp [within_ite, Transfers, htwo]

theorem decode0005_hasLength : HasLength b f x (decode0005 b f) := by
  unfold HasLength decode0005
  rw [within_bind, within_crayAssert]
  intro h
  have hone : f.length x = 1 := Fields.length_of_gh h rfl
  cases b
  · simp [within_ite, crayUnknown, hone]
  · simp [within_ite, crayUnknown, Transfers, hone]

theorem decode0006_hasLength : HasLength b f x (decode0006 b f) := by
  unfold HasLength decode0006
  rw [within_bind, within_crayAssert]
  intro h
  have htwo : f.length x = 2 := Fields.length_of_gh h rfl
  cases b
  · exact htwo.symm
  · simp [Transfers]

theorem decode0007_hasLength : HasLength b f x (decode0007 b f) := by
  unfold HasLength decode0007
  rw [within_bind, within_crayAssert]
  intro h
  have htwo : f.length x = 2 := Fields.length_of_gh h rfl
  cases b
  · exact htwo.symm
  · simp [Transfers]

theorem testAndSetInst_hasLength (hlen : f.length x = 1) :
    HasLength b f x (testAndSetInst b f) := by
  unfold HasLength testAndSetInst
  cases b
  · exact hlen.symm
  · rw [if_pos rfl, within_bind, straight_cpu]
    intro c _
    rw [within_ite]
    refine ⟨fun _ => hlen.symm, fun _ => ?_⟩
    rw [within_bind, straight_cluster]
    intro cl
    split
    · rw [within_bind, straight_testAndSet]
      intro blocked hfree
      rw [hfree rfl]
      exact hlen.symm
    · trivial

theorem decode0003_hasLength (pm : Params) : HasLength b f x (decode0003 b f) := by
  by_cases hts : f.isTestAndSet = true
  · simp only [Fields.isTestAndSet, Bool.and_eq_true] at hts
    have hi : f.i.val = 4 := congrArg Fin.val (eq_of_beq hts.2)
    unfold HasLength decode0003
    rw [within_bind, within_crayAssert, hi]
    intro h
    exact testAndSetInst_hasLength (Fields.length_of_gh h rfl)
  · by_cases hgh : (f.gh == 0o003) = true
    · have hdec : Decodes pm f x True (decode0003 b f) := decode0003_decodes
      refine hasLength_of_decodes hdec ?_ (Bool.eq_false_iff.mpr hts)
      rw [Fields.isJump, eq_of_beq hgh]
      rfl
    · unfold HasLength decode0003
      rw [within_bind, within_crayAssert]
      exact fun h => absurd h hgh

theorem decode_of_gh {aParcels : CInt} {n : Nat} {inst : Bool → Fields → Inst Decoded}
    (hn : (extractFields aParcels).gh = n) (h : (instImplementations pm)[n]? = some inst) :
    decode pm b aParcels = inst b (extractFields aParcels) := by
  unfold decode
  dsimp only
  rw [hn, h]

theorem crayAssert_gh {n : Nat} {β : Type} {f : Fields} (hgh : (f.gh == n) = true)
    (k : Unit → Inst β) : (crayAssert (f.gh == n) >>= k) = k () := by
  rw [hgh]
  rfl

theorem cpu_run {me : Fin pm.cpuCnt} {s : System pm} :
    cpu.run (handler me) s = (.ok (s.mCpus me), s) := rfl

/-- **The length of every instruction**, for every window of parcels. -/
theorem decode_length (pm : Params) (b : Bool) (aParcels : CInt) (x : Bool) :
    HasLength b (extractFields aParcels) x (decode pm b aParcels) := by
  by_cases hjump : (extractFields aParcels).isJump = true
  · have hgh := hjump
    simp only [Fields.isJump, Bool.and_eq_true, decide_eq_true_eq] at hgh
    generalize hn : (extractFields aParcels).gh = n at hgh
    obtain ⟨hlo, hhi⟩ := hgh
    interval_cases n
    · rw [decode_of_gh hn rfl]
      exact decode0005_hasLength
    · rw [decode_of_gh hn rfl]
      exact decode0006_hasLength
    · rw [decode_of_gh hn rfl]
      exact decode0007_hasLength
    -- the other eight codes are jumps of one form
    all_goals
      rw [decode_of_gh hn rfl]
      exact jumpInst_hasLength (by decide)
  · by_cases hts : (extractFields aParcels).isTestAndSet = true
    · have hgh := hts
      simp only [Fields.isTestAndSet, Bool.and_eq_true] at hgh
      rw [decode_of_gh (eq_of_beq hgh.1) rfl]
      exact decode0003_hasLength pm
    · exact hasLength_of_decodes (decode_decodes pm b aParcels x True) (Bool.eq_false_iff.mpr hjump)
        (Bool.eq_false_iff.mpr hts)

end length

end Inst

/-! ## 2. Listing and execution -/

section run
variable {pm : Params} (me : Fin pm.cpuCnt) (aParcels : CInt) (s : System pm)

/-- The execution takes a jump: it writes `P`. -/
def TakesJump : Prop :=
  ∃ v t, (Req.write (.ProgramAddress v), t) ∈ (Inst.decode pm true aParcels).trace (handler me) s

/-- The execution blocks on a semaphore. -/
def Blocks : Prop :=
  ∃ jk t t', (Req.testAndSet jk, t) ∈ (Inst.decode pm true aParcels).trace (handler me) s ∧
    handler me (.testAndSet jk) t = (.ok true, t')

variable {me aParcels s}

theorem CpuEffect.programAddress {own : Prop} {r : Req} {c c' : Cpu} (h : CpuEffect own r c c') :
    c'.ProgramAddress = c.ProgramAddress ∨ ∃ v, r = .write (.ProgramAddress v) := by
  cases h with
  | @write w =>
    cases w with
    | ProgramAddress v => exact Or.inr ⟨v, rfl⟩
    | _ => exact Or.inl rfl
  | @privWrite w => cases w <;> exact Or.inl rfl
  | none | blocked | posted | cluster => exact Or.inl rfl

/-- A request that is no transfer keeps `P`. -/
theorem handler_programAddress {t t' : System pm} {r : Req} {a : Resp r}
    (h : handler me r t = (.ok a, t')) (hno : ¬ Transfers r a) :
    (t'.mCpus me).ProgramAddress = (t.mCpus me).ProgramAddress := by
  have he := (SysRun.handler_effect me t r).cpu me
  rw [h] at he
  rcases he.programAddress with hp | ⟨v, rfl⟩
  · exact hp
  · exact absurd trivial hno

/-- The answer of a processor in the mode of the state. -/
theorem handler_answers {t t' : System pm} {r : Req} {a : Resp r}
    (h : handler me r t = (.ok a, t')) : Answers (t.mCpus me).XMode True r a := by
  cases r with
  | cpu =>
    cases h
    exact ⟨rfl, fun _ => trivial⟩
  | _ => trivial

/-- A transfer in a run is a jump or a blocked test-and-set. -/
theorem Transfers.cases {t t' : System pm} {r : Req} {a : Resp r} (ht : Transfers r a)
    (hmem : (r, t) ∈ (Inst.decode pm true aParcels).trace (handler me) s)
    (h : handler me r t = (.ok a, t')) : TakesJump me aParcels s ∨ Blocks me aParcels s := by
  cases r with
  | write w =>
    cases w with
    | ProgramAddress v => exact Or.inl ⟨v, t, hmem⟩
    | _ => cases ht
  | testAndSet jk =>
    have ha : a = true := ht
    rw [ha] at h
    exact Or.inr ⟨jk, t, t', hmem, h⟩
  | _ => cases ht

/-- **The execution of an instruction**: it transfers, or `P` moves by the length. -/
theorem decode_advance {b : Bool} {d : Decoded} {s' : System pm}
    (h : (Inst.decode pm b aParcels).run (handler me) s = (.ok d, s')) :
    (b = true ∧ (TakesJump me aParcels s ∨ Blocks me aParcels s)) ∨
      (b = true → (s'.mCpus me).ProgramAddress = (s.mCpus me).ProgramAddress) ∧
        d.increment = (extractFields aParcels).length (s.mCpus me).XMode := by
  have hrun := Program.run_outside (Q := Straight b (s.mCpus me).XMode)
    (I := fun t => (b = true → (t.mCpus me).ProgramAddress = (s.mCpus me).ProgramAddress) ∧
      (t.mCpus me).XMode = (s.mCpus me).XMode) ?_
    (Inst.decode_length pm b aParcels (s.mCpus me).XMode) ⟨fun _ => rfl, rfl⟩ h
  · rcases hrun with ⟨⟨r, t⟩, hmem, ⟨-, hx⟩, a, t', hr, hnot⟩ | ⟨hI, hd⟩
    · have hans := handler_answers hr
      rw [hx] at hans
      have htr : b = true ∧ Transfers r a := by
        by_contra hcon
        exact hnot ⟨hans, fun hb ht => hcon ⟨hb, ht⟩⟩
      obtain ⟨rfl, ht⟩ := htr
      exact Or.inl ⟨rfl, ht.cases hmem hr⟩
    · exact Or.inr ⟨hI.1, hd⟩
  · rintro r t a t' - ⟨hp, hx⟩ hr ⟨-, hno⟩
    have hmode := ((SysRun.handler_effect me t r).cpu me).mode.1
    rw [hr] at hmode
    exact ⟨fun hb => (handler_programAddress hr (hno hb)).trans (hp hb), hmode.trans hx⟩

end run

/-- **The disassembler and the executor agree**: whatever the machine, the window and the
    addressing mode, where the execution takes no jump, does not block and does not throw, `P`
    advances by the parcels the disassembler consumes. -/
theorem disassembler_executor {pm : Params} (me : Fin pm.cpuCnt) (aParcels : CInt)
    (s t : System pm) (hmode : (t.mCpus me).XMode = (s.mCpus me).XMode) {d d' : Decoded}
    {s' t' : System pm}
    (hlist : (Inst.decode pm false aParcels).run (handler me) t = (.ok d, t'))
    (hexec : (Inst.decode pm true aParcels).run (handler me) s = (.ok d', s')) :
    TakesJump me aParcels s ∨ Blocks me aParcels s ∨
      ((s'.mCpus me).advance d'.increment).ProgramAddress =
        (s.mCpus me).ProgramAddress + BitVec.ofNat 32 d.increment := by
  have hd : d.increment = (extractFields aParcels).length (s.mCpus me).XMode := by
    rcases decode_advance hlist with ⟨hb, -⟩ | ⟨-, hd⟩
    · cases hb
    · rwa [hmode] at hd
  rcases decode_advance hexec with ⟨-, hjump | hblock⟩ | ⟨hp, hd'⟩
  · exact Or.inl hjump
  · exact Or.inr (Or.inl hblock)
  · refine Or.inr (Or.inr ?_)
    rw [Cpu.advance, hp rfl, hd', hd]

/-- `A1 5` on a Y-MP after power on is one parcel for both. -/
theorem disassembler_executor_powerOn :
    let s := System.powerOn (Params.standard .YMP 1 (by decide))
    TakesJump (0 : Fin 1) (0o022105 <<< 32) s ∨ Blocks (0 : Fin 1) (0o022105 <<< 32) s ∨
      ((((Inst.decode (Params.standard .YMP 1 (by decide)) true (0o022105 <<< 32)).run
        (handler (0 : Fin 1)) s).2.mCpus (0 : Fin 1)).advance 1).ProgramAddress =
        (s.mCpus (0 : Fin 1)).ProgramAddress + 1 :=
  @disassembler_executor _ (0 : Fin 1) (0o022105 <<< 32)
    (System.powerOn (Params.standard .YMP 1 (by decide)))
    (System.powerOn (Params.standard .YMP 1 (by decide))) rfl ⟨1, false⟩ ⟨1, false⟩ _ _ rfl rfl

end CraySim
