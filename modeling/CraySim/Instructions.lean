/-
  Subject:   The frame every instruction decoder is written in.

  * `Fields`, `extractFields` -- `EXTRACT_FIELDS`, the fields of a window of three parcels,
  * `Inst`, `Decoded` -- a decoder: its requests, the parcels it takes, the burst flag,
  * `crayUnknown` … -- the macros for codes without a documented meaning,
  * `Allowed`, `Advance` -- which requests an instruction makes and how far `P` moves,
  * `scalarInst`, `jumpInst`, `vectorInst` -- the large families of instructions.
-/
import CraySim.Requests

namespace CraySim

/-! ## 1. Instruction fields -/

/-- `EXTRACT_FIELDS`: the fields of an instruction, named as in the manual. -/
structure Fields where
  gh : Nat
  h : Fin 8
  i : Fin 8
  j : Fin 8
  k : Fin 8
  jk : Fin 64
  jkm : BitVec 22
  ijkm : BitVec 25
  mn : BitVec 32

def firstParcel (aInst : CInt) : CParcel := (aInst >>> 32).setWidth 16
def secondParcel (aInst : CInt) : CParcel := (aInst >>> 16).setWidth 16
def thirdParcel (aInst : CInt) : CParcel := aInst.setWidth 16

def extractFields (aInst : CInt) : Fields where
  gh := ((firstParcel aInst &&& 0o177000) >>> 9).toNat
  h := Fin.ofNat 8 ((firstParcel aInst &&& 0o007000) >>> 9).toNat
  i := Fin.ofNat 8 ((firstParcel aInst &&& 0o000700) >>> 6).toNat
  j := Fin.ofNat 8 ((firstParcel aInst &&& 0o000070) >>> 3).toNat
  k := Fin.ofNat 8 (firstParcel aInst &&& 0o000007).toNat
  jk := Fin.ofNat 64 (firstParcel aInst &&& 0o000077).toNat
  jkm := ((aInst &&& 0x003fffff0000) >>> 16).setWidth 22
  ijkm := ((aInst &&& 0x01ffffff0000) >>> 16).setWidth 25
  mn := (secondParcel aInst).setWidth 32 ||| ((thirdParcel aInst).setWidth 32 <<< 16)

namespace Fields

variable (f : Fields)

/-- The jumps: `P` is not what follows the instruction. -/
def isJump : Bool := 0o005 ≤ f.gh && f.gh ≤ 0o017

/-- `SMjk 1,TS`. -/
def isTestAndSet : Bool := f.gh == 0o003 && f.i == 4

/-- `CCI`. -/
def isCCI : Bool := f.gh == 0o001 && f.i == 4 && f.k == 5

/-- `CLN`. -/
def isCLN : Bool := f.gh == 0o001 && f.i == 4 && f.k == 3

end Fields

/-- The parcels of an instruction: constants have one parcel more in Y mode. -/
def opLength (gh : Nat) (aXMode : Bool) : Nat :=
  if 0o006 ≤ gh ∧ gh ≤ 0o017 then 2
  else if gh = 0o020 ∨ gh = 0o021 ∨ gh = 0o040 ∨ gh = 0o041 ∨ 0o100 ≤ gh ∧ gh ≤ 0o137 then
    (if aXMode then 2 else 3)
  else 1

def Fields.length (f : Fields) (aXMode : Bool) : Nat := opLength f.gh aXMode

/-- The length behind an assertion about the operation code. -/
theorem Fields.length_of_gh {f : Fields} {gh n : Nat} {aXMode : Bool} (h : (f.gh == gh) = true)
    (hn : opLength gh aXMode = n) : f.length aXMode = n := by
  rw [Fields.length, eq_of_beq h, hn]

/-- What the fields of a window satisfy: a 7 bit code, and without the top bit of `i` the long
    constant has 24 bits. -/
structure Fields.WellFormed (f : Fields) : Prop where
  gh_lt : f.gh < 128
  ijkm_lt : f.i.val &&& 4 = 0 → f.ijkm.toNat < 2 ^ 24

theorem extractFields_wellFormed (aInst : CInt) : (extractFields aInst).WellFormed := by
  constructor
  · have hlt := (firstParcel aInst &&& 0o177000).isLt
    have heq : (extractFields aInst).gh = (firstParcel aInst &&& 0o177000).toNat >>> 9 :=
      BitVec.toNat_ushiftRight ..
    rw [heq, Nat.shiftRight_eq_div_pow]
    omega
  · intro h
    -- the top bits of both fields are bit 40 of the window
    have hbit : aInst[40] = false := by
      have h2 : ((extractFields aInst).i.val &&& 4).testBit 2 = false := by
        rw [h]
        rfl
      have hi : (extractFields aInst).i.val =
          ((firstParcel aInst &&& 0o000700) >>> 6).toNat % 2 ^ 3 := rfl
      have h4 : Nat.testBit 4 2 = true := rfl
      rw [Nat.testBit_and, hi, Nat.testBit_mod_two_pow, BitVec.testBit_toNat, h4] at h2
      simpa [firstParcel, BitVec.getLsbD_and, BitVec.getLsbD_ushiftRight] using h2
    have hmsb : (extractFields aInst).ijkm.msb = false := by
      rw [BitVec.msb_eq_getLsbD_last]
      simpa [extractFields] using hbit
    have := BitVec.msb_eq_false_iff_two_mul_lt.mp hmsb
    omega

/-! ## 2. Decoders -/

/-- What a decoder returns: the increment of `P`, and `aBreakBurst`. -/
structure Decoded where
  increment : Nat
  breakBurst : Bool
  deriving DecidableEq

/-- A computation of a decoder. -/
abbrev Inst := Program Req Resp Exn

namespace Inst

/-- `return aIncrement`. -/
def next (aIncrement : Nat) : Inst Decoded := pure ⟨aIncrement, false⟩

/-- `aBreakBurst = true; return aIncrement`. -/
def breakBurst (aIncrement : Nat) : Inst Decoded := pure ⟨aIncrement, true⟩

def ask (r : Req) : Inst (Resp r) := Program.request r

/-- The registers of the processor, as they are now. -/
def cpu : Inst Cpu := ask .cpu

/-- A request for its effect. -/
def command (r : Req) : Inst Unit := do
  let _ ← ask r
  pure ()

def write (w : RegWrite) : Inst Unit := command (.write w)

def readDataMem (aAddr : CAddr) : Inst CInt := ask (.readDataMem aAddr)

def writeDataMem (aAddr : CAddr) (aData : CInt) : Inst Unit := command (.writeDataMem aAddr aData)

/-- The registers of the own cluster. -/
def cluster : Inst InterCpuCluster := ask .cluster

def testAndSet (jk : Fin 32) : Inst Bool := ask (.testAndSet jk)

def getRealTimeClock : Inst CInt := ask .realTimeClock

def channels : Inst (List (Option Channel)) := ask .channels

def throw {α : Type} (e : Exn) : Inst α := Program.raise e

def crayAssert (aCond : Bool) : Inst Unit := if aCond then pure () else throw .assertion

def crayUnknown : Inst Decoded := do
  let c ← cpu
  if c.mThrowOnUnknown then throw .unknownInstError else next 1

def crayUnimplemented (aDoExecute : Bool) : Inst Decoded := do
  let c ← cpu
  if aDoExecute && c.mThrowOnUnimplemented then throw .instUnimplementedError else next 1

/-- `CRAY_UNDOCUMENTED_FLOW_THROUGH`. -/
def crayUndocumented (aCond : Bool) : Inst Unit := do
  let c ← cpu
  if !aCond && c.mThrowOnUnknown then throw .undocumentedInstError else pure ()

/-- An element index; past the end of a vector the behaviour is undefined. -/
def element (aIdx : Nat) : Inst (Fin 64) :=
  if h : aIdx < 64 then pure ⟨aIdx, h⟩ else throw .undefinedBehaviour

end Inst

/-! ## 3. What instructions do -/

/-- What is known of the answers: the addressing mode, and that the processor is in monitor mode
    only if `monitor` holds. -/
def Answers (aXMode : Bool) (monitor : Prop) : (r : Req) → Resp r → Prop
  | .cpu, (c : Cpu) => c.XMode = aXMode ∧ (c.isMonitorMode = true → monitor)
  | _, _ => True

/-- **The requests of an instruction**: privileged ones in monitor mode only, a vector length that
    fits, a new `P` from jumps only, `CCI` alone clears the clock interrupt and `CLN` alone changes
    the cluster. -/
def Allowed (pm : Params) (f : Fields) (monitor : Prop) : Req → Prop
  | .write (.VL v) => v.toNat ≤ 64
  | .write (.ProgramAddress v) => f.isJump = true ∧ (f.gh = 0o005 ∨ f.gh = 0o007 ∨ v.toNat < 2 ^ 24)
  | .testAndSet _ => f.isTestAndSet = true
  | .privWrite .clearProgrammableClockInterrupt => monitor ∧ f.isCCI = true
  | .privWrite _ | .setRealTimeClock _ | .setInterProcessorInterrupt _ | .channelOp _ _ => monitor
  | .setCluster v => monitor ∧ v.toNat ≤ pm.clusterCnt ∧ f.isCLN = true
  | _ => True

/-- `P` moves over the instruction, unless it jumps or blocks. -/
def Advance (f : Fields) (aXMode : Bool) (d : Decoded) : Prop :=
  d.increment = f.length aXMode ∨
    d.increment = 0 ∧ (f.isJump = true ∨ f.isTestAndSet = true)

/-- The specification every decoder meets. -/
def Decodes (pm : Params) (f : Fields) (aXMode : Bool) (monitor : Prop) (m : Inst Decoded) : Prop :=
  m.Within (Answers aXMode monitor) (Allowed pm f monitor) (Advance f aXMode)

namespace Inst

open Program

section spec
variable {pm : Params} {f : Fields} {x : Bool} {monitor : Prop}

@[simp] theorem within_cpu {post : Cpu → Prop} :
    cpu.Within (Answers x monitor) (Allowed pm f monitor) post ↔
      ∀ c : Cpu, c.XMode = x → (c.isMonitorMode = true → monitor) → post c := by
  constructor
  · rintro ⟨-, h⟩ c hx hm
    exact h c ⟨hx, hm⟩
  · intro h
    exact ⟨trivial, fun c hc => h c hc.1 hc.2⟩

variable {post : Unit → Prop} {p : Req → Prop}

@[simp] theorem within_write {w : RegWrite} :
    (write w).Within (Answers x monitor) (Allowed pm f monitor) post ↔
      Allowed pm f monitor (.write w) ∧ post () :=
  and_congr_right fun _ => ⟨fun h => h () trivial, fun h _ _ => h⟩

@[simp] theorem within_ask {r : Req} {Q : (r : Req) → Resp r → Prop}
    {post : Resp r → Prop} : (ask r).Within Q p post ↔ p r ∧ ∀ a, Q r a → post a := Iff.rfl

@[simp] theorem within_command {r : Req} {Q : (r : Req) → Resp r → Prop}
    :
    (command r).Within Q p post ↔ p r ∧ ∀ a, Q r a → post () := Iff.rfl

@[simp] theorem within_readDataMem {a : CAddr} {post : CInt → Prop} :
    (readDataMem a).Within (Answers x monitor) (Allowed pm f monitor) post ↔ ∀ v, post v :=
  ⟨fun h v => h.2 v trivial, fun h => ⟨trivial, fun v _ => h v⟩⟩

@[simp] theorem within_writeDataMem {a : CAddr} {v : CInt} :
    (writeDataMem a v).Within (Answers x monitor) (Allowed pm f monitor) post ↔ post () :=
  ⟨fun h => h.2 () trivial, fun h => ⟨trivial, fun _ _ => h⟩⟩

@[simp] theorem within_cluster {post : InterCpuCluster → Prop} :
    cluster.Within (Answers x monitor) (Allowed pm f monitor) post ↔ ∀ cl, post cl :=
  ⟨fun h cl => h.2 cl trivial, fun h => ⟨trivial, fun cl _ => h cl⟩⟩

@[simp] theorem within_testAndSet {jk : Fin 32} {post : Bool → Prop} :
    (testAndSet jk).Within (Answers x monitor) (Allowed pm f monitor) post ↔
      f.isTestAndSet = true ∧ ∀ blocked, post blocked :=
  and_congr_right fun _ => ⟨fun h v => h v trivial, fun h v _ => h v⟩

@[simp] theorem within_getRealTimeClock {post : CInt → Prop} :
    getRealTimeClock.Within (Answers x monitor) (Allowed pm f monitor) post ↔ ∀ v, post v :=
  ⟨fun h v => h.2 v trivial, fun h => ⟨trivial, fun v _ => h v⟩⟩

@[simp] theorem within_channels {post : List (Option Channel) → Prop} :
    channels.Within (Answers x monitor) (Allowed pm f monitor) post ↔ ∀ chs, post chs :=
  ⟨fun h chs => h.2 chs trivial, fun h => ⟨trivial, fun chs _ => h chs⟩⟩

@[simp] theorem within_throw {α : Type} {Q : (r : Req) → Resp r → Prop}
    {post : α → Prop} {e : Exn} : (throw e : Inst α).Within Q p post ↔ True := Iff.rfl

@[simp] theorem within_next {Q : (r : Req) → Resp r → Prop}
    {post : Decoded → Prop} {n : Nat} : (next n).Within Q p post ↔ post ⟨n, false⟩ := Iff.rfl

@[simp] theorem within_breakBurst {Q : (r : Req) → Resp r → Prop}
    {post : Decoded → Prop} {n : Nat} : (breakBurst n).Within Q p post ↔ post ⟨n, true⟩ := Iff.rfl

@[simp] theorem within_crayAssert {Q : (r : Req) → Resp r → Prop}
    {b : Bool} : (crayAssert b).Within Q p post ↔ (b = true → post ()) := by
  cases b
  · simp [crayAssert]
  · simp [crayAssert]

@[simp] theorem within_crayUndocumented {b : Bool} :
    (crayUndocumented b).Within (Answers x monitor) (Allowed pm f monitor) post ↔
      ∀ c : Cpu, c.XMode = x → (c.isMonitorMode = true → monitor) →
        (b = false → c.mThrowOnUnknown = false) → post () := by
  unfold crayUndocumented
  rw [within_bind, within_cpu]
  refine forall_congr' fun c => imp_congr_right fun _ => imp_congr_right fun _ => ?_
  rw [within_ite]
  cases b <;> cases c.mThrowOnUnknown <;> simp

@[simp] theorem within_element {Q : (r : Req) → Resp r → Prop} {n : Nat}
    {post : Fin 64 → Prop} : (element n).Within Q p post ↔ ∀ h : n < 64, post ⟨n, h⟩ := by
  unfold element
  split
  · rename_i h
    exact ⟨fun hp _ => hp, fun hp => hp h⟩
  · rename_i h
    exact ⟨fun _ h' => absurd h' h, fun _ => trivial⟩

theorem crayUnknown_decodes (h : opLength f.gh x = 1) : Decodes pm f x monitor crayUnknown := by
  unfold Decodes crayUnknown
  rw [within_bind, within_cpu]
  intro c _ _
  rw [within_ite]
  exact ⟨fun _ => trivial, fun _ => Or.inl h.symm⟩

theorem crayUnimplemented_decodes (b : Bool) (h : opLength f.gh x = 1) :
    Decodes pm f x monitor (crayUnimplemented b) := by
  unfold Decodes crayUnimplemented
  rw [within_bind, within_cpu]
  intro c _ _
  rw [within_ite]
  exact ⟨fun _ => trivial, fun _ => Or.inl h.symm⟩

/-- Behind the assertion of a code of one parcel. -/
theorem asserted_decodes {aGh : Nat} {rest : Unit → Inst Decoded} (hlen : ∀ x, opLength aGh x = 1)
    (h : opLength f.gh x = 1 → Decodes pm f x monitor (rest ())) :
    Decodes pm f x monitor (crayAssert (f.gh == aGh) >>= rest) := by
  unfold Decodes
  rw [within_bind, within_crayAssert]
  exact fun hgh => h (Fields.length_of_gh hgh (hlen x))

/-- An instruction that is not executed only has its length. -/
theorem executed_decodes {b : Bool} {body : Inst Decoded} (hlen : opLength f.gh x = 1)
    (h : Decodes pm f x monitor body) :
    Decodes pm f x monitor (if b then body else next 1) := by
  cases b
  · exact Or.inl hlen.symm
  · exact h

end spec

/-! ## 4. Families of instructions -/

/-- An instruction of one parcel that sets one register. -/
def scalarInst (aGh : Nat) (aDoExecute : Bool) (f : Fields) (w : Cpu → RegWrite) :
    Inst Decoded := do
  crayAssert (f.gh == aGh)
  if aDoExecute then
    let c ← cpu
    write (w c)
    next 1
  else next 1

/-- A conditional jump; with the top bit of `i` set it loads a constant in X mode. -/
def jumpInst (aGh : Nat) (aDoExecute : Bool) (f : Fields) (aCond : Cpu → Bool) :
    Inst Decoded := do
  crayAssert (f.gh == aGh)
  if aDoExecute then
    let c ← cpu
    if f.i.val &&& 4 = 0 then
      if aCond c then
        write (.ProgramAddress (f.ijkm.setWidth 32))
        next 0
      else next 2
    else if c.XMode then
      write (.A f.h ((f.ijkm &&& 0xffffff).setWidth 32))
      next 2
    else next 2
  else next 2

/-- A vector instruction that computes one element after the other; it reads the registers anew
    for every element, so an operand that is the target is read as it is then. -/
def vectorInst (aGh : Nat) (aDoExecute : Bool) (f : Fields) (op : Cpu → Fin 64 → CInt) :
    Inst Decoded := do
  crayAssert (f.gh == aGh)
  if aDoExecute then
    let c ← cpu
    crayAssert (c.VL ≤ 64)
    Program.forUpTo c.VL.toNat fun idx => do
      let e ← element idx
      let c ← cpu
      write (.V f.i e (op c e))
    write .vectorUsed
    next 1
  else next 1

section families
variable {pm : Params} {f : Fields} {x : Bool} {monitor : Prop} {aGh : Nat} {b : Bool}

theorem scalarInst_decodes {w : Cpu → RegWrite} (hlen : ∀ x, opLength aGh x = 1)
    (hw : ∀ c, Allowed pm f monitor (.write (w c))) :
    Decodes pm f x monitor (scalarInst aGh b f w) := by
  unfold scalarInst
  refine asserted_decodes hlen fun hone => executed_decodes hone ?_
  simp [Decodes, hw, Advance, Fields.length, hone]

theorem jumpInst_decodes {cond : Cpu → Bool} (hgh : 0o010 ≤ aGh ∧ aGh ≤ 0o017)
    (hf : f.i.val &&& 4 = 0 → f.ijkm.toNat < 2 ^ 24) :
    Decodes pm f x monitor (jumpInst aGh b f cond) := by
  unfold Decodes jumpInst
  rw [within_bind, within_crayAssert]
  intro h
  have hg : f.gh = aGh := eq_of_beq h
  have htwo : f.length x = 2 := by
    rw [Fields.length, hg, opLength, if_pos ⟨by omega, hgh.2⟩]
  have hjump : f.isJump = true := by
    unfold Fields.isJump
    simp only [Bool.and_eq_true, decide_eq_true_eq]
    omega
  cases b
  · exact Or.inl htwo.symm
  · simp only [↓reduceIte, within_bind, within_cpu]
    intro c _ _
    rw [within_ite]
    refine ⟨fun hi => ?_, fun _ => ?_⟩
    · rw [within_ite]
      refine ⟨fun _ => ?_, fun _ => Or.inl htwo.symm⟩
      have hlt := hf hi
      rw [within_bind, within_write]
      refine ⟨⟨hjump, Or.inr (Or.inr ?_)⟩, Or.inr ⟨rfl, Or.inl hjump⟩⟩
      rw [BitVec.toNat_setWidth, Nat.mod_eq_of_lt (by omega)]
      exact hlt
    · rw [within_ite]
      refine ⟨fun _ => ?_, fun _ => Or.inl htwo.symm⟩
      rw [within_bind, within_write]
      exact ⟨trivial, Or.inl htwo.symm⟩

theorem vectorInst_decodes {op : Cpu → Fin 64 → CInt} (hlen : ∀ x, opLength aGh x = 1) :
    Decodes pm f x monitor (vectorInst aGh b f op) := by
  unfold vectorInst
  refine asserted_decodes hlen fun hone => executed_decodes hone ?_
  simp only [Decodes, within_bind, within_cpu, within_crayAssert]
  intro c _ _ _
  apply within_forUpTo
  · intro idx
    simp [Allowed]
  · simp [Allowed, Advance, Fields.length, hone]

end families

end Inst

end CraySim
