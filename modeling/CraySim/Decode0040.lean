/-
  Subject:   The decoders of the operation codes 0040 to 0077, `cray_cpu_inst_0040_0077.h`.

  Scalar logic, shifts, integer and floating point arithmetic, the clock, the semaphore and
  status registers, and single elements of vector registers.
-/
import CraySim.Decode0000
import CraySim.Float

namespace CraySim

namespace Inst

open Program

/-! ## 1. Shifts -/

def shiftRight (aValue : CInt) (aAmount : CAddr) : CInt :=
  if 64 ≤ aAmount.toNat then 0 else aValue >>> aAmount.toNat

def shiftLeft (aValue : CInt) (aAmount : CAddr) : CInt :=
  if 64 ≤ aAmount.toNat then 0 else aValue <<< aAmount.toNat

def doubleShiftRight (aFirst aSecond : CInt) (aAmount : CAddr) : CInt :=
  if 128 ≤ aAmount.toNat then 0
  else if 64 ≤ aAmount.toNat then aFirst >>> (aAmount.toNat - 64)
  else if aAmount = 0 then aSecond
  else (aSecond >>> aAmount.toNat) ||| (aFirst <<< (64 - aAmount.toNat))

def doubleShiftLeft (aFirst aSecond : CInt) (aAmount : CAddr) : CInt :=
  if 128 ≤ aAmount.toNat then 0
  else if 64 ≤ aAmount.toNat then aSecond <<< (aAmount.toNat - 64)
  else if aAmount = 0 then aFirst
  else (aFirst <<< aAmount.toNat) ||| (aSecond >>> (64 - aAmount.toNat))

/-- A floating point operation on words. -/
def floatOp (op : CFloat → CFloat → CFloat) (aJ aK : CInt) : CInt := (op ⟨aJ⟩ ⟨aK⟩).value

/-! ## 2. Scalar logic, shifts and arithmetic -/

section
variable (pm : Params) (b : Bool) (f : Fields)

/-- `Si exp` -/
def decode0040 : Inst Decoded := constantInst b f 0o040 fun v => .S f.i v

/-- `Si -exp` -/
def decode0041 : Inst Decoded := constantInst b f 0o041 fun v => .S f.i (~~~v)

/-- `Si <exp` -/
def decode0042 : Inst Decoded :=
  scalarInst 0o042 b f fun _ => .S f.i ((0xffffffffffffffff : CInt) >>> f.jk.val)

/-- `Si >exp` -/
def decode0043 : Inst Decoded :=
  scalarInst 0o043 b f fun _ =>
    .S f.i (if f.jk = 0 then 0 else (0xffffffffffffffff : CInt) <<< (64 - f.jk.val))

/-- `Si Sj&Sk` -/
def decode0044 : Inst Decoded :=
  scalarInst 0o044 b f fun c => .S f.i (c.refSj f.j &&& c.refSk f.k)

/-- `Si #Sk&Sj` -/
def decode0045 : Inst Decoded :=
  scalarInst 0o045 b f fun c => .S f.i (c.refSj f.j &&& ~~~c.refSk f.k)

/-- `Si Sj\Sk` -/
def decode0046 : Inst Decoded :=
  scalarInst 0o046 b f fun c => .S f.i (c.refSj f.j ^^^ c.refSk f.k)

/-- `Si #Sj\Sk` -/
def decode0047 : Inst Decoded :=
  scalarInst 0o047 b f fun c => .S f.i (~~~c.refSj f.j ^^^ c.refSk f.k)

/-- `Si Sj!Si&Sk` -/
def decode0050 : Inst Decoded :=
  scalarInst 0o050 b f fun c =>
    .S f.i ((c.refSj f.j &&& c.refSk f.k) ||| (c.refS f.i &&& ~~~c.refSk f.k))

/-- `Si Sj!Sk` -/
def decode0051 : Inst Decoded :=
  scalarInst 0o051 b f fun c => .S f.i (c.refSj f.j ||| c.refSk f.k)

/-- `S0 Si<exp` -/
def decode0052 : Inst Decoded :=
  scalarInst 0o052 b f fun c => .S 0 (shiftLeft (c.refS f.i) (BitVec.ofNat 32 f.jk.val))

/-- `S0 Si>exp` -/
def decode0053 : Inst Decoded :=
  scalarInst 0o053 b f fun c => .S 0 (shiftRight (c.refS f.i) (BitVec.ofNat 32 (64 - f.jk.val)))

/-- `Si Si<exp` -/
def decode0054 : Inst Decoded :=
  scalarInst 0o054 b f fun c => .S f.i (shiftLeft (c.refS f.i) (BitVec.ofNat 32 f.jk.val))

/-- `Si Si>exp` -/
def decode0055 : Inst Decoded :=
  scalarInst 0o055 b f fun c => .S f.i (shiftRight (c.refS f.i) (BitVec.ofNat 32 (64 - f.jk.val)))

/-- `Si Si,Sj<Ak` -/
def decode0056 : Inst Decoded :=
  scalarInst 0o056 b f fun c =>
    .S f.i (doubleShiftLeft (c.refS f.i) (c.refSj f.j) (c.refAk f.k))

/-- `Si Sj,Si>Ak` -/
def decode0057 : Inst Decoded :=
  scalarInst 0o057 b f fun c =>
    .S f.i (doubleShiftRight (c.refSj f.j) (c.refS f.i) (c.refAk f.k))

/-- `Si Sj+Sk` -/
def decode0060 : Inst Decoded :=
  scalarInst 0o060 b f fun c => .S f.i (c.refSj f.j + c.refSk f.k)

/-- `Si Sj-Sk` -/
def decode0061 : Inst Decoded :=
  scalarInst 0o061 b f fun c => .S f.i (c.refSj f.j - c.refSk f.k)

/-- `Si Sj+FSk` -/
def decode0062 : Inst Decoded :=
  scalarInst 0o062 b f fun c => .S f.i (floatOp CFloat.add (c.refSj f.j) (c.refSk f.k))

/-- `Si Sj-FSk` -/
def decode0063 : Inst Decoded :=
  scalarInst 0o063 b f fun c => .S f.i (floatOp CFloat.sub (c.refSj f.j) (c.refSk f.k))

/-- `Si Sj*FSk` -/
def decode0064 : Inst Decoded :=
  scalarInst 0o064 b f fun c => .S f.i (floatOp CFloat.mul (c.refSj f.j) (c.refSk f.k))

/-- `Si Sj*HSk` -/
def decode0065 : Inst Decoded :=
  scalarInst 0o065 b f fun c => .S f.i (floatOp halfPrecisionMult (c.refSj f.j) (c.refSk f.k))

/-- `Si Sj*RSk` -/
def decode0066 : Inst Decoded :=
  scalarInst 0o066 b f fun c => .S f.i (floatOp roundedMult (c.refSj f.j) (c.refSk f.k))

/-- `Si Sj*ISk` -/
def decode0067 : Inst Decoded :=
  scalarInst 0o067 b f fun c => .S f.i (floatOp reciprocIterate (c.refSj f.j) (c.refSk f.k))

/-- `Si /HSj` and `Si Sj*BT` -/
def decode0070 : Inst Decoded :=
  match f.k.val with
  | 0 => scalarInst 0o070 b f fun c => .S f.i (reciprocApprox ⟨c.refSj f.j⟩).value
  | 6 => do
    crayAssert (f.gh == 0o070)
    if pm.isSV1 then
      if b then
        let c ← cpu
        crayUndocumented c.Mode.mSv1BitMatrixLoaded
        let result ← foldUpTo c.VL.toNat (0 : CInt) fun idx result => do
          let c ← cpu
          let e ← element idx
          -- the subscript of the bit matrix is the one for writing
          write .vectorUsed
          pure (result ^^^ (c.refSj f.j &&& c.BitMatrix e))
        write (.S f.i result)
        next 1
      else next 1
    else crayUnknown
  | _ => do
    crayAssert (f.gh == 0o070)
    crayUnknown

/-- `Si +FAk`: the exponent of an integer and the magnitude; `abs` has no value for the smallest
    integer. -/
def floatOfInt (aAk : CAddr) : Inst CInt :=
  if aAk = 0x80000000 then throw .undefinedBehaviour
  else
    let result : CInt := (0o040060 : CInt) <<< 48
    if aAk.slt 0 then pure (result ||| CFloat.fractSignMask ||| (-aAk).setWidth 64)
    else pure (result ||| aAk.setWidth 64)

/-- `Si Ak`, `Si +Ak`, `Si +FAk` and the floating point constants -/
def decode0071 : Inst Decoded :=
  match f.j.val with
  | 0 => scalarInst 0o071 b f fun c => .S f.i ((c.refAk f.k).setWidth 64)
  | 1 => scalarInst 0o071 b f fun c =>
    .S f.i (if c.XMode then CXmpAddr.signExtendLongLong (CXmpAddr.ofAddr (c.refAk f.k))
      else (c.refAk f.k).signExtend 64)
  | 2 => do
    crayAssert (f.gh == 0o071)
    if b then
      let c ← cpu
      let result ← floatOfInt (c.signExtend (c.refAk f.k))
      write (.S f.i result)
      next 1
    else next 1
  | 3 => scalarInst 0o071 b f fun _ => .S f.i 0o0400606000000000000000
  | 4 => scalarInst 0o071 b f fun _ => .S f.i 0o0400004000000000000000
  | 5 => scalarInst 0o071 b f fun _ => .S f.i 0o0400014000000000000000
  | 6 => scalarInst 0o071 b f fun _ => .S f.i 0o0400024000000000000000
  | 7 => scalarInst 0o071 b f fun _ => .S f.i 0o0400034000000000000000
  | _ => do
    crayAssert (f.gh == 0o071)
    crayUnknown

end

/-! ## 3. Clock, semaphores and status -/

section
variable (pm : Params) (b : Bool) (f : Fields)

/-- The semaphores as one word, semaphore 0 leftmost. -/
def semaphoreWord (cl : InterCpuCluster) : CInt :=
  (List.finRange 32).foldl
    (fun ret n => (if cl.SM n then ret ||| ((1 : CInt) <<< 31) else ret) <<< 1) 0

/-- `Si RT`, `Si SM` and `Si STj` -/
def decode0072 : Inst Decoded := do
  crayAssert (f.gh == 0o072)
  match f.k.val with
  | 0 =>
    if b then
      let v ← getRealTimeClock
      write (.S f.i v)
      breakBurst 1
    else next 1
  | 2 =>
    if b then
      let c ← cpu
      if c.Cluster.toNat > 0 then
        let cl ← cluster
        write (.S f.i (semaphoreWord cl))
        breakBurst 1
      else next 1
    else next 1
  | 3 =>
    if b then
      let c ← cpu
      if c.Cluster.toNat > 0 then
        let cl ← cluster
        write (.S f.i (cl.ST f.j))
        breakBurst 1
      else next 1
    else next 1
  | _ => crayUnknown

/-- `GetSR(0)`: the status register. -/
def getSR (pm : Params) (c : Cpu) : CInt :=
  let one (v : Bool) : CInt := if v then 1 else 0
  let ret := setBits 0 63 63 (one (c.Cluster != 0))
  let ret := if pm.isXmp then setBits ret 57 57 (one c.XmpProgramState) else ret
  let ret := if pm.isJ90OrSV1 then setBits ret 57 57 (one c.Mode.mSv1BitMatrixLoaded) else ret
  let ret := setBits ret 51 51 (one c.Mode.mFloatingPointErrorStatus)
  let ret := setBits ret 50 50 (one c.Mode.mFloatingPointErrorMode)
  let ret := setBits ret 49 49 (one c.Mode.mOperandRangeErrorMode)
  let ret := setBits ret 48 48 (one c.Mode.mBidirectionalMemoryMode)
  let ret := setBits ret 44 40 (BitVec.ofNat 64 c.mCpuId)
  setBits ret 37 32 (c.Cluster.setWidth 64)

/-- `SimToHost`: a simulated program ends the simulation with the word `exit`. -/
def simToHost (aValue : CInt) : Inst CInt :=
  if aValue &&& 0xffffffff == 0x65786974 then throw .terminate
  else pure (0x8000000000000000 ||| aValue)

/-- `HostToSim`: there is nothing to read. -/
def hostToSim : CInt := 0x8000000000000000

/-- `Si SR0`, the performance counters and the channel to the host; the codes of that channel
    fall into those of unknown instructions. -/
def decode0073k1 : Inst Decoded :=
  match f.j.val with
  | 0 =>
    if b then do
      let c ← cpu
      write (.S f.i (getSR pm c))
      breakBurst 1
    else next 1
  | 1 =>
    if b then do
      let c ← cpu
      if c.isMonitorMode then
        write (.S f.i 0)
        next 1
      else next 1
    else next 1
  | 2 | 3 => next 1
  | 4 => do
    if b then
      let c ← cpu
      let v ← simToHost (c.refS f.i)
      write (.S f.i v)
    crayUnknown
  | 6 => if pm.isXmp then crayUnknown else next 1
  | 7 => do
    if b then
      write (.S f.i hostToSim)
    crayUnknown
  | _ => crayUnknown

/-- `Si VM`, `Si SR0`, `SM Si`, `STj Si` and the end of the simulation -/
def decode0073 : Inst Decoded := do
  crayAssert (f.gh == 0o073)
  match f.k.val with
  | 0 =>
    if b then
      let c ← cpu
      write (.S f.i c.VM)
      next 1
    else next 1
  | 1 => decode0073k1 pm b f
  | 2 =>
    if b then
      let c ← cpu
      if c.Cluster.toNat > 0 then
        let newVal := c.refS f.i
        forUpTo 32 fun n => command (.setSM (Fin.ofNat 32 n) (getBit newVal (63 - n) != 0))
        breakBurst 1
      else next 1
    else next 1
  | 3 =>
    if b then
      let c ← cpu
      if c.Cluster.toNat > 0 then
        command (.setST f.j (c.refS f.i))
        breakBurst 1
      else next 1
    else next 1
  | 5 => if f.i = 0 ∧ f.j = 1 then throw .terminateInstError else crayUnknown
  | _ => crayUnknown

/-! ## 4. Intermediate registers and single vector elements -/

/-- `Si Tjk` -/
def decode0074 : Inst Decoded := scalarInst 0o074 b f fun c => .S f.i (c.refT f.jk)

/-- `Tjk Si` -/
def decode0075 : Inst Decoded := scalarInst 0o075 b f fun c => .T f.jk (c.refS f.i)

/-- The element `Ak` selects. -/
def elementOfAk (c : Cpu) (f : Fields) : Fin 64 := Fin.ofNat 64 (c.refAk f.k).toNat

/-- `Si Vj,Ak` -/
def decode0076 : Inst Decoded := scalarInst 0o076 b f fun c => .S f.i (c.V f.j (elementOfAk c f))

/-- `Vi,Ak Sj` -/
def decode0077 : Inst Decoded := do
  crayAssert (f.gh == 0o077)
  if b then
    let c ← cpu
    write (.V f.i (elementOfAk c f) (c.refSj f.j))
    write .vectorUsed
    next 1
  else next 1

end

section spec
variable {pm : Params} {b : Bool} {f : Fields} {x : Bool} {monitor : Prop}

theorem decode0070_decodes : Decodes pm f x monitor (decode0070 pm b f) := by
  unfold decode0070
  split
  · exact scalarInst_decodes (fun _ => rfl) fun _ => trivial
  · refine asserted_decodes (fun _ => rfl) fun hlen => ?_
    split
    · refine executed_decodes hlen ?_
      simp only [Decodes, within_bind, within_cpu, within_crayUndocumented]
      intro c _ _ c' _ _ _
      apply within_foldUpTo (I := fun _ => True)
      · intro idx result _
        simp [Allowed]
      · trivial
      · intro result _
        simp [Allowed, Advance, Fields.length, hlen]
    · exact crayUnknown_decodes hlen
  · exact asserted_decodes (fun _ => rfl) crayUnknown_decodes

theorem within_floatOfInt {Q : (r : Req) → Resp r → Prop} {p : Req → Prop} {a : CAddr}
    {post : CInt → Prop} (h : ∀ v, post v) : (floatOfInt a).Within Q p post := by
  unfold floatOfInt
  split
  · trivial
  · split
    · exact h _
    · exact h _

theorem decode0071_decodes : Decodes pm f x monitor (decode0071 b f) := by
  unfold decode0071
  split
  · exact scalarInst_decodes (fun _ => rfl) fun _ => trivial
  · exact scalarInst_decodes (fun _ => rfl) fun _ => trivial
  · refine asserted_decodes (fun _ => rfl) fun hlen => executed_decodes hlen ?_
    simp only [Decodes, within_bind, within_cpu]
    intro c _ _
    apply within_floatOfInt
    intro v
    simp [Allowed, Advance, Fields.length, hlen]
  · exact scalarInst_decodes (fun _ => rfl) fun _ => trivial
  · exact scalarInst_decodes (fun _ => rfl) fun _ => trivial
  · exact scalarInst_decodes (fun _ => rfl) fun _ => trivial
  · exact scalarInst_decodes (fun _ => rfl) fun _ => trivial
  · exact scalarInst_decodes (fun _ => rfl) fun _ => trivial
  · exact asserted_decodes (fun _ => rfl) crayUnknown_decodes

theorem decode0072_decodes : Decodes pm f x monitor (decode0072 b f) := by
  unfold decode0072
  refine asserted_decodes (fun _ => rfl) fun hlen => ?_
  split
  · refine executed_decodes hlen ?_
    simp [Decodes, Allowed, Advance, Fields.length, hlen]
  · refine executed_decodes hlen ?_
    simp [Decodes, within_ite, Allowed, Advance, Fields.length, hlen]
  · refine executed_decodes hlen ?_
    simp [Decodes, within_ite, Allowed, Advance, Fields.length, hlen]
  · exact crayUnknown_decodes hlen

theorem decode0073k1_decodes (hlen : opLength f.gh x = 1) :
    Decodes pm f x monitor (decode0073k1 pm b f) := by
  have hunknown : (crayUnknown).Within (Answers x monitor) (Allowed pm f monitor) (Advance f x) :=
    crayUnknown_decodes hlen
  unfold decode0073k1
  split
  · refine executed_decodes hlen ?_
    simp [Decodes, Decodes, Allowed, Advance, Fields.length, hlen]
  · refine executed_decodes hlen ?_
    simp [Decodes, Decodes, within_ite, Allowed, Advance, Fields.length, hlen]
  · exact Or.inl hlen.symm
  · exact Or.inl hlen.symm
  · cases b
    · exact hunknown
    · simp [Decodes, simToHost, within_ite, Allowed, hunknown]
  · split
    · exact hunknown
    · exact Or.inl hlen.symm
  · cases b
    · exact hunknown
    · simp [Decodes, Allowed, hunknown]
  · exact hunknown

theorem decode0073_decodes : Decodes pm f x monitor (decode0073 pm b f) := by
  unfold decode0073
  refine asserted_decodes (fun _ => rfl) fun hlen => ?_
  split
  · refine executed_decodes hlen ?_
    simp [Decodes, Allowed, Advance, Fields.length, hlen]
  · exact decode0073k1_decodes hlen
  · refine executed_decodes hlen ?_
    simp only [Decodes, within_bind, within_cpu]
    intro c _ _
    rw [within_ite]
    refine ⟨fun _ => ?_, fun _ => Or.inl hlen.symm⟩
    rw [within_bind]
    apply within_forUpTo
    · intro n
      simp [Allowed]
    · exact Or.inl hlen.symm
  · refine executed_decodes hlen ?_
    simp [Decodes, within_ite, Allowed, Advance, Fields.length, hlen]
  · split
    · trivial
    · exact crayUnknown_decodes hlen
  · exact crayUnknown_decodes hlen

theorem decode0077_decodes : Decodes pm f x monitor (decode0077 b f) := by
  unfold decode0077
  refine asserted_decodes (fun _ => rfl) fun hone => executed_decodes hone ?_
  simp [Decodes, Allowed, Advance, Fields.length, hone]

/-- The decoders of the codes 0040 to 0077. -/
def implementations0040 (pm : Params) : List (Bool → Fields → Inst Decoded) := [
  decode0040, decode0041, decode0042, decode0043,
  decode0044, decode0045, decode0046, decode0047,
  decode0050, decode0051, decode0052, decode0053,
  decode0054, decode0055, decode0056, decode0057,
  decode0060, decode0061, decode0062, decode0063,
  decode0064, decode0065, decode0066, decode0067,
  decode0070 pm, decode0071, decode0072, decode0073 pm,
  decode0074, decode0075, decode0076, decode0077]

theorem implementations0040_decodes :
    ∀ inst ∈ implementations0040 pm, Decodes pm f x monitor (inst b f) := by
  have hscalar : ∀ {aGh : Nat} {w : Cpu → RegWrite}, (∀ x, opLength aGh x = 1) →
      (∀ c, Allowed pm f monitor (.write (w c))) →
      Decodes pm f x monitor (scalarInst aGh b f w) := scalarInst_decodes
  simp only [implementations0040, List.forall_mem_cons]
  refine ⟨constantInst_decodes ?_ ?_, constantInst_decodes ?_ ?_, hscalar ?_ ?_, hscalar ?_ ?_,
    hscalar ?_ ?_, hscalar ?_ ?_, hscalar ?_ ?_, hscalar ?_ ?_, hscalar ?_ ?_, hscalar ?_ ?_,
    hscalar ?_ ?_, hscalar ?_ ?_, hscalar ?_ ?_, hscalar ?_ ?_, hscalar ?_ ?_, hscalar ?_ ?_,
    hscalar ?_ ?_, hscalar ?_ ?_, hscalar ?_ ?_, hscalar ?_ ?_, hscalar ?_ ?_, hscalar ?_ ?_,
    hscalar ?_ ?_, hscalar ?_ ?_, decode0070_decodes, decode0071_decodes, decode0072_decodes,
    decode0073_decodes, hscalar ?_ ?_, hscalar ?_ ?_, hscalar ?_ ?_, decode0077_decodes,
    List.forall_mem_nil _⟩
  all_goals first | exact fun _ => rfl | exact fun _ => trivial

end spec

end Inst

end CraySim
