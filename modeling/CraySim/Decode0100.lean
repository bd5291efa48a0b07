/-
  Subject:   The decoders of the operation codes 0100 to 0177, and the dispatch.

  `cray_cpu_inst_0100_0137.h` and `cray_cpu_inst_0140_0177.h`: scalar loads and stores, and the
  vector instructions.

  * `instImplementations`, `decode` -- the table of decoders and the dispatch on `gh`,
  * `decode_decodes` -- the specification of every instruction.
-/
import CraySim.Decode0040

namespace CraySim

namespace Inst

open Program

/-! ## 1. Scalar loads and stores -/

section
variable (pm : Params) (b : Bool) (f : Fields)

/-- The offset of a scalar access: 22 bits with a sign in X mode, 32 bits in Y mode. -/
def scalarOffset (c : Cpu) (f : Fields) : CAddr :=
  if c.XMode then c.signExtend ((CXmpAddr.signExtendShort (f.jkm.setWidth 24)).setWidth 32)
  else f.mn

/-- The address of a scalar access: 22 bits on an X-MP without enhanced addressing. -/
def scalarAddr (pm : Params) (c : Cpu) (f : Fields) : CAddr :=
  let addr := c.refAj f.h + scalarOffset c f
  if pm.isXmp && !c.XmpEnhancedAddressingMode then
    (CXmpAddr.applyShortMask (CXmpAddr.ofAddr addr)).setWidth 32
  else addr

/-- A scalar load or store; `access` moves the word at the address. -/
def scalarAccess (aGroup : Nat) (access : Cpu → CAddr → Inst Unit) : Inst Decoded := do
  crayAssert (f.gh &&& 0o170 == aGroup)
  let c ← cpu
  if b then
    crayUndocumented (c.XMode || f.jk == 0)
    access c (scalarAddr pm c f)
    next (if c.XMode then 2 else 3)
  else next (if c.XMode then 2 else 3)

/-- `Ai exp,Ah` -/
def decode010x : Inst Decoded := scalarAccess pm b f 0o100 fun _ addr => do
  let v ← readDataMem addr
  write (.A f.i (v.setWidth 32))

/-- `exp,Ah Ai` -/
def decode011x : Inst Decoded := scalarAccess pm b f 0o110 fun c addr =>
  writeDataMem addr ((c.refA f.i).setWidth 64)

/-- `Si exp,Ah` -/
def decode012x : Inst Decoded := scalarAccess pm b f 0o120 fun _ addr => do
  let v ← readDataMem addr
  write (.S f.i v)

/-- `exp,Ah Si` -/
def decode013x : Inst Decoded := scalarAccess pm b f 0o130 fun c addr =>
  writeDataMem addr (c.refS f.i)

end

/-! ## 2. Vector logic, shifts and arithmetic -/

/-- The rounds of the first loop of `IntMult`: the partial products of the upper bits. -/
def intMultLoop : Nat → CInt → CInt → CInt → CInt
  | 0, _, _, s5 => s5
  | n + 1, s3, s4, s5 =>
    let s4 := s4 <<< 1
    let s5 := if s4.slt 0 then s5 + s3 else s5
    if s4 != 0 then intMultLoop n (s3 >>> 1) s4 s5 else s5

/-- The rounds of the second loop of `IntMult`: 15 bits of the multiplier. -/
def intMultLow : Nat → CInt → CInt → CInt → CInt
  | 0, _, _, s6 => s6
  | n + 1, s3, s4, s6 =>
    intMultLow n (s3 <<< 1) (s4 >>> 1) (if (s4 <<< 63).slt 0 then s6 + s3 else s6)

def intMult (aScalar aVector : CInt) : CInt :=
  let s5 : CInt := (1 : CInt) <<< 48 - 1
  let s3 := (aScalar &&& s5) <<< 7
  let s4 := (aVector &&& s5) <<< 15
  let s5 := intMultLoop 64 s3 s4 9 >>> 7
  let s6 : CInt := (1 : CInt) <<< 15 - 1
  let s6 := intMultLow 15 ((aScalar >>> 48) &&& s6) ((aVector >>> 16) &&& s6) 0 <<< 17
  (s5 + s6) &&& ((1 : CInt) <<< 32 - 1)

section
variable (pm : Params) (b : Bool) (f : Fields)

/-- An instruction of a scalar and a vector. -/
def vectorSV (aGh : Nat) (op : CInt → CInt → CInt) : Inst Decoded :=
  vectorInst aGh b f fun c e => op (c.refSj f.j) (c.V f.k e)

/-- An instruction of two vectors. -/
def vectorVV (aGh : Nat) (op : CInt → CInt → CInt) : Inst Decoded :=
  vectorInst aGh b f fun c e => op (c.V f.j e) (c.V f.k e)

/-- The vector mask bit of an element. -/
def maskBit (c : Cpu) (e : Fin 64) : Bool := c.VM &&& ((0x8000000000000000 : CInt) >>> e.val) != 0

/-- `Vi Sj&Vk` -/
def decode0140 : Inst Decoded := vectorSV b f 0o140 (· &&& ·)
/-- `Vi Vj&Vk` -/
def decode0141 : Inst Decoded := vectorVV b f 0o141 (· &&& ·)
/-- `Vi Sj!Vk` -/
def decode0142 : Inst Decoded := vectorSV b f 0o142 (· ||| ·)
/-- `Vi Vj!Vk` -/
def decode0143 : Inst Decoded := vectorVV b f 0o143 (· ||| ·)
/-- `Vi Sj\Vk` -/
def decode0144 : Inst Decoded := vectorSV b f 0o144 (· ^^^ ·)
/-- `Vi Vj\Vk` -/
def decode0145 : Inst Decoded := vectorVV b f 0o145 (· ^^^ ·)

/-- `Vi Sj!Vk&VM` -/
def decode0146 : Inst Decoded :=
  vectorInst 0o146 b f fun c e => if maskBit c e then c.refSj f.j else c.V f.k e

/-- `Vi Vj!Vk&VM` -/
def decode0147 : Inst Decoded :=
  vectorInst 0o147 b f fun c e => if maskBit c e then c.V f.j e else c.V f.k e

/-- `Vi Vj<Ak` -/
def decode0150 : Inst Decoded :=
  vectorInst 0o150 b f fun c e => shiftLeft (c.V f.j e) (c.refAk f.k)

/-- `Vi Vj>Ak` -/
def decode0151 : Inst Decoded :=
  vectorInst 0o151 b f fun c e => shiftRight (c.V f.j e) (c.refAk f.k)

/-- `Vi Vj,Vj<Ak` -/
def decode0152 : Inst Decoded := do
  crayAssert (f.gh == 0o152)
  if b then
    let c ← cpu
    crayUndocumented (c.VL != 0)
    crayAssert (c.VL ≤ 64)
    if c.VL != 0 then
      forUpTo (c.VL.toNat - 1) fun idx => do
        let e ← element idx
        let e' ← element (idx + 1)
        let c ← cpu
        write (.V f.i e (doubleShiftLeft (c.V f.j e) (c.V f.j e') (c.refAk f.k)))
      let last ← element (c.VL.toNat - 1)
      let c ← cpu
      write (.V f.i last (doubleShiftLeft (c.V f.j last) 0 (c.refAk f.k)))
    write .vectorUsed
    next 1
  else next 1

/-- `Vi Vj,Vj>Ak` -/
def decode0153 : Inst Decoded := do
  crayAssert (f.gh == 0o153)
  if b then
    let c ← cpu
    crayAssert (c.VL ≤ 64)
    write (.V f.i 0 (doubleShiftRight 0 (c.V f.j 0) (c.refAk f.k)))
    forUpTo (c.VL.toNat - 1) fun idx => do
      let e ← element idx
      let e' ← element (idx + 1)
      let c ← cpu
      write (.V f.i e' (doubleShiftRight (c.V f.j e) (c.V f.j e') (c.refAk f.k)))
    write .vectorUsed
    next 1
  else next 1

/-- `Vi Sj+Vk` -/
def decode0154 : Inst Decoded := vectorSV b f 0o154 (· + ·)
/-- `Vi Vj+Vk` -/
def decode0155 : Inst Decoded := vectorVV b f 0o155 (· + ·)
/-- `Vi Sj-Vk` -/
def decode0156 : Inst Decoded := vectorSV b f 0o156 (· - ·)
/-- `Vi Vj-Vk` -/
def decode0157 : Inst Decoded := vectorVV b f 0o157 (· - ·)
/-- `Vi Sj*FVk` -/
def decode0160 : Inst Decoded := vectorSV b f 0o160 (floatOp CFloat.mul)
/-- `Vi Vj*FVk` -/
def decode0161 : Inst Decoded := vectorVV b f 0o161 (floatOp CFloat.mul)
/-- `Vi Sj*HVk`: the half precision type is the full precision one, and so is its product. -/
def decode0162 : Inst Decoded := vectorSV b f 0o162 (floatOp CFloat.mul)
/-- `Vi Vj*HVk` -/
def decode0163 : Inst Decoded := vectorVV b f 0o163 (floatOp CFloat.mul)
/-- `Vi Sj*RVk` -/
def decode0164 : Inst Decoded := vectorSV b f 0o164 (floatOp roundedMult)
/-- `Vi Vj*RVk` -/
def decode0165 : Inst Decoded := vectorVV b f 0o165 (floatOp roundedMult)

/-- `Vi Sj*IVk` in X mode, `Vi Sj*Vk` in Y mode -/
def decode0166 : Inst Decoded := do
  let c ← cpu
  if c.XMode then vectorSV b f 0o166 (floatOp reciprocIterate)
  else vectorSV b f 0o166 intMult

/-- `Vi Vj*IVk` -/
def decode0167 : Inst Decoded := vectorVV b f 0o167 (floatOp reciprocIterate)
/-- `Vi Sj+FVk` -/
def decode0170 : Inst Decoded := vectorSV b f 0o170 (floatOp CFloat.add)
/-- `Vi Vj+FVk` -/
def decode0171 : Inst Decoded := vectorVV b f 0o171 (floatOp CFloat.add)
/-- `Vi Sj-FVk` -/
def decode0172 : Inst Decoded := vectorSV b f 0o172 (floatOp CFloat.sub)
/-- `Vi Vj-FVk` -/
def decode0173 : Inst Decoded := vectorVV b f 0o173 (floatOp CFloat.sub)

/-- An instruction of one vector. -/
def vectorV (op : CInt → CInt) : Inst Decoded :=
  vectorInst 0o174 b f fun c e => op (c.V f.j e)

/-- `BMM Vj`: the bit matrix is loaded from a vector. -/
def loadBitMatrix : Inst Decoded :=
  if b then do
    let c ← cpu
    crayAssert (c.VL ≤ 64)
    forUpTo c.VL.toNat fun idx => do
      let e ← element idx
      let c ← cpu
      write .vectorUsed
      write (.bitMatrix e (c.V f.j e))
    write .vectorUsed
    crayAssert (c.Mode.mMachineType == .SV1)
    write (.sv1BitMatrixLoaded true)
    next 1
  else next 1

/-- The value of `RefSj` with the loop variable `idx` for `j`: there are eight registers. -/
def loopSj (c : Cpu) (idx : Nat) : Inst CInt :=
  if h : idx < 8 then pure (c.refSj ⟨idx, h⟩) else throw .undefinedBehaviour

/-- `Vi Vj*BMM^T`: the loop variables of the source hide the fields `j` and `i`. -/
def bitMatrixProduct : Inst Decoded :=
  if b then do
    let c ← cpu
    crayUndocumented c.Mode.mSv1BitMatrixLoaded
    crayAssert (c.VL ≤ 64)
    forUpTo c.VL.toNat fun idx => do
      let result ← foldUpTo c.VL.toNat (0 : CInt) fun row result => do
        let c ← cpu
        let e ← element row
        let sj ← loopSj c idx
        write .vectorUsed
        pure (result ^^^ (sj &&& c.BitMatrix e))
      let e ← element idx
      write (.V f.i e result)
    write .vectorUsed
    next 1
  else next 1

/-- `Vi /HVj`, `Vi PVj`, `Vi QVj`, `Vi ZVj`, `BMM Vj` and `Vi Vj*BMM^T` -/
def decode0174 : Inst Decoded := do
  crayAssert (f.gh == 0o174)
  match f.k.val with
  | 0 => vectorV b f fun v => (reciprocApprox ⟨v⟩).value
  | 1 => vectorV b f fun v => (populationCnt v).setWidth 64
  | 2 => vectorV b f fun v => (populationCntParity v).setWidth 64
  | 3 =>
    if pm.isJ90OrSV1 then vectorV b f fun v => (leadingZeroCnt v).setWidth 64
    else crayUnknown
  | 4 => if pm.isSV1 then loadBitMatrix b f else crayUnknown
  | 6 => if pm.isSV1 then bitMatrixProduct b f else crayUnknown
  | _ => crayUnknown

/-- The tests of a vector mask instruction: zero, not zero, positive, negative. -/
def maskTest (k : Nat) (v : CInt) : Bool :=
  match k % 4 with
  | 0 => v == 0
  | 1 => v != 0
  | 2 => !v.slt 0
  | _ => v.slt 0

/-- `VM Vj,…`: the elements that pass a test become the vector mask. -/
def vectorMaskInst (test : CInt → Bool) : Inst Decoded :=
  if b then do
    let c ← cpu
    crayAssert (c.VL ≤ 64)
    let newVM ← foldUpTo c.VL.toNat (0 : CInt) fun idx newVM => do
      let e ← element idx
      let c ← cpu
      pure (newVM ||| (if test (c.V f.j e) then (0x8000000000000000 : CInt) >>> idx else 0))
    write (.VM newVM)
    write .vectorUsed
    next 1
  else next 1

/-- `Vi,VM Vj,…`: the indices of these elements go to `Vi` as well. -/
def compressedIndexInst (test : CInt → Bool) : Inst Decoded :=
  if b then do
    let c ← cpu
    crayAssert (c.VL ≤ 64)
    let r ← foldUpTo c.VL.toNat ((0 : CInt), 0) fun idx r => do
      let e ← element idx
      let c ← cpu
      if test (c.V f.j e) then
        let dst ← element r.2
        write (.V f.i dst (BitVec.ofNat 64 idx))
        pure (r.1 ||| (0x8000000000000000 : CInt) >>> idx, r.2 + 1)
      else pure r
    write (.VM r.1)
    write .vectorUsed
    next 1
  else next 1

/-- `VM Vj,…` and `Vi,VM Vj,…` -/
def decode0175 : Inst Decoded := do
  crayAssert (f.gh == 0o175)
  if f.k.val < 4 then vectorMaskInst b f (maskTest f.k.val)
  else compressedIndexInst b f (maskTest f.k.val)

/-! ## 3. Vector loads and stores -/

/-- The address of an element, from a stride or from a vector of offsets. -/
def strideAddr (increment : CAddr) (c : Cpu) (idx : Nat) : CAddr :=
  c.refA 0 + increment * BitVec.ofNat 32 idx

def gatherAddr (f : Fields) (c : Cpu) (e : Fin 64) : CAddr := c.refA 0 + (c.V f.k e).setWidth 32

/-- A vector load. -/
def vectorLoad (addr : Cpu → Cpu → Fin 64 → CAddr) : Inst Decoded :=
  if b then do
    let c₀ ← cpu
    crayAssert (c₀.VL ≤ 64)
    forUpTo c₀.VL.toNat fun idx => do
      let e ← element idx
      let c ← cpu
      let v ← readDataMem (addr c₀ c e)
      write (.V f.i e v)
    write .vectorUsed
    next 1
  else next 1

/-- A vector store. -/
def vectorStore (addr : Cpu → Cpu → Fin 64 → CAddr) : Inst Decoded :=
  if b then do
    let c₀ ← cpu
    crayAssert (c₀.VL ≤ 64)
    forUpTo c₀.VL.toNat fun idx => do
      let e ← element idx
      let c ← cpu
      writeDataMem (addr c₀ c e) (c.V f.j e)
    next 1
  else next 1

/-- The stride of a vector access, read before the loop. -/
def strided (f : Fields) (c₀ c : Cpu) (e : Fin 64) : CAddr :=
  strideAddr (c₀.signExtend (c₀.refAk f.k)) c e.val

/-- The offsets of a vector access, read element by element. -/
def gathered (f : Fields) (_c₀ c : Cpu) (e : Fin 64) : CAddr := gatherAddr f c e

/-- `Vi ,A0,Ak` and `Vi ,A0,Vk` -/
def decode0176 : Inst Decoded := do
  crayAssert (f.gh == 0o176)
  match f.j.val with
  | 0 => vectorLoad b f (strided f)
  | 1 => vectorLoad b f (gathered f)
  | _ => crayUnimplemented b

/-- `,A0,Ak Vj` and `,A0,Vk Vj` -/
def decode0177 : Inst Decoded := do
  crayAssert (f.gh == 0o177)
  match f.i.val with
  | 0 => vectorStore b f (strided f)
  | 1 => vectorStore b f (gathered f)
  | _ => crayUnimplemented b

end

section spec
variable {pm : Params} {b : Bool} {f : Fields} {x : Bool} {monitor : Prop} {aGh : Nat}

theorem group_range {gh aGroup : Nat} (hlo : 0o100 ≤ aGroup) (hhi : aGroup ≤ 0o130)
    (hgh : gh < 128) (h : gh &&& 0o170 = aGroup) : 0o100 ≤ gh ∧ gh ≤ 0o137 := by
  have hle : gh &&& 0o170 ≤ gh := Nat.and_le_left
  have h140 : ∀ g < 128, 0o137 < g → 0o140 ≤ g &&& 0o170 := by decide
  refine ⟨by omega, ?_⟩
  by_contra hgt
  have := h140 gh hgh (by omega)
  omega

theorem scalarAccess_decodes {aGroup : Nat} {access : Cpu → CAddr → Inst Unit}
    (hgh : f.gh < 128) (hgroup : 0o100 ≤ aGroup ∧ aGroup ≤ 0o130)
    (haccess : ∀ c addr, (access c addr).Within (Answers x monitor) (Allowed pm f monitor)
      fun _ => True) :
    Decodes pm f x monitor (scalarAccess pm b f aGroup access) := by
  unfold Decodes scalarAccess
  rw [within_bind, within_crayAssert]
  intro h
  have hrange := group_range hgroup.1 hgroup.2 hgh (eq_of_beq h)
  have hlen : f.length x = if x then 2 else 3 := by
    rw [Fields.length, opLength, if_neg (by omega), if_pos (by omega)]
  rw [within_bind, within_cpu]
  rintro c rfl -
  rw [within_ite]
  refine ⟨fun _ => ?_, fun _ => Or.inl hlen.symm⟩
  rw [within_bind, within_crayUndocumented]
  intro _ _ _ _
  rw [within_bind]
  exact (haccess c _).mono (fun _ _ h => h) (fun _ h => h) fun _ _ => Or.inl hlen.symm

theorem decode010x_decodes (hgh : f.gh < 128) : Decodes pm f x monitor (decode010x pm b f) :=
  scalarAccess_decodes hgh (by decide) fun _ _ => by simp [Allowed]

theorem decode011x_decodes (hgh : f.gh < 128) : Decodes pm f x monitor (decode011x pm b f) :=
  scalarAccess_decodes hgh (by decide) fun _ _ => by simp

theorem decode012x_decodes (hgh : f.gh < 128) : Decodes pm f x monitor (decode012x pm b f) :=
  scalarAccess_decodes hgh (by decide) fun _ _ => by simp [Allowed]

theorem decode013x_decodes (hgh : f.gh < 128) : Decodes pm f x monitor (decode013x pm b f) :=
  scalarAccess_decodes hgh (by decide) fun _ _ => by simp

theorem decode0152_decodes : Decodes pm f x monitor (decode0152 b f) := by
  unfold decode0152
  refine asserted_decodes (fun _ => rfl) fun hone => executed_decodes hone ?_
  simp only [Decodes, within_bind, within_cpu, within_crayUndocumented, within_crayAssert]
  intro c _ _ _ _ _ _ _
  rw [within_ite]
  refine ⟨fun _ => ?_, fun _ => by simp [Allowed, Advance, Fields.length, hone]⟩
  rw [within_bind]
  apply within_forUpTo
  · intro idx
    simp [Allowed]
  · simp [Allowed, Advance, Fields.length, hone]

theorem decode0153_decodes : Decodes pm f x monitor (decode0153 b f) := by
  unfold decode0153
  refine asserted_decodes (fun _ => rfl) fun hone => executed_decodes hone ?_
  simp only [Decodes, within_bind, within_cpu, within_crayAssert, within_write]
  intro c _ _ _
  refine ⟨trivial, ?_⟩
  apply within_forUpTo
  · intro idx
    simp [Allowed]
  · simp [Allowed, Advance, Fields.length, hone]

theorem decode0166_decodes : Decodes pm f x monitor (decode0166 b f) := by
  unfold Decodes decode0166
  rw [within_bind, within_cpu]
  intro c _ _
  rw [within_ite]
  exact ⟨fun _ => vectorInst_decodes fun _ => rfl, fun _ => vectorInst_decodes fun _ => rfl⟩

theorem loadBitMatrix_decodes (hlen : opLength f.gh x = 1) :
    Decodes pm f x monitor (loadBitMatrix b f) := by
  cases b
  · exact Or.inl hlen.symm
  · simp only [Decodes, loadBitMatrix, ↓reduceIte, within_bind, within_cpu, within_crayAssert]
    intro c _ _ _
    apply within_forUpTo
    · intro idx
      simp [Allowed]
    · simp [Allowed, Advance, Fields.length, hlen]

theorem within_loopSj {Q : (r : Req) → Resp r → Prop} {p : Req → Prop} {c : Cpu} {idx : Nat}
    {post : CInt → Prop} (h : ∀ v, post v) : (loopSj c idx).Within Q p post := by
  unfold loopSj
  split
  · exact h _
  · trivial

theorem bitMatrixProduct_decodes (hlen : opLength f.gh x = 1) :
    Decodes pm f x monitor (bitMatrixProduct b f) := by
  cases b
  · exact Or.inl hlen.symm
  · simp only [Decodes, bitMatrixProduct, ↓reduceIte, within_bind, within_cpu,
      within_crayUndocumented, within_crayAssert]
    intro c _ _ _ _ _ _ _
    apply within_forUpTo
    · intro idx
      rw [within_bind]
      apply within_foldUpTo (I := fun _ => True)
      · intro row result _
        simp only [within_bind, within_cpu, within_element]
        intro _ _ _ _
        apply within_loopSj
        simp [Allowed]
      · trivial
      · intro result _
        simp [Allowed]
    · simp [Allowed, Advance, Fields.length, hlen]

theorem decode0174_decodes : Decodes pm f x monitor (decode0174 pm b f) := by
  unfold decode0174
  refine asserted_decodes (fun _ => rfl) fun hlen => ?_
  split
  · exact vectorInst_decodes fun _ => rfl
  · exact vectorInst_decodes fun _ => rfl
  · exact vectorInst_decodes fun _ => rfl
  · split
    · exact vectorInst_decodes fun _ => rfl
    · exact crayUnknown_decodes hlen
  · split
    · exact loadBitMatrix_decodes hlen
    · exact crayUnknown_decodes hlen
  · split
    · exact bitMatrixProduct_decodes hlen
    · exact crayUnknown_decodes hlen
  · exact crayUnknown_decodes hlen

theorem vectorMaskInst_decodes {test : CInt → Bool} (hlen : opLength f.gh x = 1) :
    Decodes pm f x monitor (vectorMaskInst b f test) := by
  cases b
  · exact Or.inl hlen.symm
  · simp only [Decodes, vectorMaskInst, ↓reduceIte, within_bind, within_cpu, within_crayAssert]
    intro c _ _ _
    apply within_foldUpTo (I := fun _ => True)
    · intro idx newVM _
      simp
    · trivial
    · intro newVM _
      simp [Allowed, Advance, Fields.length, hlen]

theorem compressedIndexInst_decodes {test : CInt → Bool} (hlen : opLength f.gh x = 1) :
    Decodes pm f x monitor (compressedIndexInst b f test) := by
  cases b
  · exact Or.inl hlen.symm
  · simp only [Decodes, compressedIndexInst, ↓reduceIte, within_bind, within_cpu,
      within_crayAssert]
    intro c _ _ _
    apply within_foldUpTo (I := fun _ => True)
    · intro idx r _
      simp [within_ite, Allowed]
    · trivial
    · intro r _
      simp [Allowed, Advance, Fields.length, hlen]

theorem decode0175_decodes : Decodes pm f x monitor (decode0175 b f) := by
  unfold decode0175
  refine asserted_decodes (fun _ => rfl) fun hlen => ?_
  split
  · exact vectorMaskInst_decodes hlen
  · exact compressedIndexInst_decodes hlen

theorem vectorLoad_decodes {addr : Cpu → Cpu → Fin 64 → CAddr} (hlen : opLength f.gh x = 1) :
    Decodes pm f x monitor (vectorLoad b f addr) := by
  cases b
  · exact Or.inl hlen.symm
  · simp only [Decodes, vectorLoad, ↓reduceIte, within_bind, within_cpu, within_crayAssert]
    intro c _ _ _
    apply within_forUpTo
    · intro idx
      simp [Allowed]
    · simp [Allowed, Advance, Fields.length, hlen]

theorem vectorStore_decodes {addr : Cpu → Cpu → Fin 64 → CAddr} (hlen : opLength f.gh x = 1) :
    Decodes pm f x monitor (vectorStore b f addr) := by
  cases b
  · exact Or.inl hlen.symm
  · simp only [Decodes, vectorStore, ↓reduceIte, within_bind, within_cpu, within_crayAssert]
    intro c _ _ _
    apply within_forUpTo
    · intro idx
      simp
    · simp [Advance, Fields.length, hlen]

theorem decode0176_decodes : Decodes pm f x monitor (decode0176 b f) := by
  unfold decode0176
  refine asserted_decodes (fun _ => rfl) fun hlen => ?_
  split
  · exact vectorLoad_decodes hlen
  · exact vectorLoad_decodes hlen
  · exact crayUnimplemented_decodes b hlen

theorem decode0177_decodes : Decodes pm f x monitor (decode0177 b f) := by
  unfold decode0177
  refine asserted_decodes (fun _ => rfl) fun hlen => ?_
  split
  · exact vectorStore_decodes hlen
  · exact vectorStore_decodes hlen
  · exact crayUnimplemented_decodes b hlen

/-- The decoders of the codes 0100 to 0137: `h` is the low digit of the code. -/
def implementations0100 (pm : Params) : List (Bool → Fields → Inst Decoded) :=
  List.replicate 8 (decode010x pm) ++ List.replicate 8 (decode011x pm)
    ++ List.replicate 8 (decode012x pm) ++ List.replicate 8 (decode013x pm)

theorem implementations0100_decodes (hf : f.WellFormed) :
    ∀ inst ∈ implementations0100 pm, Decodes pm f x monitor (inst b f) := by
  intro inst hinst
  simp only [implementations0100, List.mem_append, List.mem_replicate] at hinst
  obtain ((⟨-, rfl⟩ | ⟨-, rfl⟩) | ⟨-, rfl⟩) | ⟨-, rfl⟩ := hinst
  · exact decode010x_decodes hf.gh_lt
  · exact decode011x_decodes hf.gh_lt
  · exact decode012x_decodes hf.gh_lt
  · exact decode013x_decodes hf.gh_lt

/-- The decoders of the codes 0140 to 0177. -/
def implementations0140 (pm : Params) : List (Bool → Fields → Inst Decoded) := [
  decode0140, decode0141, decode0142, decode0143,
  decode0144, decode0145, decode0146, decode0147,
  decode0150, decode0151, decode0152, decode0153,
  decode0154, decode0155, decode0156, decode0157,
  decode0160, decode0161, decode0162, decode0163,
  decode0164, decode0165, decode0166, decode0167,
  decode0170, decode0171, decode0172, decode0173,
  decode0174 pm, decode0175, decode0176, decode0177]

theorem implementations0140_decodes :
    ∀ inst ∈ implementations0140 pm, Decodes pm f x monitor (inst b f) := by
  have hvector : ∀ {aGh : Nat} {op : Cpu → Fin 64 → CInt}, (∀ x, opLength aGh x = 1) →
      Decodes pm f x monitor (vectorInst aGh b f op) := vectorInst_decodes
  simp only [implementations0140, List.forall_mem_cons]
  exact ⟨hvector fun _ => rfl, hvector fun _ => rfl, hvector fun _ => rfl, hvector fun _ => rfl,
    hvector fun _ => rfl, hvector fun _ => rfl, hvector fun _ => rfl, hvector fun _ => rfl,
    hvector fun _ => rfl, hvector fun _ => rfl, decode0152_decodes, decode0153_decodes,
    hvector fun _ => rfl, hvector fun _ => rfl, hvector fun _ => rfl, hvector fun _ => rfl,
    hvector fun _ => rfl, hvector fun _ => rfl, hvector fun _ => rfl, hvector fun _ => rfl,
    hvector fun _ => rfl, hvector fun _ => rfl, decode0166_decodes, hvector fun _ => rfl,
    hvector fun _ => rfl, hvector fun _ => rfl, hvector fun _ => rfl, hvector fun _ => rfl,
    decode0174_decodes, decode0175_decodes, decode0176_decodes, decode0177_decodes,
    List.forall_mem_nil _⟩

end spec

/-! ## 4. Dispatch -/

/-- `mInstImplementations`. -/
def instImplementations (pm : Params) : List (Bool → Fields → Inst Decoded) :=
  implementations0000 pm ++ implementations0040 pm ++ implementations0100 pm
    ++ implementations0140 pm

/-- `Decode`: the decoder the operation code selects. -/
def decode (pm : Params) (aDoExecute : Bool) (aParcels : CInt) : Inst Decoded :=
  let f := extractFields aParcels
  match (instImplementations pm)[f.gh]? with
  | some inst => inst aDoExecute f
  | none => throw .assertion

/-- **The specification of every instruction**, for every window of parcels. -/
theorem decode_decodes (pm : Params) (b : Bool) (aParcels : CInt) (x : Bool) (monitor : Prop) :
    Decodes pm (extractFields aParcels) x monitor (decode pm b aParcels) := by
  have hf := extractFields_wellFormed aParcels
  unfold decode
  dsimp only
  split
  · rename_i inst hinst
    have hmem := List.mem_of_getElem? hinst
    simp only [instImplementations, List.mem_append] at hmem
    obtain ((h | h) | h) | h := hmem
    · exact implementations0000_decodes hf inst h
    · exact implementations0040_decodes inst h
    · exact implementations0100_decodes hf inst h
    · exact implementations0140_decodes inst h
  · trivial

end Inst

end CraySim
