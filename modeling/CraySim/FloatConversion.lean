/-
  Subject:   From an A register to a floating point number, in two instructions.

  `Si +FAk` puts sign and magnitude of an integer behind the exponent of an integer; a floating
  add with zero normalizes the word. The file runs the two instructions after each other.

  * `Cpu.signedAk` -- the integer in an A register, in either address mode,
  * `floatWord_fields` -- the unnormalized word,
  * `add_floatWord_val` -- adding zero keeps its value,
  * `float_conversion_iff` -- **the result is the integer, except for the smallest one of Y mode**,
    whose magnitude the code has no value for.
-/
import CraySim.FloatSum
import CraySim.VectorFloat
import CraySim.Addressing

namespace CraySim

/-! ## 1. The unnormalized word -/

/-- The integer in `Ak`: 24 bits in X mode, 32 in Y mode. -/
def Cpu.signedAk (c : Cpu) (k : Fin 8) : ℤ :=
  if c.XMode then (CXmpAddr.ofAddr (c.refAk k)).toInt else (c.refAk k).toInt

theorem Cpu.toInt_signExtend (c : Cpu) (k : Fin 8) :
    (c.signExtend (c.refAk k)).toInt = c.signedAk k := by
  rw [signExtend, signedAk]
  cases c.XMode with
  | true =>
    rw [if_pos rfl, if_pos rfl, CXmpAddr.signExtend_eq, BitVec.toInt_signExtend_of_le (by decide)]
  | false => rfl

/-- The word `Si +FAk` builds of an integer that has a magnitude. -/
def floatWord (aAk : CAddr) : CFloat :=
  CFloat.ofParts ((0x4030 : Nat) - CFloat.expOfs) (!aAk.slt 0)
    ((if aAk.slt 0 then -aAk else aAk).setWidth 64)

namespace Inst

/-- **`Si +FAk`**: every integer but the smallest one has a word. -/
theorem floatOfInt_eq (aAk : CAddr) :
    floatOfInt aAk = if aAk = 0x80000000 then throw .undefinedBehaviour
      else pure (floatWord aAk).value := by
  have hexp : (BitVec.ofInt 64 ((0x4030 : Nat) - CFloat.expOfs + CFloat.expOfs) &&& 0x7fff) <<<
      CFloat.expBitPos = (0o040060 : CInt) <<< 48 := by decide
  have hfract : ∀ x : CAddr, x.setWidth 64 &&& CFloat.fractMask = x.setWidth 64 := fun x => by
    refine WordField.and_mask_of_lt (n := 48) _ ?_
    have hlt := x.isLt
    rw [BitVec.toNat_setWidth]
    omega
  rw [floatOfInt]
  by_cases h : aAk = 0x80000000
  · rw [if_pos h, if_pos h]
  · rw [if_neg h, if_neg h, floatWord, CFloat.ofParts, hexp, hfract]
    cases aAk.slt 0 with
    | true => rfl
    | false =>
      simp only [Bool.false_eq_true, if_false, Bool.not_false, if_true]
      rw [show (0 : CInt) = 0#64 from rfl, BitVec.or_zero]

end Inst

theorem floatWord_fields (aAk : CAddr) :
    (floatWord aAk).rawExp = 0x4030 ∧
      signedFract (floatWord aAk).isPositive (floatWord aAk).uFract.toNat = aAk.toInt := by
  have hlt := aAk.isLt
  refine ⟨CFloat.rawExp_ofParts 0x4030 (by decide) _ _, ?_⟩
  rw [floatWord, CFloat.isPositive_ofParts, CFloat.toNat_uFract_ofParts, BitVec.toNat_setWidth,
    show (0 : CAddr) = 0#32 from rfl, BitVec.slt_zero_eq_msb, BitVec.toInt_eq_msb_cond]
  cases hm : aAk.msb with
  | true =>
    have hge : 2 ^ 31 ≤ aAk.toNat := by
      rwa [BitVec.msb_eq_decide, decide_eq_true_eq] at hm
    rw [if_pos rfl, if_pos rfl, BitVec.toNat_neg, Bool.not_true, signedFract_false]
    omega
  | false =>
    rw [if_neg (by decide), if_neg (by decide), Bool.not_false, signedFract_true]
    omega

/-- **Adding zero to the word** gives the integer. -/
theorem add_floatWord_val (aAk : CAddr) {z : CFloat} (hz : z.underflowOrValue = ⟨0⟩) :
    ((floatWord aAk).add z).val = aAk.toInt := by
  obtain ⟨hexp, hsigned⟩ := floatWord_fields aAk
  have hz0 : (⟨0⟩ : CFloat).rawExp = 0 := by decide
  have hself : (floatWord aAk).underflowOrValue = floatWord aAk := by
    rw [CFloat.underflowOrValue, hexp]
    rfl
  have hsum : alignedSum (floatWord aAk) ⟨0⟩ = aAk.toInt := by
    rw [alignedSum, hsigned, show (⟨0⟩ : CFloat).uFract.toNat = 0 by decide, Nat.zero_div,
      show (⟨0⟩ : CFloat).isPositive = true by decide, signedFract_true, Nat.cast_zero, Int.add_zero]
  have hlo := BitVec.le_toInt aAk
  have hhi := BitVec.toInt_lt (x := aAk)
  have hcarry : sumCarry (floatWord aAk) ⟨0⟩ = 0 := by
    rw [sumCarry, hsum]
    omega
  have hval := (add_val hself hz (by rw [hz0, hexp]; decide) (by rw [hexp]; decide)
    (by rw [hexp]; decide)).1
  have hkept : keptPart aAk.toInt 0 = aAk.toInt := by
    rw [keptPart]
    split <;> omega
  rw [hval, hsum, hcarry, hkept, CFloat.ulp, hexp]
  norm_num

/-! ## 2. The two instructions -/

/-- One operand of a floating add is register `i`, the other one is zero to the adder. -/
def AddsZero (c : Cpu) (f : Fields) (i : Fin 8) : Prop :=
  i ≠ 0 ∧
    (f.k = i ∧ f.j ≠ i ∧ (CFloat.mk (c.refSj f.j)).underflowOrValue = ⟨0⟩ ∨
      f.j = i ∧ f.k ≠ i ∧ (CFloat.mk (c.refSk f.k)).underflowOrValue = ⟨0⟩)

instance (c : Cpu) (f : Fields) (i : Fin 8) : Decidable (AddsZero c f i) :=
  inferInstanceAs (Decidable (_ ∧ _))

namespace Inst

open Program

/-- `Si +FAk`: the word is stored, the smallest integer has none. -/
theorem convert_run {pm : Params} {me : Fin pm.cpuCnt} {s : System pm} {f : Fields}
    (hgh : f.gh = 0o071) (hj : f.j = 2) :
    (decode0071 true f).run (handler me) s =
      if (s.mCpus me).signExtend ((s.mCpus me).refAk f.k) = 0x80000000 then
        (.error .undefinedBehaviour, s)
      else (.ok ⟨1, false⟩, s.modifyCpu me (RegWrite.S f.i
        (floatWord ((s.mCpus me).signExtend ((s.mCpus me).refAk f.k))).value).apply) := by
  have hinst : decode0071 true f = (do
      crayAssert (f.gh == 0o071)
      let c ← cpu
      let result ← floatOfInt (c.signExtend (c.refAk f.k))
      write (.S f.i result)
      next 1) := by
    rw [decode0071, hj]
    rfl
  rw [hinst, crayAssert_bind (beq_iff_eq.mpr hgh), run_cpu_bind, floatOfInt_eq]
  by_cases h : (s.mCpus me).signExtend ((s.mCpus me).refAk f.k) = 0x80000000
  · rw [if_pos h, if_pos h]
    rfl
  · rw [if_neg h, if_neg h]
    rfl

end Inst

/-- The smallest integer there is no magnitude for. -/
theorem Cpu.signExtend_eq_smallest (c : Cpu) (k : Fin 8) :
    c.signExtend (c.refAk k) = 0x80000000 ↔ c.XMode = false ∧ c.refAk k = 0x80000000 := by
  rw [signExtend]
  cases c.XMode with
  | true =>
    rw [if_pos rfl, CXmpAddr.signExtend_eq]
    refine iff_of_false (fun h => ?_) (by simp)
    have hint := congrArg BitVec.toInt h
    rw [BitVec.toInt_signExtend_of_le (by decide)] at hint
    have hlo := BitVec.le_toInt (CXmpAddr.ofAddr (c.refAk k))
    rw [hint] at hlo
    exact absurd hlo (by decide)
  | false =>
    rw [if_neg (by decide)]
    simp

/-- What the second instruction adds: the word of the first one and a zero. -/
theorem add_converted_val {pm : Params} {me : Fin pm.cpuCnt} {s : System pm} {g : Fields} {i : Fin 8}
    (hzero : AddsZero (s.mCpus me) g i) (a : CAddr) :
    (CFloat.mk ((CFloat.mk (((s.modifyCpu me (RegWrite.S i (floatWord a).value).apply).mCpus
          me).refSj g.j)).add
        ⟨((s.modifyCpu me (RegWrite.S i (floatWord a).value).apply).mCpus me).refSk
          g.k⟩).value).val = a.toInt := by
  obtain ⟨hi, hops⟩ := hzero
  have hself : ((s.modifyCpu me (RegWrite.S i (floatWord a).value).apply).mCpus me).S i =
      (floatWord a).value := by
    rw [System.modifyCpu_self]
    exact Function.update_self i _ _
  have hother : ∀ r, r ≠ i → ((s.modifyCpu me (RegWrite.S i (floatWord a).value).apply).mCpus
      me).S r = (s.mCpus me).S r := fun r hr => by
    rw [System.modifyCpu_self]
    exact Function.update_of_ne hr _ _
  have heta : ∀ x : CFloat, CFloat.mk x.value = x := fun _ => rfl
  generalize s.modifyCpu me (RegWrite.S i (floatWord a).value).apply = s' at hself hother ⊢
  rcases hops with ⟨hk, hj, hz⟩ | ⟨hj, hk, hz⟩
  · have hzj : (s'.mCpus me).refSj g.j = (s.mCpus me).refSj g.j := by
      rw [Cpu.refSj, Cpu.refSj, hother _ hj]
    rw [heta, hzj, Cpu.refSk, hk, if_neg hi, hself, heta, CFloat.add_comm]
    exact add_floatWord_val a hz
  · have hzk : (s'.mCpus me).refSk g.k = (s.mCpus me).refSk g.k := by
      rw [Cpu.refSk, Cpu.refSk, hother _ hk]
    rw [heta, hzk, Cpu.refSj, hj, if_neg hi, hself, heta]
    exact add_floatWord_val a hz

section conversion
variable {pm : Params} (me : Fin pm.cpuCnt) (s : System pm) (aConvert aAdd : CInt)

/-- **The conversion idiom**: `Si +FAk` and then a floating add of `Si` with zero leave the integer
    of `Ak` as a floating point number, exactly unless `Ak` is the smallest integer of Y mode. -/
theorem float_conversion_iff (hgh : (extractFields aConvert).gh = 0o071)
    (hj : (extractFields aConvert).j = 2) (hadd : (extractFields aAdd).gh = 0o062)
    (hzero : AddsZero (s.mCpus me) (extractFields aAdd) (extractFields aConvert).i) :
    (∃ s' s'', (Inst.decode pm true aConvert).run (handler me) s = (.ok ⟨1, false⟩, s') ∧
        (Inst.decode pm true aAdd).run (handler me) s' = (.ok ⟨1, false⟩, s'') ∧
        (CFloat.mk ((s''.mCpus me).S (extractFields aAdd).i)).val =
          (s.mCpus me).signedAk (extractFields aConvert).k) ↔
      ¬ ((s.mCpus me).XMode = false ∧
        (s.mCpus me).refAk (extractFields aConvert).k = 0x80000000) := by
  rw [← Cpu.signExtend_eq_smallest, ← Cpu.toInt_signExtend, Inst.decode_of_gh hgh rfl,
    Inst.decode_of_gh hadd rfl]
  rw [Inst.convert_run hgh hj]
  generalize (s.mCpus me).signExtend ((s.mCpus me).refAk (extractFields aConvert).k) = a
  by_cases h : a = 0x80000000
  · rw [if_pos h]
    refine iff_of_false ?_ (not_not.mpr h)
    rintro ⟨s', s'', hrun, -⟩
    cases hrun
  · rw [if_neg h]
    obtain ⟨s'', hrun, hS⟩ := @Inst.scalarFloat_run pm me
      (s.modifyCpu me (RegWrite.S (extractFields aConvert).i (floatWord a).value).apply)
      (extractFields aAdd) CFloat.add _ hadd
    refine iff_of_true ⟨_, s'', rfl, hrun, ?_⟩ h
    rw [hS, Inst.floatOp]
    exact add_converted_val hzero a

end conversion

/-- `S1 +FA2` and `S3 FS1`, the normalization of `S1`. -/
def convertA2 : CInt := 0o071122 <<< 32
def normalizeS1 : CInt := 0o062301 <<< 32

/-- A machine in Y mode with an integer in `A2`. -/
def withA2 (a : CAddr) : System ymp1 :=
  (System.powerOn ymp1).modifyCpu (0 : Fin 1) fun c =>
    { c with
      XMode := false
      A := fun _ => a }

/-- The idiom on `-3`. -/
theorem float_conversion_three :
    (∃ s' s'', (Inst.decode ymp1 true convertA2).run (handler (0 : Fin 1)) (withA2 0xFFFFFFFD) =
          (.ok ⟨1, false⟩, s') ∧
        (Inst.decode ymp1 true normalizeS1).run (handler (0 : Fin 1)) s' = (.ok ⟨1, false⟩, s'') ∧
        (CFloat.mk ((s''.mCpus (0 : Fin 1)).S (extractFields normalizeS1).i)).val =
          ((withA2 0xFFFFFFFD).mCpus (0 : Fin 1)).signedAk (extractFields convertA2).k) ↔
      ¬ (((withA2 0xFFFFFFFD).mCpus (0 : Fin 1)).XMode = false ∧
        ((withA2 0xFFFFFFFD).mCpus (0 : Fin 1)).refAk (extractFields convertA2).k = 0x80000000) :=
  @float_conversion_iff ymp1 (0 : Fin 1) (withA2 0xFFFFFFFD) convertA2 normalizeS1 (by decide)
    (by decide) (by decide) (by decide)

/-- **The smallest integer** has no magnitude to put behind the exponent. -/
theorem not_float_conversion_smallest :
    ((withA2 0x80000000).mCpus (0 : Fin 1)).XMode = false ∧
      ((withA2 0x80000000).mCpus (0 : Fin 1)).signedAk (extractFields convertA2).k = -2 ^ 31 ∧
      ((Inst.decode ymp1 true convertA2).run (handler (0 : Fin 1)) (withA2 0x80000000)).1 =
        .error .undefinedBehaviour := by
  decide

end CraySim
