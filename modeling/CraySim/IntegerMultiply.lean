/-
  Subject:   The 32 bit integer product of the vector unit.

  `IntMult` takes a multiplier that is shifted left by 31 places and a multiplicand shifted left
  by 16. A first loop multiplies what is left of the multiplier in the low 48 bits, 17 of its 32
  places; a second one adds the other 15.

  * `intMultLoop_eq`, `intMultLow_eq` -- the two loops as sums,
  * `intMult_eq` -- the product of the operands, cut to 32 bits,
  * `integer_multiply` -- **the instruction computes it for every pair of elements**.
-/
import CraySim.VectorFloat

namespace CraySim

/-! ## 1. The two loops -/

namespace Inst

/-- The multiplier bits of the first loop, from bit 62 down. -/
def upperBit (s4 : CInt) (i : Nat) : Bool := decide (i ≤ 62) && s4.getLsbD (62 - i)

theorem upperBit_succ (s4 : CInt) (i : Nat) : upperBit (s4 <<< 1) i = upperBit s4 (i + 1) := by
  rw [upperBit, upperBit, BitVec.getLsbD_shiftLeft]
  by_cases hi : i ≤ 61
  · simp [show i ≤ 62 by omega, show i + 1 ≤ 62 by omega, show 62 - i < 64 by omega,
      show ¬ 62 - i < 1 by omega, show 62 - i - 1 = 62 - (i + 1) by omega]
  · by_cases h62 : i = 62
    · simp [h62]
    · simp [show ¬ i ≤ 62 by omega, show ¬ i + 1 ≤ 62 by omega]

/-- **The first loop**: the truncated sum of partial products. -/
theorem intMultLoop_eq (n : Nat) (s3 s4 s5 : CInt) :
    intMultLoop n s3 s4 s5 = s5 + BitVec.ofNat 64 (ShiftAdd.sum n (upperBit s4) s3.toNat) := by
  induction n generalizing s3 s4 s5 with
  | zero => simp [intMultLoop]
  | succ n ih =>
    have htop : (s4 <<< 1).slt 0 = upperBit s4 0 := by
      rw [show (0 : CInt) = 0#64 from rfl, BitVec.slt_zero_eq_msb, BitVec.msb_eq_getLsbD_last,
        BitVec.getLsbD_shiftLeft]
      rfl
    have hrest : ShiftAdd.sum n (fun i => upperBit s4 (i + 1)) (s3.toNat / 2) =
        ShiftAdd.sum n (upperBit (s4 <<< 1)) (s3 >>> 1).toNat := by
      rw [BitVec.toNat_ushiftRight, Nat.shiftRight_eq_div_pow]
      exact ShiftAdd.sum_congr _ fun i _ => (upperBit_succ s4 i).symm
    rw [ShiftAdd.sum_succ', hrest, BitVec.ofNat_add, ← BitVec.add_assoc]
    have hfirst : (if (s4 <<< 1).slt 0 then s5 + s3 else s5) =
        s5 + BitVec.ofNat 64 (if upperBit s4 0 then s3.toNat else 0) := by
      rw [htop]
      cases upperBit s4 0 with
      | false => simp
      | true => simp
    rw [intMultLoop, ← hfirst]
    by_cases hz : s4 <<< 1 = 0
    · -- no bit is left
      have hnone : ShiftAdd.sum n (upperBit (s4 <<< 1)) (s3 >>> 1).toNat = 0 := by
        rw [hz, ShiftAdd.sum_eq_of_false _ (Nat.zero_le n) fun i _ _ => by simp [upperBit]]
        rfl
      rw [if_neg (by simp [hz]), hnone]
      simp
    · rw [if_pos (by simpa using hz), ih]

/-- **The second loop**: the product with the low bits. -/
theorem intMultLow_eq (n : Nat) (s3 s4 s6 : CInt) :
    intMultLow n s3 s4 s6 = s6 + s3 * BitVec.ofNat 64 (s4.toNat % 2 ^ n) := by
  induction n generalizing s3 s4 s6 with
  | zero => simp [intMultLow, Nat.mod_one]
  | succ n ih =>
    have htest : (s4 <<< 63).slt 0 = decide (s4.toNat % 2 = 1) := by
      rw [show (0 : CInt) = 0#64 from rfl, BitVec.slt_zero_eq_msb, BitVec.msb_eq_getLsbD_last,
        BitVec.getLsbD_shiftLeft, ← BitVec.testBit_toNat, Nat.testBit_eq_decide_div_mod_eq]
      simp
    have hmod : s4.toNat % 2 ^ (n + 1) = s4.toNat % 2 + 2 * (s4.toNat / 2 % 2 ^ n) := by
      rw [pow_succ, Nat.mul_comm, Nat.mod_mul]
    rw [intMultLow, ih, htest, hmod, BitVec.toNat_ushiftRight, Nat.shiftRight_eq_div_pow, pow_one,
      BitVec.shiftLeft_eq_mul_twoPow, show BitVec.twoPow 64 1 = BitVec.ofNat 64 2 by decide,
      BitVec.ofNat_add, BitVec.ofNat_mul, BitVec.mul_add, BitVec.mul_assoc, ← BitVec.add_assoc]
    obtain h | h : s4.toNat % 2 = 0 ∨ s4.toNat % 2 = 1 := by omega
    · simp [h]
    · simp [h]

/-! ## 2. The product -/

section product
variable (a b : BitVec 32)

/-- What is left of the multiplier in the low 48 bits, moved to the top of the first loop. -/
theorem toNat_lowScalar :
    (((a.setWidth 64 <<< 31) &&& ((1 : CInt) <<< 48 - 1)) <<< 7).toNat =
      2 ^ 38 * (a.toNat % 2 ^ 17) := by
  have hlt := a.isLt
  rw [show (1 : CInt) <<< 48 - 1 = WordField.mask 64 48 from rfl, BitVec.toNat_shiftLeft,
    WordField.toNat_and_mask, BitVec.toNat_shiftLeft, BitVec.toNat_setWidth, Nat.shiftLeft_eq,
    Nat.shiftLeft_eq]
  omega

theorem toNat_highScalar :
    (((a.setWidth 64 <<< 31) >>> 48) &&& ((1 : CInt) <<< 15 - 1)).toNat = a.toNat / 2 ^ 17 := by
  have hlt := a.isLt
  rw [show (1 : CInt) <<< 15 - 1 = WordField.mask 64 15 from rfl, WordField.toNat_and_mask,
    BitVec.toNat_ushiftRight, BitVec.toNat_shiftLeft, BitVec.toNat_setWidth, Nat.shiftLeft_eq,
    Nat.shiftRight_eq_div_pow]
  omega

theorem toNat_lowVector :
    (((b.setWidth 64 <<< 16) >>> 16) &&& ((1 : CInt) <<< 15 - 1)).toNat = b.toNat % 2 ^ 15 := by
  have hlt := b.isLt
  rw [show (1 : CInt) <<< 15 - 1 = WordField.mask 64 15 from rfl, WordField.toNat_and_mask,
    BitVec.toNat_ushiftRight, BitVec.toNat_shiftLeft, BitVec.toNat_setWidth, Nat.shiftLeft_eq,
    Nat.shiftRight_eq_div_pow]
  omega

/-- The multiplier bits of the first loop are those of the vector element. -/
theorem upperBit_vector {i : Nat} (hi : i < 64) :
    upperBit (((b.setWidth 64 <<< 16) &&& ((1 : CInt) <<< 48 - 1)) <<< 15) i =
      (decide (i < 32) && b.toNat.testBit (31 - i)) := by
  rw [upperBit, show (1 : CInt) <<< 48 - 1 = WordField.mask 64 48 from rfl, BitVec.testBit_toNat]
  by_cases h : i < 32
  · simp [h, show i ≤ 62 by omega, show 62 - i < 64 by omega, show ¬ 62 - i < 15 by omega,
      show ¬ 62 - i - 15 < 16 by omega, show 62 - i - 15 < 48 by omega,
      show 62 - i - 15 - 16 = 31 - i by omega]
  · by_cases h15 : 62 - i < 15
    · simp [h, h15]
    · simp [h, show 62 - i - 15 < 16 by omega]

/-- **The first loop** multiplies the element with the low 17 places of the multiplier. -/
theorem upperSum :
    ShiftAdd.sum 64 (upperBit (((b.setWidth 64 <<< 16) &&& ((1 : CInt) <<< 48 - 1)) <<< 15))
      (2 ^ 38 * (a.toNat % 2 ^ 17)) = 2 ^ 7 * (a.toNat % 2 ^ 17 * b.toNat) := by
  have hbits : ∀ i, i < 32 → (decide (i < 32) && b.toNat.testBit (31 - i)) =
      b.toNat.testBit (32 - 1 - i) := fun i hi => by rw [decide_eq_true hi, Bool.true_and]
  have hweight := ShiftAdd.weight_testBit b.toNat 32 32 le_rfl
  have hexact := ShiftAdd.sum_exact 38 32 (fun i => b.toNat.testBit (32 - 1 - i))
    (a.toNat % 2 ^ 17) (by decide)
  rw [Nat.mod_eq_of_lt b.isLt, Nat.sub_self, pow_zero, Nat.div_one] at hweight
  rw [ShiftAdd.sum_congr _ fun i hi => upperBit_vector b hi,
    ShiftAdd.sum_eq_of_false _ (show 32 ≤ 64 by decide) fun i hi _ => by
      rw [decide_eq_false (by omega), Bool.false_and],
    ShiftAdd.sum_congr _ hbits]
  refine Nat.eq_of_mul_eq_mul_left (Nat.two_pow_pos 32) (hexact.trans ?_)
  rw [hweight]
  ring

/-- **`IntMult`** on operands that are shifted as the instruction wants them. -/
theorem intMult_eq : intMult (a.setWidth 64 <<< 31) (b.setWidth 64 <<< 16) = (a * b).setWidth 64 := by
  have hlt : a.toNat % 2 ^ 17 * b.toNat < 2 ^ 17 * 2 ^ 32 :=
    Nat.mul_lt_mul'' (Nat.mod_lt _ (by decide)) b.isLt
  have hlow : a.toNat / 2 ^ 17 * (b.toNat % 2 ^ 15) < 2 ^ 15 * 2 ^ 15 := by
    refine Nat.mul_lt_mul'' ?_ (Nat.mod_lt _ (by decide))
    have := a.isLt
    omega
  have hupper : (intMultLoop 64 (((a.setWidth 64 <<< 31) &&& ((1 : CInt) <<< 48 - 1)) <<< 7)
      (((b.setWidth 64 <<< 16) &&& ((1 : CInt) <<< 48 - 1)) <<< 15) 9 >>> 7).toNat =
        a.toNat % 2 ^ 17 * b.toNat := by
    rw [intMultLoop_eq, toNat_lowScalar, upperSum, BitVec.toNat_ushiftRight, BitVec.toNat_add,
      BitVec.toNat_ofNat, Nat.shiftRight_eq_div_pow, show (9 : CInt).toNat = 9 from rfl]
    omega
  have hlower : (intMultLow 15 (((a.setWidth 64 <<< 31) >>> 48) &&& ((1 : CInt) <<< 15 - 1))
      (((b.setWidth 64 <<< 16) >>> 16) &&& ((1 : CInt) <<< 15 - 1)) 0 <<< 17).toNat =
        2 ^ 17 * (a.toNat / 2 ^ 17 * (b.toNat % 2 ^ 15)) := by
    rw [intMultLow_eq, toNat_lowVector, BitVec.toNat_shiftLeft, BitVec.toNat_add, BitVec.toNat_mul,
      BitVec.toNat_ofNat, toNat_highScalar, Nat.shiftLeft_eq, Nat.mod_mod,
      Nat.mod_eq_of_lt (show b.toNat % 2 ^ 15 < 2 ^ 64 by omega), show (0 : CInt).toNat = 0 from rfl]
    omega
  -- the product of the high places only counts modulo `2 ^ 15`
  have hmod : (a.toNat % 2 ^ 17 * b.toNat + 2 ^ 17 * (a.toNat / 2 ^ 17 * (b.toNat % 2 ^ 15))) % 2 ^ 32 =
      a.toNat * b.toNat % 2 ^ 32 := by
    have ha := Nat.div_add_mod a.toNat (2 ^ 17)
    have hb := Nat.div_add_mod b.toNat (2 ^ 15)
    have hsplit : a.toNat * b.toNat = a.toNat % 2 ^ 17 * b.toNat +
        2 ^ 17 * (a.toNat / 2 ^ 17 * (b.toNat % 2 ^ 15)) +
          2 ^ 32 * (a.toNat / 2 ^ 17 * (b.toNat / 2 ^ 15)) := by
      calc a.toNat * b.toNat = (2 ^ 17 * (a.toNat / 2 ^ 17) + a.toNat % 2 ^ 17) * b.toNat := by rw [ha]
        _ = 2 ^ 17 * (a.toNat / 2 ^ 17) * (2 ^ 15 * (b.toNat / 2 ^ 15) + b.toNat % 2 ^ 15) +
            a.toNat % 2 ^ 17 * b.toNat := by rw [hb]; ring
        _ = _ := by ring
    rw [hsplit, Nat.add_mul_mod_self_left]
  apply BitVec.eq_of_toNat_eq
  rw [intMult]
  rw [show (1 : CInt) <<< 32 - 1 = WordField.mask 64 32 from rfl, WordField.toNat_and_mask,
    BitVec.toNat_add, hupper, hlower, BitVec.toNat_setWidth, BitVec.toNat_mul, ← hmod]
  omega

end product

end Inst

/-! ## 3. The instruction -/

open Inst in
/-- **The integer product**: for all operands of 32 bits `IntMult` on the shifted words is their
    product modulo `2 ^ 32`, and the vector instruction of Y mode leaves it in every element whose
    operands were shifted that way. -/
theorem integer_multiply :
    (∀ a b : BitVec 32, intMult (a.setWidth 64 <<< 31) (b.setWidth 64 <<< 16) =
      BitVec.ofNat 64 (a.toNat * b.toNat % 2 ^ 32)) ∧
    ∀ {pm : Params} (me : Fin pm.cpuCnt) (s : System pm) (aParcels : CInt),
      (extractFields aParcels).gh = 0o166 → (s.mCpus me).XMode = false →
      (s.mCpus me).VL.toNat ≤ 64 →
      ∃ s', (decode pm true aParcels).run (handler me) s = (.ok ⟨1, false⟩, s') ∧
        ∀ e : Fin 64, e.val < (s.mCpus me).VL.toNat → ∀ a b : BitVec 32,
          (s.mCpus me).refSj (extractFields aParcels).j = a.setWidth 64 <<< 31 →
          (s.mCpus me).V (extractFields aParcels).k e = b.setWidth 64 <<< 16 →
          (s'.mCpus me).V (extractFields aParcels).i e =
            BitVec.ofNat 64 (a.toNat * b.toNat % 2 ^ 32) := by
  have hvalue : ∀ a b : BitVec 32, intMult (a.setWidth 64 <<< 31) (b.setWidth 64 <<< 16) =
      BitVec.ofNat 64 (a.toNat * b.toNat % 2 ^ 32) := fun a b => by
    rw [intMult_eq, ← BitVec.toNat_mul, BitVec.ofNat_toNat]
  refine ⟨hvalue, fun me s aParcels hgh hx hvl => ?_⟩
  obtain ⟨s', hrun, hV⟩ :=
    @vectorInst_run _ me s _ _ _ (elementwise_sv (extractFields aParcels) intMult) hgh hvl
  refine ⟨s', ?_, fun e he a b ha hb => ?_⟩
  · rw [decode_of_gh hgh rfl]
    rw [decode0166, run_cpu_bind, if_neg (by rw [hx]; decide)]
    exact hrun
  · rw [hV e he, ha, hb, hvalue]

/-- `V3 S1*V2`. -/
def multiplyV3 : CInt := 0o166312 <<< 32

/-- `S1` is `0xFFFFFFFF` and every element of `V2` is `0x10001`, shifted. -/
def multiplyOperands : System ymp1 :=
  (System.powerOn ymp1).modifyCpu (0 : Fin 1) fun c =>
    { c with
      XMode := false
      VL := 2
      S := fun _ => (0xFFFFFFFF : BitVec 32).setWidth 64 <<< 31
      V := fun _ _ => (0x10001 : BitVec 32).setWidth 64 <<< 16 }

/-- Operands whose product has a carry into the places that are cut off. -/
theorem integer_multiply_carry :
    Inst.intMult ((0xFFFFFFFF : BitVec 32).setWidth 64 <<< 31)
        ((0x10001 : BitVec 32).setWidth 64 <<< 16) = 0xFFFEFFFF ∧
      ∃ s', (Inst.decode ymp1 true multiplyV3).run (handler (0 : Fin 1)) multiplyOperands =
          (.ok ⟨1, false⟩, s') ∧
        (s'.mCpus (0 : Fin 1)).V 3 1 = 0xFFFEFFFF := by
  refine ⟨integer_multiply.1 0xFFFFFFFF 0x10001, ?_⟩
  obtain ⟨s', hrun, hV⟩ := @integer_multiply.2 ymp1 (0 : Fin 1) multiplyOperands multiplyV3
    (by decide) (by decide) (by decide)
  exact ⟨s', hrun, hV 1 (by decide) 0xFFFFFFFF 0x10001 (by decide)
    (by decide)⟩

end CraySim
