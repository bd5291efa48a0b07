/-
  Subject:   Division: reciprocal approximation, one iteration, one product.

  A program divides by `r = ReciprocApprox(x)`, `c = ReciprocIterate(x, r)` and a multiplication
  with `r * c`. The file reads the multiplier on numbers and follows the errors.

  * `rawProduct_bounds` -- the 48 steps of the multiplier lose less than 48 units,
  * `mult_spec` -- exponent, sign and fraction of a product that needs no rounding mode,
  * `correction_spec` -- the correction factor is two minus the product, off by 2^-47,
  * `reciprocal_accuracy` -- **the approximation is off by 2^-29**,
  * `division_sequence` -- **`r * c` is normalized, has the sign of `x` and is `1 / x` up to a
    relative error of 2^-45**.
-/
import CraySim.ReciprocalError
import Mathlib.Algebra.Order.Field.Power
import Mathlib.Tactic.Positivity
import Mathlib.Tactic.FieldSimp
import Mathlib.Algebra.Order.Field.Basic
import Mathlib.Tactic.Linarith
import Mathlib.Tactic.Ring

namespace Newton

theorem exact_step {K : Type*} [CommRing K] (ρ : K) : ρ * (2 - ρ) - 1 = -(ρ - 1) ^ 2 := by
  ring

variable {K : Type*} [Field K] [LinearOrder K] [IsStrictOrderedRing K]

/-- A step whose correction factor is off by `η`. -/
theorem correction_error {ρ γ ε η : K} (hρ : |ρ - 1| ≤ ε) (hγ : |γ - (2 - ρ)| ≤ η) :
    |ρ * γ - 1| ≤ ε ^ 2 + (1 + ε) * η := by
  have hη : 0 ≤ η := (abs_nonneg _).trans hγ
  have hsplit : ρ * γ - 1 = -(ρ - 1) ^ 2 + ρ * (γ - (2 - ρ)) := by
    rw [← exact_step]
    ring
  have hsq : |-(ρ - 1) ^ 2| ≤ ε ^ 2 := by
    rw [abs_neg, abs_pow]
    exact pow_le_pow_left₀ (abs_nonneg _) hρ 2
  have hone : |ρ| ≤ 1 + ε := by
    calc |ρ| = |1 + (ρ - 1)| := by rw [add_sub_cancel]
      _ ≤ |1| + |ρ - 1| := abs_add_le _ _
      _ ≤ 1 + ε := by rw [abs_one]; linarith
  have hmul : |ρ * (γ - (2 - ρ))| ≤ (1 + ε) * η := by
    rw [abs_mul]
    exact mul_le_mul hone hγ (abs_nonneg _) ((abs_nonneg _).trans hone)
  rw [hsplit]
  exact (abs_add_le _ _).trans (add_le_add hsq hmul)

/-- **The whole step**: the last product has relative error `θ`. -/
theorem step_error {ρ γ θ ε η τ : K} (hρ : |ρ - 1| ≤ ε) (hγ : |γ - (2 - ρ)| ≤ η)
    (hθ : |θ| ≤ τ) :
    |ρ * γ * (1 + θ) - 1| ≤ ε ^ 2 + (1 + ε) * η + (1 + (ε ^ 2 + (1 + ε) * η)) * τ := by
  have h := correction_error hρ hγ
  have hone : |ρ * γ| ≤ 1 + (ε ^ 2 + (1 + ε) * η) := by
    calc |ρ * γ| = |1 + (ρ * γ - 1)| := by rw [add_sub_cancel]
      _ ≤ |1| + |ρ * γ - 1| := abs_add_le _ _
      _ ≤ 1 + (ε ^ 2 + (1 + ε) * η) := by rw [abs_one]; linarith
  have hmul : |ρ * γ * θ| ≤ (1 + (ε ^ 2 + (1 + ε) * η)) * τ := by
    rw [abs_mul]
    exact mul_le_mul hone hθ (abs_nonneg _) ((abs_nonneg _).trans hone)
  calc |ρ * γ * (1 + θ) - 1| = |(ρ * γ - 1) + ρ * γ * θ| := by ring_nf
    _ ≤ |ρ * γ - 1| + |ρ * γ * θ| := abs_add_le _ _
    _ ≤ _ := add_le_add h hmul

end Newton

namespace CraySim

/-! ## 1. The multiplier on numbers -/

/-- The sum of partial products of two 48 bit fractions, in units of 2^-8 of the last place. -/
def rawProduct (a b : Nat) : Nat := ShiftAdd.sum 48 (fun i => b.testBit (47 - i)) (2 ^ 8 * a)

/-- The multiplier's bits weigh what its fraction is. -/
theorem weight_fract {b : Nat} (hb : b < 2 ^ 48) :
    ShiftAdd.weight 48 (fun i => b.testBit (47 - i)) = b := by
  have h := ShiftAdd.weight_testBit b 48 48 le_rfl
  rw [Nat.mod_eq_of_lt hb] at h
  simpa using h

/-- **The multiplier loses less than one unit for each of its 48 steps.** -/
theorem rawProduct_bounds (a : Nat) {b : Nat} (hb : b < 2 ^ 48) :
    2 ^ 39 * rawProduct a b ≤ a * b ∧ a * b ≤ 2 ^ 39 * (rawProduct a b + 48) := by
  have hle := ShiftAdd.sum_le 48 (fun i => b.testBit (47 - i)) (2 ^ 8 * a)
  have hge := ShiftAdd.le_sum 48 (fun i => b.testBit (47 - i)) (2 ^ 8 * a)
  rw [weight_fract hb, show 2 * (2 ^ 8 * a) * b = 2 ^ 9 * (a * b) by ring] at hle hge
  rw [rawProduct]
  constructor
  · omega
  · omega

/-- The eight places below the fraction take up what the first nine steps shift out. -/
theorem rawProduct_loss (a : Nat) {b : Nat} (hb : b < 2 ^ 48) :
    a * b ≤ 2 ^ 39 * (rawProduct a b + 39) := by
  have hge := ShiftAdd.le_sum_of_zeros 8 48 (fun i => b.testBit (47 - i)) a
  rw [weight_fract hb, show 2 * (2 ^ 8 * a) * b = 2 ^ 9 * (a * b) by ring] at hge
  rw [rawProduct]
  omega

/-- A normalized multiplier starts with the whole multiplicand. -/
theorem le_rawProduct (a : Nat) {b : Nat} (hb : 2 ^ 47 ≤ b) (hb' : b < 2 ^ 48) :
    2 ^ 8 * a ≤ rawProduct a b := by
  have htop : b.testBit (47 - 0) = true := by
    rw [Nat.testBit_eq_decide_div_mod_eq, decide_eq_true_eq]
    omega
  rw [rawProduct, ShiftAdd.sum_succ', if_pos htop]
  exact Nat.le_add_right _ _

theorem multLoop_eq (fa fb : CInt) (ha : fa.toNat < 2 ^ 48) :
    multLoop (fa <<< 8) (fb <<< 8) = BitVec.ofNat 64 (rawProduct fa.toNat fb.toNat) := by
  have htest : ∀ i, ((fb <<< 8 >>> (47 + 8 - i)) &&& 1 != 0) = (fb <<< 8).getLsbD (55 - i) :=
    fun i => by
      have h := WordField.and_bit_bne_zero (fb <<< 8 >>> (47 + 8 - i)) 0 (by decide)
      rw [BitVec.getLsbD_ushiftRight] at h
      exact h
  have hbit : ∀ i, i < 48 → (fb <<< 8).getLsbD (55 - i) = fb.toNat.testBit (47 - i) :=
    fun i hi => by
      rw [BitVec.getLsbD_shiftLeft, BitVec.testBit_toNat]
      simp [show 55 - i < 64 by omega, show ¬ 55 - i < 8 by omega,
        show 55 - i - 8 = 47 - i by omega]
  have hval : (fa <<< 8).toNat = 2 ^ 8 * fa.toNat := by
    rw [BitVec.toNat_shiftLeft, Nat.shiftLeft_eq]
    omega
  simp only [multLoop, htest]
  rw [ShiftAdd.foldl_halving 48 (fun i => (fb <<< 8).getLsbD (55 - i)), hval,
    ShiftAdd.sum_congr _ hbit, rawProduct]

/-! ## 2. A product without rounding mode -/

section product
variable (a b : CFloat)

/-- The word `Mult` normalizes: the sum of partial products with its correction. -/
def correctedSum (aTwoMinus : Bool) : CInt :=
  let s := BitVec.ofNat 64 (rawProduct a.uFract.toNat b.uFract.toNat)
  if aTwoMinus then 18 - s else s + 18

theorem toNat_uFract_lt : a.uFract.toNat < 2 ^ 48 := by
  rw [CFloat.toNat_uFract]
  exact Nat.mod_lt _ (by decide)

/-- An operand in the exponent range is taken as it is. -/
theorem operand_eq (ha : 0x2000 ≤ a.rawExp) :
    (if a.rawExp = 0 then a else a.underflowOrValue) = a := by
  have hmin : ¬ (a.rawExp : Int) < CFloat.expMin := by
    rw [show CFloat.expMin = 0x2000 from rfl]
    omega
  rw [if_neg (by omega), CFloat.underflowOrValue, if_neg hmin]

theorem value_ne_zero (ha : 0x2000 ≤ a.rawExp) : a.value ≠ 0 := by
  intro hz
  rw [CFloat.rawExp_eq, hz] at ha
  exact absurd ha (by decide)

/-- **`Mult` on operands in range**: one normalization shift, where bit 56 is set. -/
theorem mult_eq (aTwoMinus : Bool) (ha : 0x2000 ≤ a.rawExp) (hb : 0x2000 ≤ b.rawExp)
    (hlo : 0x6001 ≤ a.rawExp + b.rawExp) :
    mult a b false false aTwoMinus =
      if (correctedSum a b aTwoMinus).getLsbD 56 then
        CFloat.ofParts (a.exp + b.exp + 1) (a.isPositive == b.isPositive)
          (correctedSum a b aTwoMinus >>> 1 >>> 8)
      else
        CFloat.ofParts (a.exp + b.exp) (a.isPositive == b.isPositive)
          (correctedSum a b aTwoMinus >>> 8) := by
  have hsum : (if aTwoMinus then
      ~~~(multLoop (a.uFract <<< 8) (b.uFract <<< 8) + correctionFactor false false aTwoMinus)
      else multLoop (a.uFract <<< 8) (b.uFract <<< 8) + correctionFactor false false aTwoMinus) =
      correctedSum a b aTwoMinus := by
    rw [multLoop_eq _ _ (toNat_uFract_lt a), correctedSum]
    generalize BitVec.ofNat 64 (rawProduct a.uFract.toNat b.uFract.toNat) = s
    cases aTwoMinus with
    | false => rfl
    | true =>
      rw [if_pos rfl, if_pos rfl, show correctionFactor false false true = ~~~18 from rfl,
        BitVec.add_comm, BitVec.not_add_eq_not_neg, BitVec.not_not]
  have hcarry := WordField.and_bit_bne_zero (correctedSum a b aTwoMinus) 56 (by decide)
  have hexp : ∀ k : Int, 0 ≤ k → ¬ a.exp + b.exp + k + CFloat.expOfs < CFloat.expMin := fun k hk => by
    rw [CFloat.exp, CFloat.exp, show CFloat.expOfs = 0x4001 from rfl,
      show CFloat.expMin = 0x2000 from rfl]
    omega
  have h1 := hexp 1 (by decide)
  have h0 := hexp 0 (by decide)
  have hint : ¬ (a.rawExp = 0 ∧ b.rawExp = 0) := by omega
  rw [Int.add_zero] at h0
  generalize correctedSum a b aTwoMinus = t at hsum hcarry ⊢
  simp only [mult, operand_eq a ha, operand_eq b hb, if_neg (value_ne_zero a ha),
    if_neg (value_ne_zero b hb), if_neg hint, hsum, hcarry]
  cases t.getLsbD 56 with
  | false => simp [h0]
  | true => simp [h1]

/-- **Exponent, sign and fraction of a product in range.** `t` is the corrected sum as far as
    the multiplier keeps it; `k` says whether it was shifted. -/
theorem mult_spec (aTwoMinus : Bool) (ha : 0x2000 ≤ a.rawExp) (hb : 0x2000 ≤ b.rawExp)
    (hlo : 0x6001 ≤ a.rawExp + b.rawExp) (hhi : a.rawExp + b.rawExp < 0xc000) {t : Nat}
    (ht : (correctedSum a b aTwoMinus).toNat % 2 ^ 57 = t) (h55 : 2 ^ 55 ≤ t) :
    ∃ k, k ≤ 1 ∧ (mult a b false false aTwoMinus).rawExp + 0x4001 = a.rawExp + b.rawExp + k ∧
      (mult a b false false aTwoMinus).uFract.toNat = t / 2 ^ (8 + k) ∧
      2 ^ (55 + k) ≤ t ∧ t < 2 ^ (56 + k) ∧
      (mult a b false false aTwoMinus).isPositive = (a.isPositive == b.isPositive) := by
  have hbit : (correctedSum a b aTwoMinus).getLsbD 56 = decide (2 ^ 56 ≤ t) := by
    rw [← BitVec.testBit_toNat, Nat.testBit_eq_decide_div_mod_eq, decide_eq_decide]
    omega
  have hexp : ∀ k : Nat, k ≤ 1 → a.exp + b.exp + k =
      ((a.rawExp + b.rawExp + k - 0x4001 : Nat) : Int) - CFloat.expOfs := fun k hk => by
    rw [CFloat.exp, CFloat.exp, show CFloat.expOfs = 0x4001 from rfl]
    omega
  rw [mult_eq a b aTwoMinus ha hb hlo, hbit]
  by_cases hc : 2 ^ 56 ≤ t
  · have h1 := hexp 1 le_rfl
    rw [Nat.cast_one] at h1
    rw [decide_eq_true hc, if_pos rfl, h1]
    refine ⟨1, le_rfl, ?_, ?_, hc, by omega, CFloat.isPositive_ofParts _ _ _⟩
    · rw [CFloat.rawExp_ofParts _ (by omega)]
      omega
    · rw [CFloat.toNat_uFract_ofParts, BitVec.toNat_ushiftRight, BitVec.toNat_ushiftRight,
        Nat.shiftRight_eq_div_pow, Nat.shiftRight_eq_div_pow]
      omega
  · have h0 := hexp 0 (by decide)
    rw [Nat.cast_zero, Int.add_zero] at h0
    rw [decide_eq_false hc, if_neg (by decide), h0]
    refine ⟨0, by decide, ?_, ?_, h55, by omega, CFloat.isPositive_ofParts _ _ _⟩
    · rw [CFloat.rawExp_ofParts _ (by omega)]
      omega
    · rw [CFloat.toNat_uFract_ofParts, BitVec.toNat_ushiftRight, Nat.shiftRight_eq_div_pow]
      omega

end product

/-! ## 3. The three steps of a division -/

section steps
variable (x : CFloat)

/-- The operands the division sequence is made for: normalized, exponent invertible. -/
structure Divisor (x : CFloat) : Prop where
  normalized : x.isNormalized = true
  exp_ge : 0x2002 ≤ x.rawExp
  exp_le : x.rawExp ≤ 0x5fff

variable {x} (hx : Divisor x)

include hx in
theorem Divisor.fract : 2 ^ 47 ≤ x.value.toNat % 2 ^ 48 := by
  rw [← CFloat.toNat_uFract]
  exact (CFloat.isNormalized_iff x).mp hx.normalized

include hx in
/-- **The approximation**: complementary exponent, same sign, the fraction of section 4 of the
    error analysis. -/
theorem reciprocApprox_spec :
    (reciprocApprox x).rawExp + x.rawExp = 0x8001 ∧
      (reciprocApprox x).isPositive = x.isPositive ∧
      (reciprocApprox x).uFract.toNat = (reciprocMantissa x.value).toNat := by
  have hlo := hx.exp_ge
  have hhi := hx.exp_le
  obtain ⟨hm1, hm2, _, _⟩ := reciprocMantissa_spec x.value hx.fract
  have hexp : (2 * CFloat.expOfs - (x.rawExp : Int) - 1 - CFloat.expOfs) =
      ((0x8001 - x.rawExp : Nat) : Int) - CFloat.expOfs := by
    rw [show CFloat.expOfs = 0x4001 from rfl]
    omega
  have hr : reciprocApprox x =
      CFloat.ofParts (((0x8001 - x.rawExp : Nat) : Int) - CFloat.expOfs) x.isPositive
        (reciprocMantissa x.value) := by
    rw [← hexp, CFloat.isPositive_eq, ← sign_eq]
    simp only [reciprocApprox, reciprocApproxWord]
    rw [if_pos ⟨show x.rawExp < _ by omega, show x.rawExp > _ by omega⟩]
  rw [hr, CFloat.rawExp_ofParts _ (by omega), CFloat.isPositive_ofParts,
    CFloat.toNat_uFract_ofParts]
  exact ⟨by omega, rfl, Nat.mod_eq_of_lt (by omega)⟩

/-- What a corrected sum `t` and its shift `k` leave in the fraction, moved back. -/
theorem shifted_bounds {t k q : Nat} (hk : k ≤ 1) (hq : q = t / 2 ^ (8 + k)) :
    q * 2 ^ (8 + k) ≤ t ∧ t ≤ q * 2 ^ (8 + k) + 255 * (k + 1) + k := by
  have hdiv := Nat.div_add_mod t (2 ^ (8 + k))
  have hmod := Nat.mod_lt t (Nat.two_pow_pos (8 + k))
  rw [← hq, Nat.mul_comm] at hdiv
  obtain rfl | rfl : k = 0 ∨ k = 1 := by omega
  · omega
  · omega

include hx in
/-- **The correction factor**: positive, in `[1/2, 2)`, and two minus the product of operand and
    approximation up to 493 units of 2^-56. -/
theorem correction_spec :
    ∃ k, k ≤ 1 ∧ (reciprocIterate x (reciprocApprox x)).rawExp = 0x4000 + k ∧
      (reciprocIterate x (reciprocApprox x)).isPositive = true ∧
      2 ^ 47 ≤ (reciprocIterate x (reciprocApprox x)).uFract.toNat ∧
      2 ^ 39 * ((reciprocIterate x (reciprocApprox x)).uFract.toNat * 2 ^ (8 + k)) +
          x.uFract.toNat * (reciprocApprox x).uFract.toNat ≤ 2 ^ 39 * (2 ^ 57 + 66) ∧
      2 ^ 39 * 2 ^ 57 ≤
        2 ^ 39 * ((reciprocIterate x (reciprocApprox x)).uFract.toNat * 2 ^ (8 + k) + 493) +
          x.uFract.toNat * (reciprocApprox x).uFract.toNat := by
  obtain ⟨hexp, hpos, hfract⟩ := reciprocApprox_spec hx
  obtain ⟨_, _, hlo, hhi⟩ := reciprocMantissa_spec x.value hx.fract
  rw [← hfract, ← CFloat.toNat_uFract] at hlo hhi
  have hge := hx.exp_ge
  have hle := hx.exp_le
  obtain ⟨hs1, hs2⟩ := rawProduct_bounds x.uFract.toNat (toNat_uFract_lt (reciprocApprox x))
  have ht : (correctedSum x (reciprocApprox x) true).toNat % 2 ^ 57 =
      2 ^ 57 + 18 - rawProduct x.uFract.toNat (reciprocApprox x).uFract.toNat := by
    rw [correctedSum, if_pos rfl, BitVec.toNat_sub, BitVec.toNat_ofNat,
      show (18 : CInt).toNat = 18 from rfl]
    omega
  obtain ⟨k, hk, he, hq, hk1, hk2, hp⟩ := mult_spec x (reciprocApprox x) true (by omega) (by omega)
    (by omega) (by omega) ht (by omega)
  obtain ⟨hb1, hb2⟩ := shifted_bounds hk hq
  have hnorm : 2 ^ 47 ≤ (2 ^ 57 + 18 - rawProduct x.uFract.toNat (reciprocApprox x).uFract.toNat) /
      2 ^ (8 + k) := by
    rw [Nat.le_div_iff_mul_le (Nat.two_pow_pos _), ← pow_add]
    rw [show 47 + (8 + k) = 55 + k by omega]
    exact hk1
  rw [← hq] at hnorm
  rw [show reciprocIterate x (reciprocApprox x) = mult x (reciprocApprox x) false false true from rfl]
  refine ⟨k, hk, by omega, ?_, hnorm, ?_, ?_⟩
  · rw [hp, hpos, beq_self_eq_true]
  · omega
  · omega

include hx in
/-- **The last product**: sign of the operand, normalized, and the product of the two fractions
    up to 18 units above and `30 + 255` (shifted: `30 + 511`) units of 2^-8 of the last place
    below. -/
theorem quotient_spec {c : CFloat} {j : Nat} (hj : j ≤ 1) (hc : c.rawExp = 0x4000 + j)
    (hcpos : c.isPositive = true) (hcn : 2 ^ 47 ≤ c.uFract.toNat) :
    ∃ k, k ≤ 1 ∧
      ((reciprocApprox x).mul c).rawExp + 0x4001 = (reciprocApprox x).rawExp + c.rawExp + k ∧
      ((reciprocApprox x).mul c).isPositive = x.isPositive ∧
      2 ^ 47 ≤ ((reciprocApprox x).mul c).uFract.toNat ∧
      2 ^ 39 * 2 ^ (55 + k) ≤ (reciprocApprox x).uFract.toNat * c.uFract.toNat + 2 ^ 39 * 18 ∧
      2 ^ 39 * (((reciprocApprox x).mul c).uFract.toNat * 2 ^ (8 + k)) ≤
        (reciprocApprox x).uFract.toNat * c.uFract.toNat + 2 ^ 39 * 18 ∧
      (reciprocApprox x).uFract.toNat * c.uFract.toNat ≤
        2 ^ 39 * (((reciprocApprox x).mul c).uFract.toNat * 2 ^ (8 + k) + 285 * (k + 1)) := by
  obtain ⟨hexp, hpos, hfract⟩ := reciprocApprox_spec hx
  obtain ⟨hr1, hr2, _, _⟩ := reciprocMantissa_spec x.value hx.fract
  rw [← hfract] at hr1 hr2
  have hge := hx.exp_ge
  have hle := hx.exp_le
  have hclt := toNat_uFract_lt c
  obtain ⟨hs1, hs2⟩ := rawProduct_bounds (reciprocApprox x).uFract.toNat hclt
  have hs3 := le_rawProduct (reciprocApprox x).uFract.toNat hcn hclt
  have hmul : (reciprocApprox x).uFract.toNat * c.uFract.toNat ≤ (2 ^ 48 - 2 ^ 15) * 2 ^ 48 :=
    Nat.mul_le_mul hr2 hclt.le
  have ht : (correctedSum (reciprocApprox x) c false).toNat % 2 ^ 57 =
      rawProduct (reciprocApprox x).uFract.toNat c.uFract.toNat + 18 := by
    rw [correctedSum, if_neg (by decide), BitVec.toNat_add, BitVec.toNat_ofNat,
      show (18 : CInt).toNat = 18 from rfl]
    omega
  obtain ⟨k, hk, he, hq, hk1, hk2, hp⟩ := mult_spec (reciprocApprox x) c false (by omega) (by omega)
    (by omega) (by omega) ht (by omega)
  obtain ⟨hb1, hb2⟩ := shifted_bounds hk hq
  have hnorm : 2 ^ 47 ≤ (rawProduct (reciprocApprox x).uFract.toNat c.uFract.toNat + 18) /
      2 ^ (8 + k) := by
    rw [Nat.le_div_iff_mul_le (Nat.two_pow_pos _), ← pow_add, show 47 + (8 + k) = 55 + k by omega]
    exact hk1
  rw [← hq] at hnorm
  rw [show (reciprocApprox x).mul c = mult (reciprocApprox x) c false false false from rfl]
  have hlarge : 2 ^ 39 * 2 ^ (55 + k) ≤
      (reciprocApprox x).uFract.toNat * c.uFract.toNat + 2 ^ 39 * 18 := by
    generalize 2 ^ (55 + k) = w at hk1 ⊢
    omega
  clear hk1 hk2 hq hmul
  refine ⟨k, hk, he, ?_, hnorm, hlarge, ?_⟩
  · rw [hp, hpos, hcpos]
    cases x.isPositive <;> rfl
  · generalize (mult (reciprocApprox x) c false false false).uFract.toNat * 2 ^ (8 + k) = z
      at hb1 hb2 ⊢
    constructor
    · omega
    · omega

end steps

/-! ## 4. The values -/

/-- The magnitude a word stands for. -/
def CFloat.mag (w : CFloat) : ℚ := w.uFract.toNat * 2 ^ ((w.rawExp : ℤ) - 0x4001 - 47)

/-- The rational value of a word. -/
def CFloat.val (w : CFloat) : ℚ := (if w.isPositive then 1 else -1) * w.mag

theorem CFloat.mag_pos {w : CFloat} (h : 2 ^ 47 ≤ w.uFract.toNat) : 0 < w.mag := by
  have hpos : (0 : ℚ) < w.uFract.toNat := by exact_mod_cast Nat.lt_of_lt_of_le (by decide) h
  rw [CFloat.mag]
  positivity

/-- A product of magnitudes is the product of the fractions, scaled. -/
theorem mag_mul_mag (a b : CFloat) :
    a.mag * b.mag = (a.uFract.toNat * b.uFract.toNat : ℚ) *
      2 ^ ((a.rawExp : ℤ) + b.rawExp - 0x8002 - 94) := by
  have hexp : (a.rawExp : ℤ) + b.rawExp - 0x8002 - 94 =
      ((a.rawExp : ℤ) - 0x4001 - 47) + ((b.rawExp : ℤ) - 0x4001 - 47) := by ring
  rw [CFloat.mag, CFloat.mag, hexp, zpow_add₀ (by norm_num)]
  ring

/-- The magnitude of a product in range: the shifted back fraction on the exponent of the
    unshifted one. -/
theorem mag_of_shift {p : CFloat} {e k : Nat} (h : p.rawExp + 0x4001 = e + k) :
    p.mag = (p.uFract.toNat * 2 ^ (8 + k) : ℚ) * 2 ^ ((e : ℤ) - 0x8002 - 55) := by
  have hexp : (p.rawExp : ℤ) - 0x4001 - 47 = ((8 + k : Nat) : ℤ) + ((e : ℤ) - 0x8002 - 55) := by
    push_cast
    omega
  rw [CFloat.mag, hexp, zpow_add₀ (by norm_num), zpow_natCast]
  ring

section values
variable {x : CFloat} (hx : Divisor x)

include hx in
/-- Operand times approximation is one up to `2 ^ -29`. -/
theorem approx_error : |x.mag * (reciprocApprox x).mag - 1| ≤ 1 / 2 ^ 29 := by
  obtain ⟨hexp, _, hfract⟩ := reciprocApprox_spec hx
  obtain ⟨_, _, hlo, hhi⟩ := reciprocMantissa_spec x.value hx.fract
  rw [← hfract, ← CFloat.toNat_uFract] at hlo hhi
  have hlo' : (2 : ℚ) ^ 95 ≤ x.uFract.toNat * (reciprocApprox x).uFract.toNat + 2 ^ 66 := by
    exact_mod_cast hlo
  have hhi' : (x.uFract.toNat * (reciprocApprox x).uFract.toNat : ℚ) ≤ 2 ^ 95 + 2 ^ 66 := by
    exact_mod_cast hhi
  have he : (x.rawExp : ℤ) + (reciprocApprox x).rawExp - 0x8002 - 94 = -95 := by omega
  rw [mag_mul_mag, he, abs_le, zpow_neg]
  norm_num at hlo' hhi' ⊢
  constructor
  · linarith
  · linarith

include hx in
/-- The correction factor is two minus that product up to 493 units of `2 ^ -56`. -/
theorem correction_factor_error :
    |(reciprocIterate x (reciprocApprox x)).mag - (2 - x.mag * (reciprocApprox x).mag)| ≤
      493 / 2 ^ 56 := by
  obtain ⟨hexp, _, _⟩ := reciprocApprox_spec hx
  obtain ⟨k, hk, hc, _, _, hle, hge⟩ := correction_spec hx
  have hle' : (2 : ℚ) ^ 39 * ((reciprocIterate x (reciprocApprox x)).uFract.toNat * 2 ^ (8 + k)) +
      x.uFract.toNat * (reciprocApprox x).uFract.toNat ≤ 2 ^ 39 * (2 ^ 57 + 66) := by
    exact_mod_cast hle
  have hge' : (2 : ℚ) ^ 39 * 2 ^ 57 ≤
      2 ^ 39 * ((reciprocIterate x (reciprocApprox x)).uFract.toNat * 2 ^ (8 + k) + 493) +
        x.uFract.toNat * (reciprocApprox x).uFract.toNat := by
    exact_mod_cast hge
  have he : (x.rawExp : ℤ) + (reciprocApprox x).rawExp - 0x8002 - 94 = -95 := by omega
  have hmag := mag_of_shift (p := reciprocIterate x (reciprocApprox x)) (e := 0x8001) (k := k)
    (by omega)
  rw [mag_mul_mag, he, hmag, show ((0x8001 : Nat) : ℤ) - 0x8002 - 55 = -56 by norm_num, abs_le]
  rw [zpow_neg, zpow_neg]
  generalize ((reciprocIterate x (reciprocApprox x)).uFract.toNat * 2 ^ (8 + k) : ℚ) = q at *
  generalize (x.uFract.toNat * (reciprocApprox x).uFract.toNat : ℚ) = m at *
  norm_num at hle' hge' ⊢
  constructor
  · linarith
  · linarith

theorem abs_quotient_sub_one {z p w : ℚ} {k : Nat} (hk : k ≤ 1) (hw : w = 2 ^ (55 + k))
    (hp : 2 ^ 39 * w ≤ p + 2 ^ 39 * 18) (h1 : 2 ^ 39 * z ≤ p + 2 ^ 39 * 18)
    (h2 : p ≤ 2 ^ 39 * (z + 285 * (k + 1))) : |2 ^ 39 * z / p - 1| ≤ 290 / 2 ^ 55 := by
  have hw0 : (2 : ℚ) ^ 55 ≤ w := by
    rw [hw]
    exact pow_le_pow_right₀ (by norm_num) (by omega)
  have hp0 : 0 < p := by
    norm_num at hp hw0
    linarith
  have hsub : 2 ^ 39 * z / p - 1 = (2 ^ 39 * z - p) / p := by
    rw [sub_div, div_self hp0.ne']
  rw [hsub, abs_div, abs_of_pos hp0, div_le_iff₀ hp0, abs_le]
  obtain rfl | rfl : k = 0 ∨ k = 1 := by omega
  · norm_num at hw hp h1 h2 ⊢
    constructor
    · linarith
    · linarith
  · norm_num at hw hp h1 h2 ⊢
    constructor
    · linarith
    · linarith

include hx in
/-- The last product has the relative error of one product. -/
theorem last_product_error :
    |((reciprocApprox x).mul (reciprocIterate x (reciprocApprox x))).mag /
        ((reciprocApprox x).mag * (reciprocIterate x (reciprocApprox x)).mag) - 1| ≤
      290 / 2 ^ 55 := by
  obtain ⟨j, hj, hc, hcpos, hcn, _, _⟩ := correction_spec hx
  obtain ⟨k, hk, he, _, _, hlarge, h1, h2⟩ := quotient_spec hx hj hc hcpos hcn
  generalize reciprocIterate x (reciprocApprox x) = c at *
  generalize reciprocApprox x = r at *
  have hmag := mag_of_shift he
  have hsplit : ((r.rawExp + c.rawExp : Nat) : ℤ) - 0x8002 - 55 =
      39 + ((r.rawExp : ℤ) + c.rawExp - 0x8002 - 94) := by
    push_cast
    ring
  have hscale : (2 : ℚ) ^ ((r.rawExp : ℤ) + c.rawExp - 0x8002 - 94) ≠ 0 := by positivity
  have hquot : (r.mul c).mag / (r.mag * c.mag) =
      2 ^ 39 * ((r.mul c).uFract.toNat * 2 ^ (8 + k)) / (r.uFract.toNat * c.uFract.toNat) := by
    rw [hmag, mag_mul_mag, hsplit, zpow_add₀ (by norm_num), ← mul_assoc, mul_div_mul_right _ _ hscale]
    norm_num
    ring_nf
  rw [hquot]
  exact abs_quotient_sub_one hk rfl (by exact_mod_cast hlarge) (by exact_mod_cast h1)
    (by exact_mod_cast h2)

end values

/-! ## 5. The approximation and the division sequence -/

/-- **The reciprocal approximation.** For a normalized operand with an invertible exponent it is
    normalized, has the operand's sign, and the product of the two values is one up to
    `2 ^ -29`. -/
theorem reciprocal_accuracy (x : CFloat) (hn : x.isNormalized = true) (hlo : 0x2001 < x.rawExp)
    (hhi : x.rawExp < 0x6000) :
    (reciprocApprox x).isNormalized = true ∧ (reciprocApprox x).isPositive = x.isPositive ∧
      |x.val * (reciprocApprox x).val - 1| ≤ 1 / 2 ^ 29 := by
  have hx : Divisor x := ⟨hn, hlo, by omega⟩
  obtain ⟨_, hpos, hfract⟩ := reciprocApprox_spec hx
  have hnorm := (reciprocMantissa_spec x.value hx.fract).1
  have herr := approx_error hx
  refine ⟨(CFloat.isNormalized_iff _).mpr (by rwa [hfract]), hpos, ?_⟩
  -- the signs are equal and cancel
  have hval : x.val * (reciprocApprox x).val = x.mag * (reciprocApprox x).mag := by
    rw [CFloat.val, CFloat.val, hpos]
    cases x.isPositive with
    | false =>
      rw [if_neg Bool.false_ne_true]
      ring
    | true =>
      rw [if_pos rfl]
      ring
  rwa [hval]

/-- The approximation at `-1.5`. -/
theorem reciprocal_accuracy_three_halves :
    (reciprocApprox ⟨0xC001C00000000000⟩).isNormalized = true ∧
      (reciprocApprox ⟨0xC001C00000000000⟩).isPositive = (CFloat.mk 0xC001C00000000000).isPositive ∧
      |(CFloat.mk 0xC001C00000000000).val * (reciprocApprox ⟨0xC001C00000000000⟩).val - 1| ≤
        1 / 2 ^ 29 :=
  reciprocal_accuracy ⟨0xC001C00000000000⟩ (by decide) (by decide) (by decide)

theorem signed_error {s q v e : ℚ} (hs : s = 1 ∨ s = -1) (hv : 0 < v) (h : |v * q - 1| ≤ e) :
    |s * q - (s * v)⁻¹| ≤ e * |(s * v)⁻¹| := by
  have hinv : (s * v)⁻¹ = s * v⁻¹ := by
    rw [mul_inv]
    rcases hs with rfl | rfl <;> norm_num
  have habs : |s| = 1 := by
    rcases hs with rfl | rfl <;> norm_num
  have hsplit : s * q - s * v⁻¹ = s * ((v * q - 1) * v⁻¹) := by
    field_simp
  rw [hinv, hsplit, abs_mul, abs_mul, abs_mul, habs, one_mul, one_mul]
  exact mul_le_mul_of_nonneg_right h (abs_nonneg _)

/-- **The division sequence.** For a normalized operand with an invertible exponent the product
    of the approximation with the correction factor is normalized, has the operand's sign, and
    its value is the reciprocal up to a relative error of `2 ^ -45`. -/
theorem division_sequence (x : CFloat) (hn : x.isNormalized = true) (hlo : 0x2002 ≤ x.rawExp)
    (hhi : x.rawExp ≤ 0x5fff) :
    let r := reciprocApprox x
    let c := reciprocIterate x r
    (r.mul c).isNormalized = true ∧ (r.mul c).isPositive = x.isPositive ∧
      |(r.mul c).val - x.val⁻¹| ≤ 1 / 2 ^ 45 * |x.val⁻¹| := by
  have hx : Divisor x := ⟨hn, hlo, hhi⟩
  obtain ⟨j, hj, hc, hcpos, hcn, _, _⟩ := correction_spec hx
  obtain ⟨k, hk, he, hpos, hnorm, _, _⟩ := quotient_spec hx hj hc hcpos hcn
  have h1 := approx_error hx
  have h2 := correction_factor_error hx
  have h3 := last_product_error hx
  have hstep := Newton.step_error h1 h2 h3
  have hxpos : 0 < x.mag := CFloat.mag_pos ((CFloat.isNormalized_iff x).mp hn)
  have hrpos : 0 < (reciprocApprox x).mag := by
    refine CFloat.mag_pos ?_
    rw [(reciprocApprox_spec hx).2.2]
    exact (reciprocMantissa_spec x.value hx.fract).1
  have hcmag : 0 < (reciprocIterate x (reciprocApprox x)).mag := CFloat.mag_pos hcn
  refine ⟨(CFloat.isNormalized_iff _).mpr hnorm, hpos, ?_⟩
  have hprod : x.mag * ((reciprocApprox x).mul (reciprocIterate x (reciprocApprox x))).mag =
      x.mag * (reciprocApprox x).mag * (reciprocIterate x (reciprocApprox x)).mag *
        (1 + (((reciprocApprox x).mul (reciprocIterate x (reciprocApprox x))).mag /
          ((reciprocApprox x).mag * (reciprocIterate x (reciprocApprox x)).mag) - 1)) := by
    field_simp
    ring
  rw [← hprod] at hstep
  have hbound : |x.mag * ((reciprocApprox x).mul (reciprocIterate x (reciprocApprox x))).mag - 1| ≤
      1 / 2 ^ 45 := by
    refine hstep.trans ?_
    norm_num
  rw [CFloat.val, CFloat.val, hpos]
  refine signed_error ?_ hxpos hbound
  cases x.isPositive <;> simp

/-- The sequence at `1.5`. -/
theorem division_sequence_three_halves :
    ((reciprocApprox ⟨0x4001C00000000000⟩).mul
        (reciprocIterate ⟨0x4001C00000000000⟩ (reciprocApprox ⟨0x4001C00000000000⟩))).isNormalized
        = true ∧
      ((reciprocApprox ⟨0x4001C00000000000⟩).mul
        (reciprocIterate ⟨0x4001C00000000000⟩ (reciprocApprox ⟨0x4001C00000000000⟩))).isPositive
        = (CFloat.mk 0x4001C00000000000).isPositive ∧
      |((reciprocApprox ⟨0x4001C00000000000⟩).mul
          (reciprocIterate ⟨0x4001C00000000000⟩ (reciprocApprox ⟨0x4001C00000000000⟩))).val -
          (CFloat.mk 0x4001C00000000000).val⁻¹| ≤
        1 / 2 ^ 45 * |(CFloat.mk 0x4001C00000000000).val⁻¹| :=
  division_sequence ⟨0x4001C00000000000⟩ (by decide) (by decide) (by decide)

end CraySim
