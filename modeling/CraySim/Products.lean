/-
  Subject:   How close a product is to the product of the values.

  The multiplier drops what leaves its 56 bit word on the right and makes up for it with the
  correction factor. For two normalized operands in the exponent range the file compares what
  comes out, as a rational number, with the exact product.

  * `CFloat.InRange` -- the operands,
  * `mult_in_range` -- exponent, sign and fraction of their product in each rounding,
  * `product_accuracy` -- **the full and the rounded product are off by one unit in the last
    place, the full one by a little more**,
  * `half_accurate_iff` -- **the half precision product is good to `2 ^ -28` exactly where its
    rounding does not carry out of the word**,
  * `integer_product` -- **on integers of 24 bits the multiplier is exact**.
-/
import CraySim.HalfPrecision

namespace CraySim

open CFloat

/-! ## 1. Operands in range -/

namespace CFloat

/-- A normalized operand with an exponent between 020000 and 057777. -/
structure InRange (a : CFloat) : Prop where
  normalized : a.isNormalized = true
  exp_ge : 0x2000 ≤ a.rawExp
  exp_le : a.rawExp ≤ 0x5fff

instance (a : CFloat) : Decidable a.InRange :=
  decidable_of_iff (a.isNormalized = true ∧ 0x2000 ≤ a.rawExp ∧ a.rawExp ≤ 0x5fff)
    ⟨fun h => ⟨h.1, h.2.1, h.2.2⟩, fun h => ⟨h.1, h.2, h.3⟩⟩

/-- One unit in the last place of a word. -/
def ulp (w : CFloat) : ℚ := 2 ^ ((w.rawExp : ℤ) - 0x4001 - 47)

variable {a : CFloat} (ha : a.InRange)

include ha in
theorem InRange.fract_ge : 2 ^ 47 ≤ a.uFract.toNat := (isNormalized_iff a).mp ha.normalized

include ha in
theorem InRange.operand_eq : a.operand = a := CraySim.operand_eq a ha.exp_ge

theorem ofParts_zero : ofParts (-expOfs) true 0 = ⟨0⟩ := by decide

end CFloat

section fields
variable {a b : CFloat} (ha : a.InRange) (hb : b.InRange)

include ha hb in
theorem roundedSum_bounds (aDoRounding aHalfPrecision : Bool) :
    2 ^ 39 * roundedSum a b aDoRounding aHalfPrecision ≤ a.uFract.toNat * b.uFract.toNat +
        2 ^ 39 * (correctionFactor aDoRounding aHalfPrecision false).toNat ∧
      a.uFract.toNat * b.uFract.toNat +
          2 ^ 39 * (correctionFactor aDoRounding aHalfPrecision false).toNat ≤
        2 ^ 39 * (roundedSum a b aDoRounding aHalfPrecision + 39) ∧
      2 ^ 55 ≤ roundedSum a b aDoRounding aHalfPrecision := by
  have hla := ha.fract_ge
  have hlb := toNat_uFract_lt b
  obtain ⟨hle, -⟩ := rawProduct_bounds a.uFract.toNat hlb
  have hge := rawProduct_loss a.uFract.toNat hlb
  have htop := le_rawProduct a.uFract.toNat hb.fract_ge hlb
  rw [roundedSum]
  refine ⟨by omega, by omega, by omega⟩

include ha hb in
/-- The product as `Mult` normalizes it: no operand in range is zero or an integer. -/
theorem mult_of_in_range (aDoRounding aHalfPrecision : Bool) :
    mult a b aDoRounding aHalfPrecision false =
      normalizeProduct (a.exp + b.exp) (a.isPositive == b.isPositive) aHalfPrecision
        (multLoop (a.uFract <<< 8) (b.uFract <<< 8) +
          correctionFactor aDoRounding aHalfPrecision false) := by
  have hla := ha.exp_ge
  have hza := value_ne_zero a ha.exp_ge
  have hzb := value_ne_zero b hb.exp_ge
  have h := mult_eq_normalizeProduct a b aDoRounding aHalfPrecision
  rw [ha.operand_eq, hb.operand_eq] at h
  exact h hza hzb (by omega)

include ha hb in
theorem mult_underflow {aDoRounding aHalfPrecision : Bool}
    (hu : Underflows a b (roundedSum a b aDoRounding aHalfPrecision)) :
    mult a b aDoRounding aHalfPrecision false = ⟨0⟩ := by
  have h := @normalizeProduct_fields a b (a.isPositive == b.isPositive) aHalfPrecision _ _
    (toNat_roundedSum a b aDoRounding aHalfPrecision)
  rw [if_pos hu, ofParts_zero] at h
  rw [mult_of_in_range ha hb, h]

include ha hb in
/-- **Exponent, sign and fraction of a product**, for a sum that stays within its 57 places:
    `k` is the place the sum was shifted by. -/
theorem mult_in_range {aDoRounding aHalfPrecision : Bool} {t k : Nat}
    (ht : roundedSum a b aDoRounding aHalfPrecision = t) (hfits : t < 2 ^ 57)
    (hk : t / 2 ^ 56 = k) (hu : ¬ Underflows a b t) :
    (mult a b aDoRounding aHalfPrecision false).rawExp + 0x4001 = a.rawExp + b.rawExp + k ∧
      (mult a b aDoRounding aHalfPrecision false).isPositive = (a.isPositive == b.isPositive) ∧
      (mult a b aDoRounding aHalfPrecision false).uFract.toNat =
        keptSum aHalfPrecision (t / 2 ^ k) / 2 ^ 8 := by
  have h := @normalizeProduct_fields a b (a.isPositive == b.isPositive) aHalfPrecision _ _
    (toNat_roundedSum a b aDoRounding aHalfPrecision)
  have hmod : t / 2 ^ 56 % 2 = k := by omega
  rw [ht, if_neg hu, hmod] at h
  obtain ⟨v, hv, h⟩ := h
  have hae := ha.exp_le
  have hbe := hb.exp_le
  rw [Underflows, hmod] at hu
  have hexp : a.exp + b.exp + (k : Nat) =
      ((a.rawExp + b.rawExp + k - 0x4001 : Nat) : Int) - expOfs := by
    rw [exp, exp, show expOfs = 0x4001 from rfl]
    omega
  have hkept : keptSum aHalfPrecision (t / 2 ^ k) ≤ t / 2 ^ k := by
    rw [keptSum]
    split
    · exact Nat.div_mul_le_self _ _
    · exact le_rfl
  have hquot : t / 2 ^ k < 2 ^ 56 := by
    obtain rfl | rfl : k = 0 ∨ k = 1 := by omega
    · omega
    · omega
  rw [mult_of_in_range ha hb, h, hexp, rawExp_ofParts _ (by omega), isPositive_ofParts,
    toNat_uFract_ofParts, hv]
  exact ⟨by omega, rfl, by omega⟩

end fields

/-! ## 2. Values -/

section values
variable {a b p : CFloat} {k : Nat}

theorem CFloat.mag_nonneg (w : CFloat) : 0 ≤ w.mag := by
  rw [mag]
  positivity

theorem CFloat.abs_val (w : CFloat) : |w.val| = w.mag := by
  rw [val, abs_mul, abs_of_nonneg w.mag_nonneg]
  cases w.isPositive with
  | false => norm_num
  | true => norm_num

theorem CFloat.val_mul_val (a b : CFloat) :
    a.val * b.val = (if a.isPositive == b.isPositive then 1 else -1) * (a.mag * b.mag) := by
  rw [val, val]
  cases a.isPositive <;> cases b.isPositive <;> norm_num

/-- The place the multiplier's sum ends with. -/
def sumUnit (a b : CFloat) : ℚ := 2 ^ (((a.rawExp + b.rawExp : Nat) : ℤ) - 0x8002 - 55)

theorem sumUnit_pos (a b : CFloat) : 0 < sumUnit a b := by
  rw [sumUnit]
  positivity

theorem mag_mul_mag_sumUnit (a b : CFloat) :
    a.mag * b.mag = (a.uFract.toNat * b.uFract.toNat : ℚ) / 2 ^ 39 * sumUnit a b := by
  have hexp : ((a.rawExp + b.rawExp : Nat) : ℤ) - 0x8002 - 55 =
      39 + ((a.rawExp : ℤ) + b.rawExp - 0x8002 - 94) := by
    push_cast
    ring
  rw [mag_mul_mag, sumUnit, hexp, zpow_add₀ (by norm_num)]
  norm_num
  ring

/-- The distance of a word from the exact product, where sign and exponent are those of the
    product. -/
theorem abs_val_sub_product (hp : p.isPositive = (a.isPositive == b.isPositive))
    (he : p.rawExp + 0x4001 = a.rawExp + b.rawExp + k) :
    |p.val - a.val * b.val| =
      |(p.uFract.toNat * 2 ^ (8 + k) : ℚ) - (a.uFract.toNat * b.uFract.toNat : ℚ) / 2 ^ 39| *
        sumUnit a b := by
  have hsign : p.val - a.val * b.val =
      (if a.isPositive == b.isPositive then 1 else -1) * (p.mag - a.mag * b.mag) := by
    rw [val_mul_val, val, hp, mul_sub]
  have hone : |(if a.isPositive == b.isPositive then 1 else -1 : ℚ)| = 1 := by
    split <;> norm_num
  rw [hsign, abs_mul, hone, one_mul, mag_mul_mag_sumUnit, mag_of_shift he, ← sumUnit, ← sub_mul,
    abs_mul, abs_of_pos (sumUnit_pos a b)]

theorem ulp_eq (he : p.rawExp + 0x4001 = a.rawExp + b.rawExp + k) :
    p.ulp = 2 ^ (8 + k) * sumUnit a b := by
  have hexp : (p.rawExp : ℤ) - 0x4001 - 47 =
      ((8 + k : Nat) : ℤ) + (((a.rawExp + b.rawExp : Nat) : ℤ) - 0x8002 - 55) := by
    push_cast
    omega
  rw [ulp, hexp, zpow_add₀ (by norm_num), zpow_natCast, sumUnit]

end values

/-! ## 3. The full and the rounded product -/

/-- `p` is the product of `a` and `b` with normalization carry `k`: zero exactly below the valid
    exponents, otherwise normalized, with the sign and the exponent of the product, and less
    than `bound` units in the last place away from it. -/
structure AccurateProduct (p a b : CFloat) (k : Nat) (bound : ℚ) : Prop where
  zero_iff : p = ⟨0⟩ ↔ a.rawExp + b.rawExp + k < 0x6001
  normalized : p ≠ ⟨0⟩ → p.isNormalized = true
  sign : p ≠ ⟨0⟩ → p.isPositive = (a.isPositive == b.isPositive)
  exponent : p ≠ ⟨0⟩ → p.rawExp + 0x4001 = a.rawExp + b.rawExp + k
  error : p ≠ ⟨0⟩ → |p.val - a.val * b.val| < bound * p.ulp

section full
variable {a b : CFloat} (ha : a.InRange) (hb : b.InRange)

theorem ne_zero_of_fract {p : CFloat} (h : 2 ^ 47 ≤ p.uFract.toNat) : p ≠ ⟨0⟩ := by
  intro hp
  rw [hp] at h
  exact absurd h (by decide)

/-- A shifted sum in units of the last place of the sum. -/
theorem shifted_error {t q k c f : Nat} {bound : ℚ} (hk : k ≤ 1) (hq : q = t / 2 ^ (8 + k))
    (hle : 2 ^ 39 * t ≤ f + 2 ^ 39 * c) (hge : f + 2 ^ 39 * c ≤ 2 ^ 39 * (t + 39))
    (hc : (c : ℚ) < 2 ^ 8) (hbound : 1 ≤ bound) (hlow : (38 - c : ℚ) + 2 ^ 8 < bound * 2 ^ 8) :
    |(q * 2 ^ (8 + k) : ℚ) - (f : ℚ) / 2 ^ 39| < bound * 2 ^ (8 + k) := by
  obtain ⟨h1, h2⟩ := shifted_bounds hk hq
  have hz : (q * 2 ^ (8 + k) : ℚ) ≤ t := by exact_mod_cast h1
  have hz' : (t : ℚ) ≤ q * 2 ^ (8 + k) + (255 * (k + 1) + k) := by
    rw [Nat.add_assoc] at h2
    exact_mod_cast h2
  have hle' : (2 : ℚ) ^ 39 * t ≤ f + 2 ^ 39 * c := by exact_mod_cast hle
  have hge' : (f : ℚ) + 2 ^ 39 * c ≤ 2 ^ 39 * (t + 39) := by exact_mod_cast hge
  have hexact : (f : ℚ) = 2 ^ 39 * (f / 2 ^ 39) := by
    field_simp
  rw [hexact] at hle' hge'
  have hup : (c : ℚ) < bound * 2 ^ 8 := by linarith
  generalize (f : ℚ) / 2 ^ 39 = e at *
  rw [abs_lt]
  obtain rfl | rfl : k = 0 ∨ k = 1 := by omega
  · norm_num at hz hz' hle' hge' hup hlow ⊢
    constructor
    · linarith
    · linarith
  · norm_num at hz hz' hle' hge' hup hlow ⊢
    constructor
    · linarith
    · linarith

include ha hb in
/-- A product without the rounding of half precision, whatever its correction factor `c`. -/
theorem accurateProduct {aDoRounding : Bool} {c : Nat} {bound : ℚ}
    (hc : (correctionFactor aDoRounding false false).toNat = c) (hsmall : (c : ℚ) < 2 ^ 8)
    (hbound : 1 ≤ bound) (hlow : (38 - c : ℚ) + 2 ^ 8 < bound * 2 ^ 8) :
    AccurateProduct (mult a b aDoRounding false false) a b
      (roundedSum a b aDoRounding false / 2 ^ 56) bound := by
  obtain ⟨hle, hge, h55⟩ := roundedSum_bounds ha hb aDoRounding false
  have hfits := productSum_lt a b
  have hsmall' : c < 2 ^ 8 := by exact_mod_cast hsmall
  have ht : roundedSum a b aDoRounding false < 2 ^ 57 := by
    have hdouble : rawProduct a.uFract.toNat b.uFract.toNat ≤ 2 * (2 ^ 8 * a.uFract.toNat) :=
      ShiftAdd.sum_le_two_mul _ _ _
    have hla := toNat_uFract_lt a
    rw [roundedSum, hc]
    omega
  rw [hc] at hle hge
  have hcarry : roundedSum a b aDoRounding false / 2 ^ 56 % 2 =
      roundedSum a b aDoRounding false / 2 ^ 56 := by omega
  by_cases hu : Underflows a b (roundedSum a b aDoRounding false)
  · have hzero := mult_underflow ha hb hu
    rw [Underflows, hcarry] at hu
    exact ⟨⟨fun _ => hu, fun _ => hzero⟩, fun h => absurd hzero h, fun h => absurd hzero h,
      fun h => absurd hzero h, fun h => absurd hzero h⟩
  · obtain ⟨hexp, hsign, hfract⟩ := mult_in_range ha hb rfl ht rfl hu
    rw [Underflows, hcarry] at hu
    generalize hts : roundedSum a b aDoRounding false = t at *
    have hk : t / 2 ^ 56 ≤ 1 := by omega
    rw [keptSum, if_neg Bool.false_ne_true, Nat.div_div_eq_div_mul, ← pow_add,
      Nat.add_comm _ 8] at hfract
    have hnorm : 2 ^ 47 ≤ (mult a b aDoRounding false false).uFract.toNat := by
      rw [hfract, Nat.le_div_iff_mul_le (Nat.two_pow_pos _), ← pow_add]
      obtain h | h : t / 2 ^ 56 = 0 ∨ t / 2 ^ 56 = 1 := by omega
      · rw [h]
        exact h55
      · rw [h]
        omega
    have hne := ne_zero_of_fract hnorm
    refine ⟨⟨fun h => absurd h hne, fun h => absurd h hu⟩, fun _ => (isNormalized_iff _).mpr hnorm, fun _ => hsign,
      fun _ => hexp, fun _ => ?_⟩
    rw [abs_val_sub_product hsign hexp, ulp_eq hexp, ← mul_assoc]
    refine mul_lt_mul_of_pos_right ?_ (sumUnit_pos a b)
    have herr := shifted_error hk hfract hle hge hsmall hbound hlow
    rw [Nat.cast_mul] at herr
    exact herr

include ha hb in
/-- **The full and the rounded product of two operands in range**: zero exactly when the exponent
    underflows, otherwise normalized and without an exponent that wrapped; the rounded one is
    within one unit in the last place of the exact product, the full one within 21/256 more. -/
theorem product_accuracy :
    AccurateProduct (a.mul b) a b (roundedSum a b false false / 2 ^ 56) (1 + 21 / 256) ∧
      AccurateProduct (roundedMult a b) a b (roundedSum a b true false / 2 ^ 56) 1 := by
  constructor
  · exact accurateProduct (c := 18) ha hb rfl (by norm_num) (by norm_num) (by norm_num)
  · exact accurateProduct (c := 210) ha hb rfl (by norm_num) (by norm_num) (by norm_num)

end full

/-- Two fractions near two, where the full product is more than one unit too small. -/
theorem full_product_over_one_unit :
    let a : CFloat := ⟨0x4001FF6A43393AF7⟩
    let b : CFloat := ⟨0x4001FFFFFFFFFFFF⟩
    a.InRange ∧ b.InRange ∧ a.mul b ≠ ⟨0⟩ ∧
      ¬ |(a.mul b).val - a.val * b.val| < (a.mul b).ulp := by
  intro a b
  have hmul : a.mul b = ⟨0x4002FF6A43393AF5⟩ := by decide +kernel
  refine ⟨by decide, by decide, ?_, ?_⟩
  · rw [hmul]
    decide
  · have hsign : (CFloat.mk 0x4002FF6A43393AF5).isPositive = (a.isPositive == b.isPositive) := by
      decide
    have hexp : (CFloat.mk 0x4002FF6A43393AF5).rawExp + 0x4001 = a.rawExp + b.rawExp + 1 := by
      decide
    have hp : (CFloat.mk 0x4002FF6A43393AF5).uFract.toNat = 0xFF6A43393AF5 := by decide
    have ha : a.uFract.toNat = 0xFF6A43393AF7 := by decide
    have hb : b.uFract.toNat = 0xFFFFFFFFFFFF := by decide
    rw [hmul, abs_val_sub_product hsign hexp, ulp_eq hexp, hp, ha, hb, not_lt]
    refine mul_le_mul_of_nonneg_right ?_ (sumUnit_pos a b).le
    norm_num [abs_of_neg]

/-- The bounds at the product of two ones. -/
theorem product_accuracy_one :
    let a : CFloat := ⟨0x4001800000000000⟩
    AccurateProduct (a.mul a) a a (roundedSum a a false false / 2 ^ 56) (1 + 21 / 256) ∧
      AccurateProduct (roundedMult a a) a a (roundedSum a a true false / 2 ^ 56) 1 :=
  product_accuracy (by decide) (by decide)

/-! ## 4. The half precision product -/

/-- What half precision promises of a product: normalized, with the sign of the product, and
    within `2 ^ -28` of it. -/
structure HalfAccurate (p a b : CFloat) : Prop where
  normalized : p.isNormalized = true
  sign : p.isPositive = (a.isPositive == b.isPositive)
  error : |p.val - a.val * b.val| ≤ 1 / 2 ^ 28 * |a.val * b.val|

/-- **Where the rounding does not carry out of the word**: the fractions together stay below two
    by three times `2 ^ -33`, or meet that bound with more than 76 ones between them. -/
def RoundingFits (a b : CFloat) : Prop :=
  a.uFract.toNat + b.uFract.toNat < 2 ^ 49 - 3 * 2 ^ 15 ∨
    a.uFract.toNat + b.uFract.toNat = 2 ^ 49 - 3 * 2 ^ 15 ∧
      76 < ShiftAdd.ones a.uFract.toNat + ShiftAdd.ones b.uFract.toNat

section half
variable {a b : CFloat} (ha : a.InRange) (hb : b.InRange)

/-- At that bound the multiplier has a one at each of its first 31 steps, and the others would
    add all ones. -/
theorem rawProduct_nearly_ones {m n : Nat} (hm : m < 2 ^ 48) (hn : n < 2 ^ 48)
    (h : m + n = 2 ^ 49 - 3 * 2 ^ 15) :
    rawProduct m n + ShiftAdd.ones m + ShiftAdd.ones n + 2 ^ 57 =
      2 ^ 9 * (2 ^ 49 - 3 * 2 ^ 15) + 58 := by
  have hsum := ShiftAdd.sum_of_nearly_ones 48 8 hm hn (fun i hi hbit => ?_) (by omega)
  · rw [h] at hsum
    exact hsum
  · have h31 : 31 ≤ i := by
      by_contra hlt
      have hsplit : n = 2 ^ 17 * (2 ^ 31 - 1) + n % 2 ^ 17 := by omega
      rw [hsplit, Nat.testBit_two_pow_mul_add _ (Nat.mod_lt n (by decide)), if_neg (by omega),
        Nat.testBit_two_pow_sub_one, decide_eq_false_iff_not] at hbit
      omega
    calc 2 ^ 8 * (2 ^ 48 - m) ≤ 2 ^ 31 := by omega
      _ ≤ 2 ^ i := Nat.pow_le_pow_right (by decide) h31

/-- The condition in terms of the multiplier's sum. -/
theorem roundingFits_iff : roundedSum a b false true < 2 ^ 57 ↔ RoundingFits a b := by
  have hla := toNat_uFract_lt a
  have hlb := toNat_uFract_lt b
  obtain ⟨hle, hge⟩ := rawProduct_bounds a.uFract.toNat hlb
  rw [roundedSum, RoundingFits, show (correctionFactor false true false).toNat = 50331666 from rfl]
  generalize a.uFract.toNat = m at *
  generalize b.uFract.toNat = n at *
  obtain h | h | h : m + n < 2 ^ 49 - 3 * 2 ^ 15 ∨ m + n = 2 ^ 49 - 3 * 2 ^ 15 ∨
      2 ^ 49 - 3 * 2 ^ 15 < m + n := by omega
  · have hmul : m * n ≤ 2 ^ 39 * (2 ^ 57 - 50332160) + 2 ^ 32 := by
      have hsq : (m + n) * (m + n) ≤ (2 ^ 49 - 98305) * (2 ^ 49 - 98305) :=
        Nat.mul_le_mul (by omega) (by omega)
      norm_num at hsq ⊢
      zify at hsq ⊢
      nlinarith [sq_nonneg ((m : ℤ) - n)]
    refine iff_of_true ?_ (Or.inl h)
    omega
  · have hexact := rawProduct_nearly_ones hla hlb h
    omega
  · have hmul : 2 ^ 39 * (2 ^ 57 - 50331136) ≤ m * n := by
      have hpos : 0 ≤ ((2 : ℤ) ^ 48 - m) * (2 ^ 48 - n) :=
        mul_nonneg (by omega) (by omega)
      norm_num at h hpos ⊢
      zify at h ⊢
      linarith
    refine iff_of_false ?_ ?_
    · omega
    · omega

/-- What the exact product needs of the fractions where the exponents alone are too small. -/
theorem fract_mul_ge {d : Nat} (hd : a.rawExp + b.rawExp + d = 0x6001)
    (hlow : (2 : ℚ) ^ ((0x2000 : ℤ) - 0x4001) ≤ |a.val * b.val|) :
    2 ^ (94 + d) ≤ a.uFract.toNat * b.uFract.toNat := by
  have hunit : (2 : ℚ) ^ ((0x2000 : ℤ) - 0x4001) = 2 ^ (55 + d) * sumUnit a b := by
    rw [sumUnit, ← zpow_natCast, ← zpow_add₀ (by norm_num)]
    congr 1
    push_cast
    omega
  rw [abs_mul, abs_val, abs_val, mag_mul_mag_sumUnit, hunit] at hlow
  have hle := le_of_mul_le_mul_right hlow (sumUnit_pos a b)
  rw [le_div_iff₀ (by norm_num), ← pow_add, show 55 + d + 39 = 94 + d by omega] at hle
  exact_mod_cast hle

include ha hb in
/-- A product whose exact value is in the valid range does not underflow. -/
theorem half_not_underflow (hfits : roundedSum a b false true < 2 ^ 57)
    (hlow : (2 : ℚ) ^ ((0x2000 : ℤ) - 0x4001) ≤ |a.val * b.val|) :
    ¬ Underflows a b (roundedSum a b false true) := by
  obtain ⟨-, hge, h55⟩ := roundedSum_bounds ha hb false true
  rw [show (correctionFactor false true false).toNat = 50331666 from rfl] at hge
  have hlt : a.uFract.toNat * b.uFract.toNat < 2 ^ 48 * 2 ^ 48 :=
    Nat.mul_lt_mul'' (toNat_uFract_lt a) (toNat_uFract_lt b)
  rw [Underflows]
  intro hu
  obtain ⟨d, hd⟩ : ∃ d, a.rawExp + b.rawExp + d = 0x6001 := ⟨_, Nat.add_sub_cancel' (by omega)⟩
  have hmul := fract_mul_ge hd hlow
  obtain rfl | hd1 : d = 1 ∨ 2 ≤ d := by omega
  · -- the missing one is the carry of the fractions
    omega
  · have hpow : 2 ^ 96 ≤ 2 ^ (94 + d) := Nat.pow_le_pow_right (by decide) (by omega)
    omega

/-- The sum half precision keeps, in units of the last place of the sum. -/
theorem half_error {t q k f : Nat} (hk : t / 2 ^ 56 = k) (hk1 : k ≤ 1)
    (hq : q = t / 2 ^ k / 2 ^ 27 * 2 ^ 27 / 2 ^ 8) (hf : 2 ^ 94 ≤ f)
    (hle : 2 ^ 39 * t ≤ f + 2 ^ 39 * 50331666) (hge : f + 2 ^ 39 * 50331666 ≤ 2 ^ 39 * (t + 39)) :
    |(q * 2 ^ (8 + k) : ℚ) - (f : ℚ) / 2 ^ 39| ≤ 1 / 2 ^ 28 * ((f : ℚ) / 2 ^ 39) := by
  have hz : q * 2 ^ (8 + k) ≤ t ∧ t + 1 ≤ q * 2 ^ (8 + k) + 2 ^ (27 + k) ∧
      2 ^ 39 * (2 ^ (55 + k) - k * 50331666) ≤ f := by
    obtain rfl | rfl : k = 0 ∨ k = 1 := by omega
    · omega
    · omega
  obtain ⟨h1, h2, h3⟩ := hz
  have h1' : (q * 2 ^ (8 + k) : ℚ) ≤ t := by exact_mod_cast h1
  have h2' : (t : ℚ) + 1 ≤ q * 2 ^ (8 + k) + 2 ^ (27 + k) := by exact_mod_cast h2
  have hle' : (2 : ℚ) ^ 39 * t ≤ f + 2 ^ 39 * 50331666 := by exact_mod_cast hle
  have hge' : (f : ℚ) + 2 ^ 39 * 50331666 ≤ 2 ^ 39 * (t + 39) := by exact_mod_cast hge
  have hexact : (f : ℚ) = 2 ^ 39 * (f / 2 ^ 39) := by
    field_simp
  have h3' : (2 : ℚ) ^ 39 * ((2 ^ (55 + k) - k * 50331666 : Nat) : ℚ) ≤ f := by exact_mod_cast h3
  rw [hexact] at hle' hge' h3'
  generalize (f : ℚ) / 2 ^ 39 = e at *
  rw [abs_le]
  obtain rfl | rfl : k = 0 ∨ k = 1 := by omega
  · norm_num at h1' h2' h3' hle' hge' ⊢
    constructor
    · linarith
    · linarith
  · norm_num at h1' h2' h3' hle' hge' ⊢
    constructor
    · linarith
    · linarith

include ha hb in
/-- Where the rounding carries out of the word nothing of the fraction is left. -/
theorem half_overflow (hover : 2 ^ 57 ≤ roundedSum a b false true) :
    (halfPrecisionMult a b).uFract.toNat = 0 := by
  have hdouble : rawProduct a.uFract.toNat b.uFract.toNat ≤ 2 * (2 ^ 8 * a.uFract.toNat) :=
    ShiftAdd.sum_le_two_mul _ _ _
  have hla := toNat_uFract_lt a
  have hlt : roundedSum a b false true < 2 ^ 57 + 2 ^ 26 := by
    rw [roundedSum, show (correctionFactor false true false).toNat = 50331666 from rfl]
    omega
  have h := @normalizeProduct_fields a b (a.isPositive == b.isPositive) true _ _
    (toNat_roundedSum a b false true)
  rw [← mult_of_in_range ha hb] at h
  rw [halfPrecisionMult]
  generalize roundedSum a b false true = t at *
  -- bit 56 is clear again, so the sum is not shifted
  have hcarry : t / 2 ^ 56 % 2 = 0 := by omega
  by_cases hu : Underflows a b t
  · rw [if_pos hu] at h
    rw [h]
    decide
  · rw [if_neg hu, hcarry] at h
    obtain ⟨v, hv, h⟩ := h
    rw [h, toNat_uFract_ofParts, hv, keptSum, if_pos rfl, pow_zero, Nat.div_one]
    omega

include ha hb in
/-- **The half precision product**: for two operands in range whose exact product is not below
    the valid range, it is what it promises exactly where its rounding does not carry out of the
    word. A product above the range keeps its exponent. -/
theorem half_accurate_iff (hlow : (2 : ℚ) ^ ((0x2000 : ℤ) - 0x4001) ≤ |a.val * b.val|) :
    HalfAccurate (halfPrecisionMult a b) a b ↔ RoundingFits a b := by
  rw [← roundingFits_iff]
  constructor
  · intro h
    by_contra hover
    have hzero := half_overflow ha hb (not_lt.mp hover)
    have hnorm := (isNormalized_iff _).mp h.normalized
    omega
  · intro hfits
    have hu := half_not_underflow ha hb hfits hlow
    obtain ⟨hexp, hsign, hfract⟩ := mult_in_range ha hb rfl hfits rfl hu
    obtain ⟨hle, hge, h55⟩ := roundedSum_bounds ha hb false true
    rw [show (correctionFactor false true false).toNat = 50331666 from rfl] at hle hge
    rw [halfPrecisionMult]
    generalize roundedSum a b false true = t at *
    have hk : t / 2 ^ 56 ≤ 1 := by omega
    rw [keptSum, if_pos rfl] at hfract
    have hnorm : 2 ^ 47 ≤ (mult a b false true false).uFract.toNat := by
      rw [hfract]
      obtain h | h : t / 2 ^ 56 = 0 ∨ t / 2 ^ 56 = 1 := by omega
      · rw [h]
        omega
      · rw [h]
        omega
    have hf : 2 ^ 47 * 2 ^ 47 ≤ a.uFract.toNat * b.uFract.toNat :=
      Nat.mul_le_mul ha.fract_ge hb.fract_ge
    rw [← pow_add] at hf
    have herr := half_error rfl hk hfract hf hle hge
    refine ⟨(isNormalized_iff _).mpr hnorm, hsign, ?_⟩
    rw [abs_val_sub_product hsign hexp, abs_mul, abs_val, abs_val, mag_mul_mag_sumUnit, ← mul_assoc]
    refine mul_le_mul_of_nonneg_right ?_ (sumUnit_pos a b).le
    rw [Nat.cast_mul] at herr
    exact herr

include ha in
/-- A word in range is between two neighbouring powers of two. -/
theorem mag_bounds : (2 : ℚ) ^ ((a.rawExp : ℤ) - 0x4001) ≤ a.mag ∧
    a.mag < (2 : ℚ) ^ ((a.rawExp : ℤ) + 1 - 0x4001) := by
  have hlo : (2 : ℚ) ^ 47 ≤ a.uFract.toNat := by exact_mod_cast ha.fract_ge
  have hhi : (a.uFract.toNat : ℚ) < 2 ^ 48 := by exact_mod_cast toNat_uFract_lt a
  have hpos : (0 : ℚ) < 2 ^ ((a.rawExp : ℤ) - 0x4001 - 47) := by positivity
  have h47 : (2 : ℚ) ^ ((a.rawExp : ℤ) - 0x4001) = 2 ^ 47 * 2 ^ ((a.rawExp : ℤ) - 0x4001 - 47) := by
    rw [← zpow_natCast, ← zpow_add₀ (by norm_num)]
    congr 1
    push_cast
    ring
  have h48 : (2 : ℚ) ^ ((a.rawExp : ℤ) + 1 - 0x4001) =
      2 ^ 48 * 2 ^ ((a.rawExp : ℤ) - 0x4001 - 47) := by
    rw [← zpow_natCast, ← zpow_add₀ (by norm_num)]
    congr 1
    push_cast
    ring
  rw [h47, h48, mag]
  exact ⟨mul_le_mul_of_nonneg_right hlo hpos.le, mul_lt_mul_of_pos_right hhi hpos⟩

include ha hb in
/-- The exponents alone keep a product in the valid range. -/
theorem product_in_range (hlo : 0x6001 ≤ a.rawExp + b.rawExp) (hhi : a.rawExp + b.rawExp ≤ 0x9fff) :
    (2 : ℚ) ^ ((0x2000 : ℤ) - 0x4001) ≤ |a.val * b.val| ∧
      |a.val * b.val| < (2 : ℚ) ^ ((0x6000 : ℤ) - 0x4001) := by
  obtain ⟨ha1, ha2⟩ := mag_bounds ha
  obtain ⟨hb1, hb2⟩ := mag_bounds hb
  rw [abs_mul, abs_val, abs_val]
  constructor
  · calc (2 : ℚ) ^ ((0x2000 : ℤ) - 0x4001)
        ≤ 2 ^ (((a.rawExp : ℤ) - 0x4001) + ((b.rawExp : ℤ) - 0x4001)) :=
          zpow_le_zpow_right₀ (by norm_num) (by omega)
      _ = 2 ^ ((a.rawExp : ℤ) - 0x4001) * 2 ^ ((b.rawExp : ℤ) - 0x4001) :=
          zpow_add₀ (by norm_num) _ _
      _ ≤ a.mag * b.mag := mul_le_mul ha1 hb1 (by positivity) a.mag_nonneg
  · calc a.mag * b.mag
        < 2 ^ ((a.rawExp : ℤ) + 1 - 0x4001) * 2 ^ ((b.rawExp : ℤ) + 1 - 0x4001) :=
          mul_lt_mul'' ha2 hb2 a.mag_nonneg b.mag_nonneg
      _ = 2 ^ (((a.rawExp : ℤ) + 1 - 0x4001) + ((b.rawExp : ℤ) + 1 - 0x4001)) :=
          (zpow_add₀ (by norm_num) _ _).symm
      _ ≤ (2 : ℚ) ^ ((0x6000 : ℤ) - 0x4001) :=
          zpow_le_zpow_right₀ (by norm_num) (by omega)

end half

/-- The equivalence at operands just below two. -/
theorem half_accurate_iff_three :
    let a : CFloat := ⟨0x4001FFFFFFFFFFFF⟩
    let b : CFloat := ⟨0x4001C00000000000⟩
    HalfAccurate (halfPrecisionMult a b) a b ↔ RoundingFits a b :=
  half_accurate_iff (by decide) (by decide)
    (product_in_range (by decide) (by decide) (by decide) (by decide)).1

/-- **All ones**: the rounding of half precision carries into bit 57, and the product of two
    numbers just below two is zero. -/
theorem not_half_accurate_ones :
    let a : CFloat := ⟨0x4001FFFFFFFFFFFF⟩
    a.InRange ∧ (2 : ℚ) ^ ((0x2000 : ℤ) - 0x4001) ≤ |a.val * a.val| ∧
      |a.val * a.val| < (2 : ℚ) ^ ((0x6000 : ℤ) - 0x4001) ∧
      (halfPrecisionMult a a).uFract = 0 ∧ ¬ HalfAccurate (halfPrecisionMult a a) a a := by
  intro a
  have ha : a.InRange := by decide
  have hzero : (halfPrecisionMult a a).uFract = 0 := by decide +kernel
  obtain ⟨hlo, hhi⟩ := product_in_range ha ha (by decide) (by decide)
  refine ⟨ha, hlo, hhi, hzero, fun h => ?_⟩
  have hnorm := (isNormalized_iff _).mp h.normalized
  rw [hzero] at hnorm
  exact absurd hnorm (by decide)

/-! ## 5. Integers -/

/-- The word `x << 24` of a number below `2 ^ 24`: an operand of the integer multiplication. -/
def integerOperand (x : Nat) : CFloat := ⟨BitVec.ofNat 64 x <<< 24⟩

section integers
variable {x y : Nat}

theorem integerOperand_fields (hx : x < 2 ^ 24) :
    (integerOperand x).operand = integerOperand x ∧ (integerOperand x).rawExp = 0 ∧
      (integerOperand x).uFract.toNat = 2 ^ 24 * x ∧ (integerOperand x).isPositive = true := by
  have hvalue : (integerOperand x).value.toNat = 2 ^ 24 * x := by
    rw [integerOperand, BitVec.toNat_shiftLeft, BitVec.toNat_ofNat, Nat.shiftLeft_eq]
    omega
  have hexp : (integerOperand x).rawExp = 0 := by
    rw [rawExp_eq, hvalue]
    omega
  refine ⟨by rw [operand, if_pos hexp], hexp, ?_, ?_⟩
  · rw [toNat_uFract, hvalue]
    omega
  · rw [isPositive_eq, ← BitVec.testBit_toNat, hvalue, Nat.testBit_lt_two_pow (by omega), Bool.not_false]

/-- A fraction with neither sign nor exponent is the word. -/
theorem ofParts_fract {v : CInt} (hv : v.toNat < 2 ^ 48) : ofParts (-expOfs) true v = ⟨v⟩ := by
  have hmask : v &&& fractMask = v := by
    apply BitVec.eq_of_toNat_eq
    rw [show fractMask = WordField.mask 64 48 from rfl, WordField.toNat_and_mask,
      Nat.mod_eq_of_lt hv]
  rw [ofParts, hmask, Int.add_left_neg]
  simp

/-- The 24 low zeros of the multiplicand make up for the 24 steps of the other operand. -/
theorem rawProduct_integers (hy : y < 2 ^ 24) :
    rawProduct (2 ^ 24 * x) (2 ^ 24 * y) = 2 ^ 9 * (x * y) := by
  have hlow : ∀ i, 24 ≤ i → i < 48 → (2 ^ 24 * y).testBit (47 - i) = false := fun i h24 h48 => by
    rw [Nat.testBit_two_pow_mul, decide_eq_false (by omega), Bool.false_and]
  have hweight := ShiftAdd.weight_testBit (2 ^ 24 * y) 48 24 (by decide)
  have hexact := ShiftAdd.sum_exact 32 24 (fun i => (2 ^ 24 * y).testBit (47 - i)) x (by decide)
  rw [show 2 ^ 24 * y % 2 ^ 48 / 2 ^ (48 - 24) = y by omega] at hweight
  rw [hweight] at hexact
  rw [rawProduct, ShiftAdd.sum_eq_of_false _ (by decide) hlow,
    show 2 ^ 8 * (2 ^ 24 * x) = 2 ^ 32 * x by ring]
  refine Nat.eq_of_mul_eq_mul_left (Nat.two_pow_pos 24) (hexact.trans ?_)
  ring

/-- The product in either rounding: what is added stays below the places that are dropped. -/
theorem mult_integerOperand (aDoRounding : Bool) (hx : x < 2 ^ 24) (hy : y < 2 ^ 24) :
    mult (integerOperand x) (integerOperand y) aDoRounding false false =
      ⟨BitVec.ofNat 64 (x * y)⟩ := by
  obtain ⟨hox, hex, hfx, hpx⟩ := integerOperand_fields hx
  obtain ⟨hoy, hey, hfy, hpy⟩ := integerOperand_fields hy
  by_cases hzero : (integerOperand x).value = 0 ∨ (integerOperand y).value = 0
  · have hxy : x * y = 0 := by
      rcases hzero with h | h
      · have hfract := hfx
        rw [toNat_uFract, h] at hfract
        rw [show x = 0 by simpa using hfract.symm, Nat.zero_mul]
      · have hfract := hfy
        rw [toNat_uFract, h] at hfract
        rw [show y = 0 by simpa using hfract.symm, Nat.mul_zero]
    rw [mult_zero aDoRounding false false (by rwa [hox, hoy]), hxy]
    rfl
  · rw [not_or] at hzero
    obtain ⟨v, hv, hmult⟩ := mult_integers (a := integerOperand x) (b := integerOperand y)
      aDoRounding false (by rw [hox]; exact hzero.1) (by rw [hoy]; exact hzero.2)
      (by rw [hox, hoy]; exact ⟨hex, hey⟩)
    have hc : (correctionFactor aDoRounding false false).toNat < 2 ^ 9 := by
      cases aDoRounding <;> decide
    have hmul : x * y < 2 ^ 24 * 2 ^ 24 := Nat.mul_lt_mul'' hx hy
    rw [hox, hoy, roundedSum, hfx, hfy, rawProduct_integers hy] at hv
    have hv' : v.toNat = x * y := by omega
    rw [hmult, hox, hoy, hpx, hpy, beq_self_eq_true, ofParts_fract (by omega)]
    congr 1
    apply BitVec.eq_of_toNat_eq
    rw [hv', BitVec.toNat_ofNat]
    omega

/-- **Integers of 24 bits**: the full and the rounded product of two operands without exponent
    is the integer product, a word of 48 bits. -/
theorem integer_product (hx : x < 2 ^ 24) (hy : y < 2 ^ 24) :
    (integerOperand x).mul (integerOperand y) = ⟨BitVec.ofNat 64 (x * y)⟩ ∧
      roundedMult (integerOperand x) (integerOperand y) = ⟨BitVec.ofNat 64 (x * y)⟩ ∧
      x * y < 2 ^ 48 ∧ (CFloat.mk (BitVec.ofNat 64 (x * y))).rawExp = 0 := by
  have hmul : x * y < 2 ^ 24 * 2 ^ 24 := Nat.mul_lt_mul'' hx hy
  refine ⟨mult_integerOperand false hx hy, mult_integerOperand true hx hy, hmul, ?_⟩
  rw [rawExp_eq, BitVec.toNat_ofNat]
  omega

/-- The largest operands. -/
theorem integer_product_largest :
    (integerOperand 0xFFFFFF).mul (integerOperand 0xFFFFFF) =
        ⟨BitVec.ofNat 64 (0xFFFFFF * 0xFFFFFF)⟩ ∧
      roundedMult (integerOperand 0xFFFFFF) (integerOperand 0xFFFFFF) =
        ⟨BitVec.ofNat 64 (0xFFFFFF * 0xFFFFFF)⟩ ∧
      0xFFFFFF * 0xFFFFFF < 2 ^ 48 ∧
      (CFloat.mk (BitVec.ofNat 64 (0xFFFFFF * 0xFFFFFF))).rawExp = 0 :=
  integer_product (by decide) (by decide)

end integers

end CraySim
