/-
  Subject:   When the half precision product is the full precision one.

  `HalfPrecisionMult` adds one half of the last place it keeps and drops the 19 places behind it;
  `operator *` does neither. The two words differ for most operands. The file finds the others.

  * `productSum` -- what the multiplier sums up for two operands,
  * `normalizeProduct_fields` -- exponent and fraction of a product, in either precision,
  * `HalfExact` -- nothing is left for the rounding to change,
  * `mul_eq_half_iff` -- **the two products agree exactly then**.
-/
import CraySim.FloatLaws

namespace CraySim

namespace CFloat

/-- An operand of `Mult`: below the valid range it is zero, unless it is an integer. -/
def operand (a : CFloat) : CFloat := if a.rawExp = 0 then a else a.underflowOrValue

/-- The sum of the partial products of two fractions with the correction factor. -/
def productSum (a b : CFloat) : Nat := rawProduct a.uFract.toNat b.uFract.toNat + 18

/-- The same sum with the correction factor of a rounding. -/
def roundedSum (a b : CFloat) (aDoRounding aHalfPrecision : Bool) : Nat :=
  rawProduct a.uFract.toNat b.uFract.toNat +
    (correctionFactor aDoRounding aHalfPrecision false).toNat

/-- The exponent of a product with that sum is below the valid range. -/
def Underflows (a b : CFloat) (sum : Nat) : Prop :=
  a.rawExp + b.rawExp + sum / 2 ^ 56 % 2 < 0x6001

instance (a b : CFloat) (sum : Nat) : Decidable (Underflows a b sum) :=
  inferInstanceAs (Decidable (_ < _))

/-- The correction factor of half precision: one half of the last place that is kept. -/
def halfRounding : Nat := 2 ^ 24 + 2 ^ 25

/-- **Nothing to round**: an operand is zero; or not both are integers, and the product underflows
    with and without rounding, or its fraction ends with the last place half precision keeps. -/
def HalfExact (a b : CFloat) : Prop :=
  a.operand.value = 0 ∨ b.operand.value = 0 ∨
    ¬ (a.operand.rawExp = 0 ∧ b.operand.rawExp = 0) ∧
      (Underflows a.operand b.operand (productSum a.operand b.operand) ∧
          Underflows a.operand b.operand (productSum a.operand b.operand + halfRounding) ∨
        productSum a.operand b.operand /
          2 ^ (8 + productSum a.operand b.operand / 2 ^ 56) % 2 ^ 19 = 0)

instance (a b : CFloat) : Decidable (HalfExact a b) := inferInstanceAs (Decidable (_ ∨ _))

end CFloat

open CFloat

section product
variable (a b : CFloat)

theorem productSum_lt : productSum a b < 2 ^ 57 := by
  have ha := toNat_uFract_lt a
  have hle : rawProduct a.uFract.toNat b.uFract.toNat ≤ 2 * (2 ^ 8 * a.uFract.toNat) :=
    ShiftAdd.sum_le_two_mul _ _ _
  rw [productSum]
  omega

/-- The sum the multiplier normalizes, in one of its two roundings or in neither. -/
theorem toNat_roundedSum (aDoRounding aHalfPrecision : Bool) :
    (multLoop (a.uFract <<< 8) (b.uFract <<< 8) +
      correctionFactor aDoRounding aHalfPrecision false).toNat =
        roundedSum a b aDoRounding aHalfPrecision := by
  have hlt := productSum_lt a b
  have hc : (correctionFactor aDoRounding aHalfPrecision false).toNat < 2 ^ 26 := by
    cases aDoRounding <;> cases aHalfPrecision <;> decide
  rw [multLoop_eq _ _ (toNat_uFract_lt a), BitVec.toNat_add, BitVec.toNat_ofNat, roundedSum]
  rw [productSum] at hlt
  omega

/-- Without rounding it is the sum of the partial products with the correction factor, half
    precision adds its rounding. -/
theorem roundedSum_false (aHalfPrecision : Bool) :
    roundedSum a b false aHalfPrecision =
      productSum a b + if aHalfPrecision then halfRounding else 0 := by
  rw [roundedSum, productSum]
  cases aHalfPrecision with
  | false =>
    rw [if_neg (by decide), show (correctionFactor false false false).toNat = 18 from rfl,
      Nat.add_zero]
  | true =>
    rw [if_pos rfl, Nat.add_assoc,
      show (correctionFactor false true false).toNat = 18 + halfRounding from rfl]

/-- The fraction half precision keeps of a sum: the last 19 places are cleared. -/
def keptSum (aHalfPrecision : Bool) (sum : Nat) : Nat :=
  if aHalfPrecision then sum / 2 ^ 27 * 2 ^ 27 else sum

theorem toNat_kept (aHalfPrecision : Bool) (s : CInt) :
    (if aHalfPrecision then s &&& (0xFFFFFFFFF8000000 : CInt) else s).toNat =
      keptSum aHalfPrecision s.toNat := by
  cases aHalfPrecision with
  | false => rfl
  | true =>
    have hmask : (0xFFFFFFFFF8000000 : CInt) = WordField.mask 64 37 <<< 27 := by decide
    have hlt := s.isLt
    rw [if_pos rfl, hmask, WordField.toNat_and_mask_shiftLeft, keptSum, if_pos rfl]
    omega

/-- What `Mult` makes of the sum: exponent `e`, sign `p`. -/
def normalizeProduct (e : Int) (p aHalfPrecision : Bool) (sum : CInt) : CFloat :=
  let carry := sum &&& ((1 : CInt) <<< 56) != 0
  let exp := if carry then e + 1 else e
  let resultFract := if carry then sum >>> 1 else sum
  let underflow := exp + expOfs < expMin
  let resultFract := if underflow then 0 else resultFract
  ofParts (if underflow then -expOfs else exp) (if underflow then true else p)
    ((if aHalfPrecision then resultFract &&& (0xFFFFFFFFF8000000 : CInt) else resultFract) >>> 8)

theorem mult_eq_normalizeProduct (aDoRounding aHalfPrecision : Bool) (ha : a.operand.value ≠ 0)
    (hb : b.operand.value ≠ 0) (hint : ¬ (a.operand.rawExp = 0 ∧ b.operand.rawExp = 0)) :
    mult a b aDoRounding aHalfPrecision false =
      normalizeProduct (a.operand.exp + b.operand.exp)
        (a.operand.isPositive == b.operand.isPositive) aHalfPrecision
        (multLoop (a.operand.uFract <<< 8) (b.operand.uFract <<< 8) +
          correctionFactor aDoRounding aHalfPrecision false) := by
  have hA : ∀ x : CFloat, (if x.rawExp = 0 then x else x.underflowOrValue) = x.operand :=
    fun _ => rfl
  have hfalse : ¬ (false = true) := Bool.false_ne_true
  simp only [mult, hA, if_neg ha, if_neg hb, if_neg hint, if_neg hfalse]
  rfl

variable {a b}

/-- Zero where the exponent is below the valid range, otherwise the sum shifted by its carry. -/
theorem normalizeProduct_fields (p aHalfPrecision : Bool) {sum : CInt} {t : Nat}
    (hs : sum.toNat = t) :
    if Underflows a b t then
      normalizeProduct (a.exp + b.exp) p aHalfPrecision sum = ofParts (-expOfs) true 0
    else ∃ v : CInt, v.toNat = keptSum aHalfPrecision (t / 2 ^ (t / 2 ^ 56 % 2)) / 2 ^ 8 ∧
      normalizeProduct (a.exp + b.exp) p aHalfPrecision sum =
        ofParts (a.exp + b.exp + (t / 2 ^ 56 % 2 : Nat)) p v := by
  have hcarry : (sum &&& (1 : CInt) <<< 56 != 0) = decide (t / 2 ^ 56 % 2 = 1) := by
    rw [WordField.and_bit_bne_zero sum 56 (by decide), ← BitVec.testBit_toNat,
      Nat.testBit_eq_decide_div_mod_eq, hs]
  have hbit : t / 2 ^ 56 % 2 = 0 ∨ t / 2 ^ 56 % 2 = 1 := by omega
  -- the sum and the exponent after the shift
  obtain ⟨r, hr, hexp, hfract⟩ : ∃ r : CInt, r.toNat = t / 2 ^ (t / 2 ^ 56 % 2) ∧
      (if (sum &&& (1 : CInt) <<< 56 != 0) then a.exp + b.exp + 1 else a.exp + b.exp) =
        a.exp + b.exp + (t / 2 ^ 56 % 2 : Nat) ∧
      (if (sum &&& (1 : CInt) <<< 56 != 0) then sum >>> 1 else sum) = r := by
    rcases hbit with h | h
    · refine ⟨sum, by rw [hs, h, pow_zero, Nat.div_one], ?_, ?_⟩
      · rw [hcarry, h, if_neg (by decide), Nat.cast_zero, Int.add_zero]
      · rw [hcarry, h, if_neg (by decide)]
    · refine ⟨sum >>> 1, ?_, ?_, ?_⟩
      · rw [BitVec.toNat_ushiftRight, hs, h, Nat.shiftRight_eq_div_pow]
      · rw [hcarry, h, if_pos (by decide), Nat.cast_one]
      · rw [hcarry, h, if_pos (by decide)]
  have hunder : a.exp + b.exp + (t / 2 ^ 56 % 2 : Nat) + expOfs < expMin ↔ Underflows a b t := by
    rw [exp, exp, Underflows, show expOfs = 0x4001 from rfl, show expMin = 0x2000 from rfl]
    omega
  unfold normalizeProduct
  dsimp only
  rw [hexp, hfract]
  by_cases hu : Underflows a b t
  · have hu' := hunder.mpr hu
    rw [if_pos hu, if_pos hu', if_pos hu', if_pos hu']
    cases aHalfPrecision with
    | false => rfl
    | true => rfl
  · have hu' := fun h => hu (hunder.mp h)
    rw [if_neg hu, if_neg hu', if_neg hu', if_neg hu']
    refine ⟨_, ?_, rfl⟩
    rw [BitVec.toNat_ushiftRight, toNat_kept, hr, Nat.shiftRight_eq_div_pow]

end product

/-! ## 2. The two products -/

section compare
variable {a b : CFloat}

theorem mult_zero (aDoRounding aHalfPrecision aTwoMinus : Bool)
    (h : a.operand.value = 0 ∨ b.operand.value = 0) :
    mult a b aDoRounding aHalfPrecision aTwoMinus = ⟨0⟩ := by
  have hA : ∀ x : CFloat, (if x.rawExp = 0 then x else x.underflowOrValue) = x.operand :=
    fun _ => rfl
  unfold mult
  simp only [hA]
  rcases h with h | h
  · rw [if_pos h]
  · rw [if_pos h, ite_self]

/-- The product of integers: no exponent, and the sum without its last nine places. -/
theorem mult_integers (aDoRounding aHalfPrecision : Bool) (ha : a.operand.value ≠ 0)
    (hb : b.operand.value ≠ 0) (hint : a.operand.rawExp = 0 ∧ b.operand.rawExp = 0) :
    ∃ v : CInt, v.toNat = roundedSum a.operand b.operand aDoRounding aHalfPrecision / 2 ^ 9 ∧
      mult a b aDoRounding aHalfPrecision false =
        ofParts (-expOfs) (a.operand.isPositive == b.operand.isPositive) v := by
  have hA : ∀ x : CFloat, (if x.rawExp = 0 then x else x.underflowOrValue) = x.operand :=
    fun _ => rfl
  have hfalse : ¬ (false = true) := Bool.false_ne_true
  have hsum := toNat_roundedSum a.operand b.operand aDoRounding aHalfPrecision
  refine ⟨(multLoop (a.operand.uFract <<< 8) (b.operand.uFract <<< 8) +
    correctionFactor aDoRounding aHalfPrecision false) >>> 1 >>> 8, ?_, ?_⟩
  · rw [BitVec.toNat_ushiftRight, BitVec.toNat_ushiftRight, hsum, Nat.shiftRight_eq_div_pow,
      Nat.shiftRight_eq_div_pow, Nat.div_div_eq_div_mul, ← pow_add]
  · simp only [mult, hA, if_neg ha, if_neg hb, if_pos hint, if_neg hfalse]

/-- A kept fraction ends with the last place of half precision. -/
theorem keptSum_dvd {n : Nat} : keptSum true n / 2 ^ 8 % 2 ^ 48 % 2 ^ 19 = 0 := by
  rw [keptSum, if_pos rfl]
  omega

/-- A sum with nothing behind the last place is kept as it is, and rounding leaves it. -/
theorem keptSum_exact {t : Nat} (ht : t < 2 ^ 57) (h : t / 2 ^ (8 + t / 2 ^ 56) % 2 ^ 19 = 0) :
    (t + halfRounding) / 2 ^ 56 % 2 = t / 2 ^ 56 % 2 ∧
      keptSum true ((t + halfRounding) / 2 ^ (t / 2 ^ 56 % 2)) / 2 ^ 8 =
        t / 2 ^ (t / 2 ^ 56 % 2) / 2 ^ 8 := by
  rw [keptSum, if_pos rfl, show halfRounding = 50331648 from rfl]
  obtain hc | hc : t / 2 ^ 56 = 0 ∨ t / 2 ^ 56 = 1 := by omega
  · rw [hc] at h ⊢
    norm_num at h ⊢
    omega
  · rw [hc] at h ⊢
    norm_num at h ⊢
    omega

/-- The exponent of a product that its carry lifts into the valid range. -/
theorem rawExp_lifted {x y : CFloat} {c c' : Nat} (hc : c' ≤ 1)
    (hlo : x.rawExp + y.rawExp + c < 0x6001) (hhi : ¬ x.rawExp + y.rawExp + c' < 0x6001)
    (p : Bool) (v : CInt) : (ofParts (x.exp + y.exp + c') p v).rawExp = 0x2000 := by
  have he : x.exp + y.exp + c' = ((0x2000 : Nat) : Int) - expOfs := by
    rw [exp, exp, show expOfs = 0x4001 from rfl]
    omega
  rw [he]
  exact rawExp_ofParts 0x2000 (by decide) p v

theorem normalizeProduct_eq_iff (x y : CFloat) (p : Bool) {sum sum' : CInt} {t : Nat}
    (hs : sum.toNat = t) (hs' : sum'.toNat = t + halfRounding) (ht : t < 2 ^ 57) :
    normalizeProduct (x.exp + y.exp) p false sum = normalizeProduct (x.exp + y.exp) p true sum' ↔
      Underflows x y t ∧ Underflows x y (t + halfRounding) ∨
        t / 2 ^ (8 + t / 2 ^ 56) % 2 ^ 19 = 0 := by
  have hfull := @normalizeProduct_fields x y p false _ _ hs
  have hhalf := @normalizeProduct_fields x y p true _ _ hs'
  have hbit : ∀ n : Nat, n / 2 ^ 56 % 2 ≤ 1 := fun n => by omega
  constructor
  · intro heq
    by_cases hu : Underflows x y t
    · by_cases hu' : Underflows x y (t + halfRounding)
      · exact Or.inl ⟨hu, hu'⟩
      · -- one exponent is zero and the other one the smallest valid one
        rw [if_pos hu] at hfull
        rw [if_neg hu'] at hhalf
        obtain ⟨v, -, hv⟩ := hhalf
        have hlift := rawExp_lifted (hbit (t + halfRounding)) hu hu' p v
        rw [← hv, ← heq, hfull] at hlift
        exact absurd hlift (by decide)
    · right
      rw [if_neg hu] at hfull
      obtain ⟨v, hv, hfull⟩ := hfull
      have hlow : (normalizeProduct (x.exp + y.exp) p true sum').uFract.toNat % 2 ^ 19 = 0 := by
        by_cases hu' : Underflows x y (t + halfRounding)
        · rw [if_pos hu'] at hhalf
          rw [hhalf, toNat_uFract_ofParts]
          rfl
        · rw [if_neg hu'] at hhalf
          obtain ⟨v', hv', hhalf⟩ := hhalf
          rw [hhalf, toNat_uFract_ofParts, hv']
          exact keptSum_dvd
      rw [← heq, hfull, toNat_uFract_ofParts, hv, keptSum, if_neg (by decide),
        Nat.div_div_eq_div_mul, ← pow_add, Nat.mod_eq_of_lt (by omega : t / 2 ^ 56 < 2),
        Nat.mod_mod_of_dvd _ (by norm_num), Nat.add_comm] at hlow
      exact hlow
  · intro h
    by_cases hfits : t / 2 ^ (8 + t / 2 ^ 56) % 2 ^ 19 = 0
    · obtain ⟨hcarry, hkept⟩ := keptSum_exact ht hfits
      have hu : Underflows x y (t + halfRounding) ↔ Underflows x y t := by
        rw [Underflows, Underflows, hcarry]
      by_cases hut : Underflows x y t
      · rw [if_pos hut] at hfull
        rw [if_pos (hu.mpr hut)] at hhalf
        rw [hfull, hhalf]
      · rw [if_neg hut] at hfull
        rw [if_neg fun h => hut (hu.mp h)] at hhalf
        obtain ⟨v, hv, hfull⟩ := hfull
        obtain ⟨v', hv', hhalf⟩ := hhalf
        have heq : v = v' := by
          apply BitVec.eq_of_toNat_eq
          rw [hv, hv', hcarry, hkept, keptSum, if_neg (by decide)]
        rw [hfull, hhalf, heq, hcarry]
    · obtain ⟨hu, hu'⟩ := h.resolve_right hfits
      rw [if_pos hu] at hfull
      rw [if_pos hu'] at hhalf
      rw [hfull, hhalf]

/-- **The full and the half precision product agree** exactly where there is nothing to round. -/
theorem mul_eq_half_iff : CFloat.mul a b = halfPrecisionMult a b ↔ HalfExact a b := by
  unfold CFloat.mul halfPrecisionMult HalfExact
  by_cases hzero : a.operand.value = 0 ∨ b.operand.value = 0
  · rw [mult_zero false false false hzero, mult_zero false true false hzero, ← or_assoc]
    exact ⟨fun _ => Or.inl hzero, fun _ => rfl⟩
  · obtain ⟨ha, hb⟩ := not_or.mp hzero
    by_cases hint : a.operand.rawExp = 0 ∧ b.operand.rawExp = 0
    · obtain ⟨v, hv, hfull⟩ := mult_integers false false ha hb hint
      obtain ⟨v', hv', hhalf⟩ := mult_integers false true ha hb hint
      have hlt := productSum_lt a.operand b.operand
      constructor
      · intro heq
        have hfract := congrArg (fun w => w.uFract.toNat) (hfull.symm.trans (heq.trans hhalf))
        simp only [toNat_uFract_ofParts, hv, hv', roundedSum_false, if_pos,
          if_neg Bool.false_ne_true, show halfRounding = 50331648 from rfl] at hfract
        omega
      · intro h
        rcases h with h | h | ⟨h, -⟩
        · exact absurd h ha
        · exact absurd h hb
        · exact absurd hint h
    · rw [mult_eq_normalizeProduct a b false false ha hb hint,
        mult_eq_normalizeProduct a b false true ha hb hint]
      have hlt := productSum_lt a.operand b.operand
      have hs := toNat_roundedSum a.operand b.operand false false
      have hs' := toNat_roundedSum a.operand b.operand false true
      rw [roundedSum_false, if_neg (by decide), Nat.add_zero] at hs
      rw [roundedSum_false, if_pos rfl] at hs'
      rw [normalizeProduct_eq_iff _ _ _ hs hs' hlt]
      exact ⟨fun h => Or.inr (Or.inr ⟨hint, h⟩), fun h =>
        ((h.resolve_left ha).resolve_left hb).2⟩

end compare

end CraySim
