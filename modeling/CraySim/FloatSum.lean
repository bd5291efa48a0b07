/-
  Subject:   How close a sum is to the sum of the values.

  `operator +` shifts the fraction of the smaller operand, adds or subtracts, shifts once more
  when the sum carries and normalizes what is left. The file follows the value through these
  steps.

  * `add_word` -- the sum as one signed integer on the larger exponent,
  * `sum_accuracy` -- **the sum and the difference are off by less than a unit on the larger
    exponent, the carried one included, and the sign of a difference compares**.
-/
import CraySim.FloatNormalize
import CraySim.Products

namespace CraySim

/-! ## 1. The sum on the larger exponent -/

/-- A fraction with its sign. -/
def signedFract (p : Bool) (n : Nat) : ℤ := if p then n else -n

@[simp] theorem signedFract_true (n : Nat) : signedFract true n = n := rfl

@[simp] theorem signedFract_false (n : Nat) : signedFract false n = -n := rfl

theorem toNat_shift {x : CInt} (hx : x.toNat < 2 ^ 63) (n : Nat) :
    (shift x n).toNat = x.toNat / 2 ^ n := by
  have hmsb : x.msb = false := by
    rw [BitVec.msb_eq_decide, decide_eq_false_iff_not]
    omega
  rw [shift, BitVec.toNat_sshiftRight_of_msb_false hmsb, Nat.shiftRight_eq_div_pow]

theorem abs_of_small {x : CInt} (hx : x.toNat < 2 ^ 63) : abs x = x := by
  have hmsb : x.msb = false := by
    rw [BitVec.msb_eq_decide, decide_eq_false_iff_not]
    omega
  have hint : x.toInt = x.toNat := by
    rw [BitVec.toInt_eq_msb_cond, hmsb, if_neg (by decide)]
  rw [abs, BitVec.slt_eq_decide, hint, show (0 : CInt).toInt = 0 from rfl]
  by_cases h0 : x.toNat = 0
  · rw [show x = 0 from BitVec.eq_of_toNat_eq h0]
    decide
  · rw [decide_eq_true (by omega), if_pos rfl]

section signed
variable {fa fb : CInt} (ha : fa.toNat < 2 ^ 48) (hb : fb.toNat < 2 ^ 48)

include ha hb in
/-- A difference of two fractions: its sign and its size. -/
theorem fract_sub :
    (fa - fb).slt 0 = decide (fa.toNat < fb.toNat) ∧
      (if (fa - fb).slt 0 then -(fa - fb) else fa - fb).toNat =
        ((fa.toNat : ℤ) - fb.toNat).natAbs := by
  have hslt : (fa - fb).slt 0 = decide (fa.toNat < fb.toNat) := by
    rw [show (0 : CInt) = 0#64 from rfl, BitVec.slt_zero_eq_msb, BitVec.msb_eq_decide,
      BitVec.toNat_sub, decide_eq_decide]
    omega
  refine ⟨hslt, ?_⟩
  rw [hslt]
  by_cases h : fa.toNat < fb.toNat
  · rw [if_pos (decide_eq_true h), BitVec.toNat_neg, BitVec.toNat_sub]
    omega
  · rw [if_neg (by simpa using h), BitVec.toNat_sub]
    omega

include ha hb in
/-- **Sign and size of a sum of two signed fractions**, as `operator +` finds them. -/
theorem signedSum_spec (p q : Bool) :
    ∃ r s, (if p == q then (fa + fb, p)
        else if (if p then fa - fb else fb - fa).slt 0 then
          (-(if p then fa - fb else fb - fa), false)
        else (if p then fa - fb else fb - fa, true)) = (r, s) ∧
      r.toNat = (signedFract p fa.toNat + signedFract q fb.toNat).natAbs ∧
      (r.toNat ≠ 0 → s = decide (0 ≤ signedFract p fa.toNat + signedFract q fb.toNat)) := by
  obtain ⟨hs, hn⟩ := fract_sub ha hb
  obtain ⟨hs', hn'⟩ := fract_sub hb ha
  have hadd : (fa + fb).toNat = fa.toNat + fb.toNat := by
    rw [BitVec.toNat_add]
    omega
  have hpair : ∀ (c : Bool) (x y : CInt),
      (if c then (x, false) else (y, true)) = (if c then x else y, !c) := fun c x y => by
    cases c <;> rfl
  cases p with
  | true =>
    cases q with
    | true =>
      refine ⟨fa + fb, true, rfl, ?_, fun _ => ?_⟩
      · rw [hadd, signedFract, signedFract, if_pos rfl, if_pos rfl]
        omega
      · rw [signedFract, signedFract, if_pos rfl, if_pos rfl, eq_comm, decide_eq_true_eq]
        omega
    | false =>
      refine ⟨if (fa - fb).slt 0 then -(fa - fb) else fa - fb, !(fa - fb).slt 0, hpair _ _ _, ?_,
        fun _ => ?_⟩
      · rw [hn, signedFract, signedFract, if_pos rfl, if_neg (by decide), sub_eq_add_neg]
      · rw [hs, signedFract, signedFract, if_pos rfl, if_neg (by decide), ← decide_not,
          decide_eq_decide]
        omega
  | false =>
    cases q with
    | true =>
      refine ⟨if (fb - fa).slt 0 then -(fb - fa) else fb - fa, !(fb - fa).slt 0, hpair _ _ _, ?_,
        fun _ => ?_⟩
      · rw [hn', signedFract, signedFract, if_neg (by decide), if_pos rfl, neg_add_eq_sub]
      · rw [hs', signedFract, signedFract, if_neg (by decide), if_pos rfl, ← decide_not,
          decide_eq_decide]
        omega
    | false =>
      refine ⟨fa + fb, false, rfl, ?_, fun h => ?_⟩
      · rw [hadd, signedFract, signedFract, if_neg (by decide), if_neg (by decide)]
        omega
      · rw [hadd] at h
        rw [signedFract, signedFract, if_neg (by decide), if_neg (by decide), eq_comm,
          decide_eq_false_iff_not]
        omega

end signed

section word
variable {aA aB x y : CFloat}

/-- The sum of two fractions aligned to the larger exponent, the one of `x`. -/
def alignedSum (x y : CFloat) : ℤ :=
  signedFract x.isPositive x.uFract.toNat +
    signedFract y.isPositive (y.uFract.toNat / 2 ^ (x.rawExp - y.rawExp))

/-- The carry of that sum. -/
def sumCarry (x y : CFloat) : Nat := (alignedSum x y).natAbs / 2 ^ 48

theorem alignedSum_lt (x y : CFloat) : (alignedSum x y).natAbs < 2 ^ 49 := by
  have hx := toNat_uFract_lt x
  have hy := toNat_uFract_lt y
  have hd : y.uFract.toNat / 2 ^ (x.rawExp - y.rawExp) ≤ y.uFract.toNat := Nat.div_le_self _ _
  rw [alignedSum, signedFract, signedFract]
  generalize y.uFract.toNat / 2 ^ (x.rawExp - y.rawExp) = z at *
  split <;> split <;> omega

theorem sumCarry_cases (x y : CFloat) :
    sumCarry x y = 0 ∧ (alignedSum x y).natAbs < 2 ^ 48 ∨
      sumCarry x y = 1 ∧ 2 ^ 48 ≤ (alignedSum x y).natAbs := by
  have hlt := alignedSum_lt x y
  rw [sumCarry]
  omega

theorem sumCarry_le (x y : CFloat) : sumCarry x y ≤ 1 := by
  obtain ⟨h, -⟩ | ⟨h, -⟩ := sumCarry_cases x y <;> omega

theorem toNat_aligned (hle : y.rawExp ≤ x.rawExp) :
    (if x.exp > y.exp then shift y.uFract (min 63 (x.exp - y.exp)).toNat else y.uFract).toNat =
      y.uFract.toNat / 2 ^ (x.rawExp - y.rawExp) := by
  have hlt := toNat_uFract_lt y
  have hdiff : x.exp - y.exp = ((x.rawExp - y.rawExp : Nat) : Int) := by
    rw [CFloat.exp, CFloat.exp]
    omega
  by_cases h : x.exp > y.exp
  · rw [if_pos h, hdiff, toNat_shift (by omega)]
    generalize x.rawExp - y.rawExp = d
    by_cases hd : d ≤ 63
    · rw [show (min 63 (d : Int)).toNat = d by omega]
    · -- the shift stops at 63 places, where nothing is left either
      have hpow : 2 ^ 63 ≤ 2 ^ d := Nat.pow_le_pow_right (by decide) (by omega)
      rw [show (min 63 (d : Int)).toNat = 63 by omega, Nat.div_eq_of_lt (by omega),
        Nat.div_eq_of_lt (by omega)]
  · have h0 : x.rawExp - y.rawExp = 0 := by
      rw [CFloat.exp, CFloat.exp] at h
      omega
    rw [if_neg h, h0, pow_zero, Nat.div_one]

theorem sumCarry_test {r : CInt} (hr : r.toNat = (alignedSum x y).natAbs) :
    (abs r &&& ((1 : CInt) <<< CFloat.fractSize) != 0) = decide (sumCarry x y = 1) := by
  have hlt := alignedSum_lt x y
  have hbit := WordField.and_bit_bne_zero r 48 (by decide)
  rw [← BitVec.testBit_toNat, Nat.testBit_eq_decide_div_mod_eq, hr] at hbit
  rw [abs_of_small (by omega), CFloat.fractSize, hbit, sumCarry, decide_eq_decide]
  omega

/-- **`operator +`** with the operand of the larger exponent first. -/
theorem add_word (hx : aA.underflowOrValue = x) (hy : aB.underflowOrValue = y)
    (hle : y.rawExp ≤ x.rawExp) :
    ∃ (v : CInt) (s : Bool), aA.add aB =
        (CFloat.ofParts (x.exp + (sumCarry x y : ℕ)) s v).normalize.underflowOrValue ∧
      v.toNat = (alignedSum x y).natAbs / 2 ^ sumCarry x y ∧
      (v.toNat ≠ 0 → s = decide (0 ≤ alignedSum x y)) := by
  have hge : ¬ x.exp < y.exp := by
    rw [CFloat.exp, CFloat.exp]
    omega
  have hmax : (if x.exp > y.exp then x.exp else y.exp) = x.exp := by
    rw [CFloat.exp, CFloat.exp]
    split <;> omega
  have hfbn := toNat_aligned hle
  generalize hfb : (if x.exp > y.exp then shift y.uFract (min 63 (x.exp - y.exp)).toNat
    else y.uFract) = fb at hfbn
  have hfblt : fb.toNat < 2 ^ 48 := by
    rw [hfbn]
    exact lt_of_le_of_lt (Nat.div_le_self _ _) (toNat_uFract_lt y)
  obtain ⟨r, s, hrs, hr, hsign⟩ :=
    signedSum_spec (toNat_uFract_lt x) hfblt x.isPositive y.isPositive
  rw [hfbn, ← alignedSum] at hr hsign
  have hlt := alignedSum_lt x y
  have hcarry := sumCarry_test hr
  rw [CFloat.add, hx, hy, if_neg hge, hmax, hfb]
  generalize (if (x.isPositive == y.isPositive) = true then (x.uFract + fb, x.isPositive)
    else if (if x.isPositive then x.uFract - fb else fb - x.uFract).slt 0 then
      (-(if x.isPositive then x.uFract - fb else fb - x.uFract), false)
    else (if x.isPositive then x.uFract - fb else fb - x.uFract, true)) = q at hrs ⊢
  split
  rename_i f p
  obtain ⟨rfl, rfl⟩ := Prod.mk.inj hrs
  rw [hcarry]
  obtain ⟨h, -⟩ | ⟨h, -⟩ := sumCarry_cases x y
  · refine ⟨f, p, ?_, ?_, hsign⟩
    · rw [h, decide_eq_false (by decide), Nat.cast_zero, Int.add_zero]
      simp only [Bool.false_eq_true, if_false]
    · rw [hr, h, pow_zero, Nat.div_one]
  · refine ⟨shift f 1, p, ?_, ?_, fun hne => hsign fun h0 => hne ?_⟩
    · rw [h, decide_eq_true rfl, Nat.cast_one]
      simp only [if_true]
    · rw [toNat_shift (by omega), hr, h]
    · rw [toNat_shift (by omega), h0, Nat.zero_div]

/-- The word of the sum before it is normalized, and what its fields are. -/
theorem add_fields (hx : aA.underflowOrValue = x) (hy : aB.underflowOrValue = y)
    (hle : y.rawExp ≤ x.rawExp) (hlo : 0x2000 ≤ x.rawExp) (hhi : x.rawExp ≤ 0x5fff) :
    ∃ w : CFloat, aA.add aB = w.normalize ∧ w.rawExp = x.rawExp + sumCarry x y ∧
      w.uFract.toNat = (alignedSum x y).natAbs / 2 ^ sumCarry x y ∧
      (w.uFract.toNat ≠ 0 → w.isPositive = decide (0 ≤ alignedSum x y)) := by
  obtain ⟨v, s, hadd, hv, hs⟩ := add_word hx hy hle
  have hlt := alignedSum_lt x y
  have hc := sumCarry_le x y
  have hexp : x.exp + (sumCarry x y : ℕ) = ((x.rawExp + sumCarry x y : ℕ) : Int) - CFloat.expOfs := by
    rw [CFloat.exp]
    push_cast
    omega
  have hv48 : v.toNat < 2 ^ 48 := by
    rw [hv]
    obtain ⟨h, hsmall⟩ | ⟨h, -⟩ := sumCarry_cases x y
    · rw [h, pow_zero, Nat.div_one]
      exact hsmall
    · rw [h]
      omega
  have hraw := CFloat.rawExp_ofParts (x.rawExp + sumCarry x y) (by omega) s v
  rw [hexp, CFloat.underflowOrValue_normalize (by omega)] at hadd
  refine ⟨_, hadd, hraw, ?_, ?_⟩
  · rw [CFloat.toNat_uFract_ofParts, Nat.mod_eq_of_lt hv48, hv]
  · rw [CFloat.toNat_uFract_ofParts, Nat.mod_eq_of_lt hv48, CFloat.isPositive_ofParts]
    exact hs

end word

/-! ## 2. Accuracy -/

/-- What an addition promises: less than a unit in the last place of the operands or, where the
    sum carried, of the result; zero and negative exactly where the exact sum is. -/
structure SumOf (r a b : CFloat) : Prop where
  error : |r.val - (a.val + b.val)| < max (max a.ulp b.ulp) r.ulp
  zero_iff : r = ⟨0⟩ ↔ a.val + b.val = 0
  negative_iff : r.isPositive = false ↔ a.val + b.val < 0

section accuracy
variable {aA aB x y : CFloat}

/-- The kept part of a sum: a carry costs its last bit. -/
def keptPart (n : ℤ) (c : Nat) : ℤ := if 0 ≤ n then (n.natAbs / 2 ^ c * 2 ^ c : ℕ) else
  -(n.natAbs / 2 ^ c * 2 ^ c : ℕ)

theorem keptPart_bounds {n : ℤ} {c : Nat} (hc : c ≤ 1) : |keptPart n c - n| ≤ c := by
  rw [keptPart, abs_le]
  obtain rfl | rfl : c = 0 ∨ c = 1 := by omega
  · split <;> omega
  · split <;> omega

theorem CFloat.ulp_pos (w : CFloat) : 0 < w.ulp := by
  rw [ulp]
  positivity

/-- The value of an operand in units of its last place. -/
theorem CFloat.val_eq_signedFract (w : CFloat) :
    w.val = signedFract w.isPositive w.uFract.toNat * w.ulp := by
  rw [val, mag, signedFract, ulp]
  cases w.isPositive with
  | false =>
    rw [if_neg Bool.false_ne_true, if_neg Bool.false_ne_true]
    push_cast
    ring
  | true =>
    rw [if_pos rfl, if_pos rfl]
    push_cast
    ring

/-- **The sum as a number of units on the larger exponent.** -/
theorem add_val (hx : aA.underflowOrValue = x) (hy : aB.underflowOrValue = y)
    (hle : y.rawExp ≤ x.rawExp) (hlo : 0x2000 ≤ x.rawExp) (hhi : x.rawExp ≤ 0x5fff) :
    (aA.add aB).val = keptPart (alignedSum x y) (sumCarry x y) * x.ulp ∧
      (aA.add aB = ⟨0⟩ ↔ alignedSum x y = 0) ∧
      ((aA.add aB).isPositive = false ↔ alignedSum x y < 0) ∧
      (sumCarry x y = 1 → (aA.add aB).ulp = 2 * x.ulp) := by
  obtain ⟨w, hadd, hexp, hfract, hsign⟩ := add_fields hx hy hle hlo hhi
  have hlt := alignedSum_lt x y
  have hge : 0x2000 ≤ w.rawExp := by omega
  -- a carry comes with a fraction
  have hzero : w.uFract.toNat = 0 ↔ alignedSum x y = 0 := by
    rw [hfract]
    obtain ⟨h, -⟩ | ⟨h, hlarge⟩ := sumCarry_cases x y
    · rw [h, pow_zero, Nat.div_one]
      exact Int.natAbs_eq_zero
    · rw [h]
      omega
  have hulp : w.ulp = 2 ^ sumCarry x y * x.ulp := by
    rw [CFloat.ulp, CFloat.ulp, hexp, ← zpow_natCast, ← zpow_add₀ (by norm_num)]
    refine congrArg (fun z : ℤ => (2 : ℚ) ^ z) ?_
    push_cast
    ring
  rw [hadd]
  refine ⟨?_, ?_, ?_, fun h => ?_⟩
  · rw [CFloat.normalize_val hge, w.val_eq_signedFract, hulp, ← mul_assoc]
    refine congrArg (fun q : ℚ => q * x.ulp) ?_
    by_cases hf : w.uFract.toNat = 0
    · rw [hf, hzero.mp hf, signedFract, keptPart]
      simp
    · rw [hsign hf, hfract, signedFract, keptPart]
      by_cases hn : 0 ≤ alignedSum x y
      · rw [if_pos hn, if_pos (decide_eq_true hn)]
        push_cast
        ring
      · rw [if_neg hn, if_neg (by simpa using hn)]
        push_cast
        ring
  · rw [CFloat.normalize_eq_zero_iff hge, hzero]
  · by_cases hf : w.uFract.toNat = 0
    · rw [CFloat.normalize_of_uFract hf, hzero.mp hf]
      decide
    · obtain ⟨d, -, -, hp, -⟩ := CFloat.normalize_fields hge hf
      rw [hp, hsign hf, decide_eq_false_iff_not, not_le]
  · rw [CFloat.normalize_of_isNormalized, hulp, h, pow_one]
    rw [CFloat.isNormalized_iff, hfract, h]
    rw [sumCarry] at h
    omega

/-- What the alignment cuts off, in units on the larger exponent. -/
theorem alignedSum_error (hle : y.rawExp ≤ x.rawExp) :
    ∃ f : ℚ, |f| < 1 ∧ x.val + y.val = (alignedSum x y + f) * x.ulp ∧
      (y.rawExp = x.rawExp → f = 0) := by
  have hulp : y.ulp = x.ulp / 2 ^ (x.rawExp - y.rawExp) := by
    rw [CFloat.ulp, CFloat.ulp, eq_div_iff (by positivity), ← zpow_natCast,
      ← zpow_add₀ (by norm_num)]
    refine congrArg (fun z : ℤ => (2 : ℚ) ^ z) ?_
    omega
  have hdiv := Nat.div_add_mod y.uFract.toNat (2 ^ (x.rawExp - y.rawExp))
  have hmod := Nat.mod_lt y.uFract.toNat (Nat.two_pow_pos (x.rawExp - y.rawExp))
  have hd0 : y.rawExp = x.rawExp → 2 ^ (x.rawExp - y.rawExp) = 1 := fun h => by
    rw [h, Nat.sub_self, pow_zero]
  have hsum : alignedSum x y = signedFract x.isPositive x.uFract.toNat +
      signedFract y.isPositive (y.uFract.toNat / 2 ^ (x.rawExp - y.rawExp)) := rfl
  rw [x.val_eq_signedFract, y.val_eq_signedFract, hulp, hsum]
  generalize y.uFract.toNat = m at *
  have hcast : ((2 ^ (x.rawExp - y.rawExp) : ℕ) : ℚ) = 2 ^ (x.rawExp - y.rawExp) := by norm_num
  rw [← hcast]
  generalize 2 ^ (x.rawExp - y.rawExp) = d at *
  have hexact : y.rawExp = x.rawExp → m % d = 0 := fun h => by rw [hd0 h, Nat.mod_one]
  generalize m / d = q at *
  generalize m % d = r at *
  have hdpos : (0 : ℚ) < d := by exact_mod_cast Nat.pos_of_ne_zero (by omega)
  have hfrac : |(r : ℚ) / d| < 1 := by
    rw [abs_of_nonneg (by positivity), div_lt_one hdpos]
    exact_mod_cast hmod
  have hwhole : (m : ℚ) / d = q + r / d := by
    have hsplit : (m : ℚ) = d * q + r := by exact_mod_cast hdiv.symm
    rw [hsplit, add_div, mul_div_cancel_left₀ _ hdpos.ne']
  cases y.isPositive with
  | true =>
    refine ⟨(r : ℚ) / d, hfrac, ?_, fun h => ?_⟩
    · rw [signedFract_true, signedFract_true, mul_div_assoc', ← div_mul_eq_mul_div, ← add_mul]
      push_cast
      rw [hwhole]
      ring
    · rw [hexact h, Nat.cast_zero, zero_div]
  | false =>
    refine ⟨-((r : ℚ) / d), by rwa [abs_neg], ?_, fun h => ?_⟩
    · rw [signedFract_false, signedFract_false, mul_div_assoc', ← div_mul_eq_mul_div, ← add_mul]
      push_cast
      rw [neg_div, hwhole]
      ring
    · rw [hexact h, Nat.cast_zero, zero_div, neg_zero]

/-- The operands of an addition: zero or in range. -/
def CFloat.Operand (a : CFloat) : Prop := a = ⟨0⟩ ∨ a.InRange

theorem CFloat.Operand.underflowOrValue_eq {a : CFloat} (ha : a.Operand) :
    a.underflowOrValue = a := by
  rcases ha with rfl | ha
  · decide
  · have hlo := ha.exp_ge
    rw [underflowOrValue, if_neg]
    rw [show expMin = 0x2000 from rfl]
    omega

/-- Less than a unit does not change the sign of a whole number of units. -/
theorem sign_add_lt_one {n : ℤ} {f u : ℚ} (hu : 0 < u) (hf : |f| < 1) (h : f = 0 ∨ n ≠ 0) :
    (n = 0 ↔ (n + f) * u = 0) ∧ (n < 0 ↔ (n + f) * u < 0) := by
  obtain ⟨hlo, hhi⟩ := abs_lt.mp hf
  obtain hn | hn | hn : n ≤ -1 ∨ n = 0 ∨ 1 ≤ n := by omega
  · have hneg : ((n : ℚ) + f) * u < 0 := by
      have hn' : (n : ℚ) ≤ -1 := by exact_mod_cast hn
      exact mul_neg_of_neg_of_pos (by linarith) hu
    exact ⟨iff_of_false (by omega) hneg.ne, iff_of_true (by omega) hneg⟩
  · have hzero : ((n : ℚ) + f) * u = 0 := by
      rw [h.resolve_right (not_not.mpr hn), hn]
      ring
    exact ⟨iff_of_true hn hzero, iff_of_false (by omega) hzero.not_lt⟩
  · have hpos : 0 < ((n : ℚ) + f) * u := by
      have hn' : (1 : ℚ) ≤ n := by exact_mod_cast hn
      exact mul_pos (by linarith) hu
    exact ⟨iff_of_false (by omega) hpos.ne', iff_of_false (by omega) hpos.not_gt⟩

/-- **A word is its three fields.** -/
theorem CFloat.eq_of_fields {a b : CFloat} (he : a.rawExp = b.rawExp)
    (hf : a.uFract.toNat = b.uFract.toNat) (hp : a.isPositive = b.isPositive) : a = b := by
  have hsign : a.value.toNat / 2 ^ 63 = b.value.toNat / 2 ^ 63 := by
    have ha := a.value.isLt
    have hb := b.value.isLt
    rw [isPositive_eq, isPositive_eq, Bool.not_inj_iff, ← BitVec.testBit_toNat,
      ← BitVec.testBit_toNat, Nat.testBit_eq_decide_div_mod_eq, Nat.testBit_eq_decide_div_mod_eq,
      decide_eq_decide] at hp
    omega
  rw [rawExp_eq, rawExp_eq] at he
  rw [toNat_uFract, toNat_uFract] at hf
  obtain ⟨v⟩ := a
  obtain ⟨u⟩ := b
  dsimp only at hsign he hf
  rw [CFloat.mk.injEq]
  apply BitVec.eq_of_toNat_eq
  omega

/-- The other sign, and everything else as it was. -/
theorem CFloat.flipSign_fields (a : CFloat) :
    a.flipSign.rawExp = a.rawExp ∧ a.flipSign.uFract.toNat = a.uFract.toNat ∧
      a.flipSign.isPositive = !a.isPositive := by
  have hbit : ∀ i, a.flipSign.value.getLsbD i = (a.value.getLsbD i ^^ decide (i = 63)) := fun i => by
    rw [flipSign, BitVec.getLsbD_xor, show fractSignMask = (1 : CInt) <<< 63 by decide,
      WordField.getLsbD_one_shiftLeft 63 i (by decide)]
  refine ⟨?_, ?_, ?_⟩
  · rw [rawExp_eq, rawExp_eq]
    apply Nat.eq_of_testBit_eq
    intro i
    rw [Nat.testBit_mod_two_pow, Nat.testBit_mod_two_pow, Nat.testBit_div_two_pow,
      Nat.testBit_div_two_pow, BitVec.testBit_toNat, BitVec.testBit_toNat, hbit]
    by_cases hi : i < 15
    · simp [show ¬ i + 48 = 63 by omega]
    · simp [hi]
  · rw [toNat_uFract, toNat_uFract]
    apply Nat.eq_of_testBit_eq
    intro i
    rw [Nat.testBit_mod_two_pow, Nat.testBit_mod_two_pow, BitVec.testBit_toNat,
      BitVec.testBit_toNat, hbit]
    by_cases hi : i < 48
    · simp [show ¬ i = 63 by omega]
    · simp [hi]
  · rw [isPositive_eq, isPositive_eq, hbit]
    simp

/-- A shifted operand leaves the sign of the larger one alone. -/
theorem alignedSum_sign (hx : x.InRange) (hle : y.rawExp ≤ x.rawExp) :
    (alignedSum x y = 0 ↔ x.val + y.val = 0) ∧ (alignedSum x y < 0 ↔ x.val + y.val < 0) := by
  obtain ⟨f, hf, hval, hexact⟩ := alignedSum_error hle
  have hne : f = 0 ∨ alignedSum x y ≠ 0 := by
    by_cases he : y.rawExp = x.rawExp
    · exact Or.inl (hexact he)
    · right
      have hlx := hx.fract_ge
      have hhalf : y.uFract.toNat / 2 ^ (x.rawExp - y.rawExp) < 2 ^ 47 := by
        have hly := toNat_uFract_lt y
        have hpow : 2 ^ 1 ≤ 2 ^ (x.rawExp - y.rawExp) := Nat.pow_le_pow_right (by decide) (by omega)
        have hdiv : y.uFract.toNat / 2 ^ (x.rawExp - y.rawExp) ≤ y.uFract.toNat / 2 ^ 1 :=
          Nat.div_le_div_left hpow (by decide)
        omega
      rw [alignedSum, signedFract, signedFract]
      generalize y.uFract.toNat / 2 ^ (x.rawExp - y.rawExp) = z at hhalf ⊢
      split <;> split <;> omega
  rw [hval]
  exact sign_add_lt_one x.ulp_pos hf hne

/-- **Addition**, with the operand of the larger exponent first. -/
theorem sumOf_of_le (hx : x.Operand) (hy : y.Operand) (hle : y.rawExp ≤ x.rawExp) :
    SumOf (x.add y) x y := by
  have hxu := hx.underflowOrValue_eq
  have hyu := hy.underflowOrValue_eq
  rcases hx with rfl | hx
  · -- both operands are zero
    have hy0 : y = ⟨0⟩ := by
      refine hy.resolve_right fun h => ?_
      have hge := h.exp_ge
      rw [show (⟨0⟩ : CFloat).rawExp = 0 by decide] at hle
      omega
    have hadd : (⟨0⟩ : CFloat).add ⟨0⟩ = ⟨0⟩ := by decide
    rw [hy0, hadd]
    refine ⟨?_, ?_, ?_⟩
    · rw [CFloat.val_zero, add_zero, sub_zero, abs_zero]
      exact lt_max_of_lt_right (CFloat.ulp_pos _)
    · rw [CFloat.val_zero, add_zero]
      exact iff_of_true rfl rfl
    · rw [CFloat.val_zero, add_zero]
      exact iff_of_false (by decide) (lt_irrefl 0)
  · obtain ⟨hval, hzero, hneg, hulp⟩ := add_val hxu hyu hle hx.exp_ge hx.exp_le
    obtain ⟨hz, hn⟩ := alignedSum_sign hx hle
    refine ⟨?_, hzero.trans hz, hneg.trans hn⟩
    obtain ⟨f, hf, hsum, -⟩ := alignedSum_error hle
    have hkept : |((keptPart (alignedSum x y) (sumCarry x y) - alignedSum x y : ℤ) : ℚ)| ≤
        sumCarry x y := by
      exact_mod_cast keptPart_bounds (sumCarry_le x y)
    have herr : |(x.add y).val - (x.val + y.val)| < (1 + sumCarry x y) * x.ulp := by
      have hdiff : (x.add y).val - (x.val + y.val) =
          (((keptPart (alignedSum x y) (sumCarry x y) - alignedSum x y : ℤ) : ℚ) - f) * x.ulp := by
        rw [hval, hsum]
        push_cast
        ring
      rw [hdiff, abs_mul, abs_of_pos x.ulp_pos]
      refine mul_lt_mul_of_pos_right ?_ x.ulp_pos
      calc |((keptPart (alignedSum x y) (sumCarry x y) - alignedSum x y : ℤ) : ℚ) - f|
          ≤ |((keptPart (alignedSum x y) (sumCarry x y) - alignedSum x y : ℤ) : ℚ)| + |f| :=
            abs_sub _ _
        _ < 1 + sumCarry x y := by linarith
    obtain ⟨h, -⟩ | ⟨h, -⟩ := sumCarry_cases x y
    · rw [h, Nat.cast_zero, add_zero, one_mul] at herr
      exact lt_max_of_lt_left (lt_max_of_lt_left herr)
    · rw [h, Nat.cast_one] at herr
      refine lt_max_of_lt_right ?_
      rw [hulp h]
      linarith

/-- **Addition** of operands that are zero or in range. -/
theorem sumOf_add (hx : x.Operand) (hy : y.Operand) : SumOf (x.add y) x y := by
  by_cases hle : y.rawExp ≤ x.rawExp
  · exact sumOf_of_le hx hy hle
  · obtain ⟨herr, hzero, hneg⟩ := sumOf_of_le hy hx (by omega)
    have hcomm : y.val + x.val = x.val + y.val := add_comm _ _
    rw [hcomm, max_comm y.ulp] at herr
    rw [hcomm] at hzero hneg
    rw [CFloat.add_comm]
    exact ⟨herr, hzero, hneg⟩

/-- An operand below the valid range is zero to the adder. -/
theorem CFloat.add_congr {b b' : CFloat} (a : CFloat)
    (h : b.underflowOrValue = b'.underflowOrValue) : a.add b = a.add b' := by
  rw [CFloat.add, CFloat.add, h]

theorem CFloat.Operand.add_zero (hx : x.Operand) : x.add ⟨0⟩ = x := by
  rcases hx with rfl | hx
  · decide
  · have hz : (⟨0⟩ : CFloat).underflowOrValue = ⟨0⟩ := by decide
    have hsum : alignedSum x ⟨0⟩ = signedFract x.isPositive x.uFract.toNat := by
      rw [alignedSum, show (⟨0⟩ : CFloat).uFract.toNat = 0 by decide, Nat.zero_div,
        show (⟨0⟩ : CFloat).isPositive = true by decide, signedFract_true, Nat.cast_zero,
        Int.add_zero]
    have hlt := toNat_uFract_lt x
    have hpos := hx.fract_ge
    have habs : (alignedSum x ⟨0⟩).natAbs = x.uFract.toNat := by
      rw [hsum, signedFract]
      split <;> omega
    have hcarry : sumCarry x ⟨0⟩ = 0 := by
      rw [sumCarry, habs]
      omega
    have hzexp : (⟨0⟩ : CFloat).rawExp ≤ x.rawExp := by
      rw [show (⟨0⟩ : CFloat).rawExp = 0 by decide]
      exact Nat.zero_le _
    obtain ⟨w, hadd, hexp, hfract, hsign⟩ :=
      add_fields (Operand.underflowOrValue_eq (Or.inr hx)) hz hzexp hx.exp_ge hx.exp_le
    rw [hcarry, Nat.add_zero] at hexp
    rw [hcarry, habs, pow_zero, Nat.div_one] at hfract
    have hwx : w = x := by
      refine CFloat.eq_of_fields hexp hfract ?_
      rw [hsign (by omega), hsum, signedFract]
      cases x.isPositive with
      | true => simp
      | false =>
        rw [if_neg Bool.false_ne_true, decide_eq_false_iff_not]
        omega
    rw [hadd, hwx, CFloat.normalize_of_isNormalized hx.normalized]

/-- The other operand of a subtraction: a zero stays one, a word in range changes its sign. -/
theorem CFloat.Operand.exists_neg {y : CFloat} (hy : y.Operand) :
    ∃ z : CFloat, z.Operand ∧ (∀ x : CFloat, x.sub y = x.add z) ∧ z.val = -y.val ∧ z.ulp = y.ulp := by
  rcases hy with rfl | hy
  · refine ⟨⟨0⟩, Or.inl rfl, fun x => CFloat.add_congr x ?_, ?_, rfl⟩
    · decide
    · rw [val_zero, neg_zero]
  · obtain ⟨hexp, hfract, hsign⟩ := y.flipSign_fields
    have hrange : y.flipSign.InRange :=
      ⟨(isNormalized_iff _).mpr (by rw [hfract]; exact hy.fract_ge), by rw [hexp]; exact hy.exp_ge,
        by rw [hexp]; exact hy.exp_le⟩
    refine ⟨y.flipSign, Or.inr hrange, fun _ => rfl, ?_, ?_⟩
    · rw [val, val, mag, mag, hexp, hfract, hsign]
      cases y.isPositive <;> simp
    · rw [ulp, ulp, hexp]

/-- What a subtraction promises. -/
structure DifferenceOf (r a b : CFloat) : Prop where
  error : |r.val - (a.val - b.val)| < max (max a.ulp b.ulp) r.ulp
  zero_iff : r = ⟨0⟩ ↔ a.val = b.val
  negative_iff : r.isPositive = false ↔ a.val < b.val
  positive_iff : r.isPositive = true ∧ r ≠ ⟨0⟩ ↔ b.val < a.val

/-- **Floating addition and subtraction** of operands that are zero or in range: off by less than
    a unit on the larger exponent, the carried one included; zero is neutral; the sign of a
    difference compares. -/
theorem sum_accuracy (hx : x.Operand) (hy : y.Operand) :
    SumOf (x.add y) x y ∧ DifferenceOf (x.sub y) x y ∧ x.add ⟨0⟩ = x ∧
      (⟨0⟩ : CFloat).add x = x := by
  obtain ⟨z, hz, hsub, hval, hulp⟩ := hy.exists_neg
  obtain ⟨herr, hzero, hneg⟩ := sumOf_add hx hz
  have hzero' := hx.add_zero
  rw [hval, ← sub_eq_add_neg] at herr hzero hneg
  rw [← hsub] at herr hzero hneg
  rw [hulp] at herr
  rw [sub_eq_zero] at hzero
  rw [sub_neg] at hneg
  refine ⟨sumOf_add hx hy, ⟨herr, hzero, hneg, ?_⟩, hzero', ?_⟩
  · rw [← Bool.not_eq_false, hneg, Ne, hzero, not_lt]
    exact ⟨fun h => lt_of_le_of_ne h.1 (Ne.symm h.2), fun h => ⟨h.le, h.ne'⟩⟩
  · rw [CFloat.add_comm, hzero']

end accuracy

instance (a : CFloat) : Decidable a.Operand := inferInstanceAs (Decidable (_ ∨ _))

/-- The bounds at `1` and `-0.5`. -/
theorem sum_accuracy_one :
    SumOf (CFloat.add ⟨0x4001800000000000⟩ ⟨0xC000800000000000⟩) ⟨0x4001800000000000⟩
        ⟨0xC000800000000000⟩ ∧
      DifferenceOf (CFloat.sub ⟨0x4001800000000000⟩ ⟨0xC000800000000000⟩) ⟨0x4001800000000000⟩
        ⟨0xC000800000000000⟩ ∧
      CFloat.add ⟨0x4001800000000000⟩ ⟨0⟩ = ⟨0x4001800000000000⟩ ∧
      CFloat.add ⟨0⟩ ⟨0x4001800000000000⟩ = ⟨0x4001800000000000⟩ :=
  sum_accuracy (by decide) (by decide)

/-- **A sum that carries** after an operand was shifted: one and a half units are lost. -/
theorem carried_sum_over_one_unit :
    let a : CFloat := ⟨0x4001FFFFFFFFFFFE⟩
    let b : CFloat := ⟨0x4000FFFFFFFFFFFF⟩
    a.InRange ∧ b.InRange ∧ ¬ |(a.add b).val - (a.val + b.val)| ≤ max a.ulp b.ulp := by
  intro a b
  have hadd : a.add b = ⟨0x4002BFFFFFFFFFFE⟩ := by decide
  have hfields : a.rawExp = 0x4001 ∧ a.isPositive = true ∧ a.uFract.toNat = 0xFFFFFFFFFFFE ∧
      b.rawExp = 0x4000 ∧ b.isPositive = true ∧ b.uFract.toNat = 0xFFFFFFFFFFFF := by decide
  obtain ⟨hae, hap, haf, hbe, hbp, hbf⟩ := hfields
  have hr : (CFloat.mk 0x4002BFFFFFFFFFFE).rawExp = 0x4002 ∧
      (CFloat.mk 0x4002BFFFFFFFFFFE).isPositive = true ∧
      (CFloat.mk 0x4002BFFFFFFFFFFE).uFract.toNat = 0xBFFFFFFFFFFE := by decide
  obtain ⟨hre, hrp, hrf⟩ := hr
  refine ⟨by decide, by decide, ?_⟩
  rw [hadd, CFloat.val_eq_signedFract, CFloat.val_eq_signedFract, CFloat.val_eq_signedFract, hap, hbp,
    hrp, haf, hbf, hrf, CFloat.ulp, CFloat.ulp, CFloat.ulp, hae, hbe, hre]
  norm_num [abs_of_neg, zpow_neg]

end CraySim
