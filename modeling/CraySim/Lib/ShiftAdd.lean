/-
  Subject:   Truncating shift-and-add multipliers.

  A multiplier that walks the multiplier bits from the top and halves the multiplicand at every
  step drops the bits that leave the word on the right. What it computes is

      sum n bit y = Σ i < n, bit i · ⌊y / 2^i⌋

  and the exact product it stands for is `y · weight n bit / 2^(n-1)`.

  * `sum_exact` -- with enough low zeros in the multiplicand nothing is lost,
  * `sum_le`, `le_sum` -- the truncation loses less than one unit for each step,
  * `weight_testBit` -- the weight of the top bits of a number,
  * `sum_comm` -- the truncation drops the same bits with the operands exchanged,
  * `sum_of_nearly_ones` -- the sum at the top of the range, by the number of ones,
  * `foldl_halving`, `foldl_shifted` -- the two ways such a loop is written over bit vectors.
-/
import Mathlib.Algebra.BigOperators.Intervals
import Mathlib.Algebra.Order.BigOperators.Group.Finset
import Mathlib.Data.Nat.Bitwise
import Mathlib.Data.Nat.Digits.Defs
import Mathlib.Tactic.Ring

namespace ShiftAdd

/-! ## 1. The truncated sum and its weight -/

/-- The sum of the truncated partial products. -/
def sum (n : Nat) (bit : Nat → Bool) (y : Nat) : Nat :=
  ∑ i ∈ Finset.range n, if bit i then y / 2 ^ i else 0

/-- The multiplier the first `n` bits spell, first bit on top. -/
def weight : Nat → (Nat → Bool) → Nat
  | 0, _ => 0
  | n + 1, bit => 2 * weight n bit + (bit n).toNat

@[simp] theorem sum_zero (bit : Nat → Bool) (y : Nat) : sum 0 bit y = 0 := rfl

theorem sum_succ (n : Nat) (bit : Nat → Bool) (y : Nat) :
    sum (n + 1) bit y = sum n bit y + if bit n then y / 2 ^ n else 0 :=
  Finset.sum_range_succ _ n

/-- The same sum with its first step split off: the loop that halves its multiplicand. -/
theorem sum_succ' (n : Nat) (bit : Nat → Bool) (y : Nat) :
    sum (n + 1) bit y = (if bit 0 then y else 0) + sum n (fun i => bit (i + 1)) (y / 2) := by
  rw [sum, Finset.sum_range_succ', add_comm]
  congr 1
  · simp
  · refine Finset.sum_congr rfl fun i _ => ?_
    rw [Nat.div_div_eq_div_mul, pow_succ, Nat.mul_comm 2]

theorem sum_congr {n : Nat} {bit bit' : Nat → Bool} (y : Nat)
    (h : ∀ i, i < n → bit i = bit' i) : sum n bit y = sum n bit' y :=
  Finset.sum_congr rfl fun i hi => by rw [h i (Finset.mem_range.mp hi)]

/-- The loop that runs over the same steps from the last one back. -/
theorem sum_reflect (n : Nat) (bit : Nat → Bool) (y : Nat) :
    (∑ i ∈ Finset.range n, if bit (n - 1 - i) then y / 2 ^ (n - 1 - i) else 0) = sum n bit y :=
  Finset.sum_range_reflect (fun i => if bit i then y / 2 ^ i else 0) n

theorem sum_mono (n : Nat) (bit : Nat → Bool) {y y' : Nat} (h : y ≤ y') :
    sum n bit y ≤ sum n bit y' := by
  refine Finset.sum_le_sum fun i _ => ?_
  by_cases hb : bit i
  · rw [if_pos hb, if_pos hb]
    exact Nat.div_le_div_right h
  · rw [if_neg hb, if_neg hb]

theorem sum_eq_of_false {k n : Nat} {bit : Nat → Bool} (y : Nat) (hk : k ≤ n)
    (h : ∀ i, k ≤ i → i < n → bit i = false) : sum n bit y = sum k bit y := by
  induction n with
  | zero => rw [show k = 0 by omega]
  | succ n ih =>
    by_cases hkn : k = n + 1
    · rw [hkn]
    · rw [sum_succ, h n (by omega) (by omega), ih (by omega) fun i hi hin => h i hi (by omega)]
      simp

/-- A multiplicand with enough low zeros loses nothing. -/
theorem sum_exact (k n : Nat) (bit : Nat → Bool) (y : Nat) (h : n ≤ k + 1) :
    2 ^ n * sum n bit (2 ^ k * y) = 2 ^ (k + 1) * y * weight n bit := by
  induction n with
  | zero => simp [weight]
  | succ n ih =>
    have hdiv : 2 ^ n * (2 ^ k * y / 2 ^ n) = 2 ^ k * y :=
      Nat.mul_div_cancel' (Dvd.dvd.mul_right (Nat.pow_dvd_pow 2 (by omega)) y)
    rw [sum_succ, weight]
    calc 2 ^ (n + 1) * (sum n bit (2 ^ k * y) + if bit n then 2 ^ k * y / 2 ^ n else 0)
        = 2 * (2 ^ n * sum n bit (2 ^ k * y)) +
            2 * (2 ^ n * if bit n then 2 ^ k * y / 2 ^ n else 0) := by ring
      _ = 2 * (2 ^ (k + 1) * y * weight n bit) + 2 * (2 ^ k * y * (bit n).toNat) := by
        rw [ih (by omega)]
        cases bit n <;> simp [hdiv]
      _ = 2 ^ (k + 1) * y * (2 * weight n bit + (bit n).toNat) := by ring

/-! ## 2. What the truncation costs -/

/-- The truncated sum stays below the exact product. -/
theorem sum_le (n : Nat) (bit : Nat → Bool) (y : Nat) :
    2 ^ n * sum n bit y ≤ 2 * y * weight n bit := by
  induction n with
  | zero => simp
  | succ n ih =>
    rw [sum_succ, weight, pow_succ]
    cases bit n with
    | false =>
      simp only [Bool.false_eq_true, if_false, Bool.toNat_false, Nat.add_zero]
      calc 2 ^ n * 2 * sum n bit y = 2 * (2 ^ n * sum n bit y) := by ring
        _ ≤ 2 * (2 * y * weight n bit) := Nat.mul_le_mul_left 2 ih
        _ = 2 * y * (2 * weight n bit) := by ring
    | true =>
      have hdiv : 2 ^ n * (y / 2 ^ n) ≤ y := Nat.mul_div_le y (2 ^ n)
      simp only [if_true, Bool.toNat_true]
      calc 2 ^ n * 2 * (sum n bit y + y / 2 ^ n)
          = 2 * (2 ^ n * sum n bit y) + 2 * (2 ^ n * (y / 2 ^ n)) := by ring
        _ ≤ 2 * (2 * y * weight n bit) + 2 * y :=
          Nat.add_le_add (Nat.mul_le_mul_left 2 ih) (Nat.mul_le_mul_left 2 hdiv)
        _ = 2 * y * (2 * weight n bit + 1) := by ring

/-- **Each step loses less than one unit**, and where the multiplicand ends with `k` zeros the
    first `k + 1` steps lose nothing. -/
theorem le_sum_of_zeros (k n : Nat) (bit : Nat → Bool) (y : Nat) :
    2 * (2 ^ k * y) * weight n bit ≤ 2 ^ n * (sum n bit (2 ^ k * y) + (n - (k + 1))) := by
  induction n with
  | zero => simp [weight]
  | succ n ih =>
    by_cases hn : n ≤ k
    · -- still among the steps that shift zeros out
      rw [Nat.mul_add, sum_exact k (n + 1) bit y (by omega), ← Nat.mul_assoc 2, ← pow_succ']
      exact Nat.le_add_right _ _
    generalize 2 ^ k * y = z at ih ⊢
    rw [sum_succ, weight, pow_succ]
    have hcount : n + 1 - (k + 1) = n - (k + 1) + 1 := by omega
    cases bit n with
    | false =>
      simp only [Bool.false_eq_true, if_false, Bool.toNat_false, Nat.add_zero]
      calc 2 * z * (2 * weight n bit) = 2 * (2 * z * weight n bit) := by ring
        _ ≤ 2 * (2 ^ n * (sum n bit z + (n - (k + 1)))) := Nat.mul_le_mul_left 2 ih
        _ ≤ 2 ^ n * 2 * (sum n bit z + (n + 1 - (k + 1))) := by
          rw [show 2 * (2 ^ n * (sum n bit z + (n - (k + 1)))) =
            2 ^ n * 2 * (sum n bit z + (n - (k + 1))) by ring]
          exact Nat.mul_le_mul_left _ (by omega)
    | true =>
      have hdiv : z ≤ 2 ^ n * (z / 2 ^ n + 1) := by
        rw [Nat.mul_add, Nat.mul_one]
        exact (Nat.lt_mul_div_succ z (Nat.two_pow_pos n)).le.trans (by rw [Nat.mul_add, Nat.mul_one])
      simp only [if_true, Bool.toNat_true]
      calc 2 * z * (2 * weight n bit + 1) = 2 * (2 * z * weight n bit) + 2 * z := by ring
        _ ≤ 2 * (2 ^ n * (sum n bit z + (n - (k + 1)))) + 2 * (2 ^ n * (z / 2 ^ n + 1)) :=
          Nat.add_le_add (Nat.mul_le_mul_left 2 ih) (Nat.mul_le_mul_left 2 hdiv)
        _ = 2 ^ n * 2 * (sum n bit z + z / 2 ^ n + (n + 1 - (k + 1))) := by
          rw [hcount]
          ring

/-- Whatever the multiplicand, `n` steps lose less than `n` units. -/
theorem le_sum (n : Nat) (bit : Nat → Bool) (y : Nat) :
    2 * y * weight n bit ≤ 2 ^ n * (sum n bit y + n) := by
  have h := le_sum_of_zeros 0 n bit y
  rw [pow_zero, Nat.one_mul] at h
  exact h.trans (Nat.mul_le_mul_left _ (by omega))

theorem weight_lt (n : Nat) (bit : Nat → Bool) : weight n bit < 2 ^ n := by
  induction n with
  | zero => simp [weight]
  | succ n ih =>
    have hb : (bit n).toNat ≤ 1 := Bool.toNat_le (bit n)
    rw [weight, pow_succ]
    omega

/-- However many steps, the sum is less than twice the multiplicand. -/
theorem sum_le_two_mul (n : Nat) (bit : Nat → Bool) (y : Nat) : sum n bit y ≤ 2 * y := by
  have h1 := sum_le n bit y
  have h2 : 2 * y * weight n bit ≤ 2 * y * 2 ^ n :=
    Nat.mul_le_mul_left _ (weight_lt n bit).le
  refine le_of_mul_le_mul_left ?_ (Nat.two_pow_pos n)
  calc 2 ^ n * sum n bit y ≤ 2 * y * 2 ^ n := h1.trans h2
    _ = 2 ^ n * (2 * y) := by ring

/-- **The first `k` of the `n` low bits of a number, read from the top, weigh its top part.** -/
theorem weight_testBit (x n k : Nat) (h : k ≤ n) :
    weight k (fun i => x.testBit (n - 1 - i)) = x % 2 ^ n / 2 ^ (n - k) := by
  induction k with
  | zero => simp [weight, Nat.div_eq_of_lt (Nat.mod_lt x (Nat.two_pow_pos n))]
  | succ k ih =>
    rw [weight, ih (by omega)]
    have hk : n - k = n - (k + 1) + 1 := by omega
    have hbit : x.testBit (n - 1 - k) = (x % 2 ^ n).testBit (n - (k + 1)) := by
      rw [Nat.testBit_mod_two_pow]
      simp [show n - 1 - k = n - (k + 1) by omega, show n - (k + 1) < n by omega]
    rw [hbit, Nat.testBit_eq_decide_div_mod_eq, hk, pow_succ, ← Nat.div_div_eq_div_mul]
    generalize x % 2 ^ n / 2 ^ (n - (k + 1)) = q
    by_cases hq : q % 2 = 1
    · simp [hq]; omega
    · simp [hq]; omega

/-- The truncated quotient of a number, bit by bit: no carry comes out of what is cut off. -/
theorem div_two_pow_eq_sum (k i m : Nat) {a : Nat} (ha : a < 2 ^ m) :
    2 ^ k * a / 2 ^ i =
      ∑ j ∈ Finset.range m, if a.testBit j then 2 ^ (k + j) / 2 ^ i else 0 := by
  induction m generalizing a with
  | zero =>
    rw [Nat.lt_one_iff.mp ha]
    simp
  | succ m ih =>
    have hlow := ih (Nat.mod_lt a (Nat.two_pow_pos m))
    have hbits : ∀ j ∈ Finset.range m, (if (a % 2 ^ m).testBit j then 2 ^ (k + j) / 2 ^ i else 0) =
        if a.testBit j then 2 ^ (k + j) / 2 ^ i else 0 := fun j hj => by
      rw [Nat.testBit_mod_two_pow, decide_eq_true (Finset.mem_range.mp hj), Bool.true_and]
    rw [Finset.sum_congr rfl hbits] at hlow
    rw [Finset.sum_range_succ, ← hlow]
    have hsplit : a = 2 ^ m * (a / 2 ^ m) + a % 2 ^ m := (Nat.div_add_mod a (2 ^ m)).symm
    have htop : a / 2 ^ m < 2 := Nat.div_lt_of_lt_mul (by rwa [← pow_succ])
    have hr : a % 2 ^ m < 2 ^ m := Nat.mod_lt a (Nat.two_pow_pos m)
    rw [Nat.testBit_eq_decide_div_mod_eq, Nat.mod_eq_of_lt htop]
    generalize a / 2 ^ m = q at hsplit htop
    generalize a % 2 ^ m = r at hsplit hr
    obtain rfl | rfl : q = 0 ∨ q = 1 := by omega
    · simp [hsplit]
    · rw [hsplit, mul_one, decide_eq_true rfl, if_pos rfl, mul_add, ← pow_add]
      by_cases hi : i ≤ k + m
      · -- the top bit stays whole
        have hwhole : 2 ^ (k + m) = 2 ^ i * 2 ^ (k + m - i) := by
          rw [← pow_add, Nat.add_sub_cancel' hi]
        rw [hwhole, Nat.mul_add_div (Nat.two_pow_pos i), Nat.mul_div_cancel_left _
          (Nat.two_pow_pos i), Nat.add_comm]
      · have hle : 2 ^ (k + m + 1) ≤ 2 ^ i := Nat.pow_le_pow_right (by decide) (by omega)
        have hkr : 2 ^ k * r < 2 ^ (k + m) := by
          rw [pow_add]
          exact Nat.mul_lt_mul_of_pos_left hr (Nat.two_pow_pos k)
        rw [pow_succ] at hle
        rw [Nat.div_eq_of_lt (by omega), Nat.div_eq_of_lt (by omega), Nat.div_eq_of_lt (by omega)]

/-- **The truncated product is symmetric**: bit `i` of one operand and bit `j` of the other one
    make a partial product that depends on `i + j` only. -/
theorem sum_comm (n k : Nat) {a b : Nat} (ha : a < 2 ^ n) (hb : b < 2 ^ n) :
    sum n (fun i => b.testBit (n - 1 - i)) (2 ^ k * a) =
      sum n (fun i => a.testBit (n - 1 - i)) (2 ^ k * b) := by
  have hpairs : ∀ {x y : Nat}, x < 2 ^ n → sum n (fun i => y.testBit (n - 1 - i)) (2 ^ k * x) =
      ∑ i ∈ Finset.range n, ∑ j ∈ Finset.range n,
        if y.testBit (n - 1 - i) ∧ x.testBit (n - 1 - j)
        then 2 ^ (k + n - 1) / 2 ^ (i + j) else 0 := by
    intro x y hx
    refine Finset.sum_congr rfl fun i _ => ?_
    rw [div_two_pow_eq_sum k i n hx,
      ← Finset.sum_range_reflect (fun j => if x.testBit j then 2 ^ (k + j) / 2 ^ i else 0)]
    by_cases hy : y.testBit (n - 1 - i)
    · simp only [hy, if_true, true_and]
      refine Finset.sum_congr rfl fun j hj => ?_
      have hjn : j < n := Finset.mem_range.mp hj
      have hpow : 2 ^ (k + (n - 1 - j)) = 2 ^ (k + n - 1) / 2 ^ j := by
        rw [Nat.pow_div (by omega) (by decide), show k + n - 1 - j = k + (n - 1 - j) by omega]
      rw [hpow, Nat.div_div_eq_div_mul, ← pow_add, Nat.add_comm j i]
    · simp [hy]
  rw [hpairs ha, hpairs hb, Finset.sum_comm]
  refine Finset.sum_congr rfl fun i _ => Finset.sum_congr rfl fun j _ => ?_
  rw [Nat.add_comm j i]
  exact if_congr And.comm rfl rfl

/-! ## 3. Operands that are nearly all ones -/

/-- The number of ones of a number. -/
def ones (x : Nat) : Nat := (Nat.digits 2 x).sum

@[simp] theorem ones_zero : ones 0 = 0 := by simp [ones]

theorem ones_eq (x : Nat) : ones x = x % 2 + ones (x / 2) := by
  rcases Nat.eq_zero_or_pos x with rfl | hx
  · simp
  · rw [ones, Nat.digits_def' (by decide) hx, List.sum_cons, ones]

theorem ones_two_pow_mul (k x : Nat) : ones (2 ^ k * x) = ones x := by
  induction k with
  | zero => rw [pow_zero, Nat.one_mul]
  | succ k ih =>
    rw [ones_eq, show 2 ^ (k + 1) * x = 2 * (2 ^ k * x) by ring, Nat.mul_mod_right,
      Nat.mul_div_cancel_left _ (by decide), Nat.zero_add, ih]

/-- All the halvings of a number add up to its double, short of one for each of its ones. -/
theorem sum_halvings (w : Nat) {x : Nat} (hx : x < 2 ^ w) :
    (∑ i ∈ Finset.range w, x / 2 ^ i) + ones x = 2 * x := by
  induction w generalizing x with
  | zero =>
    rw [Nat.lt_one_iff.mp hx]
    simp
  | succ w ih =>
    have hhalf := ih (x := x / 2) (by rw [pow_succ] at hx; omega)
    have hterm : ∀ i ∈ Finset.range w, x / 2 ^ (i + 1) = x / 2 / 2 ^ i := fun i _ => by
      rw [pow_succ, Nat.mul_comm, ← Nat.div_div_eq_div_mul]
    rw [Finset.sum_range_succ', pow_zero, Nat.div_one, Finset.sum_congr rfl hterm, ones_eq x]
    omega

/-- The bits of a number, each one short of its place. -/
theorem sum_bits_sub_one (k n : Nat) {x : Nat} (hx : x < 2 ^ n) :
    (∑ i ∈ Finset.range n, if x.testBit i then 2 ^ (k + i) - 1 else 0) + ones x = 2 ^ k * x := by
  induction n generalizing k x with
  | zero =>
    rw [Nat.lt_one_iff.mp hx]
    simp
  | succ n ih =>
    have hhalf := ih (k + 1) (x := x / 2) (by rw [pow_succ] at hx; omega)
    have hterm : ∀ i ∈ Finset.range n, (if x.testBit (i + 1) then 2 ^ (k + (i + 1)) - 1 else 0) =
        if (x / 2).testBit i then 2 ^ (k + 1 + i) - 1 else 0 := fun i _ => by
      rw [Nat.testBit_succ, show k + (i + 1) = k + 1 + i by omega]
    have hpos := Nat.two_pow_pos k
    rw [Finset.sum_range_succ', Finset.sum_congr rfl hterm, ones_eq x, Nat.testBit_zero, Nat.add_zero]
    have hx2 : 2 ^ k * x = 2 ^ (k + 1) * (x / 2) + 2 ^ k * (x % 2) := by
      rw [pow_succ, Nat.mul_assoc, ← Nat.mul_add, Nat.div_add_mod]
    rw [hx2, ← hhalf]
    obtain h | h : x % 2 = 0 ∨ x % 2 = 1 := by omega
    · simp [h]
    · simp [h]
      omega

/-- The numbers of one to `m` ones, added up. -/
theorem sum_all_ones (m : Nat) :
    (∑ i ∈ Finset.range m, (2 ^ (m - i) - 1)) + m + 2 = 2 ^ (m + 1) := by
  induction m with
  | zero => rfl
  | succ m ih =>
    have hterm : ∀ i ∈ Finset.range m, 2 ^ (m + 1 - (i + 1)) - 1 = 2 ^ (m - i) - 1 := fun i _ => by
      rw [Nat.add_sub_add_right]
    have hpos := Nat.two_pow_pos (m + 1)
    rw [Finset.sum_range_succ', Finset.sum_congr rfl hterm, Nat.sub_zero, pow_succ 2 (m + 1)]
    omega

/-- **Operands that are nearly all ones.** Where every step without a multiplier bit would have
    added all ones, the truncated product is known up to the number of ones in both operands. -/
theorem sum_of_nearly_ones (n k : Nat) {a b : Nat} (ha : a < 2 ^ n) (hb : b < 2 ^ n)
    (h : ∀ i, i < n → b.testBit (n - 1 - i) = false → 2 ^ k * (2 ^ n - a) ≤ 2 ^ i)
    (hn : 2 ^ k * (2 ^ n - a) ≤ 2 ^ n) :
    sum n (fun i => b.testBit (n - 1 - i)) (2 ^ k * a) + ones a + ones b + 2 ^ (n + k + 1) =
      2 ^ (k + 1) * (a + b) + (n + k + 2) := by
  -- the quotient at a step without a bit
  have hquot : ∀ i, i ≤ n + k → 2 ^ k * (2 ^ n - a) ≤ 2 ^ i → 2 ^ k * a / 2 ^ i = 2 ^ (n + k - i) - 1 :=
    fun i hi hle => by
      have hsplit : 2 ^ k * a + 2 ^ k * (2 ^ n - a) = 2 ^ i * 2 ^ (n + k - i) := by
        rw [← Nat.mul_add, Nat.add_sub_cancel' ha.le, ← pow_add, ← pow_add,
          Nat.add_sub_cancel' hi, Nat.add_comm]
      have hpos : 0 < 2 ^ k * (2 ^ n - a) :=
        Nat.mul_pos (Nat.two_pow_pos k) (Nat.sub_pos_of_lt ha)
      have hdec : 2 ^ i * (2 ^ (n + k - i) - 1) + 2 ^ i = 2 ^ i * 2 ^ (n + k - i) := by
        rw [Nat.mul_sub_one]
        exact Nat.sub_add_cancel (Nat.le_mul_of_pos_right _ (Nat.two_pow_pos _))
      rw [Nat.div_eq_iff (Nat.two_pow_pos i), Nat.mul_comm]
      omega
  -- all steps, the missing ones of the multiplicand's low places included
  have hrow : ∀ i ∈ Finset.range n,
      (if b.testBit (n - 1 - i) then 2 ^ k * a / 2 ^ i else 0) + (2 ^ (n + k - i) - 1) =
        (if b.testBit (n - 1 - i) then 2 ^ (k + 1 + (n - 1 - i)) - 1 else 0) + 2 ^ k * a / 2 ^ i :=
    fun i hi => by
      have hin : i < n := Finset.mem_range.mp hi
      by_cases hbit : b.testBit (n - 1 - i)
      · rw [if_pos hbit, if_pos hbit, show k + 1 + (n - 1 - i) = n + k - i by omega, Nat.add_comm]
      · rw [if_neg hbit, if_neg hbit, hquot i (by omega) (h i hin (by simpa using hbit))]
  have hrows := Finset.sum_congr rfl hrow
  rw [Finset.sum_add_distrib, Finset.sum_add_distrib] at hrows
  have htail : ∀ i ∈ Finset.range k, 2 ^ k * a / 2 ^ (n + i) = 2 ^ (n + k - (n + i)) - 1 :=
    fun i hi => by
      have hik : i < k := Finset.mem_range.mp hi
      exact hquot (n + i) (by omega) (hn.trans (Nat.pow_le_pow_right (by decide) (by omega)))
  have hall := sum_halvings (n + k) (x := 2 ^ k * a) (by
    rw [Nat.add_comm, pow_add]
    exact Nat.mul_lt_mul_of_pos_left ha (Nat.two_pow_pos k))
  rw [Finset.sum_range_add, Finset.sum_congr rfl htail, ones_two_pow_mul] at hall
  have hones := sum_all_ones (n + k)
  rw [Finset.sum_range_add] at hones
  have hbits := sum_bits_sub_one (k + 1) n hb
  rw [← Finset.sum_range_reflect] at hbits
  have hdouble : 2 * (2 ^ k * a) + 2 ^ (k + 1) * b = 2 ^ (k + 1) * (a + b) := by ring
  rw [sum]
  omega

/-! ## 4. The loops over bit vectors -/

section loops
variable {w : Nat}

theorem ofNat_div_two_pow (y : BitVec w) (k : Nat) : BitVec.ofNat w (y.toNat / 2 ^ k) = y >>> k := by
  apply BitVec.eq_of_toNat_eq
  rw [BitVec.toNat_ofNat, BitVec.toNat_ushiftRight, Nat.shiftRight_eq_div_pow,
    Nat.mod_eq_of_lt (Nat.lt_of_le_of_lt (Nat.div_le_self _ _) y.isLt)]

/-- A loop that adds its multiplicand where a bit is set and halves it at every step. -/
theorem foldl_halving (n : Nat) (test : Nat → Bool) (y : BitVec w) :
    (List.range n).foldl (fun (p : BitVec w × BitVec w) i =>
        (if test i then p.1 + p.2 else p.1, p.2 >>> 1)) (0, y) =
      (BitVec.ofNat w (sum n test y.toNat), y >>> n) := by
  induction n with
  | zero => simp
  | succ n ih =>
    rw [List.range_succ, List.foldl_append, ih]
    simp only [List.foldl_cons, List.foldl_nil, Prod.mk.injEq]
    refine ⟨?_, by rw [BitVec.shiftRight_add]⟩
    rw [sum_succ, BitVec.ofNat_add]
    by_cases ht : test n
    · simp [ht, ofNat_div_two_pow]
    · simp [ht]

/-- A loop over the multiplier bits from the bottom that shifts the multiplicand afresh. -/
theorem foldl_shifted (n : Nat) (test : Nat → Bool) (y : BitVec w) :
    (List.range n).foldl (fun acc i => acc + if test i then y >>> (n - i - 1) else 0) 0 =
      BitVec.ofNat w (sum n (fun i => test (n - 1 - i)) y.toNat) := by
  have key : ∀ m, m ≤ n →
      (List.range m).foldl (fun acc i => acc + if test i then y >>> (n - i - 1) else 0) 0 =
        BitVec.ofNat w (∑ i ∈ Finset.range m, if test i then y.toNat / 2 ^ (n - 1 - i) else 0) := by
    intro m hm
    induction m with
    | zero => simp
    | succ m ih =>
      rw [List.range_succ, List.foldl_append, ih (by omega), Finset.sum_range_succ,
        BitVec.ofNat_add]
      simp only [List.foldl_cons, List.foldl_nil]
      congr 1
      by_cases ht : test m
      · simp [ht, ofNat_div_two_pow, show n - m - 1 = n - 1 - m by omega]
      · simp [ht]
  rw [key n le_rfl, ← sum_reflect n (fun i => test (n - 1 - i))]
  congr 1
  refine Finset.sum_congr rfl fun i hi => ?_
  have hi' : i < n := Finset.mem_range.mp hi
  rw [show n - 1 - (n - 1 - i) = i by omega]

end loops

end ShiftAdd
