/-
  Subject:   Bit fields of a machine word, as lenses.

  A field of a `w`-bit word is a start bit `lo` and a width `n`. The file fixes what reading
  (`get`) and writing (`put`) a field mean bit by bit, and derives what they do to each other:

  * `get_put` -- a written field reads as the value, cut to the field,
  * `get_put_of_disjoint` -- writing one field leaves a disjoint field alone,
  * `get_put_eq_iff` -- writing one field leaves another one alone: the bits they share,
  * `toNat_get` -- a field as a number.

  The second part reads masked words (`x &&& ~~~low`) as numbers, and counts addresses up.
-/
import Mathlib.Data.Nat.Bitwise
import Mathlib.Tactic.Ring

namespace WordField

-- Names for the library's instance at the sizes in use: a numeral of `Fin 8` then has the same
-- term in every module, where Lean would cut the proof out under a name of its own.
instance neZero_one : NeZero 1 := Nat.instNeZeroSucc
instance neZero_two : NeZero 2 := Nat.instNeZeroSucc
instance neZero_eight : NeZero 8 := Nat.instNeZeroSucc
instance neZero_sixteen : NeZero 16 := Nat.instNeZeroSucc
instance neZero_sixtyFour : NeZero 64 := Nat.instNeZeroSucc

/-! ## 1. Reading and writing a field -/

/-- The word whose low `n` bits are set. -/
def mask (w n : Nat) : BitVec w := (1 : BitVec w) <<< n - 1

/-- The field of `n` bits that starts at bit `lo`, right aligned. -/
def get {w : Nat} (lo n : Nat) (x : BitVec w) : BitVec w := (x >>> lo) &&& mask w n

/-- `x` with the field of `n` bits at `lo` replaced by the low bits of `v`. -/
def put {w : Nat} (lo n : Nat) (v x : BitVec w) : BitVec w :=
  (x &&& ~~~(mask w n <<< lo)) ||| ((v <<< lo) &&& (mask w n <<< lo))

theorem toNat_mask {w n : Nat} (h : n < w) : (mask w n).toNat = 2 ^ n - 1 := by
  have hpow : 2 ^ n < 2 ^ w := Nat.pow_lt_pow_right (by decide) h
  have hpos : 0 < 2 ^ n := Nat.two_pow_pos n
  have hone : (1 : Nat) < 2 ^ w := Nat.one_lt_two_pow (by omega)
  have h1 : ((1 : BitVec w) <<< n).toNat = 2 ^ n := by
    simp [BitVec.toNat_shiftLeft, Nat.shiftLeft_eq, Nat.mod_eq_of_lt hone, Nat.mod_eq_of_lt hpow]
  have h2 : (1 : BitVec w).toNat = 1 := by simp [Nat.mod_eq_of_lt hone]
  rw [mask, BitVec.toNat_sub, h1, h2]
  rw [show 2 ^ w - 1 + 2 ^ n = 2 ^ n - 1 + 2 ^ w by omega, Nat.add_mod_right]
  exact Nat.mod_eq_of_lt (by omega)

@[simp] theorem getLsbD_mask (w n i : Nat) :
    (mask w n).getLsbD i = (decide (i < n) && decide (i < w)) := by
  by_cases hn : n < w
  · rw [← BitVec.testBit_toNat, toNat_mask hn, Nat.testBit_two_pow_sub_one]
    by_cases hi : i < n
    · simp [hi, Nat.lt_trans hi hn]
    · simp [hi]
  · -- the shift leaves the word, so the mask is all ones
    have hz : (1 : BitVec w) <<< n = 0 := by
      simp [BitVec.shiftLeft_eq_zero (by omega : w ≤ n)]
    have hm : mask w n = BitVec.allOnes w := by
      rw [mask, hz]
      simp [← BitVec.neg_one_eq_allOnes]
    rw [hm, BitVec.getLsbD_allOnes]
    by_cases hi : i < w
    · simp [hi, Nat.lt_of_lt_of_le hi (Nat.le_of_not_lt hn)]
    · simp [hi]

@[simp] theorem getElem_mask (w n i : Nat) (hi : i < w) : (mask w n)[i] = decide (i < n) := by
  rw [← BitVec.getLsbD_eq_getElem, getLsbD_mask]
  simp [hi]

@[simp] theorem getLsbD_get {w : Nat} (lo n i : Nat) (x : BitVec w) :
    (get lo n x).getLsbD i = (decide (i < n) && x.getLsbD (lo + i)) := by
  by_cases hi : i < w
  · simp [get, hi, Bool.and_comm]
  · have : x.getLsbD (lo + i) = false := BitVec.getLsbD_of_ge x _ (by omega)
    simp [get, hi, this]

@[simp] theorem getElem_get {w : Nat} (lo n i : Nat) (x : BitVec w) (hi : i < w) :
    (get lo n x)[i] = (decide (i < n) && x.getLsbD (lo + i)) := by
  rw [← BitVec.getLsbD_eq_getElem, getLsbD_get]

/-- **A written word, bit by bit**: the field shows the value, the rest shows the old word. -/
@[simp] theorem getLsbD_put {w : Nat} (lo n i : Nat) (v x : BitVec w) :
    (put lo n v x).getLsbD i =
      if lo ≤ i ∧ i < lo + n ∧ i < w then v.getLsbD (i - lo) else x.getLsbD i := by
  by_cases hw : i < w
  · by_cases hlo : i < lo
    · simp [put, hw, hlo, show ¬ lo ≤ i by omega]
    · by_cases hn : i - lo < n
      · simp [put, hw, hlo, hn, show lo ≤ i by omega, show i < lo + n by omega,
          show i - lo < w by omega]
      · simp [put, hw, hlo, hn, show ¬ i < lo + n by omega]
  · simp [put, hw, BitVec.getLsbD_of_ge x i (by omega)]

@[simp] theorem getElem_put {w : Nat} (lo n i : Nat) (v x : BitVec w) (hi : i < w) :
    (put lo n v x)[i] = if lo ≤ i ∧ i < lo + n then v.getLsbD (i - lo) else x[i] := by
  rw [← BitVec.getLsbD_eq_getElem, getLsbD_put, ← BitVec.getLsbD_eq_getElem]
  simp only [hi, and_true]

/-! ## 2. The lens laws -/

section laws
variable {w : Nat}

/-- **Get after put**: the value, cut to the field. -/
theorem get_put (lo n : Nat) (v x : BitVec w) (h : lo + n ≤ w) :
    get lo n (put lo n v x) = v &&& mask w n := by
  apply BitVec.eq_of_getLsbD_eq
  intro i hi
  by_cases hn : i < n
  · simp [hn, hi, show lo + i < w by omega]
  · simp [hn]

theorem and_mask_of_lt {n : Nat} (v : BitVec w) (h : v.toNat < 2 ^ n) : v &&& mask w n = v := by
  apply BitVec.eq_of_getLsbD_eq
  intro i hi
  by_cases hn : i < n
  · simp [hn, hi]
  · have : v.getLsbD i = false := by
      rw [← BitVec.testBit_toNat]
      exact Nat.testBit_lt_two_pow (Nat.lt_of_lt_of_le h
        (Nat.pow_le_pow_right (by decide) (by omega)))
    simp [hn, this]

/-- **The frame law**: a field disjoint from the written one is unchanged. -/
theorem get_put_of_disjoint (lo n lo' n' : Nat) (v x : BitVec w)
    (h : lo' + n' ≤ lo ∨ lo + n ≤ lo') : get lo' n' (put lo n v x) = get lo' n' x := by
  apply BitVec.eq_of_getLsbD_eq
  intro i _
  by_cases hn : i < n'
  · have : ¬ (lo ≤ lo' + i ∧ lo' + i < lo + n ∧ lo' + i < w) := by omega
    simp [this]
  · simp [hn]

/-- Writing one field leaves another one alone exactly when the bits they share agree. -/
theorem get_put_eq_iff (lo n lo' n' : Nat) (v x : BitVec w) :
    get lo' n' (put lo n v x) = get lo' n' x ↔
      ∀ i, lo ≤ i → i < lo + n → lo' ≤ i → i < lo' + n' → i < w →
        v.getLsbD (i - lo) = x.getLsbD i := by
  constructor
  · intro h i hlo hn hlo' hn' hw
    have hbit := congrArg (fun y => y.getLsbD (i - lo')) h
    simpa [show i - lo' < n' by omega, show lo' + (i - lo') = i by omega, hlo, hn, hw] using hbit
  · intro h
    apply BitVec.eq_of_getLsbD_eq
    intro i hi
    rw [getLsbD_get, getLsbD_get, getLsbD_put]
    by_cases hshared : i < n' ∧ lo ≤ lo' + i ∧ lo' + i < lo + n ∧ lo' + i < w
    · obtain ⟨hn', hin⟩ := hshared
      rw [if_pos hin, h (lo' + i) hin.1 hin.2.1 (by omega) (by omega) hin.2.2]
    · by_cases hn' : i < n'
      · rw [if_neg fun hin => hshared ⟨hn', hin⟩]
      · simp [hn']

theorem toNat_get (lo n : Nat) (x : BitVec w) :
    (get lo n x).toNat = x.toNat / 2 ^ lo % 2 ^ n := by
  apply Nat.eq_of_testBit_eq
  intro i
  rw [BitVec.testBit_toNat, getLsbD_get, Nat.testBit_mod_two_pow, Nat.testBit_div_two_pow,
    BitVec.testBit_toNat, Nat.add_comm]

theorem get_zero_width (x : BitVec w) : get 0 w x = x := by
  apply BitVec.eq_of_getLsbD_eq
  intro i hi
  simp [hi]

theorem put_zero_width (v x : BitVec w) : put 0 w v x = v := by
  apply BitVec.eq_of_getLsbD_eq
  intro i hi
  simp [hi]

end laws

/-! ## 3. Clearing low bits -/

/-- Clearing the low `n` bits is rounding down to a multiple of `2 ^ n`. -/
theorem toNat_and_not_mask {w n : Nat} (x : BitVec w) (h : n < w) :
    (x &&& ~~~(mask w n)).toNat = x.toNat / 2 ^ n * 2 ^ n := by
  apply Nat.eq_of_testBit_eq
  intro i
  rw [BitVec.testBit_toNat, Nat.mul_comm, Nat.testBit_two_pow_mul, Nat.testBit_div_two_pow]
  by_cases hw : i < w
  · by_cases hi : i < n
    · simp [hi, hw, show ¬ n ≤ i by omega]
    · simp [hi, hw, show n ≤ i by omega, show i - n + n = i by omega, BitVec.testBit_toNat]
  · have : x.toNat.testBit i = false := by
      rw [BitVec.testBit_toNat]
      exact BitVec.getLsbD_of_ge x i (by omega)
    by_cases hi : n ≤ i
    · simp [hi, hw, show i - n + n = i by omega, this]
    · omega

theorem toNat_and_mask {w n : Nat} (x : BitVec w) :
    (x &&& mask w n).toNat = x.toNat % 2 ^ n := by
  apply Nat.eq_of_testBit_eq
  intro i
  rw [BitVec.testBit_toNat, Nat.testBit_mod_two_pow, BitVec.testBit_toNat]
  by_cases hw : i < w
  · simp [hw, Bool.and_comm]
  · simp [hw, BitVec.getLsbD_of_ge x i (by omega)]

theorem toNat_and_mask_shiftLeft {w : Nat} (lo n : Nat) (x : BitVec w) :
    (x &&& mask w n <<< lo).toNat = 2 ^ lo * (x.toNat / 2 ^ lo % 2 ^ n) := by
  apply Nat.eq_of_testBit_eq
  intro i
  rw [BitVec.testBit_toNat, Nat.testBit_two_pow_mul, Nat.testBit_mod_two_pow,
    Nat.testBit_div_two_pow, BitVec.getLsbD_and, BitVec.getLsbD_shiftLeft, getLsbD_mask]
  by_cases hlo : lo ≤ i
  · rw [show i - lo + lo = i by omega, BitVec.testBit_toNat]
    by_cases hw : i < w
    · simp [hlo, hw, show ¬ i < lo by omega, show i - lo < w by omega, Bool.and_comm]
    · simp [BitVec.getLsbD_of_ge x i (by omega)]
  · simp [hlo, show i < lo by omega]

/-! ## 4. Testing one bit -/

theorem getLsbD_one_shiftLeft {w : Nat} (k i : Nat) (hk : k < w) :
    ((1 : BitVec w) <<< k).getLsbD i = decide (i = k) := by
  have hone : (1 : BitVec w).toNat = 1 := by simp [show 0 < w by omega]
  rw [← BitVec.testBit_toNat, BitVec.toNat_shiftLeft, hone, Nat.shiftLeft_eq, Nat.one_mul,
    Nat.mod_eq_of_lt (Nat.pow_lt_pow_right (by decide) hk), Nat.testBit_two_pow]
  exact decide_eq_decide.mpr eq_comm

theorem or_bit_of_getLsbD {w : Nat} (x : BitVec w) (k : Nat) (hk : k < w) (h : x.getLsbD k = true) :
    x ||| (1 : BitVec w) <<< k = x := by
  apply BitVec.eq_of_getLsbD_eq
  intro i _
  rw [BitVec.getLsbD_or, getLsbD_one_shiftLeft k i hk]
  by_cases hi : i = k
  · simp [hi, h]
  · simp [hi]

theorem and_bit_bne_zero {w : Nat} (x : BitVec w) (k : Nat) (hk : k < w) :
    (x &&& (1 : BitVec w) <<< k != 0) = x.getLsbD k := by
  have hbit : ∀ i, (x &&& (1 : BitVec w) <<< k).getLsbD i = (decide (i = k) && x.getLsbD k) :=
    fun i => by
      rw [BitVec.getLsbD_and, getLsbD_one_shiftLeft k i hk]
      by_cases hi : i = k
      · simp [hi]
      · simp [hi]
  cases hx : x.getLsbD k with
  | false =>
    rw [bne_eq_false_iff_eq]
    apply BitVec.eq_of_getLsbD_eq
    intro i _
    rw [hbit, hx, Bool.and_false]
    exact BitVec.getLsbD_zero.symm
  | true =>
    rw [bne_iff_ne]
    intro hz
    have hk' := hbit k
    rw [hz, hx] at hk'
    simp at hk'

/-- Sign extension with a mask of the bits it adds. -/
theorem ite_or_eq_signExtend {w v : Nat} (x : BitVec w) (m : BitVec v)
    (hm : ∀ i < v, m.getLsbD i = decide (w ≤ i)) :
    (if x.getLsbD (w - 1) then x.setWidth v ||| m else x.setWidth v) = x.signExtend v := by
  apply BitVec.eq_of_getLsbD_eq
  intro i hi
  have hor : (x.setWidth v ||| m).getLsbD i = (x.getLsbD i || decide (w ≤ i)) := by
    rw [BitVec.getLsbD_or, BitVec.getLsbD_setWidth, hm i hi, decide_eq_true hi, Bool.true_and]
  have hset : (x.setWidth v).getLsbD i = x.getLsbD i := by
    rw [BitVec.getLsbD_setWidth, decide_eq_true hi, Bool.true_and]
  rw [BitVec.getLsbD_signExtend, BitVec.msb_eq_getLsbD_last, decide_eq_true hi, Bool.true_and]
  by_cases hiw : i < w
  · rw [if_pos hiw]
    split
    · rw [hor, decide_eq_false (by omega), Bool.or_false]
    · exact hset
  · have hge : x.getLsbD i = false := BitVec.getLsbD_of_ge x i (by omega)
    rw [if_neg hiw]
    split
    · rename_i hsign
      rw [hor, hsign, decide_eq_true (by omega), Bool.or_true]
    · rename_i hsign
      rw [hset, hge]
      exact (Bool.eq_false_iff.mpr hsign).symm

/-! ## 5. Addresses one after the other -/

theorem add_ofNat_add {w : Nat} (a : BitVec w) (m n : Nat) :
    a + BitVec.ofNat w (m + n) = a + BitVec.ofNat w m + BitVec.ofNat w n := by
  rw [BitVec.add_assoc, BitVec.ofNat_add]

theorem add_ofNat_succ {w : Nat} (a : BitVec w) (n : Nat) :
    a + BitVec.ofNat w (n + 1) = a + 1 + BitVec.ofNat w n := by
  rw [Nat.add_comm, add_ofNat_add]
  rfl

end WordField
