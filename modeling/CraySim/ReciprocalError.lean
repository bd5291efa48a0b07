/-
  Subject:   How good the reciprocal approximation is.

  Everything is on numbers: `m` is the 48 bit fraction of a normalized operand, `A0` the table's
  first guess, `A1` the 18 bit value after the first iteration, `B2` the 37 bit multiplicand, `D`
  the 34 bit result of the second iteration.

  * `table_ok` -- each table entry is a pair (2·A0, A0²) with A0 close to 2^15 / b,
  * `first_iteration` -- |A1 · B2 - 2^54| ≤ 41600 · 2^24,
  * `second_iteration` -- D · B2 is close to 2^70,
  * `difference_range` -- 2^33 < D ≤ 2^34: the result needs no normalization,
  * `reciprocMantissa_spec` -- **the fraction of the result is normalized and off by less than
    2^-29**.
-/
import CraySim.Reciprocal
import Mathlib.Algebra.Order.Ring.Abs
import Mathlib.Tactic.Linarith

namespace CraySim

/-! ## 1. The table -/

/-- The first guess, an 8 bit number; the table stores its double. -/
def guess (i : Nat) : Nat := (reciprocLookup.getD i 0).toNat / 2 ^ 19

/-- What the proof needs of one table entry: the entry is the pair of the doubled guess and its
    square, the guess is within 183 of `2 ^ 15 / b` at both ends of the entry's interval, and
    the first iteration does not overflow at its left end. -/
abbrev EntryOk (i : Nat) : Prop :=
  (reciprocLookup.getD i 0).toNat / 2 ^ 18 = 2 * guess i ∧
    (reciprocLookup.getD i 0).toNat / 2 ^ 2 % 2 ^ 16 = guess i * guess i ∧
    2 ^ 15 ≤ guess i * (128 + i) + 183 ∧ guess i * (129 + i) ≤ 2 ^ 15 + 183 ∧
    guess i * 2 ^ 17 + guess i < 2 ^ 24 + 2 * (128 + i) * (guess i * guess i) ∧
    guess i < 2 ^ 8

/-- **Every entry of the table is good.** -/
theorem table_ok : ∀ i, i < 128 → EntryOk i := by decide +kernel

/-! ## 2. The first iteration, on numbers -/

section first
variable {g s u y t a : Int}

/-- The product of a difference with the multiplicand, in terms of `v = u · g`: what the squared
    error of the guess and the truncation leave of `2 ^ 62`. -/
theorem first_product (hs1 : 2 ^ 15 * s ≤ u * (g * g)) (hs2 : u * (g * g) ≤ 2 ^ 15 * (s + 16))
    (hu : 0 ≤ u) (hulo : 2 ^ 31 - 183 * 2 ^ 16 ≤ u * g) (huhi : u * g ≤ 2 ^ 31 + 183 * 2 ^ 16) :
    2 ^ 62 - 183 ^ 2 * 2 ^ 32 ≤ 2 ^ 15 * ((g * 2 ^ 17 + g - s) * u) ∧
      2 ^ 15 * ((g * 2 ^ 17 + g - s) * u) ≤ 2 ^ 62 + 2 ^ 15 * (u * g) + 2 ^ 19 * u := by
  have hsq : (u * g - 2 ^ 31) ^ 2 ≤ (183 * 2 ^ 16) ^ 2 :=
    sq_le_sq' (by linarith) (by linarith)
  have hpos : 0 ≤ (u * g - 2 ^ 31) ^ 2 := sq_nonneg _
  have h1 : 2 ^ 15 * s * u ≤ u * (g * g) * u := mul_le_mul_of_nonneg_right hs1 hu
  have h2 : u * (g * g) * u ≤ 2 ^ 15 * (s + 16) * u := mul_le_mul_of_nonneg_right hs2 hu
  have hexp : 2 ^ 15 * ((g * 2 ^ 17 + g - s) * u) =
      2 ^ 62 - (u * g - 2 ^ 31) ^ 2 + (u * (g * g) * u - 2 ^ 15 * s * u) + 2 ^ 15 * (u * g) := by
    ring
  rw [hexp]
  constructor
  · nlinarith
  · linarith

/-- **The first iteration**: `a` is within `41600 · 2 ^ -30` of the reciprocal of `y`. Squaring the
    error of the guess costs `183 ^ 2` of it, cutting the result to 18 bits another `63 · 2 ^ 7`. -/
theorem first_iteration (hs1 : 2 ^ 15 * s ≤ u * (g * g)) (hs2 : u * (g * g) ≤ 2 ^ 15 * (s + 16))
    (hulo : 2 ^ 31 - 183 * 2 ^ 16 ≤ u * g) (huhi : u * g ≤ 2 ^ 31 + 183 * 2 ^ 16)
    (hu : 0 ≤ u) (hu24 : u < 2 ^ 24) (hy : y = 2 ^ 13 * u + t) (ht0 : 0 ≤ t) (ht : t < 2 ^ 13)
    (hz0 : 0 ≤ g * 2 ^ 17 + g - s) (hz24 : g * 2 ^ 17 + g - s < 2 ^ 24)
    (ha1 : 64 * a ≤ g * 2 ^ 17 + g - s) (ha2 : g * 2 ^ 17 + g - s ≤ 64 * a + 63) :
    2 ^ 54 - 41600 * 2 ^ 24 ≤ a * y ∧ a * y ≤ 2 ^ 54 + 41600 * 2 ^ 24 := by
  obtain ⟨hlo, hhi⟩ := first_product hs1 hs2 hu hulo huhi
  generalize g * 2 ^ 17 + g - s = z at *
  have hy0 : 0 ≤ y := by linarith
  have hup : 64 * a * y ≤ z * y := mul_le_mul_of_nonneg_right ha1 hy0
  have hup' : z * y ≤ z * (2 ^ 13 * u + 2 ^ 13) :=
    mul_le_mul_of_nonneg_left (by linarith) hz0
  have hdown : z * y ≤ (64 * a + 63) * y := mul_le_mul_of_nonneg_right ha2 hy0
  have hdown' : z * (2 ^ 13 * u) ≤ z * y := mul_le_mul_of_nonneg_left (by linarith) hz0
  constructor
  · nlinarith
  · nlinarith

end first

/-! ## 3. The second iteration, on numbers -/

/-- The truncated square times multiplicand of the second iteration. -/
def product (a b : Nat) : Nat := roundTriangle (triangle (a * a).testBit b)

theorem multiplier_testBit (x : Nat) (hx : x < 2 ^ 36) : multiplier x.testBit = x := by
  have h := ShiftAdd.weight_testBit x 36 36 le_rfl
  rw [Nat.mod_eq_of_lt hx] at h
  simpa [multiplier] using h

theorem roundTriangle_bounds (p : Nat) :
    16 * roundTriangle p ≤ p + 2 ∧ p ≤ 16 * roundTriangle p + 13 := by
  rw [roundTriangle]
  omega

/-- The truncation and the rounding cost less than six units. -/
theorem product_bounds {a b : Nat} (ha : a < 2 ^ 18) (hb : b < 2 ^ 37) :
    2 ^ 38 * product a b ≤ b * (a * a) + 2 ^ 35 ∧
      b * (a * a) ≤ 2 ^ 38 * product a b + 87 * 2 ^ 34 := by
  have hsq : a * a < 2 ^ 36 := by
    calc a * a < 2 ^ 18 * 2 ^ 18 := Nat.mul_lt_mul'' ha ha
      _ = 2 ^ 36 := by decide
  have hle := triangle_le (a * a).testBit b
  have hge := le_triangle (a * a).testBit b hb
  rw [multiplier_testBit _ hsq] at hle hge
  obtain ⟨h1, h2⟩ := roundTriangle_bounds (triangle (a * a).testBit b)
  rw [product]
  constructor
  · omega
  · omega

section second
variable {a b p d : Int}

/-- **The second iteration**: `d` is within `2 ^ -29` of the reciprocal of `b`. -/
theorem second_iteration (hd : d = 2 ^ 17 * a - p) (hb : 0 ≤ b)
    (hp1 : 2 ^ 38 * p ≤ b * (a * a) + 2 ^ 35) (hp2 : b * (a * a) ≤ 2 ^ 38 * p + 87 * 2 ^ 34)
    (hlo : 2 ^ 54 - 41600 * 2 ^ 24 ≤ a * b) (hhi : a * b ≤ 2 ^ 54 + 41600 * 2 ^ 24) :
    2 ^ 108 - 41600 ^ 2 * 2 ^ 48 - 2 ^ 35 * b ≤ 2 ^ 38 * (d * b) ∧
      2 ^ 38 * (d * b) ≤ 2 ^ 108 + 87 * 2 ^ 34 * b := by
  have hsq : (a * b - 2 ^ 54) ^ 2 ≤ (41600 * 2 ^ 24) ^ 2 := sq_le_sq' (by linarith) (by linarith)
  have hpos : 0 ≤ (a * b - 2 ^ 54) ^ 2 := sq_nonneg _
  have h1 : 2 ^ 38 * p * b ≤ (b * (a * a) + 2 ^ 35) * b := mul_le_mul_of_nonneg_right hp1 hb
  have h2 : b * (a * a) * b ≤ (2 ^ 38 * p + 87 * 2 ^ 34) * b := mul_le_mul_of_nonneg_right hp2 hb
  have hexp : 2 ^ 38 * (d * b) =
      2 ^ 108 - (a * b - 2 ^ 54) ^ 2 + (b * (a * a) * b - 2 ^ 38 * p * b) := by
    rw [hd]
    ring
  rw [hexp]
  constructor
  · linarith
  · linarith

/-- Away from the left end of the interval the result does not exceed `2 ^ 34`. -/
theorem difference_le (h : 2 ^ 38 * (d * b) ≤ 2 ^ 108 + 87 * 2 ^ 34 * b) (hb : 2 ^ 36 + 24 ≤ b) :
    d ≤ 2 ^ 34 := by
  by_contra hd
  have hmul : (2 ^ 34 + 1) * b ≤ d * b :=
    mul_le_mul_of_nonneg_right (by omega) (by linarith)
  linarith

/-- Away from the right end it exceeds `2 ^ 33`. -/
theorem lt_difference (h : 2 ^ 108 - 41600 ^ 2 * 2 ^ 48 - 2 ^ 35 * b ≤ 2 ^ 38 * (d * b)) (hb0 : 0 ≤ b)
    (hb : b ≤ 2 ^ 37 - 2 ^ 13) : 2 ^ 33 < d := by
  by_contra hd
  have hmul : d * b ≤ 2 ^ 33 * b := mul_le_mul_of_nonneg_right (by omega) hb0
  linarith

end second

/-! ### The two ends of the interval -/

/-- At the left end, where the first iteration gives `2 ^ 18 - 1`. -/
theorem difference_le_left :
    ∀ k, k < 24 → 2 ^ 17 * (2 ^ 18 - 1) ≤ 2 ^ 34 + product (2 ^ 18 - 1) (2 ^ 36 + k) := by
  decide

/-- At the right end, where it gives 131074, the last 35 multiplicands one by one. -/
theorem lt_difference_last :
    ∀ k, k < 35 → 2 ^ 33 + product 131074 (2 ^ 37 - 1 - k) < 2 ^ 17 * 131074 := by
  decide

/-- The rest of the right end: the truncated product is linear enough. -/
theorem lt_difference_right {b : Nat} (hb : b < 2 ^ 37) :
    2 ^ 33 + product 131074 b < 2 ^ 17 * 131074 := by
  by_cases h : 2 ^ 37 - 35 ≤ b
  · have hk := lt_difference_last (2 ^ 37 - 1 - b) (by omega)
    rwa [show 2 ^ 37 - 1 - (2 ^ 37 - 1 - b) = b by omega] at hk
  · have hp := (product_bounds (a := 131074) (by decide) hb).1
    omega

/-! ## 4. The words -/

section words
variable (x : CInt)

/-- The 24 bit head of the fraction. -/
def headOf (x : CInt) : Nat := x.toNat % 2 ^ 48 / 2 ^ 24

/-- The 37 bit head of the fraction. -/
def b2Of (x : CInt) : Nat := x.toNat % 2 ^ 48 / 2 ^ 11

/-- The index into the table. -/
def indexOf (x : CInt) : Nat := x.toNat / 2 ^ 40 % 2 ^ 7

/-- The truncated product of the first iteration. -/
def squareTimesHead (g u : Nat) : Nat := ShiftAdd.sum 16 (fun j => (g * g).testBit (15 - j)) u

theorem headOf_lt : headOf x < 2 ^ 24 := by
  rw [headOf]
  omega

theorem lookupVal_eq : lookupVal x = reciprocLookup.getD (indexOf x) 0 := by
  have h : ((x >>> 40) &&& 127).toNat = indexOf x := by
    rw [show (127 : CInt) = WordField.mask 64 7 from rfl, WordField.toNat_and_mask,
      BitVec.toNat_ushiftRight, Nat.shiftRight_eq_div_pow, indexOf]
  rw [lookupVal, h]

theorem entryOk : EntryOk (indexOf x) := table_ok _ (Nat.mod_lt _ (by decide))

theorem weight_square {g : Nat} (hg : g < 2 ^ 8) :
    ShiftAdd.weight 16 (fun j => (g * g).testBit (15 - j)) = g * g := by
  have hsq : g * g < 2 ^ 16 := by
    calc g * g < 2 ^ 8 * 2 ^ 8 := Nat.mul_lt_mul'' hg hg
      _ = 2 ^ 16 := by decide
  have h := ShiftAdd.weight_testBit (g * g) 16 16 le_rfl
  rw [Nat.mod_eq_of_lt hsq] at h
  simpa using h

/-- What the truncated product of the first iteration is bounded by. -/
theorem squareTimesHead_bounds {g : Nat} (hg : g < 2 ^ 8) (u : Nat) :
    2 ^ 15 * squareTimesHead g u ≤ u * (g * g) ∧
      u * (g * g) ≤ 2 ^ 15 * (squareTimesHead g u + 16) := by
  have hle := ShiftAdd.sum_le 16 (fun j => (g * g).testBit (15 - j)) u
  have hge := ShiftAdd.le_sum 16 (fun j => (g * g).testBit (15 - j)) u
  rw [weight_square hg, Nat.mul_assoc] at hle hge
  rw [squareTimesHead]
  constructor
  · omega
  · omega

/-- At the left end of an entry's interval nothing is truncated. -/
theorem squareTimesHead_left {g : Nat} (hg : g < 2 ^ 8) (i : Nat) :
    squareTimesHead g (2 ^ 16 * (128 + i)) = 2 * (128 + i) * (g * g) := by
  have h := ShiftAdd.sum_exact 16 16 (fun j => (g * g).testBit (15 - j)) (128 + i) (by decide)
  rw [weight_square hg,
    show 2 ^ (16 + 1) * (128 + i) * (g * g) = 2 ^ 16 * (2 * (128 + i) * (g * g)) by ring] at h
  exact Nat.eq_of_mul_eq_mul_left (by decide) h

/-- The difference of the first iteration before its low bits are dropped. -/
def firstDifference (g u : Nat) : Nat := g * 2 ^ 17 + g - squareTimesHead g u

/-- Inside the interval of a good entry the difference neither borrows nor overflows. -/
theorem firstDifference_ok {i u : Nat} (he : EntryOk i) (hlo : 2 ^ 16 * (128 + i) ≤ u)
    (hhi : u ≤ 2 ^ 16 * (129 + i)) :
    squareTimesHead (guess i) u ≤ guess i * 2 ^ 17 + guess i ∧
      firstDifference (guess i) u < 2 ^ 24 := by
  obtain ⟨_, _, _, h129, h24, hg⟩ := he
  have hleft := squareTimesHead_left hg i
  have hmono : squareTimesHead (guess i) (2 ^ 16 * (128 + i)) ≤ squareTimesHead (guess i) u :=
    ShiftAdd.sum_mono 16 _ hlo
  have hle := (squareTimesHead_bounds hg u).1
  have hup : u * (guess i * guess i) ≤ 2 ^ 16 * ((2 ^ 15 + 183) * guess i) := by
    calc u * (guess i * guess i) ≤ 2 ^ 16 * (129 + i) * (guess i * guess i) :=
          Nat.mul_le_mul_right _ hhi
      _ = 2 ^ 16 * (guess i * (129 + i) * guess i) := by ring
      _ ≤ 2 ^ 16 * ((2 ^ 15 + 183) * guess i) :=
          Nat.mul_le_mul_left _ (Nat.mul_le_mul_right _ h129)
  rw [hleft] at hmono
  rw [firstDifference]
  generalize 2 * (128 + i) * (guess i * guess i) = left at *
  constructor
  · omega
  · omega

variable (hx : 2 ^ 47 ≤ x.toNat % 2 ^ 48)

include hx in
theorem headOf_index : 2 ^ 16 * (128 + indexOf x) ≤ headOf x ∧
    headOf x < 2 ^ 16 * (129 + indexOf x) := by
  rw [headOf, indexOf]
  omega

include hx in
/-- **The word of the first iteration.** -/
theorem reciprocA1_toNat :
    (reciprocA1 x).toNat = firstDifference (guess (indexOf x)) (headOf x) / 64 := by
  have he := entryOk x
  have hidx := headOf_index x hx
  obtain ⟨hs, hd⟩ := firstDifference_ok he hidx.1 hidx.2.le
  obtain ⟨htwice, hsquare, _, _, _, hg⟩ := he
  have hmant : ((x &&& CFloat.fractMask) >>> 24).toNat = headOf x := by
    rw [BitVec.toNat_ushiftRight, Nat.shiftRight_eq_div_pow]
    exact congrArg (· / 2 ^ 24) (CFloat.toNat_uFract ⟨x⟩)
  have hlook := lookupVal_eq x
  generalize hL : lookupVal x = look at hlook
  rw [← hlook] at htwice hsquare
  have ht : (look >>> 18).toNat = 2 * guess (indexOf x) := by
    rw [BitVec.toNat_ushiftRight, Nat.shiftRight_eq_div_pow, htwice]
  have hq : ((look >>> 2) &&& 0xffff).toNat = guess (indexOf x) * guess (indexOf x) := by
    rw [show (0xffff : CInt) = WordField.mask 64 16 from rfl, WordField.toNat_and_mask,
      BitVec.toNat_ushiftRight, Nat.shiftRight_eq_div_pow, hsquare]
  have hprod : (fractionalMult ((look >>> 2) &&& 0xffff) ((x &&& CFloat.fractMask) >>> 24) 16).toNat =
      squareTimesHead (guess (indexOf x)) (headOf x) := by
    have hbits : ∀ i, i < 16 → ((look >>> 2) &&& 0xffff).getLsbD (16 - 1 - i) =
        (guess (indexOf x) * guess (indexOf x)).testBit (15 - i) := fun i _ => by
      rw [← BitVec.testBit_toNat, hq]
    have hle := ShiftAdd.sum_le_two_mul 16
      (fun j => (guess (indexOf x) * guess (indexOf x)).testBit (15 - j)) (headOf x)
    have hu := headOf_lt x
    rw [fractionalMult_eq, hmant, ShiftAdd.sum_congr _ hbits, BitVec.toNat_ofNat, squareTimesHead]
    exact Nat.mod_eq_of_lt (by omega)
  have hround : ((((look >>> 18) <<< 8 + 1) <<< 8) + (look >>> 18) >>> 1).toNat =
      guess (indexOf x) * 2 ^ 17 + 256 + guess (indexOf x) := by
    generalize look >>> 18 = twice at ht
    rw [BitVec.toNat_add, BitVec.toNat_shiftLeft, BitVec.toNat_add, BitVec.toNat_shiftLeft,
      BitVec.toNat_ushiftRight, ht, Nat.shiftLeft_eq, Nat.shiftLeft_eq, Nat.shiftRight_eq_div_pow,
      show (1 : CInt).toNat = 1 from rfl]
    omega
  rw [firstDifference] at hd ⊢
  simp only [reciprocA1, hL]
  rw [show (1 : CInt) <<< 18 - 1 = WordField.mask 64 18 from rfl, WordField.toNat_and_mask,
    BitVec.toNat_ushiftRight, Nat.shiftRight_eq_div_pow, BitVec.toNat_sub, BitVec.toNat_sub,
    hround, hprod, show (256 : CInt).toNat = 256 from rfl]
  omega

include hx in
/-- **The first iteration on words.** -/
theorem reciprocA1_spec :
    (reciprocA1 x).toNat < 2 ^ 18 ∧
      2 ^ 54 ≤ (reciprocA1 x).toNat * b2Of x + 41600 * 2 ^ 24 ∧
      (reciprocA1 x).toNat * b2Of x ≤ 2 ^ 54 + 41600 * 2 ^ 24 := by
  have he := entryOk x
  have hidx := headOf_index x hx
  obtain ⟨hs, hd⟩ := firstDifference_ok he hidx.1 hidx.2.le
  obtain ⟨_, _, h128, h129, _, hg⟩ := he
  obtain ⟨hs1, hs2⟩ := squareTimesHead_bounds hg (headOf x)
  have hlo : 2 ^ 31 ≤ headOf x * guess (indexOf x) + 183 * 2 ^ 16 := by
    have h := Nat.mul_le_mul_right (guess (indexOf x)) hidx.1
    have hc : 2 ^ 16 * (128 + indexOf x) * guess (indexOf x) =
        2 ^ 16 * (guess (indexOf x) * (128 + indexOf x)) := by ring
    omega
  have hhi : headOf x * guess (indexOf x) ≤ 2 ^ 31 + 183 * 2 ^ 16 := by
    have h := Nat.mul_le_mul_right (guess (indexOf x)) hidx.2.le
    have hc : 2 ^ 16 * (129 + indexOf x) * guess (indexOf x) =
        2 ^ 16 * (guess (indexOf x) * (129 + indexOf x)) := by ring
    omega
  have hu := headOf_lt x
  have hy : b2Of x = 2 ^ 13 * headOf x + b2Of x % 2 ^ 13 := by
    rw [headOf, b2Of]
    omega
  rw [reciprocA1_toNat x hx]
  rw [firstDifference] at hd ⊢
  generalize guess (indexOf x) = g at *
  generalize headOf x = u at *
  generalize squareTimesHead g u = s at *
  generalize hz : g * 2 ^ 17 + g - s = z at *
  have hzi : (g : Int) * 2 ^ 17 + g - s = z := by omega
  have hdiv : 64 * (z / 64) ≤ z ∧ z ≤ 64 * (z / 64) + 63 := by omega
  generalize z / 64 = a at *
  have h := first_iteration (g := g) (s := s) (u := u) (y := b2Of x) (t := (b2Of x % 2 ^ 13 : Nat))
    (a := a) (by exact_mod_cast hs1) (by exact_mod_cast hs2)
    (by push_cast at hlo ⊢; omega) (by exact_mod_cast hhi)
    (by omega) (by omega) (by omega) (by omega) (by omega) (by omega) (by omega) (by omega) (by omega)
  have h1 : (2 : Int) ^ 54 ≤ a * b2Of x + 41600 * 2 ^ 24 := by linarith [h.1]
  exact ⟨by omega, by exact_mod_cast h1, by exact_mod_cast h.2⟩

/-- The result of the second iteration before it is cut to the word. -/
def differenceOf (x : CInt) : Int :=
  2 ^ 17 * (reciprocA1 x).toNat - product (reciprocA1 x).toNat (b2Of x)

theorem b2Of_lt : b2Of x < 2 ^ 37 := by
  rw [b2Of]
  omega

include hx in
theorem le_b2Of : 2 ^ 36 ≤ b2Of x := by
  rw [b2Of]
  omega

include hx in
/-- **The second iteration on words.** -/
theorem differenceOf_spec :
    2 ^ 108 - 41600 ^ 2 * 2 ^ 48 - 2 ^ 35 * (b2Of x : Int) ≤ 2 ^ 38 * (differenceOf x * b2Of x) ∧
      2 ^ 38 * (differenceOf x * b2Of x) ≤ 2 ^ 108 + 87 * 2 ^ 34 * (b2Of x : Int) := by
  obtain ⟨ha, hlo, hhi⟩ := reciprocA1_spec x hx
  obtain ⟨hp1, hp2⟩ := product_bounds ha (b2Of_lt x)
  refine second_iteration (a := (reciprocA1 x).toNat) (p := product (reciprocA1 x).toNat (b2Of x))
    rfl (by omega) (by exact_mod_cast hp1) (by exact_mod_cast hp2) ?_ (by exact_mod_cast hhi)
  have h : (2 : Int) ^ 54 ≤ (reciprocA1 x).toNat * b2Of x + 41600 * 2 ^ 24 := by exact_mod_cast hlo
  linarith

/-- The first iteration at the two ends of the interval. -/
theorem reciprocA1_left (h : headOf x = 2 ^ 23) (hx : 2 ^ 47 ≤ x.toNat % 2 ^ 48) :
    (reciprocA1 x).toNat = 2 ^ 18 - 1 := by
  have hidx := headOf_index x hx
  rw [h] at hidx
  rw [reciprocA1_toNat x hx, h, show indexOf x = 0 by omega]
  decide +kernel

theorem reciprocA1_right (h : headOf x = 2 ^ 24 - 1) (hx : 2 ^ 47 ≤ x.toNat % 2 ^ 48) :
    (reciprocA1 x).toNat = 131074 := by
  have hidx := headOf_index x hx
  have hlt : indexOf x < 2 ^ 7 := Nat.mod_lt _ (by decide)
  rw [h] at hidx
  rw [reciprocA1_toNat x hx, h, show indexOf x = 127 by omega]
  decide +kernel

include hx in
/-- **The result of the second iteration is normalized as it stands.** -/
theorem difference_range : 2 ^ 33 < differenceOf x ∧ differenceOf x ≤ 2 ^ 34 := by
  obtain ⟨hlo, hhi⟩ := differenceOf_spec x hx
  have hb := le_b2Of x hx
  have hb' := b2Of_lt x
  constructor
  · by_cases hright : b2Of x ≤ 2 ^ 37 - 2 ^ 13
    · exact lt_difference hlo (by omega) (by omega)
    · have hhead : headOf x = 2 ^ 24 - 1 := by
        rw [b2Of] at hright
        rw [headOf]
        omega
      have h := lt_difference_right hb'
      rw [differenceOf, reciprocA1_right x hhead hx]
      omega
  · by_cases hleft : 2 ^ 36 + 24 ≤ b2Of x
    · exact difference_le hhi (by omega)
    · have hhead : headOf x = 2 ^ 23 := by
        rw [b2Of] at hleft hb
        rw [headOf]
        omega
      have h := difference_le_left (b2Of x - 2 ^ 36) (by omega)
      rw [show 2 ^ 36 + (b2Of x - 2 ^ 36) = b2Of x by omega] at h
      rw [differenceOf, reciprocA1_left x hhead hx]
      omega

/-- A word in `[2 ^ 47, 2 ^ 48)` has the normalize bit. -/
theorem or_normalize {y : CInt} (h1 : 2 ^ 47 ≤ y.toNat) (h2 : y.toNat < 2 ^ 48) :
    y ||| (1 : CInt) <<< 47 = y := by
  refine WordField.or_bit_of_getLsbD y 47 (by decide) ?_
  rw [← BitVec.testBit_toNat, Nat.testBit_eq_decide_div_mod_eq, decide_eq_true_eq]
  omega

include hx in
theorem toNat_b2 :
    (((x &&& CFloat.fractMask) ||| (1 : CInt) <<< 47) >>> 11).toNat = b2Of x := by
  have hm : (x &&& CFloat.fractMask).toNat = x.toNat % 2 ^ 48 := CFloat.toNat_uFract ⟨x⟩
  rw [or_normalize (by omega) (by omega), toNat_shiftRight, hm, b2Of]

include hx in
/-- The product of the second iteration, as a word. -/
theorem toNat_a1sqB2 :
    (reciprocApproxFinalMul (reciprocA1 x * reciprocA1 x)
      (((x &&& CFloat.fractMask) ||| (1 : CInt) <<< 47) >>> 11) true).toNat =
      product (reciprocA1 x).toNat (b2Of x) := by
  have ha := (reciprocA1_spec x hx).1
  have hsq : (reciprocA1 x * reciprocA1 x).toNat = (reciprocA1 x).toNat * (reciprocA1 x).toNat := by
    rw [BitVec.toNat_mul]
    refine Nat.mod_eq_of_lt ?_
    calc (reciprocA1 x).toNat * (reciprocA1 x).toNat < 2 ^ 18 * 2 ^ 18 := Nat.mul_lt_mul'' ha ha
      _ ≤ 2 ^ 64 := by decide
  have hbits : (reciprocA1 x * reciprocA1 x).getLsbD =
      ((reciprocA1 x).toNat * (reciprocA1 x).toNat).testBit := by
    funext i
    rw [← BitVec.testBit_toNat, hsq]
  rw [reciprocApproxFinalMul_toNat, toNat_b2 x hx, Nat.mod_eq_of_lt (b2Of_lt x), hbits, product]

include hx in
/-- **The fraction of the result**: the second iteration cut to 33 bits. -/
theorem reciprocMantissa_toNat :
    ((reciprocMantissa x).toNat : Int) = (2 ^ 14 * differenceOf x - 1) / 2 ^ 15 * 2 ^ 15 := by
  have hp := toNat_a1sqB2 x hx
  obtain ⟨hlo, hhi⟩ := difference_range x hx
  rw [differenceOf] at hlo hhi ⊢
  simp only [reciprocMantissa]
  generalize reciprocApproxFinalMul _ _ _ = p at hp ⊢
  generalize product (reciprocA1 x).toNat (b2Of x) = q at hp hlo hhi ⊢
  have hraw : (((reciprocA1 x) <<< 31 - p <<< 14 - 1).toNat : Int) =
      2 ^ 14 * (2 ^ 17 * (reciprocA1 x).toNat - q) - 1 := by
    have ha := (reciprocA1_spec x hx).1
    rw [BitVec.toNat_sub, BitVec.toNat_sub, BitVec.toNat_shiftLeft, BitVec.toNat_shiftLeft,
      Nat.shiftLeft_eq, Nat.shiftLeft_eq, hp, show (1 : CInt).toNat = 1 from rfl]
    omega
  generalize (reciprocA1 x) <<< 31 - p <<< 14 - 1 = y at hraw ⊢
  have hmask : (0xffffffff8000 : CInt) = WordField.mask 64 48 &&& ~~~WordField.mask 64 15 := by
    decide
  rw [or_normalize (by omega) (by omega), hmask, ← BitVec.and_assoc,
    WordField.toNat_and_not_mask _ (by decide), WordField.toNat_and_mask]
  omega

include hx in
/-- **The fraction of the reciprocal is normalized, a multiple of `2 ^ 15`, and the product with
    the operand's fraction is within `2 ^ -29` of one.** -/
theorem reciprocMantissa_spec :
    2 ^ 47 ≤ (reciprocMantissa x).toNat ∧ (reciprocMantissa x).toNat ≤ 2 ^ 48 - 2 ^ 15 ∧
      2 ^ 95 ≤ x.toNat % 2 ^ 48 * (reciprocMantissa x).toNat + 2 ^ 66 ∧
      x.toNat % 2 ^ 48 * (reciprocMantissa x).toNat ≤ 2 ^ 95 + 2 ^ 66 := by
  have hr := reciprocMantissa_toNat x hx
  obtain ⟨hlo, hhi⟩ := difference_range x hx
  obtain ⟨hd1, hd2⟩ := differenceOf_spec x hx
  have hb := b2Of_lt x
  have hm : 2 ^ 11 * b2Of x ≤ x.toNat % 2 ^ 48 ∧ x.toNat % 2 ^ 48 ≤ 2 ^ 11 * b2Of x + 2 ^ 11 := by
    rw [b2Of]
    omega
  generalize (reciprocMantissa x).toNat = r at *
  generalize differenceOf x = d at *
  generalize b2Of x = b at *
  generalize x.toNat % 2 ^ 48 = m at *
  have hr1 : (r : Int) ≤ 2 ^ 14 * d - 1 := by omega
  have hr2 : 2 ^ 14 * d - 1 - 2 ^ 15 ≤ (r : Int) := by omega
  obtain ⟨hm1, hm2⟩ := hm
  zify at hm1 hm2 hb
  have hup : (m : Int) * r ≤ (2 ^ 11 * b + 2 ^ 11) * (2 ^ 14 * d) := by
    refine mul_le_mul hm2 (by omega) (by omega) (by omega)
  have hdown : (2 ^ 11 * b : Int) * (2 ^ 14 * d - 1 - 2 ^ 15) ≤ m * r :=
    mul_le_mul hm1 hr2 (by omega) (by omega)
  refine ⟨by omega, by omega, ?_, ?_⟩
  · zify
    nlinarith
  · zify
    nlinarith

end words

end CraySim
