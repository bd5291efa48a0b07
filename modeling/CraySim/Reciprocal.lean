/-
  Subject:   What the multiplier of the reciprocal unit computes.

  The hardware multiplies 36 by 37 bits in a triangle of 35 partial products cut at the right in
  an uneven way. `triangle` states that product on numbers; both versions of the source are read
  against it:

  * `finalMulSum_toNat` -- the rewritten multiplier is four times the triangle,
  * `reciprocApproxFinalMul_toNat` -- with the final rounding.
-/
import CraySim.Float
import Mathlib.Algebra.BigOperators.Group.List.Basic
import Mathlib.Tactic.Ring

namespace WordSum

/-- **A running sum that stays below `2 ^ w` is the sum of the values.** -/
theorem foldl_add_toNat {w : Nat} {α : Type} (B : Nat) (f : α → BitVec w) :
    ∀ (l : List α) (acc : BitVec w), (∀ x ∈ l, (f x).toNat ≤ B) →
      acc.toNat + l.length * B < 2 ^ w →
      (l.foldl (fun s x => s + f x) acc).toNat = acc.toNat + (l.map fun x => (f x).toNat).sum
  | [], _, _, _ => by simp
  | x :: xs, acc, hle, hlt => by
      have hx : (f x).toNat ≤ B := hle x (by simp)
      have hlen : (x :: xs).length * B = xs.length * B + B := by
        rw [List.length_cons, Nat.succ_mul]
      have hadd : (acc + f x).toNat = acc.toNat + (f x).toNat :=
        BitVec.toNat_add_of_lt (by omega)
      rw [List.foldl_cons, foldl_add_toNat B f xs (acc + f x)
        (fun y hy => hle y (List.mem_cons_of_mem x hy)) (by omega), hadd, List.map_cons,
        List.sum_cons, Nat.add_assoc]

end WordSum

namespace CraySim

/-! ## 1. The triangle -/

/-- A partial product: the line `n` where the multiplier bit is set. -/
def line (c : Bool) (n : Nat) : Nat := if c then n else 0

theorem line_le (c : Bool) (n : Nat) : line c n ≤ n := by
  cases c <;> simp [line]

theorem line_mul (c : Bool) (m n : Nat) : line c (m * n) = m * line c n := by
  cases c <;> simp [line]

/-- The lines of one group before its right edge is cut. -/
def group32 (a : Nat → Bool) (b : Nat) : Nat :=
  line (a 35) (2 * b) + line (a 34) b + line (a 33) (b / 2) + line (a 32) (b / 4)

def group28 (a : Nat → Bool) (b : Nat) : Nat :=
  line (a 31) (4 * (b / 2 ^ 5)) + line (a 30) (2 * (b / 2 ^ 5)) + line (a 29) (b / 2 ^ 5) +
    line (a 28) (b / 2 ^ 6)

def group24 (a : Nat → Bool) (b : Nat) : Nat :=
  line (a 27) (b / 2 ^ 5) + line (a 26) (b / 2 ^ 6) + line (a 25) (b / 2 ^ 7) +
    line (a 24) (2 * (b / 2 ^ 9))

def group16 (a : Nat → Bool) (b : Nat) : Nat :=
  line (a 23) (b / 2 ^ 11) + line (a 22) (b / 2 ^ 12) + line (a 21) (b / 2 ^ 13) +
    line (a 20) (b / 2 ^ 14) + line (a 19) (b / 2 ^ 15) + line (a 18) (b / 2 ^ 16) +
    line (a 17) (2 * (b / 2 ^ 18)) + line (a 16) (b / 2 ^ 18)

def group12 (a : Nat → Bool) (b : Nat) : Nat :=
  line (a 15) (4 * (b / 2 ^ 21)) + line (a 14) (2 * (b / 2 ^ 21)) + line (a 13) (b / 2 ^ 21) +
    line (a 12) (b / 2 ^ 22)

def group8 (a : Nat → Bool) (b : Nat) : Nat :=
  line (a 11) (b / 2 ^ 21) + line (a 10) (b / 2 ^ 22) + line (a 9) (b / 2 ^ 23) +
    line (a 8) (2 * (b / 2 ^ 25))

def group0 (a : Nat → Bool) (b : Nat) : Nat :=
  line (a 7) (b / 2 ^ 27) + line (a 6) (b / 2 ^ 28) + line (a 5) (b / 2 ^ 29) +
    line (a 4) (b / 2 ^ 30) + line (a 3) (b / 2 ^ 31) + line (a 1) (b / 2 ^ 33) +
    line (a 0) (b / 2 ^ 34)

/-- **The multiplier triangle.** Bits of `a` select lines of `b`; three groups lose the low bit
    of their sum, two the low two bits, and line 2 does not exist. -/
def triangle (a : Nat → Bool) (b : Nat) : Nat :=
  group32 a b / 2 * 2 + group28 a b + group24 a b / 4 + group16 a b / 2 * 2 + group12 a b +
    group8 a b / 4 + group0 a b / 2 * 2

/-- The final rounding: bit 1 is added in, four bits are dropped. -/
def roundTriangle (p : Nat) : Nat := (p / 4 + p / 2 % 2) / 4

/-! ## 2. How far the triangle is from the product -/

section error
variable (a : Nat → Bool) (b : Nat)

/-- A line that is cut from above by the exact partial product, whatever the bit. -/
theorem line_scale_le (c : Bool) {p q m n : Nat} (h : p * m ≤ q * n) :
    p * line c m ≤ q * line c n := by
  cases c <;> simp [line, h]

theorem line_scale_ge (c : Bool) {p q m n e : Nat} (h : q * n ≤ p * m + e) :
    q * line c n ≤ p * line c m + e := by
  cases c <;> simp [line, h]

/-- The multiplier the 36 selecting bits spell. -/
def multiplier (a : Nat → Bool) : Nat := ShiftAdd.weight 36 fun i => a (35 - i)

theorem mul_weight_zero (bit : Nat → Bool) : b * ShiftAdd.weight 0 bit = 0 := rfl

theorem mul_weight_succ (n : Nat) (bit : Nat → Bool) :
    b * ShiftAdd.weight (n + 1) bit = 2 * (b * ShiftAdd.weight n bit) + line (bit n) b := by
  rw [ShiftAdd.weight, Nat.mul_add]
  cases bit n <;> simp [line, Nat.mul_left_comm]

theorem group32_le :
    2 ^ 34 * group32 a b ≤
      2 ^ 35 * line (a 35) b + 2 ^ 34 * line (a 34) b + 2 ^ 33 * line (a 33) b +
        2 ^ 32 * line (a 32) b := by
  have h35 := line_scale_le (a 35) (show 2 ^ 34 * (2 * b) ≤ 2 ^ 35 * b by omega)
  have h34 := line_scale_le (a 34) (show 2 ^ 34 * (b) ≤ 2 ^ 34 * b by omega)
  have h33 := line_scale_le (a 33) (show 2 ^ 34 * (b / 2) ≤ 2 ^ 33 * b by omega)
  have h32 := line_scale_le (a 32) (show 2 ^ 34 * (b / 4) ≤ 2 ^ 32 * b by omega)
  rw [group32]
  omega

theorem le_group32 :
    2 ^ 35 * line (a 35) b + 2 ^ 34 * line (a 34) b + 2 ^ 33 * line (a 33) b +
        2 ^ 32 * line (a 32) b ≤
      2 ^ 34 * group32 a b + 2 * 2 ^ 34 := by
  have h35 := line_scale_ge (a 35) (show 2 ^ 35 * b ≤ 2 ^ 34 * (2 * b) + 0 * 2 ^ 34 by omega)
  have h34 := line_scale_ge (a 34) (show 2 ^ 34 * b ≤ 2 ^ 34 * (b) + 0 * 2 ^ 34 by omega)
  have h33 := line_scale_ge (a 33) (show 2 ^ 33 * b ≤ 2 ^ 34 * (b / 2) + 1 * 2 ^ 34 by omega)
  have h32 := line_scale_ge (a 32) (show 2 ^ 32 * b ≤ 2 ^ 34 * (b / 4) + 1 * 2 ^ 34 by omega)
  rw [group32]
  omega

theorem group28_le :
    2 ^ 34 * group28 a b ≤
      2 ^ 31 * line (a 31) b + 2 ^ 30 * line (a 30) b + 2 ^ 29 * line (a 29) b +
        2 ^ 28 * line (a 28) b := by
  have h31 := line_scale_le (a 31) (show 2 ^ 34 * (4 * (b / 2 ^ 5)) ≤ 2 ^ 31 * b by omega)
  have h30 := line_scale_le (a 30) (show 2 ^ 34 * (2 * (b / 2 ^ 5)) ≤ 2 ^ 30 * b by omega)
  have h29 := line_scale_le (a 29) (show 2 ^ 34 * (b / 2 ^ 5) ≤ 2 ^ 29 * b by omega)
  have h28 := line_scale_le (a 28) (show 2 ^ 34 * (b / 2 ^ 6) ≤ 2 ^ 28 * b by omega)
  rw [group28]
  omega

theorem le_group28 :
    2 ^ 31 * line (a 31) b + 2 ^ 30 * line (a 30) b + 2 ^ 29 * line (a 29) b +
        2 ^ 28 * line (a 28) b ≤
      2 ^ 34 * group28 a b + 8 * 2 ^ 34 := by
  have h31 := line_scale_ge (a 31) (show 2 ^ 31 * b ≤ 2 ^ 34 * (4 * (b / 2 ^ 5)) + 4 * 2 ^ 34 by omega)
  have h30 := line_scale_ge (a 30) (show 2 ^ 30 * b ≤ 2 ^ 34 * (2 * (b / 2 ^ 5)) + 2 * 2 ^ 34 by omega)
  have h29 := line_scale_ge (a 29) (show 2 ^ 29 * b ≤ 2 ^ 34 * (b / 2 ^ 5) + 1 * 2 ^ 34 by omega)
  have h28 := line_scale_ge (a 28) (show 2 ^ 28 * b ≤ 2 ^ 34 * (b / 2 ^ 6) + 1 * 2 ^ 34 by omega)
  rw [group28]
  omega

theorem group24_le :
    2 ^ 32 * group24 a b ≤
      2 ^ 27 * line (a 27) b + 2 ^ 26 * line (a 26) b + 2 ^ 25 * line (a 25) b +
        2 ^ 24 * line (a 24) b := by
  have h27 := line_scale_le (a 27) (show 2 ^ 32 * (b / 2 ^ 5) ≤ 2 ^ 27 * b by omega)
  have h26 := line_scale_le (a 26) (show 2 ^ 32 * (b / 2 ^ 6) ≤ 2 ^ 26 * b by omega)
  have h25 := line_scale_le (a 25) (show 2 ^ 32 * (b / 2 ^ 7) ≤ 2 ^ 25 * b by omega)
  have h24 := line_scale_le (a 24) (show 2 ^ 32 * (2 * (b / 2 ^ 9)) ≤ 2 ^ 24 * b by omega)
  rw [group24]
  omega

theorem le_group24 :
    2 ^ 27 * line (a 27) b + 2 ^ 26 * line (a 26) b + 2 ^ 25 * line (a 25) b +
        2 ^ 24 * line (a 24) b ≤
      2 ^ 32 * group24 a b + 5 * 2 ^ 32 := by
  have h27 := line_scale_ge (a 27) (show 2 ^ 27 * b ≤ 2 ^ 32 * (b / 2 ^ 5) + 1 * 2 ^ 32 by omega)
  have h26 := line_scale_ge (a 26) (show 2 ^ 26 * b ≤ 2 ^ 32 * (b / 2 ^ 6) + 1 * 2 ^ 32 by omega)
  have h25 := line_scale_ge (a 25) (show 2 ^ 25 * b ≤ 2 ^ 32 * (b / 2 ^ 7) + 1 * 2 ^ 32 by omega)
  have h24 := line_scale_ge (a 24) (show 2 ^ 24 * b ≤ 2 ^ 32 * (2 * (b / 2 ^ 9)) + 2 * 2 ^ 32 by omega)
  rw [group24]
  omega

theorem group16_le :
    2 ^ 34 * group16 a b ≤
      2 ^ 23 * line (a 23) b + 2 ^ 22 * line (a 22) b + 2 ^ 21 * line (a 21) b +
        2 ^ 20 * line (a 20) b + 2 ^ 19 * line (a 19) b + 2 ^ 18 * line (a 18) b +
        2 ^ 17 * line (a 17) b + 2 ^ 16 * line (a 16) b := by
  have h23 := line_scale_le (a 23) (show 2 ^ 34 * (b / 2 ^ 11) ≤ 2 ^ 23 * b by omega)
  have h22 := line_scale_le (a 22) (show 2 ^ 34 * (b / 2 ^ 12) ≤ 2 ^ 22 * b by omega)
  have h21 := line_scale_le (a 21) (show 2 ^ 34 * (b / 2 ^ 13) ≤ 2 ^ 21 * b by omega)
  have h20 := line_scale_le (a 20) (show 2 ^ 34 * (b / 2 ^ 14) ≤ 2 ^ 20 * b by omega)
  have h19 := line_scale_le (a 19) (show 2 ^ 34 * (b / 2 ^ 15) ≤ 2 ^ 19 * b by omega)
  have h18 := line_scale_le (a 18) (show 2 ^ 34 * (b / 2 ^ 16) ≤ 2 ^ 18 * b by omega)
  have h17 := line_scale_le (a 17) (show 2 ^ 34 * (2 * (b / 2 ^ 18)) ≤ 2 ^ 17 * b by omega)
  have h16 := line_scale_le (a 16) (show 2 ^ 34 * (b / 2 ^ 18) ≤ 2 ^ 16 * b by omega)
  rw [group16]
  omega

theorem le_group16 :
    2 ^ 23 * line (a 23) b + 2 ^ 22 * line (a 22) b + 2 ^ 21 * line (a 21) b +
        2 ^ 20 * line (a 20) b + 2 ^ 19 * line (a 19) b + 2 ^ 18 * line (a 18) b +
        2 ^ 17 * line (a 17) b + 2 ^ 16 * line (a 16) b ≤
      2 ^ 34 * group16 a b + 9 * 2 ^ 34 := by
  have h23 := line_scale_ge (a 23) (show 2 ^ 23 * b ≤ 2 ^ 34 * (b / 2 ^ 11) + 1 * 2 ^ 34 by omega)
  have h22 := line_scale_ge (a 22) (show 2 ^ 22 * b ≤ 2 ^ 34 * (b / 2 ^ 12) + 1 * 2 ^ 34 by omega)
  have h21 := line_scale_ge (a 21) (show 2 ^ 21 * b ≤ 2 ^ 34 * (b / 2 ^ 13) + 1 * 2 ^ 34 by omega)
  have h20 := line_scale_ge (a 20) (show 2 ^ 20 * b ≤ 2 ^ 34 * (b / 2 ^ 14) + 1 * 2 ^ 34 by omega)
  have h19 := line_scale_ge (a 19) (show 2 ^ 19 * b ≤ 2 ^ 34 * (b / 2 ^ 15) + 1 * 2 ^ 34 by omega)
  have h18 := line_scale_ge (a 18) (show 2 ^ 18 * b ≤ 2 ^ 34 * (b / 2 ^ 16) + 1 * 2 ^ 34 by omega)
  have h17 := line_scale_ge (a 17) (show 2 ^ 17 * b ≤ 2 ^ 34 * (2 * (b / 2 ^ 18)) + 2 * 2 ^ 34 by omega)
  have h16 := line_scale_ge (a 16) (show 2 ^ 16 * b ≤ 2 ^ 34 * (b / 2 ^ 18) + 1 * 2 ^ 34 by omega)
  rw [group16]
  omega

theorem group12_le :
    2 ^ 34 * group12 a b ≤
      2 ^ 15 * line (a 15) b + 2 ^ 14 * line (a 14) b + 2 ^ 13 * line (a 13) b +
        2 ^ 12 * line (a 12) b := by
  have h15 := line_scale_le (a 15) (show 2 ^ 34 * (4 * (b / 2 ^ 21)) ≤ 2 ^ 15 * b by omega)
  have h14 := line_scale_le (a 14) (show 2 ^ 34 * (2 * (b / 2 ^ 21)) ≤ 2 ^ 14 * b by omega)
  have h13 := line_scale_le (a 13) (show 2 ^ 34 * (b / 2 ^ 21) ≤ 2 ^ 13 * b by omega)
  have h12 := line_scale_le (a 12) (show 2 ^ 34 * (b / 2 ^ 22) ≤ 2 ^ 12 * b by omega)
  rw [group12]
  omega

theorem le_group12 :
    2 ^ 15 * line (a 15) b + 2 ^ 14 * line (a 14) b + 2 ^ 13 * line (a 13) b +
        2 ^ 12 * line (a 12) b ≤
      2 ^ 34 * group12 a b + 8 * 2 ^ 34 := by
  have h15 := line_scale_ge (a 15) (show 2 ^ 15 * b ≤ 2 ^ 34 * (4 * (b / 2 ^ 21)) + 4 * 2 ^ 34 by omega)
  have h14 := line_scale_ge (a 14) (show 2 ^ 14 * b ≤ 2 ^ 34 * (2 * (b / 2 ^ 21)) + 2 * 2 ^ 34 by omega)
  have h13 := line_scale_ge (a 13) (show 2 ^ 13 * b ≤ 2 ^ 34 * (b / 2 ^ 21) + 1 * 2 ^ 34 by omega)
  have h12 := line_scale_ge (a 12) (show 2 ^ 12 * b ≤ 2 ^ 34 * (b / 2 ^ 22) + 1 * 2 ^ 34 by omega)
  rw [group12]
  omega

theorem group8_le :
    2 ^ 32 * group8 a b ≤
      2 ^ 11 * line (a 11) b + 2 ^ 10 * line (a 10) b + 2 ^ 9 * line (a 9) b +
        2 ^ 8 * line (a 8) b := by
  have h11 := line_scale_le (a 11) (show 2 ^ 32 * (b / 2 ^ 21) ≤ 2 ^ 11 * b by omega)
  have h10 := line_scale_le (a 10) (show 2 ^ 32 * (b / 2 ^ 22) ≤ 2 ^ 10 * b by omega)
  have h9 := line_scale_le (a 9) (show 2 ^ 32 * (b / 2 ^ 23) ≤ 2 ^ 9 * b by omega)
  have h8 := line_scale_le (a 8) (show 2 ^ 32 * (2 * (b / 2 ^ 25)) ≤ 2 ^ 8 * b by omega)
  rw [group8]
  omega

theorem le_group8 :
    2 ^ 11 * line (a 11) b + 2 ^ 10 * line (a 10) b + 2 ^ 9 * line (a 9) b +
        2 ^ 8 * line (a 8) b ≤
      2 ^ 32 * group8 a b + 5 * 2 ^ 32 := by
  have h11 := line_scale_ge (a 11) (show 2 ^ 11 * b ≤ 2 ^ 32 * (b / 2 ^ 21) + 1 * 2 ^ 32 by omega)
  have h10 := line_scale_ge (a 10) (show 2 ^ 10 * b ≤ 2 ^ 32 * (b / 2 ^ 22) + 1 * 2 ^ 32 by omega)
  have h9 := line_scale_ge (a 9) (show 2 ^ 9 * b ≤ 2 ^ 32 * (b / 2 ^ 23) + 1 * 2 ^ 32 by omega)
  have h8 := line_scale_ge (a 8) (show 2 ^ 8 * b ≤ 2 ^ 32 * (2 * (b / 2 ^ 25)) + 2 * 2 ^ 32 by omega)
  rw [group8]
  omega

theorem group0_le :
    2 ^ 34 * group0 a b ≤
      2 ^ 7 * line (a 7) b + 2 ^ 6 * line (a 6) b + 2 ^ 5 * line (a 5) b +
        2 ^ 4 * line (a 4) b + 2 ^ 3 * line (a 3) b + 2 ^ 1 * line (a 1) b +
        2 ^ 0 * line (a 0) b := by
  have h7 := line_scale_le (a 7) (show 2 ^ 34 * (b / 2 ^ 27) ≤ 2 ^ 7 * b by omega)
  have h6 := line_scale_le (a 6) (show 2 ^ 34 * (b / 2 ^ 28) ≤ 2 ^ 6 * b by omega)
  have h5 := line_scale_le (a 5) (show 2 ^ 34 * (b / 2 ^ 29) ≤ 2 ^ 5 * b by omega)
  have h4 := line_scale_le (a 4) (show 2 ^ 34 * (b / 2 ^ 30) ≤ 2 ^ 4 * b by omega)
  have h3 := line_scale_le (a 3) (show 2 ^ 34 * (b / 2 ^ 31) ≤ 2 ^ 3 * b by omega)
  have h1 := line_scale_le (a 1) (show 2 ^ 34 * (b / 2 ^ 33) ≤ 2 ^ 1 * b by omega)
  have h0 := line_scale_le (a 0) (show 2 ^ 34 * (b / 2 ^ 34) ≤ 2 ^ 0 * b by omega)
  rw [group0]
  omega

theorem le_group0 :
    2 ^ 7 * line (a 7) b + 2 ^ 6 * line (a 6) b + 2 ^ 5 * line (a 5) b +
        2 ^ 4 * line (a 4) b + 2 ^ 3 * line (a 3) b + 2 ^ 1 * line (a 1) b +
        2 ^ 0 * line (a 0) b ≤
      2 ^ 34 * group0 a b + 7 * 2 ^ 34 := by
  have h7 := line_scale_ge (a 7) (show 2 ^ 7 * b ≤ 2 ^ 34 * (b / 2 ^ 27) + 1 * 2 ^ 34 by omega)
  have h6 := line_scale_ge (a 6) (show 2 ^ 6 * b ≤ 2 ^ 34 * (b / 2 ^ 28) + 1 * 2 ^ 34 by omega)
  have h5 := line_scale_ge (a 5) (show 2 ^ 5 * b ≤ 2 ^ 34 * (b / 2 ^ 29) + 1 * 2 ^ 34 by omega)
  have h4 := line_scale_ge (a 4) (show 2 ^ 4 * b ≤ 2 ^ 34 * (b / 2 ^ 30) + 1 * 2 ^ 34 by omega)
  have h3 := line_scale_ge (a 3) (show 2 ^ 3 * b ≤ 2 ^ 34 * (b / 2 ^ 31) + 1 * 2 ^ 34 by omega)
  have h1 := line_scale_ge (a 1) (show 2 ^ 1 * b ≤ 2 ^ 34 * (b / 2 ^ 33) + 1 * 2 ^ 34 by omega)
  have h0 := line_scale_ge (a 0) (show 2 ^ 0 * b ≤ 2 ^ 34 * (b / 2 ^ 34) + 1 * 2 ^ 34 by omega)
  rw [group0]
  omega

/-- **The triangle stays below the product.** -/
theorem triangle_le : 2 ^ 34 * triangle a b ≤ b * multiplier a := by
  have h32 := group32_le a b
  have h28 := group28_le a b
  have h24 := group24_le a b
  have h16 := group16_le a b
  have h12 := group12_le a b
  have h8 := group8_le a b
  have h0 := group0_le a b
  simp only [multiplier, mul_weight_succ, mul_weight_zero, triangle, Nat.reduceSub]
  omega

/-- **The triangle loses less than 74 units**, 32 of them to the missing line. -/
theorem le_triangle (hb : b < 2 ^ 37) : b * multiplier a ≤ 2 ^ 34 * (triangle a b + 74) := by
  have h32 := le_group32 a b
  have h28 := le_group28 a b
  have h24 := le_group24 a b
  have h16 := le_group16 a b
  have h12 := le_group12 a b
  have h8 := le_group8 a b
  have h0 := le_group0 a b
  have h2 := line_le (a 2) b
  simp only [multiplier, mul_weight_succ, mul_weight_zero, triangle, Nat.reduceSub]
  omega

theorem triangle_lt (hb : b < 2 ^ 37) : triangle a b < 2 ^ 39 := by
  have hle := triangle_le a b
  have hw : multiplier a < 2 ^ 36 := ShiftAdd.weight_lt 36 _
  have hmul : b * multiplier a ≤ b * 2 ^ 36 := Nat.mul_le_mul_left b hw.le
  omega

end error

/-! ## 3. The rewritten multiplier -/

section rewritten
variable (a b : CInt)

/-- One term of the rewritten multiplier, as a line. -/
theorem finalMulTerm_toNat {idx n : Nat} (hn : n < 64) :
    (finalMulTerm a b idx (WordField.mask 64 n)).toNat =
      line (a.getLsbD idx) (b.toNat / 2 ^ (35 - idx) / 2 ^ n * 2 ^ n) := by
  rw [finalMulTerm, getBit_ne_zero, WordField.toNat_and_not_mask _ hn]
  cases a.getLsbD idx <;> simp [line, Nat.shiftRight_eq_div_pow]

variable {c : Nat}

/-- The multiplicand enters with three more bits; a line of the triangle then appears
    `k` times as large. -/
theorem finalMulTerm_eq_line (hb : b.toNat = 8 * c) (idx : Nat) (cleared : CInt)
    (n k d : Nat) (hm : cleared = WordField.mask 64 n) (hn : n < 64)
    (hd : 8 * c / 2 ^ (35 - idx) / 2 ^ n * 2 ^ n = k * d) :
    (finalMulTerm a b idx cleared).toNat = k * line (a.getLsbD idx) d := by
  rw [hm, finalMulTerm_toNat a b hn, hb, hd, line_mul]

theorem finalMulTerm_le (idx : Nat) (cleared : CInt) :
    (finalMulTerm a b idx cleared).toNat ≤ b.toNat := by
  refine (BitVec.toNat_and _ _ ▸ Nat.and_le_left).trans ?_
  cases getBit a idx != 0 with
  | false => simp
  | true =>
    simp only [if_true, BitVec.toNat_ushiftRight, Nat.shiftRight_eq_div_pow]
    exact Nat.div_le_self _ _

/-- A group is the sum of its lines: eight lines do not overflow. -/
theorem finalMulGroup_toNat (hb : b.toNat < 2 ^ 40) (lines : List (Nat × CInt))
    (hlen : lines.length ≤ 8) :
    (finalMulGroup a b lines).toNat =
      (lines.map fun l => (finalMulTerm a b l.1 l.2).toNat).sum := by
  rw [finalMulGroup, WordSum.foldl_add_toNat (2 ^ 40)]
  · exact Nat.zero_add _
  · intro l _
    exact (finalMulTerm_le a b l.1 l.2).trans hb.le
  · rw [show (0 : CInt).toNat = 0 from rfl]
    omega

theorem finalMul_group0 (hb : b.toNat = 8 * c) (hc : c < 2 ^ 37) :
    (finalMulGroup a b [(0, 3), (1, 3), (3, 3), (4, 3), (5, 3), (6, 3), (7, 3)] &&& ~~~7).toNat =
      4 * (group0 a.getLsbD c / 2 * 2) := by
  have h0 := finalMulTerm_eq_line a b hb 0 3 2 4 (c / 2 ^ 34) rfl (by decide) (by omega)
  have h1 := finalMulTerm_eq_line a b hb 1 3 2 4 (c / 2 ^ 33) rfl (by decide) (by omega)
  have h3 := finalMulTerm_eq_line a b hb 3 3 2 4 (c / 2 ^ 31) rfl (by decide) (by omega)
  have h4 := finalMulTerm_eq_line a b hb 4 3 2 4 (c / 2 ^ 30) rfl (by decide) (by omega)
  have h5 := finalMulTerm_eq_line a b hb 5 3 2 4 (c / 2 ^ 29) rfl (by decide) (by omega)
  have h6 := finalMulTerm_eq_line a b hb 6 3 2 4 (c / 2 ^ 28) rfl (by decide) (by omega)
  have h7 := finalMulTerm_eq_line a b hb 7 3 2 4 (c / 2 ^ 27) rfl (by decide) (by omega)
  rw [show (~~~7 : CInt) = ~~~(WordField.mask 64 3) from rfl,
    WordField.toNat_and_not_mask _ (by decide), finalMulGroup_toNat a b (by omega) _ (by decide)]
  simp only [List.map_cons, List.map_nil, List.sum_cons, List.sum_nil, h0, h1, h3, h4, h5, h6, h7,
    group0]
  omega

theorem finalMul_group8 (hb : b.toNat = 8 * c) (hc : c < 2 ^ 37) :
    (finalMulGroup a b [(8, 1), (9, 0), (10, 0), (11, 0)] &&& ~~~3).toNat =
      4 * (group8 a.getLsbD c / 4) := by
  have h8 := finalMulTerm_eq_line a b hb 8 1 1 1 (2 * (c / 2 ^ 25)) rfl (by decide) (by omega)
  have h9 := finalMulTerm_eq_line a b hb 9 0 0 1 (c / 2 ^ 23) rfl (by decide) (by omega)
  have h10 := finalMulTerm_eq_line a b hb 10 0 0 1 (c / 2 ^ 22) rfl (by decide) (by omega)
  have h11 := finalMulTerm_eq_line a b hb 11 0 0 1 (c / 2 ^ 21) rfl (by decide) (by omega)
  rw [show (~~~3 : CInt) = ~~~(WordField.mask 64 2) from rfl,
    WordField.toNat_and_not_mask _ (by decide), finalMulGroup_toNat a b (by omega) _ (by decide)]
  simp only [List.map_cons, List.map_nil, List.sum_cons, List.sum_nil, h8, h9, h10, h11,
    group8]
  omega

theorem finalMul_group12 (hb : b.toNat = 8 * c) (hc : c < 2 ^ 37) :
    (finalMulGroup a b [(12, 3), (13, 3), (14, 7), (15, 15)]).toNat =
      4 * group12 a.getLsbD c := by
  have h12 := finalMulTerm_eq_line a b hb 12 3 2 4 (c / 2 ^ 22) rfl (by decide) (by omega)
  have h13 := finalMulTerm_eq_line a b hb 13 3 2 4 (c / 2 ^ 21) rfl (by decide) (by omega)
  have h14 := finalMulTerm_eq_line a b hb 14 7 3 4 (2 * (c / 2 ^ 21)) rfl (by decide) (by omega)
  have h15 := finalMulTerm_eq_line a b hb 15 15 4 4 (4 * (c / 2 ^ 21)) rfl (by decide) (by omega)
  rw [finalMulGroup_toNat a b (by omega) _ (by decide)]
  simp only [List.map_cons, List.map_nil, List.sum_cons, List.sum_nil, h12, h13, h14, h15,
    group12]
  omega

theorem finalMul_group16 (hb : b.toNat = 8 * c) (hc : c < 2 ^ 37) :
    (finalMulGroup a b [(16, 3), (17, 7), (18, 3), (19, 3), (20, 3), (21, 3), (22, 3), (23, 3)] &&& ~~~7).toNat =
      4 * (group16 a.getLsbD c / 2 * 2) := by
  have h16 := finalMulTerm_eq_line a b hb 16 3 2 4 (c / 2 ^ 18) rfl (by decide) (by omega)
  have h17 := finalMulTerm_eq_line a b hb 17 7 3 4 (2 * (c / 2 ^ 18)) rfl (by decide) (by omega)
  have h18 := finalMulTerm_eq_line a b hb 18 3 2 4 (c / 2 ^ 16) rfl (by decide) (by omega)
  have h19 := finalMulTerm_eq_line a b hb 19 3 2 4 (c / 2 ^ 15) rfl (by decide) (by omega)
  have h20 := finalMulTerm_eq_line a b hb 20 3 2 4 (c / 2 ^ 14) rfl (by decide) (by omega)
  have h21 := finalMulTerm_eq_line a b hb 21 3 2 4 (c / 2 ^ 13) rfl (by decide) (by omega)
  have h22 := finalMulTerm_eq_line a b hb 22 3 2 4 (c / 2 ^ 12) rfl (by decide) (by omega)
  have h23 := finalMulTerm_eq_line a b hb 23 3 2 4 (c / 2 ^ 11) rfl (by decide) (by omega)
  rw [show (~~~7 : CInt) = ~~~(WordField.mask 64 3) from rfl,
    WordField.toNat_and_not_mask _ (by decide), finalMulGroup_toNat a b (by omega) _ (by decide)]
  simp only [List.map_cons, List.map_nil, List.sum_cons, List.sum_nil, h16, h17, h18, h19, h20, h21, h22, h23,
    group16]
  omega

theorem finalMul_group24 (hb : b.toNat = 8 * c) (hc : c < 2 ^ 37) :
    (finalMulGroup a b [(24, 1), (25, 0), (26, 0), (27, 0)] &&& ~~~3).toNat =
      4 * (group24 a.getLsbD c / 4) := by
  have h24 := finalMulTerm_eq_line a b hb 24 1 1 1 (2 * (c / 2 ^ 9)) rfl (by decide) (by omega)
  have h25 := finalMulTerm_eq_line a b hb 25 0 0 1 (c / 2 ^ 7) rfl (by decide) (by omega)
  have h26 := finalMulTerm_eq_line a b hb 26 0 0 1 (c / 2 ^ 6) rfl (by decide) (by omega)
  have h27 := finalMulTerm_eq_line a b hb 27 0 0 1 (c / 2 ^ 5) rfl (by decide) (by omega)
  rw [show (~~~3 : CInt) = ~~~(WordField.mask 64 2) from rfl,
    WordField.toNat_and_not_mask _ (by decide), finalMulGroup_toNat a b (by omega) _ (by decide)]
  simp only [List.map_cons, List.map_nil, List.sum_cons, List.sum_nil, h24, h25, h26, h27,
    group24]
  omega

theorem finalMul_group28 (hb : b.toNat = 8 * c) (hc : c < 2 ^ 37) :
    (finalMulGroup a b [(28, 3), (29, 3), (30, 7), (31, 15)]).toNat =
      4 * group28 a.getLsbD c := by
  have h28 := finalMulTerm_eq_line a b hb 28 3 2 4 (c / 2 ^ 6) rfl (by decide) (by omega)
  have h29 := finalMulTerm_eq_line a b hb 29 3 2 4 (c / 2 ^ 5) rfl (by decide) (by omega)
  have h30 := finalMulTerm_eq_line a b hb 30 7 3 4 (2 * (c / 2 ^ 5)) rfl (by decide) (by omega)
  have h31 := finalMulTerm_eq_line a b hb 31 15 4 4 (4 * (c / 2 ^ 5)) rfl (by decide) (by omega)
  rw [finalMulGroup_toNat a b (by omega) _ (by decide)]
  simp only [List.map_cons, List.map_nil, List.sum_cons, List.sum_nil, h28, h29, h30, h31,
    group28]
  omega

theorem finalMul_group32 (hb : b.toNat = 8 * c) (hc : c < 2 ^ 37) :
    (finalMulGroup a b [(32, 3), (33, 3), (34, 3), (35, 3)] &&& ~~~7).toNat =
      4 * (group32 a.getLsbD c / 2 * 2) := by
  have h32 := finalMulTerm_eq_line a b hb 32 3 2 4 (c / 4) rfl (by decide) (by omega)
  have h33 := finalMulTerm_eq_line a b hb 33 3 2 4 (c / 2) rfl (by decide) (by omega)
  have h34 := finalMulTerm_eq_line a b hb 34 3 2 4 (c) rfl (by decide) (by omega)
  have h35 := finalMulTerm_eq_line a b hb 35 3 2 4 (2 * c) rfl (by decide) (by omega)
  rw [show (~~~7 : CInt) = ~~~(WordField.mask 64 3) from rfl,
    WordField.toNat_and_not_mask _ (by decide), finalMulGroup_toNat a b (by omega) _ (by decide)]
  simp only [List.map_cons, List.map_nil, List.sum_cons, List.sum_nil, h32, h33, h34, h35,
    group32]
  omega

/-- **The rewritten multiplier is the triangle**, two bits up. -/
theorem finalMulSum_toNat (hb : b.toNat = 8 * c) (hc : c < 2 ^ 37) :
    (finalMulSum a b).toNat = 4 * triangle a.getLsbD c := by
  have h0 := finalMul_group0 a b hb hc
  have h8 := finalMul_group8 a b hb hc
  have h12 := finalMul_group12 a b hb hc
  have h16 := finalMul_group16 a b hb hc
  have h24 := finalMul_group24 a b hb hc
  have h28 := finalMul_group28 a b hb hc
  have h32 := finalMul_group32 a b hb hc
  have hlt := triangle_lt a.getLsbD c hc
  rw [triangle] at hlt
  simp only [finalMulSum, BitVec.toNat_add, h0, h8, h12, h16, h24, h28, h32, triangle]
  omega

/-- Only the 36 low bits of the multiplier matter. -/
theorem triangle_congr {a a' : Nat → Bool} (h : ∀ i, i < 36 → a i = a' i) (b : Nat) :
    triangle a b = triangle a' b := by
  simp only [triangle, group32, group28, group24, group16, group12, group8, group0]
  simp (disch := decide) only [h]

/-- **`ReciprocApproxFinalMul` is the rounded triangle.** -/
theorem reciprocApproxFinalMul_toNat :
    (reciprocApproxFinalMul a b true).toNat =
      roundTriangle (triangle a.getLsbD (b.toNat % 2 ^ 37)) := by
  have hc : b.toNat % 2 ^ 37 < 2 ^ 37 := Nat.mod_lt _ (by decide)
  have hmask : ∀ x : CInt, x &&& ((1 : CInt) <<< 37 - 1) = x &&& WordField.mask 64 37 :=
    fun _ => rfl
  have hb : ((b &&& WordField.mask 64 37) <<< 3).toNat = 8 * (b.toNat % 2 ^ 37) := by
    rw [BitVec.toNat_shiftLeft, WordField.toNat_and_mask, Nat.shiftLeft_eq]
    omega
  have hbits : ∀ i, i < 36 → (a &&& WordField.mask 64 37).getLsbD i = a.getLsbD i := fun i hi => by
    rw [BitVec.getLsbD_and, WordField.getLsbD_mask]
    simp [show i < 37 by omega, show i < 64 by omega]
  have hsum := finalMulSum_toNat (a &&& WordField.mask 64 37) _ hb hc
  rw [triangle_congr hbits] at hsum
  have hlt := triangle_lt a.getLsbD _ hc
  simp only [reciprocApproxFinalMul, hmask, if_true]
  generalize hp : finalMulSum _ _ >>> 2 = p
  have hp' : p.toNat = triangle a.getLsbD (b.toNat % 2 ^ 37) := by
    rw [← hp, BitVec.toNat_ushiftRight, hsum, Nat.shiftRight_eq_div_pow]
    omega
  have hbit : (if getBit p 1 != 0 then (1 : CInt) else 0).toNat = p.toNat / 2 % 2 := by
    rw [getBit_ne_zero, ← BitVec.testBit_toNat, Nat.testBit_eq_decide_div_mod_eq, pow_one]
    rcases Nat.mod_two_eq_zero_or_one (p.toNat / 2) with h | h <;> simp [h]
  rw [BitVec.toNat_ushiftRight, BitVec.toNat_add, hbit, BitVec.toNat_ushiftRight,
    Nat.shiftRight_eq_div_pow, Nat.shiftRight_eq_div_pow, hp', roundTriangle]
  omega

end rewritten

/-! ## 4. The small multiplier and the sign -/

theorem toNat_shiftRight (x : CInt) (n : Nat) : (x >>> n).toNat = x.toNat / 2 ^ n := by
  rw [BitVec.toNat_ushiftRight, Nat.shiftRight_eq_div_pow]

/-- The sign test of `ReciprocApprox`. -/
theorem sign_eq (x : CInt) : (x >>> 63 == 0) = !x.getLsbD 63 := by
  have htop : (x >>> 63).toNat = (x.getLsbD 63).toNat := by
    rw [toNat_shiftRight, ← BitVec.testBit_toNat, Nat.testBit_eq_decide_div_mod_eq]
    have hx := x.isLt
    rcases Nat.lt_or_ge x.toNat (2 ^ 63) with h | h
    · rw [Nat.div_eq_of_lt h]
      rfl
    · rw [show x.toNat / 2 ^ 63 = 1 by omega]
      rfl
  rw [Bool.eq_iff_iff, beq_iff_eq, ← BitVec.toNat_inj, htop]
  cases x.getLsbD 63 <;> simp

/-- `FractionalMult` is the truncated sum of the halvings. -/
theorem fractionalMult_eq (aA aB : CInt) (n : Nat) :
    fractionalMult aA aB n =
      BitVec.ofNat 64 (ShiftAdd.sum n (fun i => aA.getLsbD (n - 1 - i)) aB.toNat) := by
  have h := ShiftAdd.foldl_shifted n (fun i => aA.getLsbD i) aB
  simp only [← getBit_ne_zero] at h ⊢
  exact h

end CraySim
