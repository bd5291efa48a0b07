/-
  Subject:   The gate derived reciprocal approximation, and its agreement with the rewritten one.

  `OldReciprocApprox` of `cray_float.cpp` is a disassembled diagnostic program: registers
  `S0`..`S7` that are shifted against each other until a loop condition holds. It is kept here
  statement by statement; its loops may run out of steps, so the result is an `Option`.

  * `shiftAddWhile`, `oldMult` -- the two loop shapes of the program,
  * `oldTriangle` -- its unrolled multiplier,
  * `shiftAddWhile_eq`, `oldMult_eq`, `oldTriangle_toNat` -- what each of them computes,
  * `oldReciprocApprox_eq_reciprocApprox` -- **both versions give the same word, on every input**.
-/
import CraySim.Reciprocal

namespace CraySim

/-! ## 1. The program -/

def maskRight (aValue : Nat) : CInt := (1 : CInt) <<< aValue - 1

def maskLeft (aValue : Nat) : CInt := 0xffffffffffffffff <<< (64 - aValue)

/-- The loop `do { … } while (S0 != 0)`: the bits of `s5` leave on the left, each one set adds
    `s7`, which is halved at every step. `none` when `fuel` steps do not end it. -/
def shiftAddWhile : Nat → CInt → CInt → CInt → Option CInt
  | 0, _, _, _ => none
  | fuel + 1, s5, s7, s4 =>
    let s0 := s5 <<< 1
    let s5 := s5 <<< 1
    let s4 := if s0.slt 0 then s4 + s7 else s4
    let s7 := s7 >>> 1
    if s0 != 0 then shiftAddWhile fuel s5 s7 s4 else some s4

/-- The registers `S2`, `S3`, `S5` that the static `Mult` works on. -/
structure MultRegs where
  s2 : CInt
  s3 : CInt
  s5 : CInt

/-- The body of the loop in `Mult(S2, S3, S5, A6)`. -/
def oldMultStep (r : MultRegs) : MultRegs :=
  let s0 := r.s3 <<< 1
  { s2 := if s0.slt 0 then r.s2 + r.s5 else r.s2, s3 := r.s3 <<< 1, s5 := r.s5 >>> 1 }

/-- `Mult(S2, S3, S5, A6)`: the loop `do { … } while (A0 != 0)` counts `A6` down to zero. -/
def oldMult (s2 s3 s5 : CInt) (a6 : BitVec 32) : MultRegs :=
  oldMultStep^[(a6 - 1).toNat + 1] ⟨s2, s3, s5⟩

/-- Four lines; the low bit of their sum is cleared. -/
def oldLines4Cut (s3 s5 : CInt) : MultRegs :=
  let r := oldMult 0 s3 s5 4
  { r with s2 := (r.s2 >>> 1) <<< 1 }

/-- Four lines of a multiplicand without its two low bits; `S7` keeps it for the next lines. -/
def oldLines4 (s3 s5 : CInt) : MultRegs :=
  let s5 := s5 >>> 2
  let s7 := s5
  let s5 := s5 <<< 2
  let r := oldMult 0 s3 s5 4
  { r with s5 := s7 }

/-- Three lines, the sum halved, an odd fourth line, the sum halved again. -/
def oldLines3And1 (s3 s5 : CInt) : MultRegs :=
  let r := oldMult 0 s3 s5 3
  let s2 := r.s2 >>> 1
  let s5 := r.s5 >>> 1
  let s0 := r.s3 <<< 1
  let s3 := r.s3 <<< 1
  let s2 := if s0.slt 0 then s2 + s5 else s2
  let s5 := s5 >>> 2
  let s2 := s2 >>> 1
  ⟨s2, s3, s5⟩

/-- Six lines, two more of a multiplicand without its low bit, the low bit of the sum cleared. -/
def oldLines6And2 (s3 s5 : CInt) : MultRegs :=
  let r := oldMult 0 s3 s5 6
  let s5 := r.s5 >>> 1
  let s5 := s5 <<< 1
  let r := oldMult r.s2 r.s3 s5 2
  { r with s2 := (r.s2 >>> 1) <<< 1 }

/-- Five lines, a skipped multiplier bit, two more lines, the low bit of the sum cleared. -/
def oldLines5And2 (s3 s5 : CInt) : MultRegs :=
  let r := oldMult 0 s3 s5 5
  let s3 := r.s3 <<< 1
  let s5 := r.s5 >>> 1
  let r := oldMult r.s2 s3 s5 2
  { r with s2 := (r.s2 >>> 1) <<< 1 }

/-- The unrolled multiplication of `OldReciprocApprox`: `S4` between `S5 = S5 << 1` and the
    final rounding. -/
def oldTriangle (s3 s5 : CInt) : CInt :=
  let s4 : CInt := 0
  let s5 := s5 <<< 1
  let r := oldLines4Cut s3 s5
  let s4 := s4 + r.s2
  let r := oldLines4 r.s3 r.s5
  let s4 := s4 + r.s2
  let r := oldLines3And1 r.s3 r.s5
  let s4 := s4 + r.s2
  let r := oldLines6And2 r.s3 r.s5
  let s4 := s4 + r.s2
  let r := oldLines4 r.s3 r.s5
  let s4 := s4 + r.s2
  let r := oldLines3And1 r.s3 r.s5
  let s4 := s4 + r.s2
  let r := oldLines5And2 r.s3 r.s5
  s4 + r.s2

/-- The first iteration: `S6` is twice the first guess, `S4` its square times the mantissa;
    leaves `A1` in `S7`. The differences are taken by complements. -/
def oldA1 (s6 s4 : CInt) : CInt :=
  let s7 := s6
  let s6 := s6 <<< 8
  let s7 := s7 >>> 1
  let s3 : CInt := 1
  let s6 := s3 + s6
  let s6 := s6 <<< 8
  let s6 := s6 + s7
  let s6 := ~~~s6
  let s7 := s4 + s6
  let s5 : CInt := 0x100
  let s5 := s5 + s7
  let s7 := ~~~s5
  let s7 := s7 >>> 6
  let s5 := maskRight 18
  let s7 := s5 &&& s7
  let s7 := s7 <<< 30
  s7 >>> 30

/-- The rounding of the product in `S4`. -/
def oldRound (s4 : CInt) : CInt :=
  let s2 : CInt := 1
  let s4 := s4 >>> 1
  let s2 := s2 &&& s4
  let s4 := s4 >>> 1
  let s4 := s2 + s4
  s4 >>> 2

/-- The second iteration: `T8` is `2 * A1`, `S4` the product; leaves the mantissa in `S2`. -/
def oldMantissa (t8 s4 : CInt) : CInt :=
  let s7 := t8
  let s4 := s4 <<< 14
  let s7 := s7 <<< 12
  let s6 := ~~~s7
  let s5 := s4 + s6
  let s3 : CInt := 1
  let s2 := s3 + s5
  let s2 := ~~~s2
  let s3 : CInt := 0o400004000000000000000
  let s2 := s2 ||| s3
  let s3 := maskRight 33
  let s3 := s3 <<< 15
  s2 &&& s3

/-- The exponent test and the assembly of the result from the input `S1` and the mantissa. -/
def oldAssemble (s1 s2 : CInt) : CInt :=
  let s3 := maskLeft 15
  let s3 := s3 >>> 1
  let s3 := s1 &&& s3
  let s7 : CInt := 0x6000
  let s7 := s7 <<< 48
  let s6 : CInt := 0x2002
  let s6 := s6 <<< 48
  let valid := (s3 - s7).slt 0 && !(s3 - s6).slt 0
  let s2 := if valid then s2 else (~~~((1 : CInt) <<< 47)) &&& s2
  let s3 := if valid then ~~~s3 + (2 : CInt) <<< 48 else (0x6000 : CInt) <<< 48
  let s4 := maskRight 63
  let s3 := s3 &&& s4
  let s4 := s1 &&& 0x8000000000000000
  let s3 := s3 ||| s4
  let s4 := maskLeft 16
  let s3 := s3 &&& s4
  s2 ||| s3

/-- `OldReciprocApprox` on words. The stores to the debug variables are left out. -/
def oldReciprocApproxWord (aInput : CInt) : Option CInt := do
  let s1 := aInput
  let s2 := maskRight 7
  let s2 := s2 <<< 40
  let s2 := s1 &&& s2
  let s2 := s2 >>> 40
  let a7 := s2.toNat
  let s7 := reciprocLookup.getD a7 0
  let s6 := s7 >>> 18
  let s7 := s7 <<< 46
  let s5 := s7 >>> 48
  let s7 := s1 <<< 16
  let s7 := s7 >>> 40
  -- S4 = A0^2 * B1
  let s5 := s5 <<< 47
  let s4 ← shiftAddWhile 64 s5 s7 0
  let s7 := oldA1 s6 s4
  -- S6 = A1^2, S5 = B2, T8 = 2 * A1
  let s5 := s7
  let s7 := s7 <<< 17
  let s5 := s5 <<< 45
  let s6 ← shiftAddWhile 64 s5 s7 0
  let s5 : CInt := 1
  let s5 := s5 <<< 47
  let s1 := s1 ||| s5
  let s5 := maskRight 48
  let s5 := s1 &&& s5
  let s5 := s5 >>> 11
  let s7 := s7 <<< 2
  let s6 := s6 <<< 12
  let s6 := s6 >>> 12
  let s6 := s6 <<< 27
  let t8 := s7
  let s4 := oldRound (oldTriangle s6 s5)
  return oldAssemble s1 (oldMantissa t8 s4)

def oldReciprocApprox (aInput : CFloat) : Option CFloat :=
  (oldReciprocApproxWord aInput.value).map CFloat.mk

/-! ## 2. The loops -/

/-- The bit the loops test after `i + 1` shifts of the multiplier. -/
def topBit (s3 : CInt) (i : Nat) : Bool := (s3 <<< (i + 1)).msb

theorem topBit_shiftLeft (s3 : CInt) (k i : Nat) : topBit (s3 <<< k) i = topBit s3 (k + i) := by
  rw [topBit, topBit, ← BitVec.shiftLeft_add, Nat.add_assoc]

theorem topBit_eq (x : CInt) (i : Nat) : topBit x i = (decide (i < 63) && x.getLsbD (62 - i)) := by
  rw [topBit, BitVec.msb_eq_getLsbD_last, BitVec.getLsbD_shiftLeft]
  by_cases h : i < 63
  · simp [h, show ¬ 63 < i + 1 by omega, show 63 - (i + 1) = 62 - i by omega]
  · simp [h, show 63 < i + 1 by omega]

theorem slt_zero (x : CInt) : x.slt 0 = x.msb := BitVec.slt_zero_eq_msb

/-- **The `while (S0 != 0)` loop ends and adds up the selected halvings.** -/
theorem shiftAddWhile_eq (fuel : Nat) (s5 s7 s4 : CInt) (h : s5 <<< (fuel + 1) = 0) :
    shiftAddWhile (fuel + 1) s5 s7 s4 =
      some (s4 + BitVec.ofNat 64 (ShiftAdd.sum (fuel + 1) (topBit s5) s7.toNat)) := by
  induction fuel generalizing s5 s7 s4 with
  | zero =>
    rw [shiftAddWhile, show s5 <<< 1 = 0 from h]
    have hbit : topBit s5 0 = false := by
      rw [topBit, show s5 <<< (0 + 1) = 0 from h]
      decide
    simp [ShiftAdd.sum_succ, hbit]
  | succ fuel ih =>
    have hrec : s5 <<< 1 <<< (fuel + 1) = 0 := by
      rw [← BitVec.shiftLeft_add, Nat.add_comm 1]
      exact h
    have htail : (fun i => topBit s5 (i + 1)) = topBit (s5 <<< 1) := by
      funext i
      rw [topBit_shiftLeft, Nat.add_comm]
    have hsum : BitVec.ofNat 64 (ShiftAdd.sum (fuel + 2) (topBit s5) s7.toNat) =
        (if (s5 <<< 1).msb then s7 else 0) +
          BitVec.ofNat 64 (ShiftAdd.sum (fuel + 1) (topBit (s5 <<< 1)) (s7 >>> 1).toNat) := by
      rw [ShiftAdd.sum_succ', htail, BitVec.ofNat_add, BitVec.toNat_ushiftRight,
        Nat.shiftRight_eq_div_pow, pow_one]
      congr 1
      change BitVec.ofNat 64 (if (s5 <<< 1).msb = true then _ else _) = _
      cases (s5 <<< 1).msb <;> simp
    rw [shiftAddWhile, hsum, slt_zero]
    by_cases hz : s5 <<< 1 = 0
    · -- the loop stops early: no bit is left for the remaining steps
      have hfalse : ShiftAdd.sum (fuel + 1) (topBit (s5 <<< 1)) (s7 >>> 1).toNat = 0 := by
        rw [hz, ShiftAdd.sum_eq_of_false _ (Nat.zero_le _), ShiftAdd.sum_zero]
        intro i _ _
        simp [topBit]
      rw [hfalse, hz]
      simp
    · simp only [bne_iff_ne, ne_eq, hz, not_false_eq_true, if_true]
      rw [ih _ _ _ hrec]
      cases (s5 <<< 1).msb <;> simp [BitVec.add_assoc]

theorem iterate_oldMultStep (n : Nat) (s2 s3 s5 : CInt) :
    oldMultStep^[n] ⟨s2, s3, s5⟩ =
      ⟨s2 + BitVec.ofNat 64 (ShiftAdd.sum n (topBit s3) s5.toNat), s3 <<< n, s5 >>> n⟩ := by
  induction n with
  | zero => simp
  | succ n ih =>
    rw [Function.iterate_succ_apply', ih, oldMultStep, ShiftAdd.sum_succ, slt_zero,
      ← BitVec.shiftLeft_add, ← BitVec.shiftRight_add, BitVec.ofNat_add]
    change MultRegs.mk (if topBit s3 n = true then _ else _) _ _ = _
    cases topBit s3 n with
    | false => simp
    | true => simp [ShiftAdd.ofNat_div_two_pow, BitVec.add_assoc]

/-- **`Mult` adds `a6` halvings and moves both operands on.** -/
theorem oldMult_eq (s2 s3 s5 : CInt) (a6 : BitVec 32) :
    oldMult s2 s3 s5 a6 =
      ⟨s2 + BitVec.ofNat 64 (ShiftAdd.sum ((a6 - 1).toNat + 1) (topBit s3) s5.toNat),
        s3 <<< ((a6 - 1).toNat + 1), s5 >>> ((a6 - 1).toNat + 1)⟩ :=
  iterate_oldMultStep _ s2 s3 s5

/-! ## 3. The unrolled multiplier -/

section triangle
variable (a : CInt) (k : Nat)

/-- The multiplier bit a stage tests first when `k` lines are done. -/
theorem topBit_line (i : Nat) (h : k + i < 36) :
    topBit (a <<< (27 + k)) i = a.getLsbD (35 - (k + i)) := by
  rw [topBit_shiftLeft, topBit_eq]
  simp [show 27 + k + i < 63 by omega, show 62 - (27 + k + i) = 35 - (k + i) by omega]

theorem sum_line (n : Nat) (bit : Nat → Bool) (y : Nat) :
    ShiftAdd.sum (n + 1) bit y = ShiftAdd.sum n bit y + line (bit n) (y / 2 ^ n) :=
  ShiftAdd.sum_succ n bit y

/-- The sum of `n` lines of `y`, after `k` lines are done. -/
def lines (n y : Nat) : Nat := ShiftAdd.sum n (fun i => a.getLsbD (35 - (k + i))) y

/-- What a stage of the multiplier leaves behind after `k` lines: its contribution `v`, the
    multiplier `a` moved on, a multiplicand of value `y`. -/
structure LinesDone (r : MultRegs) (v k y : Nat) : Prop where
  s2 : r.s2.toNat = v
  s3 : r.s3 = a <<< (27 + k)
  s5 : r.s5.toNat = y

theorem lines_le (n y : Nat) : lines a k n y ≤ 2 * y := ShiftAdd.sum_le_two_mul _ _ _

/-- `Mult` as a stage: `n` lines added to `s2`. -/
theorem oldMult_done (s2 : CInt) {s5 : CInt} {v y : Nat} (a6 : BitVec 32) (n : Nat)
    (hn : (a6 - 1).toNat + 1 = n) (hk : k + n ≤ 36) (hv : s2.toNat = v) (hs : s5.toNat = y)
    (hlt : v < 2 ^ 63) (hy : y < 2 ^ 40) :
    LinesDone a (oldMult s2 (a <<< (27 + k)) s5 a6) (v + lines a k n y) (k + n) (y / 2 ^ n) := by
  have hle := lines_le a k n y
  have hsum : ShiftAdd.sum n (topBit (a <<< (27 + k))) y = lines a k n y :=
    ShiftAdd.sum_congr y fun i hi => topBit_line a k i (by omega)
  have hword : (BitVec.ofNat 64 (lines a k n y)).toNat = lines a k n y := by
    rw [BitVec.toNat_ofNat]
    exact Nat.mod_eq_of_lt (by omega)
  rw [oldMult_eq, hn, hs, hsum]
  refine ⟨?_, ?_, ?_⟩
  · rw [BitVec.toNat_add_of_lt, hword, hv]
    rw [hword]
    omega
  · rw [← BitVec.shiftLeft_add, Nat.add_assoc]
  · rw [BitVec.toNat_ushiftRight, Nat.shiftRight_eq_div_pow, hs]

theorem toNat_cut (x : CInt) (n : Nat) : ((x >>> n) <<< n).toNat = x.toNat / 2 ^ n * 2 ^ n := by
  have h : x.toNat / 2 ^ n * 2 ^ n ≤ x.toNat := Nat.div_mul_le_self _ _
  rw [BitVec.toNat_shiftLeft, toNat_shiftRight, Nat.shiftLeft_eq]
  exact Nat.mod_eq_of_lt (Nat.lt_of_le_of_lt h x.isLt)

variable {s5 : CInt} {y : Nat}

theorem oldLines4Cut_done (hs : s5.toNat = y) (hy : y < 2 ^ 40) (hk : k + 4 ≤ 36) :
    LinesDone a (oldLines4Cut (a <<< (27 + k)) s5) (lines a k 4 y / 2 * 2) (k + 4) (y / 16) := by
  have hm := oldMult_done a k 0 4 4 rfl hk rfl hs (by decide) hy
  refine ⟨?_, hm.s3, hm.s5⟩
  rw [oldLines4Cut, toNat_cut, hm.s2, pow_one]
  simp

theorem oldLines4_done (hs : s5.toNat = y) (hy : y < 2 ^ 40) (hk : k + 4 ≤ 36) :
    LinesDone a (oldLines4 (a <<< (27 + k)) s5) (lines a k 4 (y / 4 * 4)) (k + 4) (y / 4) := by
  have hcut : ((s5 >>> 2) <<< 2).toNat = y / 4 * 4 := by
    rw [toNat_cut, hs]
    omega
  have hm := oldMult_done a k 0 4 4 rfl hk rfl hcut (by decide) (by omega)
  refine ⟨?_, hm.s3, ?_⟩
  · exact hm.s2.trans (Nat.zero_add _)
  · rw [oldLines4, toNat_shiftRight, hs]
    omega

theorem oldLines3And1_done (hs : s5.toNat = y) (hy : y < 2 ^ 40) (hk : k + 4 ≤ 36) :
    LinesDone a (oldLines3And1 (a <<< (27 + k)) s5)
      ((lines a k 3 y / 2 + line (a.getLsbD (35 - (k + 3))) (y / 16)) / 2) (k + 4) (y / 64) := by
  have hm := oldMult_done a k 0 3 3 rfl (by omega) rfl hs (by decide) hy
  have hle := lines_le a k 3 y
  have hodd : (oldMult 0 (a <<< (27 + k)) s5 3).s5.toNat / 2 ^ 1 = y / 16 := by
    rw [hm.s5]
    omega
  have hbit : ((oldMult 0 (a <<< (27 + k)) s5 3).s3 <<< 1).msb = a.getLsbD (35 - (k + 3)) := by
    rw [hm.s3]
    exact topBit_line a (k + 3) 0 (by omega)
  have hs2 : ((oldMult 0 (a <<< (27 + k)) s5 3).s2 >>> 1).toNat = lines a k 3 y / 2 := by
    rw [toNat_shiftRight, hm.s2]
    simp
  have hs5 : ((oldMult 0 (a <<< (27 + k)) s5 3).s5 >>> 1).toNat = y / 16 := by
    rw [toNat_shiftRight, hodd]
  refine ⟨?_, ?_, ?_⟩
  · simp only [oldLines3And1, slt_zero, hbit]
    rw [toNat_shiftRight, pow_one]
    cases a.getLsbD (35 - (k + 3)) with
    | false => exact congrArg (· / 2) hs2
    | true =>
      rw [if_pos rfl, BitVec.toNat_add_of_lt, hs2, hs5]
      · rfl
      · rw [hs2, hs5]
        omega
  · simp only [oldLines3And1]
    rw [hm.s3, ← BitVec.shiftLeft_add]
    rfl
  · simp only [oldLines3And1]
    rw [toNat_shiftRight, hs5]
    omega

theorem oldLines6And2_done (hs : s5.toNat = y) (hy : y < 2 ^ 40) (hk : k + 8 ≤ 36) :
    LinesDone a (oldLines6And2 (a <<< (27 + k)) s5)
      ((lines a k 6 y + lines a (k + 6) 2 (y / 128 * 2)) / 2 * 2) (k + 8) (y / 256) := by
  have hm := oldMult_done a k 0 6 6 rfl (by omega) rfl hs (by decide) hy
  have hle := lines_le a k 6 y
  have hcut : (((oldMult 0 (a <<< (27 + k)) s5 6).s5 >>> 1) <<< 1).toNat = y / 128 * 2 := by
    rw [toNat_cut, hm.s5]
    omega
  have hn := oldMult_done a (k + 6) _ 2 2 rfl (by omega) hm.s2 hcut (by simp; omega) (by omega)
  rw [← hm.s3] at hn
  refine ⟨?_, hn.s3, ?_⟩
  · simp only [oldLines6And2]
    rw [toNat_cut, hn.s2]
    simp
  · simp only [oldLines6And2]
    rw [hn.s5]
    omega

theorem oldLines5And2_done (hs : s5.toNat = y) (hy : y < 2 ^ 40) (hk : k + 8 ≤ 36) :
    LinesDone a (oldLines5And2 (a <<< (27 + k)) s5)
      ((lines a k 5 y + lines a (k + 6) 2 (y / 64)) / 2 * 2) (k + 8) (y / 256) := by
  have hm := oldMult_done a k 0 5 5 rfl (by omega) rfl hs (by decide) hy
  have hle := lines_le a k 5 y
  have hcut : ((oldMult 0 (a <<< (27 + k)) s5 5).s5 >>> 1).toNat = y / 64 := by
    rw [toNat_shiftRight, hm.s5]
    omega
  have hs3 : (oldMult 0 (a <<< (27 + k)) s5 5).s3 <<< 1 = a <<< (27 + (k + 6)) := by
    rw [hm.s3, ← BitVec.shiftLeft_add]
    rfl
  have hn := oldMult_done a (k + 6) _ 2 2 rfl (by omega) hm.s2 hcut (by simp; omega) (by omega)
  rw [← hs3] at hn
  refine ⟨?_, hn.s3, ?_⟩
  · simp only [oldLines5And2]
    rw [toNat_cut, hn.s2]
    simp
  · simp only [oldLines5And2]
    rw [hn.s5]
    omega

theorem lines_four : lines a k 4 y =
    line (a.getLsbD (35 - k)) y + line (a.getLsbD (35 - (k + 1))) (y / 2) +
      line (a.getLsbD (35 - (k + 2))) (y / 4) + line (a.getLsbD (35 - (k + 3))) (y / 8) := by
  simp [lines, sum_line]

theorem lines_three : lines a k 3 y =
    line (a.getLsbD (35 - k)) y + line (a.getLsbD (35 - (k + 1))) (y / 2) +
      line (a.getLsbD (35 - (k + 2))) (y / 4) := by
  simp [lines, sum_line]

/-- The contributions of the seven stages. -/
def contributions (c : Nat) : List Nat :=
  [lines a 0 4 (2 * c) / 2 * 2, lines a 4 4 (c / 2 ^ 5 * 4),
    (lines a 8 3 (c / 2 ^ 5) / 2 + line (a.getLsbD 24) (c / 2 ^ 9)) / 2,
    (lines a 12 6 (c / 2 ^ 11) + lines a 18 2 (c / 2 ^ 18 * 2)) / 2 * 2,
    lines a 20 4 (c / 2 ^ 21 * 4),
    (lines a 24 3 (c / 2 ^ 21) / 2 + line (a.getLsbD 8) (c / 2 ^ 25)) / 2,
    (lines a 28 5 (c / 2 ^ 27) + lines a 34 2 (c / 2 ^ 33)) / 2 * 2]

theorem contributions_le (c : Nat) : ∀ v ∈ contributions a c, v ≤ 8 * c := by
  have lC' := line_le (a.getLsbD 24) (c / 2 ^ 9)
  have lF' := line_le (a.getLsbD 8) (c / 2 ^ 25)
  intro v hv
  simp only [contributions, List.mem_cons, List.not_mem_nil, or_false] at hv
  rcases hv with rfl | rfl | rfl | rfl | rfl | rfl | rfl
  · have := lines_le a 0 4 (2 * c)
    omega
  · have := lines_le a 4 4 (c / 2 ^ 5 * 4)
    omega
  · have := lines_le a 8 3 (c / 2 ^ 5)
    omega
  · have := lines_le a 12 6 (c / 2 ^ 11)
    have := lines_le a 18 2 (c / 2 ^ 18 * 2)
    omega
  · have := lines_le a 20 4 (c / 2 ^ 21 * 4)
    omega
  · have := lines_le a 24 3 (c / 2 ^ 21)
    omega
  · have := lines_le a 28 5 (c / 2 ^ 27)
    have := lines_le a 34 2 (c / 2 ^ 33)
    omega

/-- The words the stages contribute are these numbers; their sum does not wrap. -/
theorem oldTriangle_toNat_eq {c : Nat} (b : CInt) (hb : b.toNat = c) (hc : c < 2 ^ 37) :
    (oldTriangle (a <<< 27) b).toNat = (contributions a c).sum := by
  have hb2 : (b <<< 1).toNat = 2 * c := by
    rw [BitVec.toNat_shiftLeft, Nat.shiftLeft_eq, hb]
    omega
  simp only [oldTriangle]
  -- each stage starts from the operands the one before it left
  have hA := oldLines4Cut_done a 0 hb2 (by omega) (by decide)
  rw [Nat.add_zero] at hA
  generalize oldLines4Cut (a <<< 27) (b <<< 1) = rA at hA ⊢
  have hB := oldLines4_done a 4 (hA.s5.trans (show _ = c / 8 by omega)) (by omega) (by decide)
  rw [← hA.s3, show c / 8 / 4 = c / 2 ^ 5 by omega] at hB
  generalize oldLines4 rA.s3 rA.s5 = rB at hB ⊢
  have hC := oldLines3And1_done a 8 hB.s5 (by omega) (by decide)
  rw [← hB.s3, show c / 2 ^ 5 / 16 = c / 2 ^ 9 by omega] at hC
  generalize oldLines3And1 rB.s3 rB.s5 = rC at hC ⊢
  have hD := oldLines6And2_done a 12 (hC.s5.trans (show _ = c / 2 ^ 11 by omega)) (by omega)
    (by decide)
  rw [← hC.s3, show c / 2 ^ 11 / 128 = c / 2 ^ 18 by omega] at hD
  generalize oldLines6And2 rC.s3 rC.s5 = rD at hD ⊢
  have hE := oldLines4_done a 20 (hD.s5.trans (show _ = c / 2 ^ 19 by omega)) (by omega) (by decide)
  rw [← hD.s3, show c / 2 ^ 19 / 4 = c / 2 ^ 21 by omega] at hE
  generalize oldLines4 rD.s3 rD.s5 = rE at hE ⊢
  have hF := oldLines3And1_done a 24 hE.s5 (by omega) (by decide)
  rw [← hE.s3, show c / 2 ^ 21 / 16 = c / 2 ^ 25 by omega] at hF
  generalize oldLines3And1 rE.s3 rE.s5 = rF at hF ⊢
  have hG := oldLines5And2_done a 28 (hF.s5.trans (show _ = c / 2 ^ 27 by omega)) (by omega)
    (by decide)
  rw [← hF.s3, show c / 2 ^ 27 / 64 = c / 2 ^ 33 by omega] at hG
  generalize oldLines5And2 rF.s3 rF.s5 = rG at hG ⊢
  have hlist : [rA, rB, rC, rD, rE, rF, rG].map (fun r => r.s2.toNat) = contributions a c := by
    simp only [List.map_cons, List.map_nil, hA.s2, hB.s2, hC.s2, hD.s2, hE.s2, hF.s2, hG.s2]
    rfl
  have hsum := WordSum.foldl_add_toNat (8 * c) MultRegs.s2 [rA, rB, rC, rD, rE, rF, rG] 0
    (fun r hr => contributions_le a c _ (hlist ▸ List.mem_map_of_mem hr))
    (show 0 + 7 * (8 * c) < 2 ^ 64 by omega)
  rw [hlist, show (0 : CInt).toNat = 0 from rfl, Nat.zero_add] at hsum
  exact hsum

/-- **The unrolled multiplier is the triangle.** -/
theorem oldTriangle_toNat {c : Nat} (b : CInt) (hb : b.toNat = c) (hc : c < 2 ^ 37) :
    (oldTriangle (a <<< 27) b).toNat = triangle a.getLsbD c := by
  have h32 : lines a 0 4 (2 * c) = group32 a.getLsbD c := by
    rw [lines_four, show 2 * c / 2 = c by omega, show 2 * c / 4 = c / 2 by omega,
      show 2 * c / 8 = c / 4 by omega]
    rfl
  have h28 : lines a 4 4 (c / 2 ^ 5 * 4) = group28 a.getLsbD c := by
    rw [lines_four, group28, Nat.mul_comm 4, Nat.mul_comm 2,
      show c / 2 ^ 5 * 4 / 2 = c / 2 ^ 5 * 2 by omega, show c / 2 ^ 5 * 4 / 4 = c / 2 ^ 5 by omega,
      show c / 2 ^ 5 * 4 / 8 = c / 2 ^ 6 by omega]
  have h24 : (lines a 8 3 (c / 2 ^ 5) / 2 + line (a.getLsbD 24) (c / 2 ^ 9)) / 2 =
      group24 a.getLsbD c / 4 := by
    rw [lines_three, group24, line_mul, show c / 2 ^ 5 / 2 = c / 2 ^ 6 by omega,
      show c / 2 ^ 5 / 4 = c / 2 ^ 7 by omega]
    simp only [Nat.reduceAdd, Nat.reduceSub]
    omega
  have h16 : lines a 12 6 (c / 2 ^ 11) + lines a 18 2 (c / 2 ^ 18 * 2) = group16 a.getLsbD c := by
    simp only [lines, sum_line, ShiftAdd.sum_zero, group16, Nat.reduceAdd, Nat.reduceSub,
      Nat.div_div_eq_div_mul, ← pow_add, Nat.zero_add, Nat.add_zero, pow_zero, Nat.div_one]
    rw [Nat.mul_comm 2, show c / 2 ^ 18 * 2 / 2 ^ 1 = c / 2 ^ 18 by omega]
    omega
  have h12 : lines a 20 4 (c / 2 ^ 21 * 4) = group12 a.getLsbD c := by
    rw [lines_four, group12, Nat.mul_comm 4, Nat.mul_comm 2,
      show c / 2 ^ 21 * 4 / 2 = c / 2 ^ 21 * 2 by omega,
      show c / 2 ^ 21 * 4 / 4 = c / 2 ^ 21 by omega, show c / 2 ^ 21 * 4 / 8 = c / 2 ^ 22 by omega]
  have h8 : (lines a 24 3 (c / 2 ^ 21) / 2 + line (a.getLsbD 8) (c / 2 ^ 25)) / 2 =
      group8 a.getLsbD c / 4 := by
    rw [lines_three, group8, line_mul, show c / 2 ^ 21 / 2 = c / 2 ^ 22 by omega,
      show c / 2 ^ 21 / 4 = c / 2 ^ 23 by omega]
    simp only [Nat.reduceAdd, Nat.reduceSub]
    omega
  have h0 : lines a 28 5 (c / 2 ^ 27) + lines a 34 2 (c / 2 ^ 33) = group0 a.getLsbD c := by
    simp only [lines, sum_line, ShiftAdd.sum_zero, group0, Nat.reduceAdd, Nat.reduceSub,
      Nat.div_div_eq_div_mul, ← pow_add, Nat.zero_add, Nat.add_zero, pow_zero, Nat.div_one]
    omega
  rw [oldTriangle_toNat_eq a b hb hc, contributions, h32, h28, h24, h16, h12, h8, h0, triangle]
  simp only [List.sum_cons, List.sum_nil]
  omega

end triangle

/-! ## 4. The stages around the multiplier -/

/-- The loop that multiplies an `n` bit number, moved below the sign bit. -/
theorem shiftAddWhile_low (x s7 : CInt) (n : Nat) (hn : n < 63) :
    shiftAddWhile 64 (x <<< (63 - n)) s7 0 =
      some (BitVec.ofNat 64 (ShiftAdd.sum n (fun i => x.getLsbD (n - 1 - i)) s7.toNat)) := by
  have hzero : x <<< (63 - n) <<< (63 + 1) = 0 := by
    rw [← BitVec.shiftLeft_add]
    exact BitVec.shiftLeft_eq_zero (by omega)
  have hbit : ∀ i, n ≤ i → i < 64 → topBit (x <<< (63 - n)) i = false := fun i hi _ => by
    rw [topBit_shiftLeft, topBit_eq]
    simp [show ¬ 63 - n + i < 63 by omega]
  have hbit' : ∀ i, i < n → topBit (x <<< (63 - n)) i = x.getLsbD (n - 1 - i) := fun i hi => by
    rw [topBit_shiftLeft, topBit_eq]
    simp [show 63 - n + i < 63 by omega, show 62 - (63 - n + i) = n - 1 - i by omega]
  rw [shiftAddWhile_eq 63 _ _ _ hzero, ShiftAdd.sum_eq_of_false _ (by omega) hbit,
    ShiftAdd.sum_congr _ hbit']
  simp

theorem lookup_index (s1 : CInt) : (s1 &&& (maskRight 7 <<< 40)) >>> 40 = (s1 >>> 40) &&& 127 := by
  rw [show (127 : CInt) = WordField.mask 64 7 from rfl,
    show maskRight 7 = WordField.mask 64 7 from rfl]
  apply BitVec.eq_of_getLsbD_eq
  intro i hi
  simp only [BitVec.getLsbD_ushiftRight, BitVec.getLsbD_and, BitVec.getLsbD_shiftLeft,
    WordField.getLsbD_mask]
  by_cases h : i < 7
  · simp [h, show 40 + i < 64 by omega, show i < 64 by omega]
  · simp [h]

theorem lookup_a0sq (s7 : CInt) : (s7 <<< 46) >>> 48 = (s7 >>> 2) &&& 0xffff := by
  rw [show (0xffff : CInt) = WordField.mask 64 16 from rfl]
  apply BitVec.eq_of_getLsbD_eq
  intro i hi
  simp only [BitVec.getLsbD_ushiftRight, BitVec.getLsbD_and, BitVec.getLsbD_shiftLeft,
    WordField.getLsbD_mask]
  by_cases h : i < 16
  · simp [h, show 48 + i < 64 by omega, show i < 64 by omega, show 48 + i - 46 = 2 + i by omega,
      show ¬ 48 + i < 46 by omega]
  · simp [h, show ¬ 48 + i < 64 by omega]

theorem mantissa_high (s1 : CInt) : (s1 <<< 16) >>> 40 = (s1 &&& CFloat.fractMask) >>> 24 := by
  rw [show CFloat.fractMask = WordField.mask 64 48 from rfl]
  apply BitVec.eq_of_getLsbD_eq
  intro i hi
  simp only [BitVec.getLsbD_ushiftRight, BitVec.getLsbD_and, BitVec.getLsbD_shiftLeft,
    WordField.getLsbD_mask]
  by_cases h : i < 24
  · simp [show 40 + i < 64 by omega, show 24 + i < 48 by omega, show 24 + i < 64 by omega,
      show 40 + i - 16 = 24 + i by omega, show ¬ 40 + i < 16 by omega]
  · simp [show ¬ 40 + i < 64 by omega, show ¬ 24 + i < 48 by omega]

theorem mantissa_b2 (s1 : CInt) : ((s1 ||| (1 : CInt) <<< 47) &&& maskRight 48) >>> 11 =
    ((s1 &&& CFloat.fractMask) ||| ((1 : CInt) <<< 47)) >>> 11 := by
  rw [show CFloat.fractMask = maskRight 48 from rfl]
  congr 1
  have h : (1 : CInt) <<< 47 &&& maskRight 48 = (1 : CInt) <<< 47 := by decide
  rw [BitVec.and_or_distrib_right, h]

theorem not_add_not (s4 s6 k : CInt) : ~~~(k + (s4 + ~~~s6)) = s6 - s4 - k := by
  rw [BitVec.add_comm k, BitVec.add_comm s4, BitVec.not_add_eq_not_neg, BitVec.not_add_eq_not_neg,
    BitVec.not_not]

theorem shiftLeft_shiftRight (x : CInt) (n m : Nat) (hnm : m + n = 64) (hx : x.toNat < 2 ^ m) :
    (x <<< n) >>> n = x := by
  apply BitVec.eq_of_toNat_eq
  have hlt : x.toNat * 2 ^ n < 2 ^ 64 := by
    calc x.toNat * 2 ^ n < 2 ^ m * 2 ^ n := Nat.mul_lt_mul_of_pos_right hx (Nat.two_pow_pos n)
      _ = 2 ^ 64 := by rw [← pow_add, hnm]
  rw [toNat_shiftRight, BitVec.toNat_shiftLeft, Nat.shiftLeft_eq, Nat.mod_eq_of_lt hlt,
    Nat.mul_div_cancel _ (Nat.two_pow_pos n)]

theorem oldA1_eq (s6 s4 : CInt) :
    oldA1 s6 s4 =
      ((((s6 <<< 8 + 1) <<< 8) + s6 >>> 1 - s4 - 256) >>> 6) &&& ((1 : CInt) <<< 18 - 1) := by
  have hlow : ∀ x : CInt, (maskRight 18 &&& x) <<< 30 >>> 30 = x &&& ((1 : CInt) <<< 18 - 1) := by
    intro x
    rw [BitVec.and_comm]
    refine shiftLeft_shiftRight _ 30 34 rfl ?_
    rw [show maskRight 18 = WordField.mask 64 18 from rfl, WordField.toNat_and_mask]
    omega
  simp only [oldA1]
  rw [hlow, not_add_not, BitVec.add_comm 1]

theorem reciprocA1_lt (x : CInt) : (reciprocA1 x).toNat < 2 ^ 18 := by
  simp only [reciprocA1]
  rw [show (1 : CInt) <<< 18 - 1 = WordField.mask 64 18 from rfl, WordField.toNat_and_mask]
  exact Nat.mod_lt _ (by decide)

theorem shiftAddWhile_square (x : CInt) (hx : x.toNat < 2 ^ 18) :
    shiftAddWhile 64 (x <<< 45) (x <<< 17) 0 = some (x * x) := by
  have hval : (x <<< 17).toNat = 2 ^ 17 * x.toNat := by
    rw [BitVec.toNat_shiftLeft, Nat.shiftLeft_eq]
    omega
  have hweight : ShiftAdd.weight 18 (fun i => x.getLsbD (18 - 1 - i)) = x.toNat := by
    have h := ShiftAdd.weight_testBit x.toNat 18 18 le_rfl
    simp only [BitVec.testBit_toNat] at h
    rw [h, Nat.mod_eq_of_lt hx]
    simp
  have hsum := ShiftAdd.sum_exact 17 18 (fun i => x.getLsbD (18 - 1 - i)) x.toNat le_rfl
  rw [hweight, Nat.mul_assoc] at hsum
  have hsq := Nat.eq_of_mul_eq_mul_left (by decide) hsum
  rw [shiftAddWhile_low x _ 18 (by decide), hval, hsq, BitVec.ofNat_mul, BitVec.ofNat_toNat,
    BitVec.setWidth_eq]

theorem oldRound_toNat (s4 : CInt) (h : s4.toNat < 2 ^ 39) :
    (oldRound s4).toNat = roundTriangle s4.toNat := by
  have hbit : ((1 : CInt) &&& s4 >>> 1).toNat = s4.toNat / 2 % 2 := by
    rw [BitVec.and_comm, show (1 : CInt) = WordField.mask 64 1 from rfl, WordField.toNat_and_mask,
      toNat_shiftRight]
    rfl
  simp only [oldRound]
  rw [toNat_shiftRight, BitVec.toNat_add, hbit, toNat_shiftRight, toNat_shiftRight, roundTriangle]
  omega

/-- **The second product agrees.** -/
theorem oldProduct_eq (a1sq b2 : CInt) (hb : b2.toNat < 2 ^ 37) :
    oldRound (oldTriangle (a1sq <<< 27) b2) = reciprocApproxFinalMul a1sq b2 true := by
  apply BitVec.eq_of_toNat_eq
  have htri := oldTriangle_toNat a1sq b2 rfl hb
  rw [oldRound_toNat _ (by rw [htri]; exact triangle_lt _ _ hb), htri,
    reciprocApproxFinalMul_toNat, Nat.mod_eq_of_lt hb]

theorem oldMantissa_eq (a1 s4 : CInt) :
    oldMantissa ((a1 <<< 17) <<< 2) s4 =
      ((a1 <<< 31 - s4 <<< 14 - 1) ||| ((1 : CInt) <<< 47)) &&& 0xffffffff8000 := by
  simp only [oldMantissa]
  rw [not_add_not, ← BitVec.shiftLeft_add, ← BitVec.shiftLeft_add, BitVec.and_or_distrib_right,
    BitVec.and_or_distrib_right]
  rfl

/-! ## 5. Exponent and sign -/

theorem toNat_exponent (x : CInt) :
    (x &&& (maskLeft 15 >>> 1)).toNat = (CFloat.mk x).rawExp * 2 ^ 48 := by
  have hmask : maskLeft 15 >>> 1 = CFloat.expMask := by decide
  have hclear : CFloat.expMask = CFloat.expMask &&& ~~~WordField.mask 64 48 := by decide
  rw [hmask, CFloat.rawExp, toNat_shiftRight]
  have hdvd : (x &&& CFloat.expMask).toNat =
      (x &&& CFloat.expMask).toNat / 2 ^ 48 * 2 ^ 48 := by
    conv_lhs => rw [hclear, ← BitVec.and_assoc, WordField.toNat_and_not_mask _ (by decide)]
  exact hdvd

/-- The exponent part `CFloat_t` writes. -/
theorem ofParts_exponent (e : Nat) (he : e < 2 ^ 15) :
    (BitVec.ofInt 64 ((e : Int) - CFloat.expOfs + CFloat.expOfs) &&& 0x7fff) <<< CFloat.expBitPos =
      BitVec.ofNat 64 (e * 2 ^ 48) := by
  rw [Int.sub_add_cancel, BitVec.ofInt_natCast, show (0x7fff : CInt) = WordField.mask 64 15 from rfl,
    WordField.and_mask_of_lt]
  · apply BitVec.eq_of_toNat_eq
    rw [BitVec.toNat_shiftLeft, BitVec.toNat_ofNat, BitVec.toNat_ofNat, Nat.shiftLeft_eq,
      show CFloat.expBitPos = 48 from rfl]
    omega
  · rw [BitVec.toNat_ofNat]
    omega

/-- Below the sign, the order of the source's signed comparison is that of the numbers. -/
theorem slt_zero_sub (s3 s7 : CInt) (h3 : s3.toNat < 2 ^ 63) (h7 : s7.toNat < 2 ^ 63) :
    (s3 - s7).slt 0 = decide (s3.toNat < s7.toNat) := by
  rw [slt_zero, BitVec.msb_eq_decide, BitVec.toNat_sub]
  by_cases h : s3.toNat < s7.toNat
  · rw [decide_eq_true h, decide_eq_true_eq]
    omega
  · rw [decide_eq_false h, decide_eq_false_iff_not]
    omega

section assemble
variable (x : CInt)

/-- The exponent field of the input is untouched by the normalize bit. -/
theorem toNat_exponent_or :
    ((x ||| (1 : CInt) <<< 47) &&& (maskLeft 15 >>> 1)).toNat =
      (CFloat.mk x).rawExp * 2 ^ 48 := by
  have h : (1 : CInt) <<< 47 &&& (maskLeft 15 >>> 1) = 0 := by decide
  rw [BitVec.and_or_distrib_right, h, ← toNat_exponent]
  exact congrArg BitVec.toNat BitVec.or_zero

/-- The new exponent: the complement of the old one, two up. -/
theorem not_exponent {e : Nat} {s3 : CInt} (hs : s3.toNat = e * 2 ^ 48) (hlo : 1 < e)
    (hhi : e < 2 ^ 15) :
    (~~~s3 + (2 : CInt) <<< 48) &&& maskRight 63 &&& maskLeft 16 =
      BitVec.ofNat 64 ((0x8001 - e) * 2 ^ 48) := by
  have hval : (~~~s3 + (2 : CInt) <<< 48).toNat = 2 ^ 64 - 1 - (e - 2) * 2 ^ 48 := by
    rw [BitVec.toNat_add, BitVec.toNat_not, hs, show ((2 : CInt) <<< 48).toNat = 2 ^ 49 from rfl]
    omega
  have hleft : maskLeft 16 = ~~~WordField.mask 64 48 := by decide
  apply BitVec.eq_of_toNat_eq
  rw [hleft, WordField.toNat_and_not_mask _ (by decide),
    show maskRight 63 = WordField.mask 64 63 from rfl, WordField.toNat_and_mask, hval,
    BitVec.toNat_ofNat]
  omega

theorem max_exponent : (0x6000 : CInt) <<< 48 &&& maskRight 63 &&& maskLeft 16 =
    BitVec.ofNat 64 (0x6000 * 2 ^ 48) := by decide

/-- The sign part `CFloat_t` writes. -/
theorem sign_part : (if (x >>> 63 == 0) then (0 : CInt) else CFloat.fractSignMask) =
    x &&& CFloat.fractSignMask := by
  rw [sign_eq, CFloat.and_fractSignMask]
  cases x.getLsbD 63 <;> rfl

/-- **The assembly of the reference is the constructor of the rewritten version.** -/
theorem oldAssemble_eq (m : CInt) (hm : m &&& CFloat.fractMask = m) :
    oldAssemble (x ||| (1 : CInt) <<< 47) m =
      if (CFloat.mk x).rawExp < 0x6000 ∧ (CFloat.mk x).rawExp > 0x2001 then
        (CFloat.ofParts ((2 * CFloat.expOfs - (CFloat.mk x).rawExp - 1) - CFloat.expOfs)
          (x >>> 63 == 0) m).value
      else
        (CFloat.ofParts (0x6000 - CFloat.expOfs) (x >>> 63 == 0)
          (m &&& ~~~((1 : CInt) <<< 47))).value := by
  have he := toNat_exponent_or x
  have hlt := CFloat.rawExp_lt ⟨x⟩
  generalize hs3 : (x ||| (1 : CInt) <<< 47) &&& (maskLeft 15 >>> 1) = s3 at he
  generalize (CFloat.mk x).rawExp = e at he hlt ⊢
  have hsign : (x ||| (1 : CInt) <<< 47) &&& 0x8000000000000000 &&& maskLeft 16 =
      x &&& CFloat.fractSignMask := by
    rw [BitVec.and_or_distrib_right, show (1 : CInt) <<< 47 &&& 0x8000000000000000 = 0 by decide,
      BitVec.and_or_distrib_right, BitVec.and_assoc]
    exact BitVec.or_zero
  have hvalid : ((s3 - (0x6000 : CInt) <<< 48).slt 0 && !(s3 - (0x2002 : CInt) <<< 48).slt 0) =
      decide (e < 0x6000 ∧ e > 0x2001) := by
    rw [slt_zero_sub _ _ (by omega) (by decide), slt_zero_sub _ _ (by omega) (by decide), he,
      show ((0x6000 : CInt) <<< 48).toNat = 0x6000 * 2 ^ 48 by decide,
      show ((0x2002 : CInt) <<< 48).toNat = 0x2002 * 2 ^ 48 by decide]
    rw [Bool.eq_iff_iff]
    simp only [Bool.and_eq_true, decide_eq_true_eq, Bool.not_eq_true', decide_eq_false_iff_not]
    omega
  simp only [oldAssemble, hs3, hvalid, CFloat.ofParts, sign_part]
  by_cases hv : e < 0x6000 ∧ e > 0x2001
  · have hexp : (2 * CFloat.expOfs - (e : Int) - 1 - CFloat.expOfs + CFloat.expOfs) =
        ((0x8001 - e : Nat) : Int) - CFloat.expOfs + CFloat.expOfs := by
      rw [show CFloat.expOfs = 0x4001 from rfl]
      omega
    rw [if_pos hv, decide_eq_true hv, if_pos rfl, if_pos rfl, hexp, ofParts_exponent _ (by omega),
      BitVec.and_or_distrib_right, not_exponent he (by omega) hlt, hsign, hm, BitVec.or_comm]
  · have hexp : (0x6000 - CFloat.expOfs + CFloat.expOfs) =
        ((0x6000 : Nat) : Int) - CFloat.expOfs + CFloat.expOfs := rfl
    have hclear : m &&& ~~~((1 : CInt) <<< 47) &&& CFloat.fractMask =
        ~~~((1 : CInt) <<< 47) &&& m := by
      rw [BitVec.and_assoc, BitVec.and_comm (~~~_), ← BitVec.and_assoc, hm, BitVec.and_comm]
    rw [if_neg hv, decide_eq_false hv, if_neg (by decide), if_neg (by decide), hexp,
      ofParts_exponent _ (by decide), BitVec.and_or_distrib_right, max_exponent, hsign, hclear,
      BitVec.or_comm]

end assemble

/-! ## 6. The equivalence -/

theorem b2_lt (x : CInt) : (((x &&& CFloat.fractMask) ||| (1 : CInt) <<< 47) >>> 11).toNat < 2 ^ 37 := by
  have h : ((x &&& CFloat.fractMask) ||| (1 : CInt) <<< 47).toNat < 2 ^ 48 := by
    rw [BitVec.toNat_or]
    refine Nat.or_lt_two_pow ?_ (by decide)
    exact (CFloat.toNat_uFract ⟨x⟩).trans_lt (Nat.mod_lt _ (by decide))
  rw [toNat_shiftRight]
  omega

/-- **The reference terminates and computes the word of the rewritten version**, for every
    input word. -/
theorem oldReciprocApproxWord_eq (x : CInt) :
    oldReciprocApproxWord x = some (reciprocApproxWord x) := by
  have ha1 : oldA1 (lookupVal x >>> 18)
      (fractionalMult ((lookupVal x >>> 2) &&& 0xffff) ((x &&& CFloat.fractMask) >>> 24) 16) =
      reciprocA1 x := by
    rw [oldA1_eq]
    rfl
  have hsq : (reciprocA1 x * reciprocA1 x).toNat < 2 ^ 36 := by
    have h := reciprocA1_lt x
    rw [BitVec.toNat_mul]
    refine (Nat.mod_le _ _).trans_lt ?_
    calc (reciprocA1 x).toNat * (reciprocA1 x).toNat < 2 ^ 18 * 2 ^ 18 := Nat.mul_lt_mul'' h h
      _ = 2 ^ 36 := by decide
  have hloop := shiftAddWhile_low ((lookupVal x >>> 2) &&& 0xffff) ((x &&& CFloat.fractMask) >>> 24)
    16 (by decide)
  rw [← fractionalMult_eq] at hloop
  simp only [oldReciprocApproxWord, lookup_index, lookup_a0sq, mantissa_high]
  rw [show reciprocLookup.getD ((x >>> 40) &&& 127).toNat 0 = lookupVal x from rfl, hloop]
  simp only [Option.bind_eq_bind, Option.bind_some, ha1]
  rw [shiftAddWhile_square _ (reciprocA1_lt x), Option.bind_some, mantissa_b2,
    shiftLeft_shiftRight _ 12 52 rfl (by omega), oldProduct_eq _ _ (b2_lt x), oldMantissa_eq]
  have hcut : ∀ y : CInt, y &&& 0xffffffff8000 &&& CFloat.fractMask = y &&& 0xffffffff8000 :=
    fun y => by
      rw [BitVec.and_assoc]
      rfl
  exact congrArg some (oldAssemble_eq x _ (hcut _))

/-- **Both versions of the reciprocal approximation agree on every word**: normalized or not, of
    either sign, with any exponent. The loops of the reference end on all of them. -/
theorem oldReciprocApprox_eq_reciprocApprox (x : CFloat) :
    oldReciprocApprox x = some (reciprocApprox x) := by
  rw [oldReciprocApprox, oldReciprocApproxWord_eq]
  rfl

end CraySim
