/-
  Subject:   The shifts of an IOP and the quantity of 17 bits they are about.

  `cray_iop.cpp`. The carry stands in front of the accumulator. A rotation shifts three copies of
  the two; to the left it shifts up first, and amounts above 17 move the lowest copy past the place
  where the result is taken.

  * `Registers.word` -- the carry and the accumulator as one word,
  * `ShiftsWord` -- what the shifts and rotations are for,
  * `EndsClear` -- the bits of the word that a rotation to the left may lose are zero,
  * `iop_shifts_iff` -- **the shifts do what they are for exactly there**.
-/
import CraySim.IopCpu

namespace CraySim

namespace Registers

/-! ## 1. The word of 17 bits -/

/-- The carry and the accumulator. -/
def word (r : Registers) : BitVec 17 := r.Carry ++ r.A

section word
variable (r : Registers)

theorem refC_A_eq : r.refC_A = r.word.setWidth 32 := rfl

theorem ext_word {r r' : Registers} (hword : r.word = r'.word) (hB : r.B = r'.B)
    (hor : r.OperandRegisters = r'.OperandRegisters) : r = r' := by
  have hcarry := congrArg (BitVec.extractLsb' 16 1) hword
  have hA := congrArg (BitVec.extractLsb' 0 16) hword
  rw [word, word, BitVec.extractLsb'_append_eq_left, BitVec.extractLsb'_append_eq_left] at hcarry
  rw [word, word, BitVec.extractLsb'_append_eq_right, BitVec.extractLsb'_append_eq_right] at hA
  obtain ⟨A, Carry, B, OperandRegisters⟩ := r
  obtain ⟨A', Carry', B', OperandRegisters'⟩ := r'
  simp only at hcarry hA hB hor
  rw [hcarry, hA, hB, hor]

@[simp] theorem word_setC_A (v : BitVec 32) : (r.setC_A v).word = v.setWidth 17 := by
  apply BitVec.eq_of_getLsbD_eq
  intro i hi
  rw [word, setC_A, BitVec.getLsbD_append]
  simp only [BitVec.getLsbD_setWidth, BitVec.getLsbD_ushiftRight, decide_eq_true hi,
    Bool.true_and]
  split
  · next h => rw [decide_eq_true h, Bool.true_and]
  · next h =>
    rw [decide_eq_true (show i - 16 < 1 by omega), Bool.true_and,
      show 16 + (i - 16) = i by omega]

theorem refC_A_lt : r.refC_A.toNat < 2 ^ 17 := by
  rw [refC_A_eq, BitVec.toNat_setWidth, Nat.mod_eq_of_lt (by have := r.word.isLt; omega)]
  exact r.word.isLt

/-! ## 2. Shifts -/

theorem word_mShiftRight (n : IopInt) : (r.mShiftRight n).word = r.word >>> n.toNat := by
  rw [mShiftRight, word_setC_A]
  apply BitVec.eq_of_getLsbD_eq
  intro i hi
  have hn : n > 16 ↔ 16 < n.toNat := Iff.rfl
  split
  · next h =>
    rw [BitVec.getLsbD_setWidth, BitVec.getLsbD_ushiftRight,
      BitVec.getLsbD_of_ge r.word _ (by have := hn.mp h; omega)]
    simp
  · rw [BitVec.getLsbD_setWidth, decide_eq_true hi, Bool.true_and, BitVec.getLsbD_ushiftRight,
      BitVec.getLsbD_ushiftRight, refC_A_eq, BitVec.getLsbD_setWidth]
    by_cases hin : n.toNat + i < 32
    · rw [decide_eq_true hin, Bool.true_and]
    · rw [decide_eq_false hin, Bool.false_and, BitVec.getLsbD_of_ge _ _ (by omega)]

theorem word_mShiftLeft (n : IopInt) : (r.mShiftLeft n).word = r.word <<< n.toNat := by
  rw [mShiftLeft, word_setC_A]
  apply BitVec.eq_of_getLsbD_eq
  intro i hi
  have hn : n > 17 ↔ 17 < n.toNat := Iff.rfl
  split
  · next h =>
    have hlow : i < n.toNat := by have := hn.mp h; omega
    rw [BitVec.getLsbD_setWidth, BitVec.getLsbD_shiftLeft, decide_eq_true hlow]
    simp
  · rw [BitVec.getLsbD_setWidth, decide_eq_true hi, Bool.true_and, BitVec.getLsbD_shiftLeft,
      BitVec.getLsbD_shiftLeft, decide_eq_true hi, decide_eq_true (show i < 32 by omega),
      refC_A_eq, BitVec.getLsbD_setWidth, decide_eq_true (show i - n.toNat < 32 by omega),
      Bool.true_and, Bool.true_and]

/-! ## 3. Rotations -/

theorem getLsbD_threefold (j : Nat) :
    r.threefold.getLsbD j = (decide (j < 51) && r.word.getLsbD (j % 17)) := by
  have hhigh : ∀ i, 17 ≤ i → r.word.getLsbD i = false := fun i hi => BitVec.getLsbD_of_ge _ _ hi
  have hdata : ∀ i, (r.refC_A.setWidth 64).getLsbD i = r.word.getLsbD i := by
    intro i
    rw [BitVec.getLsbD_setWidth, refC_A_eq, BitVec.getLsbD_setWidth]
    by_cases hi : i < 17
    · rw [decide_eq_true (show i < 64 by omega), decide_eq_true (show i < 32 by omega),
        Bool.true_and, Bool.true_and]
    · rw [hhigh i (by omega), Bool.and_false, Bool.and_false]
  rw [threefold, BitVec.getLsbD_or, BitVec.getLsbD_or, BitVec.getLsbD_shiftLeft,
    BitVec.getLsbD_shiftLeft, hdata, hdata, hdata]
  by_cases h51 : j < 51
  · rw [decide_eq_true (show j < 64 by omega), decide_eq_true h51]
    simp only [Bool.true_and]
    by_cases h17 : j < 17
    · rw [decide_eq_true (show j < 34 by omega), decide_eq_true h17, Nat.mod_eq_of_lt h17]
      simp
    · rw [decide_eq_false h17, hhigh j (by omega)]
      by_cases h34 : j < 34
      · rw [decide_eq_true h34, show j % 17 = j - 17 by omega]
        simp
      · rw [decide_eq_false h34, hhigh (j - 17) (by omega), show j % 17 = j - 34 by omega]
        simp
  · rw [decide_eq_false h51, hhigh (j - 34) (by omega), hhigh (j - 17) (by omega),
      hhigh j (by omega)]
    simp

/-- By how much a rotation shifts. -/
def rotation (n : IopInt) : Nat := (n &&& 0x1f).toNat

theorem rotation_lt (n : IopInt) : rotation n < 32 := by
  rw [rotation, BitVec.toNat_and]
  exact Nat.lt_of_le_of_lt Nat.and_le_right (by decide)

theorem getLsbD_mRotateRight (n : IopInt) {i : Nat} (hi : i < 17) :
    (r.mRotateRight n).word.getLsbD i = r.word.getLsbD ((i + rotation n) % 17) := by
  have hm := rotation_lt n
  rw [mRotateRight, word_setC_A, BitVec.getLsbD_setWidth, BitVec.getLsbD_setWidth,
    BitVec.getLsbD_ushiftRight, getLsbD_threefold, decide_eq_true hi,
    decide_eq_true (show i < 32 by omega)]
  rw [show (n &&& 0x1f).toNat = rotation n from rfl, Nat.add_comm (rotation n) i,
    decide_eq_true (show i + rotation n < 51 by omega)]
  simp only [Bool.true_and]

/-- To the left zeros come in behind the lowest copy. -/
theorem getLsbD_mRotateLeft (n : IopInt) {i : Nat} (hi : i < 17) :
    (r.mRotateLeft n).word.getLsbD i =
      (!decide (17 + i < rotation n) && r.word.getLsbD ((17 + i - rotation n) % 17)) := by
  rw [mRotateLeft, word_setC_A, BitVec.getLsbD_setWidth, BitVec.getLsbD_setWidth,
    BitVec.getLsbD_ushiftRight, BitVec.getLsbD_shiftLeft, getLsbD_threefold, decide_eq_true hi,
    decide_eq_true (show i < 32 by omega), decide_eq_true (show 17 + i < 64 by omega)]
  rw [show (n &&& 0x1f).toNat = rotation n from rfl,
    decide_eq_true (show 17 + i - rotation n < 51 by omega)]
  simp only [Bool.true_and]

theorem word_mRotateRight (n : IopInt) :
    (r.mRotateRight n).word = r.word.rotateRight (rotation n % 17) := by
  apply BitVec.eq_of_getLsbD_eq
  intro i hi
  have hm := rotation_lt n
  rw [getLsbD_mRotateRight _ _ hi, BitVec.getLsbD_rotateRight, Nat.mod_mod]
  by_cases hlow : i < 17 - rotation n % 17
  · rw [decide_eq_true hlow, cond_true]
    congr 1
    omega
  · rw [decide_eq_false hlow, cond_false, decide_eq_true hi, Bool.true_and]
    congr 1
    omega

theorem getLsbD_rotateLeft (w : BitVec 17) {m i : Nat} (hm : m < 32) (hi : i < 17) :
    (w.rotateLeft (m % 17)).getLsbD i = w.getLsbD ((34 + i - m) % 17) := by
  rw [BitVec.getLsbD_rotateLeft, Nat.mod_mod]
  by_cases hlow : i < m % 17
  · rw [decide_eq_true hlow, cond_true]
    congr 1
    omega
  · rw [decide_eq_false hlow, cond_false, decide_eq_true hi, Bool.true_and]
    congr 1
    omega

/-- It is a rotation exactly where the bits that do not come around are zero. -/
theorem word_mRotateLeft_iff (n : IopInt) :
    (r.mRotateLeft n).word = r.word.rotateLeft (rotation n % 17) ↔
      ∀ i < rotation n - 17, r.word.getLsbD (16 - i) = false := by
  have hm := rotation_lt n
  constructor
  · intro heq i hi
    have hbit := congrArg (BitVec.getLsbD · (rotation n - 18 - i)) heq
    rw [getLsbD_mRotateLeft _ _ (by omega), getLsbD_rotateLeft _ hm (by omega),
      decide_eq_true (by omega), show (34 + (rotation n - 18 - i) - rotation n) % 17 = 16 - i
        by omega] at hbit
    exact hbit.symm
  · intro hzero
    apply BitVec.eq_of_getLsbD_eq
    intro i hi
    rw [getLsbD_mRotateLeft _ _ hi, getLsbD_rotateLeft _ hm hi]
    by_cases hlost : 17 + i < rotation n
    · have hbit := hzero (rotation n - 18 - i) (by omega)
      rw [decide_eq_true hlost, show (34 + i - rotation n) % 17 = 16 - (rotation n - 18 - i) by omega,
        hbit]
      rfl
    · rw [decide_eq_false hlost, show (34 + i - rotation n) % 17 = (17 + i - rotation n) % 17
        by omega]
      rfl

/-- Back to the right after a rotation to the left. -/
theorem mRotateRight_mRotateLeft (n : IopInt)
    (hleft : (r.mRotateLeft n).word = r.word.rotateLeft (rotation n % 17)) :
    (r.mRotateLeft n).mRotateRight n = r := by
  refine ext_word ?_ rfl rfl
  apply BitVec.eq_of_getLsbD_eq
  intro i hi
  have hm := rotation_lt n
  rw [getLsbD_mRotateRight _ _ hi, hleft, getLsbD_rotateLeft _ hm (Nat.mod_lt _ (by decide))]
  congr 1
  omega

/-- Back to the left after a rotation to the right. -/
theorem mRotateLeft_mRotateRight_iff (n : IopInt) :
    (r.mRotateRight n).mRotateLeft n = r ↔ ∀ i < rotation n - 17, r.word.getLsbD i = false := by
  have hm := rotation_lt n
  have hbit : ∀ i < 17, ((r.mRotateRight n).mRotateLeft n).word.getLsbD i =
      (!decide (17 + i < rotation n) && r.word.getLsbD i) := by
    intro i hi
    rw [getLsbD_mRotateLeft _ _ hi, getLsbD_mRotateRight _ _ (Nat.mod_lt _ (by decide))]
    by_cases hlost : 17 + i < rotation n
    · rw [decide_eq_true hlost]
      rfl
    · rw [show ((17 + i - rotation n) % 17 + rotation n) % 17 = i by omega]
  constructor
  · intro heq i hi
    have hone := hbit i (by omega)
    rw [heq, decide_eq_true (by omega)] at hone
    exact hone
  · intro hzero
    refine ext_word ?_ rfl rfl
    apply BitVec.eq_of_getLsbD_eq
    intro i hi
    rw [hbit i hi]
    by_cases hlost : 17 + i < rotation n
    · rw [decide_eq_true hlost, hzero i (by omega)]
      rfl
    · rw [decide_eq_false hlost]
      rfl

end word

end Registers

/-! ## 4. What the shifts are for -/

open Registers

/-- Rotations are cyclic and undo each other, shifts move zeros in, and what they leave is a carry
    of one bit and an accumulator of sixteen. -/
structure ShiftsWord (r : Registers) (n : IopInt) : Prop where
  rotateLeft : (r.mRotateLeft n).word = r.word.rotateLeft (rotation n % 17)
  rotateRight : (r.mRotateRight n).word = r.word.rotateRight (rotation n % 17)
  backRight : (r.mRotateLeft n).mRotateRight n = r
  backLeft : (r.mRotateRight n).mRotateLeft n = r
  shiftLeft : (r.mShiftLeft n).word = r.word <<< n.toNat
  shiftRight : (r.mShiftRight n).word = r.word >>> n.toNat
  fits : ∀ r' ∈ [r.mRotateLeft n, r.mRotateRight n, r.mShiftLeft n, r.mShiftRight n],
    r'.refC_A.toNat < 2 ^ 17 ∧ r'.B = r.B ∧ r'.OperandRegisters = r.OperandRegisters

/-- A rotation by more than 17 finds zeros in the bits it moves once around, at both ends. -/
def EndsClear (r : Registers) (n : IopInt) : Prop :=
  ∀ i < rotation n - 17, r.word.getLsbD i = false ∧ r.word.getLsbD (16 - i) = false

/-- **The shifts of an IOP**: for every carry, accumulator and amount they do what they are for
    exactly where a rotation by more than 17 finds the ends of the word clear. -/
theorem iop_shifts_iff (r : Registers) (n : IopInt) : ShiftsWord r n ↔ EndsClear r n := by
  constructor
  · intro h i hi
    exact ⟨(mRotateLeft_mRotateRight_iff r n).mp h.backLeft i hi,
      (word_mRotateLeft_iff r n).mp h.rotateLeft i hi⟩
  · intro h
    have hleft := (word_mRotateLeft_iff r n).mpr fun i hi => (h i hi).2
    refine ⟨hleft, word_mRotateRight r n, mRotateRight_mRotateLeft r n hleft,
      (mRotateLeft_mRotateRight_iff r n).mpr fun i hi => (h i hi).1, word_mShiftLeft r n,
      word_mShiftRight r n, ?_⟩
    intro r' hr'
    simp only [List.mem_cons, List.not_mem_nil, or_false] at hr'
    rcases hr' with rfl | rfl | rfl | rfl <;> exact ⟨refC_A_lt _, rfl, rfl⟩

/-- A carry, rotated to the left by 18. -/
theorem not_shifts_word_18 :
    ¬ ∀ (r : Registers) (n : IopInt), ShiftsWord r n := by
  intro hall
  have h := (hall { A := 0, Carry := 1, B := 0, OperandRegisters := fun _ => 0 } 18).rotateLeft
  revert h
  decide

end CraySim
