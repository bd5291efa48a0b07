/-
  Subject:   The floating point unit does not distinguish its operands.

  The multiplier halves one operand and reads the other one bit by bit, the adder shifts the
  operand with the smaller exponent. Neither depends on which operand is which.

  * `multLoop_comm` -- the partial products the multiplier drops are the same ones,
  * `mult_comm`, `CFloat.add_comm` -- all uses of the multiplier, and the adder,
  * `float_commutative` -- for all pairs of words.
-/
import CraySim.Division

namespace CraySim

/-! ## 1. The multiplier -/

theorem rawProduct_comm {a b : Nat} (ha : a < 2 ^ 48) (hb : b < 2 ^ 48) :
    rawProduct a b = rawProduct b a :=
  ShiftAdd.sum_comm 48 8 ha hb

theorem multLoop_comm (a b : CFloat) :
    multLoop (a.uFract <<< 8) (b.uFract <<< 8) = multLoop (b.uFract <<< 8) (a.uFract <<< 8) := by
  have ha := toNat_uFract_lt a
  have hb := toNat_uFract_lt b
  rw [multLoop_eq _ _ ha, multLoop_eq _ _ hb, rawProduct_comm ha hb]

/-- **`Mult` is symmetric**, in each of its modes and with integer operands too. -/
theorem mult_comm (a b : CFloat) (aDoRounding aHalfPrecision aTwoMinus : Bool) :
    mult a b aDoRounding aHalfPrecision aTwoMinus =
      mult b a aDoRounding aHalfPrecision aTwoMinus := by
  unfold mult
  dsimp only
  generalize (if a.rawExp = 0 then a else a.underflowOrValue) = x
  generalize (if b.rawExp = 0 then b else b.underflowOrValue) = y
  have hint : (x.rawExp = 0 ∧ y.rawExp = 0) = (y.rawExp = 0 ∧ x.rawExp = 0) := propext And.comm
  have hsign : (x.isPositive == y.isPositive) = (y.isPositive == x.isPositive) := Bool.beq_comm
  have hexp : x.exp + y.exp = y.exp + x.exp := Int.add_comm _ _
  by_cases hx : x.value = 0
  · by_cases hy : y.value = 0
    · rw [if_pos hx, if_pos hy]
    · rw [if_pos hx, if_neg hy, if_pos hx]
  · by_cases hy : y.value = 0
    · rw [if_neg hx, if_pos hy, if_pos hy]
    · rw [if_neg hx, if_neg hy, if_neg hx, if_neg hy]
      simp only [multLoop_comm x y, hint, hsign, hexp]

/-! ## 2. The adder -/

/-- Sign and magnitude of the sum of two signed fractions, as `operator +` finds them. -/
theorem signedSum_comm (p q : Bool) (fractA fractB : CInt) :
    (if p == q then (fractA + fractB, p)
      else if (if p then fractA - fractB else fractB - fractA).slt 0 then
        (-(if p then fractA - fractB else fractB - fractA), false)
      else (if p then fractA - fractB else fractB - fractA, true)) =
    (if q == p then (fractB + fractA, q)
      else if (if q then fractB - fractA else fractA - fractB).slt 0 then
        (-(if q then fractB - fractA else fractA - fractB), false)
      else (if q then fractB - fractA else fractA - fractB, true)) := by
  have hcomm : fractA + fractB = fractB + fractA := BitVec.add_comm _ _
  rcases p with - | -
  · rcases q with - | -
    · exact congrArg (·, false) hcomm
    · rfl
  · rcases q with - | -
    · rfl
    · exact congrArg (·, true) hcomm

/-- **`operator +` is symmetric**: the operand with the smaller exponent is shifted, wherever it
    stands, and a difference is taken from the positive operand. -/
theorem CFloat.add_comm (a b : CFloat) : a.add b = b.add a := by
  rw [CFloat.add, CFloat.add]
  generalize a.underflowOrValue = x
  generalize b.underflowOrValue = y
  have hexp : (if x.exp > y.exp then x.exp else y.exp) = if y.exp > x.exp then y.exp else x.exp := by
    split <;> split <;> omega
  rw [hexp, signedSum_comm]

/-! ## 3. On words -/

/-- **Multiplication and addition are commutative**: the four uses of the multiplier and the
    adder return the same word with their operands exchanged, for all words. -/
theorem float_commutative (a b : CInt) :
    (CFloat.mul ⟨a⟩ ⟨b⟩).value = (CFloat.mul ⟨b⟩ ⟨a⟩).value ∧
      (roundedMult ⟨a⟩ ⟨b⟩).value = (roundedMult ⟨b⟩ ⟨a⟩).value ∧
      (halfPrecisionMult ⟨a⟩ ⟨b⟩).value = (halfPrecisionMult ⟨b⟩ ⟨a⟩).value ∧
      (reciprocIterate ⟨a⟩ ⟨b⟩).value = (reciprocIterate ⟨b⟩ ⟨a⟩).value ∧
      (CFloat.add ⟨a⟩ ⟨b⟩).value = (CFloat.add ⟨b⟩ ⟨a⟩).value := by
  have hmult := fun r h t => congrArg CFloat.value (mult_comm ⟨a⟩ ⟨b⟩ r h t)
  exact ⟨hmult _ _ _, hmult _ _ _, hmult _ _ _, hmult _ _ _,
    congrArg CFloat.value (CFloat.add_comm ⟨a⟩ ⟨b⟩)⟩

end CraySim
