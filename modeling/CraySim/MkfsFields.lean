/-
  Subject:   Fields of the words of a file system image.

  `IntField_T` of `mkfs_unicos.cpp`: a field is a range of the bits of a word, counted from the
  left, in a word whose bytes are stored in reverse.

  * `swapBytes` -- the bytes of a word in reverse,
  * `IntField` -- a field; its reading and its assignment,
  * `toNat_get_assign` -- what is read back,
  * `get_assign_of_apart` -- what is read beside it,
  * `get_assign_eq_iff` -- what is read from a field that shares bits with it.
-/
import CraySim.Types

namespace CraySim

namespace Mkfs

/-! ## 1. Words -/

/-- `SwapBytes` for 64 bits. -/
def swapBytes (aInput : CInt) : CInt :=
  aInput.extractLsb' 0 8 ++ aInput.extractLsb' 8 8 ++ aInput.extractLsb' 16 8 ++
    aInput.extractLsb' 24 8 ++ aInput.extractLsb' 32 8 ++ aInput.extractLsb' 40 8 ++
    aInput.extractLsb' 48 8 ++ aInput.extractLsb' 56 8

theorem getLsbD_swapBytes (x : CInt) {i : Nat} (hi : i < 64) :
    (swapBytes x).getLsbD i = x.getLsbD (8 * (7 - i / 8) + i % 8) := by
  have hbyte : ∀ k j, j < 8 → i = 8 * k + j → k < 8 →
      (x.extractLsb' (8 * (7 - k)) 8).getLsbD j = x.getLsbD (8 * (7 - i / 8) + i % 8) := by
    intro k j hj hij hk
    have hdiv : i / 8 = k := by omega
    have hmod : i % 8 = j := by omega
    rw [BitVec.getLsbD_extractLsb', decide_eq_true hj, Bool.true_and, hdiv, hmod]
  rw [swapBytes]
  simp only [BitVec.getLsbD_append]
  split
  · exact hbyte 0 i (by omega) (by omega) (by decide)
  split
  · exact hbyte 1 (i - 8) (by omega) (by omega) (by decide)
  split
  · exact hbyte 2 (i - 8 - 8) (by omega) (by omega) (by decide)
  split
  · exact hbyte 3 (i - 8 - 8 - 8) (by omega) (by omega) (by decide)
  split
  · exact hbyte 4 (i - 8 - 8 - 8 - 8) (by omega) (by omega) (by decide)
  split
  · exact hbyte 5 (i - 8 - 8 - 8 - 8 - 8) (by omega) (by omega) (by decide)
  split
  · exact hbyte 6 (i - 8 - 8 - 8 - 8 - 8 - 8) (by omega) (by omega) (by decide)
  · exact hbyte 7 (i - 8 - 8 - 8 - 8 - 8 - 8 - 8) (by omega) (by omega) (by decide)

/-- The bytes of a word in reverse, and in reverse again. -/
theorem swapBytes_twice (x : CInt) : swapBytes (swapBytes x) = x := by
  apply BitVec.eq_of_getLsbD_eq
  intro i hi
  rw [getLsbD_swapBytes _ hi, getLsbD_swapBytes _ (by omega)]
  congr 1
  omega

/-! ## 2. Fields -/

/-- Words of memory, by their address. -/
abbrev Words := Nat → CInt

/-- `IntField_T<tOfs, tFieldType, tStart, tSize>`, `tFieldType` being an unsigned type of so many
    digits. -/
structure IntField where
  tOfs : Nat
  digits : Nat
  tStart : Nat
  tSize : Nat
  fits : 0 < tSize ∧ tStart + tSize ≤ 64 ∧ digits ≤ 64

namespace IntField

/-- A field that is a word fits, and one that is its second half. -/
theorem fits_word : 0 < 64 ∧ 0 + 64 ≤ 64 ∧ 64 ≤ 64 := by decide

theorem fits_half : 0 < 32 ∧ 32 + 32 ≤ 64 ∧ 32 ≤ 64 := by decide

/-- The last bit of a field. -/
def endIdx (f : IntField) : Nat := f.tStart + f.tSize - 1

/-- `operator tFieldType()`. -/
def get (f : IntField) (mem : Words) (aBase : Nat) : BitVec f.digits :=
  (getBitsReverse (swapBytes (mem (aBase + f.tOfs))) f.tStart f.endIdx).setWidth f.digits

/-- `operator =`. -/
def assign (f : IntField) (mem : Words) (aBase : Nat) (aValue : BitVec f.digits) : Words :=
  let val :=
    setBitsReverse (swapBytes (mem (aBase + f.tOfs))) f.tStart f.endIdx (aValue.setWidth 64)
  Function.update mem (aBase + f.tOfs) (swapBytes val)

/-- Two fields share no bit. -/
def Apart (f g : IntField) : Prop :=
  f.tOfs ≠ g.tOfs ∨ f.tStart + f.tSize ≤ g.tStart ∨ g.tStart + g.tSize ≤ f.tStart

instance (f g : IntField) : Decidable (Apart f g) := inferInstanceAs (Decidable (_ ∨ _))

/-- A field loses nothing in a type with as many digits. -/
theorem setWidth_get_inj (lo : Nat) {n digits : Nat} (h : n ≤ digits) (x y : CInt) :
    (WordField.get lo n x).setWidth digits = (WordField.get lo n y).setWidth digits ↔
      WordField.get lo n x = WordField.get lo n y := by
  have hsmall : ∀ z : CInt, (WordField.get lo n z).toNat < 2 ^ digits := fun z => by
    rw [WordField.toNat_get]
    exact Nat.lt_of_lt_of_le (Nat.mod_lt _ (Nat.two_pow_pos _))
      (Nat.pow_le_pow_right (by decide) h)
  rw [← BitVec.toNat_inj, ← BitVec.toNat_inj, BitVec.toNat_setWidth, BitVec.toNat_setWidth,
    Nat.mod_eq_of_lt (hsmall x), Nat.mod_eq_of_lt (hsmall y)]

section laws
variable (f g : IntField) (mem : Words) (aBase : Nat) (aValue : BitVec f.digits)

theorem get_eq : f.get mem aBase = (WordField.get (64 - f.tStart - f.tSize) f.tSize
    (swapBytes (mem (aBase + f.tOfs)))).setWidth f.digits := by
  obtain ⟨hsize, hfits, -⟩ := f.fits
  have hlo : 63 - f.endIdx = 64 - f.tStart - f.tSize := by rw [endIdx]; omega
  have hwidth : 63 - f.tStart - (64 - f.tStart - f.tSize) + 1 = f.tSize := by omega
  rw [get, getBitsReverse_eq_get _ (by rw [endIdx]; omega), hlo, hwidth]

theorem get_congr {f : IntField} {mem mem' : Words} {a a' : Nat}
    (h : mem' (a' + f.tOfs) = mem (a + f.tOfs)) : f.get mem' a' = f.get mem a := by
  rw [get, get, h]

theorem toNat_get_lt : (f.get mem aBase).toNat < 2 ^ f.tSize := by
  rw [get_eq, BitVec.toNat_setWidth, WordField.toNat_get]
  exact Nat.lt_of_le_of_lt (Nat.mod_le _ _) (Nat.mod_lt _ (Nat.two_pow_pos _))

theorem getLsbD_get {i : Nat} (hi : i < f.tSize) (hdigits : i < f.digits) :
    (f.get mem aBase).getLsbD i =
      (swapBytes (mem (aBase + f.tOfs))).getLsbD (64 - f.tStart - f.tSize + i) := by
  rw [get_eq, BitVec.getLsbD_setWidth, WordField.getLsbD_get, decide_eq_true hdigits,
    decide_eq_true hi, Bool.true_and, Bool.true_and]

theorem assign_word : swapBytes (f.assign mem aBase aValue (aBase + f.tOfs)) =
    WordField.put (64 - f.tStart - f.tSize) f.tSize (aValue.setWidth 64)
      (swapBytes (mem (aBase + f.tOfs))) := by
  obtain ⟨hsize, hfits, -⟩ := f.fits
  have hlo : 63 - f.endIdx = 64 - f.tStart - f.tSize := by rw [endIdx]; omega
  have hwidth : 63 - f.tStart - (64 - f.tStart - f.tSize) + 1 = f.tSize := by omega
  rw [assign, Function.update_self, swapBytes_twice,
    setBitsReverse_eq_put _ _ (by rw [endIdx]; omega), hlo, hwidth]

theorem assign_of_ne {addr : Nat} (h : addr ≠ aBase + f.tOfs) :
    f.assign mem aBase aValue addr = mem addr :=
  Function.update_of_ne h _ _

/-- **What was assigned is read back, cut to the field.** -/
theorem toNat_get_assign :
    (f.get (f.assign mem aBase aValue) aBase).toNat = aValue.toNat % 2 ^ f.tSize := by
  obtain ⟨-, hfits, hdigits⟩ := f.fits
  have hvalue : aValue.toNat < 2 ^ 64 :=
    Nat.lt_of_lt_of_le aValue.isLt (Nat.pow_le_pow_right (by decide) hdigits)
  have hsmall : aValue.toNat % 2 ^ f.tSize < 2 ^ f.digits :=
    Nat.lt_of_le_of_lt (Nat.mod_le _ _) aValue.isLt
  rw [get_eq, assign_word, WordField.get_put _ _ _ _ (by omega), BitVec.toNat_setWidth,
    WordField.toNat_and_mask, BitVec.toNat_setWidth, Nat.mod_eq_of_lt hvalue,
    Nat.mod_eq_of_lt hsmall]

/-- **A field that shares no bit with the one assigned is unchanged.** -/
theorem get_assign_of_apart (h : f.Apart g) :
    g.get (f.assign mem aBase aValue) aBase = g.get mem aBase := by
  obtain ⟨-, hfits, -⟩ := f.fits
  obtain ⟨-, hfits', -⟩ := g.fits
  by_cases hofs : g.tOfs = f.tOfs
  · rw [get_eq, get_eq, hofs, assign_word]
    rw [WordField.get_put_of_disjoint]
    rcases h with hne | hleft | hright
    · exact absurd hofs.symm hne
    · omega
    · omega
  · rw [get_eq, get_eq, assign_of_ne _ _ _ _ (by omega)]

/-- A field in the word of the one assigned is unchanged exactly when the bits they share agree. -/
theorem get_assign_eq_iff (hofs : g.tOfs = f.tOfs) (hdigits : g.tSize ≤ g.digits) :
    g.get (f.assign mem aBase aValue) aBase = g.get mem aBase ↔
      ∀ i, 64 - f.tStart - f.tSize ≤ i → i < 64 - f.tStart → 64 - g.tStart - g.tSize ≤ i →
        i < 64 - g.tStart →
          aValue.getLsbD (i - (64 - f.tStart - f.tSize)) =
            (g.get mem aBase).getLsbD (i - (64 - g.tStart - g.tSize)) := by
  obtain ⟨-, hfits, hvalue⟩ := f.fits
  obtain ⟨-, hfits', -⟩ := g.fits
  have hword : g.get (f.assign mem aBase aValue) aBase = g.get mem aBase ↔
      WordField.get (64 - g.tStart - g.tSize) g.tSize (WordField.put (64 - f.tStart - f.tSize)
        f.tSize (aValue.setWidth 64) (swapBytes (mem (aBase + f.tOfs)))) =
      WordField.get (64 - g.tStart - g.tSize) g.tSize (swapBytes (mem (aBase + f.tOfs))) := by
    rw [get_eq, get_eq, hofs, assign_word]
    exact setWidth_get_inj _ hdigits _ _
  have hbit : ∀ i, i < 64 → (aValue.setWidth 64).getLsbD i = aValue.getLsbD i := fun i hi => by
    rw [BitVec.getLsbD_setWidth, decide_eq_true hi, Bool.true_and]
  have hbit' : ∀ i, 64 - g.tStart - g.tSize ≤ i → i < 64 - g.tStart →
      (g.get mem aBase).getLsbD (i - (64 - g.tStart - g.tSize)) =
        (swapBytes (mem (aBase + f.tOfs))).getLsbD i := fun i hlo hhi => by
    have hback : 64 - g.tStart - g.tSize + (i - (64 - g.tStart - g.tSize)) = i := by omega
    rw [getLsbD_get _ _ _ (by omega) (by omega), hback, hofs]
  have hshared := WordField.get_put_eq_iff (64 - f.tStart - f.tSize) f.tSize
    (64 - g.tStart - g.tSize) g.tSize (aValue.setWidth 64) (swapBytes (mem (aBase + f.tOfs)))
  rw [hword, hshared]
  constructor
  · intro h i hlo hhi hlo' hhi'
    rw [← hbit _ (by omega), hbit' i hlo' hhi']
    exact h i hlo (by omega) hlo' (by omega) (by omega)
  · intro h i hlo hhi hlo' hhi' hi
    rw [hbit _ (by omega), ← hbit' i hlo' (by omega)]
    exact h i hlo (by omega) hlo' (by omega)

end laws

end IntField

end Mkfs

end CraySim
