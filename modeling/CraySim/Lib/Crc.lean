/-
  Subject:   Cyclic redundancy checks as division of polynomials over the field of two elements.

  * `regPoly`, `bitsPoly` -- what a register and a list of bits stand for,
  * `generator` -- the polynomial of a check, given by its lower coefficients,
  * `sumBack_eq_iff` -- it is right where the generator divides message and check,
  * `not_dvd_of_burst` -- an error within as many bits as the register has is found.
-/
import Mathlib.Algebra.Polynomial.Monic
import Mathlib.Algebra.Polynomial.RingDivision
import Mathlib.Algebra.Polynomial.FieldDivision
import Mathlib.Algebra.CharP.Two
import Mathlib.Algebra.Field.ZMod
import Mathlib.Data.List.GetD
import Mathlib.Tactic.LinearCombination

open Polynomial

namespace Crc

/-! ## 1. Registers and messages -/

/-- A bit as a coefficient. -/
def bit (b : Bool) : ZMod 2 := if b then 1 else 0

theorem bit_xor (a b : Bool) : bit (a ^^ b) = bit a + bit b := by
  cases a <;> cases b <;> decide

theorem bit_injective : Function.Injective bit := by
  intro a b h
  cases a <;> cases b <;> first | rfl | exact absurd h (by decide)

variable {w : Nat}

/-- The polynomial of a register: the least significant bit is the constant coefficient. -/
noncomputable def regPoly (v : BitVec w) : (ZMod 2)[X] :=
  ∑ i ∈ Finset.range w, monomial i (bit (v.getLsbD i))

theorem coeff_regPoly (v : BitVec w) (i : Nat) : (regPoly v).coeff i = bit (v.getLsbD i) := by
  rw [regPoly, finsetSum_coeff]
  simp only [coeff_monomial]
  rw [Finset.sum_ite_eq']
  split
  · rfl
  · rename_i hi
    rw [BitVec.getLsbD_of_ge v i (by simpa using hi)]
    rfl

theorem regPoly_zero : regPoly (0#w) = 0 := by
  ext i
  rw [coeff_regPoly, BitVec.getLsbD_zero, coeff_zero]
  rfl

theorem regPoly_xor (a b : BitVec w) : regPoly (a ^^^ b) = regPoly a + regPoly b := by
  ext i
  rw [coeff_add, coeff_regPoly, coeff_regPoly, coeff_regPoly, BitVec.getLsbD_xor, bit_xor]

theorem degree_regPoly_lt (v : BitVec w) : (regPoly v).degree < w := by
  rw [degree_lt_iff_coeff_zero]
  intro i hi
  rw [coeff_regPoly, BitVec.getLsbD_of_ge v i hi]
  rfl

theorem regPoly_eq_zero_iff {v : BitVec w} : regPoly v = 0 ↔ v = 0#w := by
  refine ⟨fun h => BitVec.eq_of_getLsbD_eq fun i hi => ?_, fun h => h ▸ regPoly_zero⟩
  have hcoeff := congrArg (fun p => coeff p i) h
  simp only [coeff_regPoly, coeff_zero] at hcoeff
  rw [BitVec.getLsbD_zero]
  exact bit_injective hcoeff

/-- The polynomial of a message: the last bit is the constant coefficient. -/
noncomputable def bitsPoly : List Bool → (ZMod 2)[X]
  | [] => 0
  | b :: bits => monomial bits.length (bit b) + bitsPoly bits

theorem bitsPoly_nil : bitsPoly [] = 0 := rfl

theorem bitsPoly_cons (b : Bool) (bits : List Bool) :
    bitsPoly (b :: bits) = monomial bits.length (bit b) + bitsPoly bits := rfl

theorem coeff_bitsPoly (bits : List Bool) (i : Nat) :
    (bitsPoly bits).coeff i = bit (bits.reverse.getD i false) := by
  induction bits with
  | nil => rfl
  | cons b bits ih =>
    rw [bitsPoly_cons, coeff_add, ih, coeff_monomial, List.reverse_cons]
    rcases Nat.lt_trichotomy i bits.length with hi | rfl | hi
    · rw [if_neg hi.ne', zero_add, List.getD_append _ _ _ _ (by simpa using hi)]
    · rw [if_pos rfl, List.getD_append_right _ _ _ _ (by simp), List.getD_eq_default _ _ (by simp),
        List.length_reverse, Nat.sub_self]
      exact add_zero _
    · rw [if_neg hi.ne, zero_add, List.getD_eq_default _ _ (by simpa using hi.le),
        List.getD_eq_default _ _ (by simpa using hi)]

theorem bitsPoly_append (a b : List Bool) :
    bitsPoly (a ++ b) = bitsPoly a * X ^ b.length + bitsPoly b := by
  induction a with
  | nil => rw [List.nil_append, bitsPoly_nil, zero_mul, zero_add]
  | cons c a ih =>
    rw [List.cons_append, bitsPoly_cons, ih, bitsPoly_cons, List.length_append, add_mul, add_assoc,
      monomial_mul_X_pow]

theorem bitsPoly_singleton (b : Bool) : bitsPoly [b] = C (bit b) := by
  rw [bitsPoly_cons, bitsPoly_nil, add_zero]
  rfl

theorem degree_bitsPoly_lt (bits : List Bool) : (bitsPoly bits).degree < bits.length := by
  rw [degree_lt_iff_coeff_zero]
  intro i hi
  rw [coeff_bitsPoly, List.getD_eq_default _ _ (by simpa using hi)]
  rfl

theorem bitsPoly_injective {a b : List Bool} (hlength : a.length = b.length)
    (h : bitsPoly a = bitsPoly b) : a = b := by
  refine List.reverse_injective (List.ext_getElem (by simpa using hlength) fun i hi hi' => ?_)
  have hcoeff := congrArg (fun p => coeff p i) h
  simp only [coeff_bitsPoly] at hcoeff
  have hbit := bit_injective hcoeff
  rwa [List.getD_eq_getElem _ _ hi, List.getD_eq_getElem _ _ hi'] at hbit

theorem bitsPoly_eq_zero_iff {bits : List Bool} : bitsPoly bits = 0 ↔ ∀ b ∈ bits, b = false := by
  have hzeros : ∀ n, bitsPoly (List.replicate n false) = 0 := by
    intro n
    ext i
    rw [coeff_bitsPoly, List.reverse_replicate, List.getD_eq_getElem?_getD,
      List.getElem?_getD_replicate_default_eq]
    rfl
  constructor
  · intro h
    have hall := bitsPoly_injective (List.length_replicate).symm (h.trans (hzeros bits.length).symm)
    exact fun b hb => List.eq_of_mem_replicate (hall ▸ hb)
  · intro h
    rw [List.eq_replicate_of_mem h]
    exact hzeros bits.length

theorem regPoly_eq_bitsPoly {v : BitVec w} {bits : List Bool}
    (h : ∀ i, v.getLsbD i = bits.reverse.getD i false) : regPoly v = bitsPoly bits := by
  ext i
  rw [coeff_regPoly, coeff_bitsPoly, h]

/-! ## 2. The generator -/

variable (g : BitVec w)

/-- The generator whose coefficients below `X ^ w` are those of a register. -/
noncomputable def generator : (ZMod 2)[X] := X ^ w + regPoly g

theorem degree_generator : (generator g).degree = w := by
  rw [generator, add_comm, degree_add_eq_right_of_degree_lt] <;> rw [degree_X_pow]
  exact degree_regPoly_lt g

/-- Nothing below the generator is a multiple of it. -/
theorem eq_zero_of_dvd {p : (ZMod 2)[X]} (hdegree : p.degree < w) (h : generator g ∣ p) : p = 0 :=
  eq_zero_of_dvd_of_degree_lt h (degree_generator g ▸ hdegree)

/-- Registers are equal where the generator divides their sum. -/
theorem eq_iff_dvd_add (a b : BitVec w) : a = b ↔ generator g ∣ regPoly a + regPoly b := by
  rw [← regPoly_xor]
  constructor
  · rintro rfl
    rw [BitVec.xor_self, regPoly_zero]
    exact dvd_zero _
  · intro h
    have hzero := regPoly_eq_zero_iff.mp (eq_zero_of_dvd g (degree_regPoly_lt _) h)
    exact BitVec.xor_eq_zero_iff.mp hzero

/-! ## 3. The check of a message -/

/-- A register shifted by one place; what is shifted out is fed back. -/
def shiftStep (v : BitVec w) : BitVec w := if v.msb then (v <<< 1) ^^^ g else v <<< 1

theorem X_mul_regPoly (v : BitVec w) :
    X * regPoly v = C (bit v.msb) * X ^ w + regPoly (v <<< 1) := by
  ext i
  rw [coeff_add, coeff_C_mul_X_pow, coeff_regPoly, BitVec.getLsbD_shiftLeft]
  cases i with
  | zero =>
    rw [coeff_X_mul_zero]
    by_cases hw : w = 0
    · subst hw
      rw [BitVec.of_length_zero (x := v)]
      rfl
    · rw [if_neg (Ne.symm hw)]
      simp [bit]
  | succ i =>
    rw [coeff_X_mul, coeff_regPoly]
    rcases Nat.lt_trichotomy (i + 1) w with hi | hi | hi
    · rw [if_neg hi.ne, zero_add]
      simp [hi]
    · subst hi
      simp [BitVec.msb_eq_getLsbD_last, bit]
    · rw [if_neg hi.ne', zero_add, BitVec.getLsbD_of_ge v i (Nat.le_of_lt_succ hi)]
      simp [hi.not_gt]

theorem two_eq_zero : (2 : (ZMod 2)[X]) = 0 := CharTwo.two_eq_zero

/-- **The shift is multiplication by `X`.** -/
theorem dvd_X_mul_add_shiftStep (v : BitVec w) :
    generator g ∣ X * regPoly v + regPoly (shiftStep g v) := by
  rw [X_mul_regPoly, shiftStep]
  cases v.msb with
  | false =>
    have hzero : C (bit false) * X ^ w + regPoly (v <<< 1) + regPoly (v <<< 1) = 0 := by
      simp [bit, CharTwo.add_self_eq_zero]
    rw [if_neg Bool.false_ne_true, hzero]
    exact dvd_zero _
  | true =>
    have hone : C (bit true) = 1 := C_1
    have hgenerator : C (bit true) * X ^ w + regPoly (v <<< 1) + (regPoly (v <<< 1) + regPoly g) =
        generator g := by
      rw [hone, generator]
      linear_combination regPoly (v <<< 1) * two_eq_zero
    rw [if_pos rfl, regPoly_xor, hgenerator]

/-- A round of the check, for the sum and for the word that stands for the place of the bit. -/
def round (s : BitVec w × BitVec w) (b : Bool) : BitVec w × BitVec w :=
  (if b then s.1 ^^^ s.2 else s.1, shiftStep g s.2)

/-- The check of a message, made from the last bit backwards. -/
def sumBack (bits : List Bool) : BitVec w := (bits.reverse.foldl (round g) (0#w, g)).1

theorem regPoly_round (s : BitVec w × BitVec w) (b : Bool) :
    regPoly (round g s b).1 = regPoly s.1 + C (bit b) * regPoly s.2 := by
  cases b with
  | false => simp [round, bit]
  | true => simp [round, bit, regPoly_xor]

/-- The rounds add the message, times what the word stands for, to the sum. -/
theorem dvd_foldl_round (bits : List Bool) : ∀ s : BitVec w × BitVec w,
    generator g ∣ regPoly (bits.foldl (round g) s).1 +
      (regPoly s.1 + bitsPoly bits.reverse * regPoly s.2) := by
  induction bits with
  | nil =>
    intro s
    have hzero : regPoly s.1 + (regPoly s.1 + bitsPoly [] * regPoly s.2) = 0 := by
      rw [bitsPoly_nil]
      linear_combination regPoly s.1 * two_eq_zero
    exact hzero ▸ dvd_zero _
  | cons b bits ih =>
    intro s
    have hstep := dvd_mul_of_dvd_right (dvd_X_mul_add_shiftStep g s.2) (bitsPoly bits.reverse)
    have hrest := dvd_add (ih (round g s b)) hstep
    have hsum : regPoly (bits.foldl (round g) (round g s b)).1 +
        (regPoly s.1 + bitsPoly (b :: bits).reverse * regPoly s.2) =
        regPoly (bits.foldl (round g) (round g s b)).1 +
          (regPoly (round g s b).1 + bitsPoly bits.reverse * regPoly (round g s b).2) +
          bitsPoly bits.reverse * (X * regPoly s.2 + regPoly (shiftStep g s.2)) := by
      have hsecond : (round g s b).2 = shiftStep g s.2 := rfl
      rw [regPoly_round, hsecond, List.reverse_cons, bitsPoly_append, bitsPoly_singleton,
        List.length_singleton, pow_one]
      linear_combination
        -(bitsPoly bits.reverse * regPoly (shiftStep g s.2)) * two_eq_zero
    rw [List.foldl_cons, hsum]
    exact hrest

/-- What is equal for the generator may stand for one another. -/
theorem dvd_add_congr {p a b : (ZMod 2)[X]} (h : p ∣ a + b) (c : (ZMod 2)[X]) :
    p ∣ a + c ↔ p ∣ b + c := by
  have hsum : a + c = (a + b) + (b + c) := by linear_combination -b * two_eq_zero
  rw [hsum]
  exact dvd_add_right h

/-- **The check is right where the generator divides the message, moved up, and the check.** -/
theorem sumBack_eq_iff (bits : List Bool) (c : BitVec w) :
    sumBack g bits = c ↔ generator g ∣ bitsPoly bits * X ^ w + regPoly c := by
  have hrounds := dvd_foldl_round g bits.reverse (0#w, g)
  have hup : generator g ∣ regPoly (sumBack g bits) + bitsPoly bits * X ^ w := by
    have hmore := dvd_add hrounds (dvd_mul_left (generator g) (bitsPoly bits))
    rw [List.reverse_reverse, regPoly_zero, generator] at hmore
    have hsum : regPoly (sumBack g bits) + bitsPoly bits * X ^ w =
        regPoly (bits.reverse.foldl (round g) (0#w, g)).1 + (0 + bitsPoly bits * regPoly g) +
          bitsPoly bits * (X ^ w + regPoly g) := by
      rw [sumBack]
      linear_combination -(bitsPoly bits * regPoly g) * two_eq_zero
    rw [hsum]
    exact hmore
  rw [eq_iff_dvd_add g]
  exact dvd_add_congr hup (regPoly c)

/-! ## 4. Burst errors -/

/-- A generator with a constant coefficient has no factor `X`. -/
theorem isCoprime_generator_X_pow (hg : g.getLsbD 0 = true) (k : Nat) :
    IsCoprime (generator g) (X ^ k) := by
  have hw : 0 < w := by
    by_contra hw
    rw [BitVec.getLsbD_of_ge g 0 (Nat.le_of_not_lt hw)] at hg
    exact Bool.false_ne_true hg
  have hcoeff : (generator g).coeff 0 ≠ 0 := by
    rw [generator, coeff_add, coeff_X_pow, if_neg hw.ne, coeff_regPoly, hg, zero_add]
    decide
  refine IsCoprime.pow_right (IsCoprime.symm ?_)
  exact (irreducible_X.coprime_iff_not_dvd (R := (ZMod 2)[X])).mpr (mt X_dvd_iff.mp hcoeff)

theorem dvd_mul_X_pow_iff (hg : g.getLsbD 0 = true) (p : (ZMod 2)[X]) (k : Nat) :
    generator g ∣ p * X ^ k ↔ generator g ∣ p :=
  ⟨(isCoprime_generator_X_pow g hg k).dvd_of_dvd_mul_right, fun h => dvd_mul_of_dvd_left h _⟩

/-- **An error within as many bits as the register has is found.** -/
theorem not_dvd_of_burst (hg : g.getLsbD 0 = true) {front a b back : List Bool}
    (hlength : a.length = b.length) (hw : a.length ≤ w) (hne : a ≠ b)
    (h : generator g ∣ bitsPoly (front ++ a ++ back)) :
    ¬ generator g ∣ bitsPoly (front ++ b ++ back) := by
  intro h'
  have hdiff : bitsPoly (front ++ a ++ back) + bitsPoly (front ++ b ++ back) =
      (bitsPoly a + bitsPoly b) * X ^ back.length := by
    rw [bitsPoly_append, bitsPoly_append, bitsPoly_append, bitsPoly_append, hlength]
    linear_combination
      (bitsPoly front * X ^ b.length * X ^ back.length + bitsPoly back) * two_eq_zero
  have hdvd : generator g ∣ bitsPoly a + bitsPoly b :=
    (dvd_mul_X_pow_iff g hg _ back.length).mp (hdiff ▸ dvd_add h h')
  have hle : ∀ bits : List Bool, bits.length ≤ w → (bitsPoly bits).degree < w := fun bits hbits =>
    (degree_bitsPoly_lt bits).trans_le (Nat.cast_le.mpr hbits)
  have hdegree : (bitsPoly a + bitsPoly b).degree < w :=
    (degree_add_le _ _).trans_lt (max_lt (hle a hw) (hle b (hlength ▸ hw)))
  have hzero := eq_zero_of_dvd g hdegree hdvd
  exact hne (bitsPoly_injective hlength (CharTwo.add_eq_zero.mp hzero))

end Crc
