/-
  Subject:   The Cray floating point unit.

  `cray_types.h` (`CFloat_t`) and `cray_float.cpp`: a word of one sign bit, a 15 bit exponent
  offset by `expOfs` and a 48 bit fraction whose leading one is stored.

  * `CFloat` -- the format: fields, construction, `normalize`,
  * `CFloat.add`, `CFloat.sub` -- addition on aligned fractions,
  * `mult` -- the truncated 56 bit multiplier with its correction factors;
    `CFloat.mul`, `roundedMult`, `halfPrecisionMult` and `reciprocIterate` are its four uses.
-/
import CraySim.Types
import CraySim.Lib.ShiftAdd
import Mathlib.Tactic.NormNum

namespace CraySim

/-! ## 1. The format -/

/-- `CFloat_t`. -/
structure CFloat where
  value : CInt
  deriving DecidableEq, Repr

namespace CFloat

def fractSignMask : CInt := 0x8000000000000000
def expMask : CInt := 0x7fff000000000000
def fractMask : CInt := 0x0000ffffffffffff
def expBitPos : Nat := 48
def fractSize : Nat := 48

/-- `ExpOfs = 040001`. -/
def expOfs : Int := 0x4001

/-- `ExpMin = 020000`. -/
def expMin : Int := 0x2000

/-- `CFloat_t(long aExp, bool aFractPositive, unsigned long long aFract)`. -/
def ofParts (aExp : Int) (aFractPositive : Bool) (aFract : CInt) : CFloat :=
  ⟨((BitVec.ofInt 64 (aExp + expOfs) &&& 0x7fff) <<< expBitPos) |||
    (if aFractPositive then 0 else fractSignMask) ||| (aFract &&& fractMask)⟩

def rawExp (a : CFloat) : Nat := ((a.value &&& expMask) >>> expBitPos).toNat

def exp (a : CFloat) : Int := a.rawExp - expOfs

def uFract (a : CFloat) : CInt := a.value &&& fractMask

def isPositive (a : CFloat) : Bool := a.value &&& fractSignMask == 0

def isNormalized (a : CFloat) : Bool := a.value &&& ((1 : CInt) <<< (fractSize - 1)) != 0

def flipSign (a : CFloat) : CFloat := ⟨a.value ^^^ fractSignMask⟩

/-- `UnderflowOrValue`: an exponent below the valid range reads as zero. -/
def underflowOrValue (a : CFloat) : CFloat := if (a.rawExp : Int) < expMin then ⟨0⟩ else a

theorem rawExp_eq (a : CFloat) : a.rawExp = a.value.toNat / 2 ^ 48 % 2 ^ 15 := by
  have hmask : expMask = WordField.mask 64 15 <<< 48 := by decide
  rw [rawExp, BitVec.toNat_ushiftRight, hmask, WordField.toNat_and_mask_shiftLeft,
    Nat.shiftRight_eq_div_pow, expBitPos, Nat.mul_div_cancel_left _ (Nat.two_pow_pos 48)]

theorem rawExp_lt (a : CFloat) : a.rawExp < 2 ^ 15 := by
  rw [rawExp_eq]
  exact Nat.mod_lt _ (by decide)

theorem toNat_uFract (a : CFloat) : a.uFract.toNat = a.value.toNat % 2 ^ 48 :=
  WordField.toNat_and_mask (n := 48) a.value

/-- A fraction is normalized when it is at least `2 ^ 47`. -/
theorem isNormalized_iff (a : CFloat) : a.isNormalized = true ↔ 2 ^ 47 ≤ a.uFract.toNat := by
  have hbit : a.isNormalized = a.value.toNat.testBit 47 :=
    (WordField.and_bit_bne_zero a.value 47 (by decide)).trans (BitVec.testBit_toNat a.value).symm
  rw [hbit, toNat_uFract, Nat.testBit_eq_decide_div_mod_eq, decide_eq_true_eq]
  omega

theorem and_fractSignMask (v : CInt) :
    v &&& fractSignMask = if v.getLsbD 63 then fractSignMask else 0 := by
  have hmask : fractSignMask = WordField.mask 64 1 <<< 63 := by decide
  have hbit : ∀ (w : CInt) (i : Nat), (w &&& fractSignMask).getLsbD i =
      (decide (i = 63) && w.getLsbD 63) := fun w i => by
    rw [hmask, BitVec.getLsbD_and, BitVec.getLsbD_shiftLeft, WordField.getLsbD_mask]
    by_cases h : i = 63
    · simp [h]
    · by_cases h' : i < 63
      · simp [h, h']
      · simp [h, show ¬ i < 64 by omega]
  have hself : ∀ i, fractSignMask.getLsbD i = decide (i = 63) := fun i => by
    rw [← BitVec.and_self (x := fractSignMask), hbit, show fractSignMask.getLsbD 63 = true by decide,
      Bool.and_true]
  apply BitVec.eq_of_getLsbD_eq
  intro i _
  rw [hbit]
  cases v.getLsbD 63 <;> simp [hself]

theorem isPositive_eq (a : CFloat) : a.isPositive = !a.value.getLsbD 63 := by
  rw [isPositive, and_fractSignMask]
  cases a.value.getLsbD 63 <;> decide

theorem getLsbD_ofParts (e : Int) (p : Bool) (f : CInt) (i : Nat) :
    (ofParts e p f).value.getLsbD i =
      if i < 48 then f.getLsbD i
      else if i < 63 then (BitVec.ofInt 64 (e + expOfs)).getLsbD (i - 48)
      else decide (i = 63) && !p := by
  have hsign : ∀ i, (if p then (0 : CInt) else fractSignMask).getLsbD i =
      (decide (i = 63) && !p) := fun i => by
    cases p with
    | true => simp
    | false =>
      rw [if_neg (by decide), show fractSignMask = (1 : CInt) <<< 63 by decide,
        WordField.getLsbD_one_shiftLeft 63 i (by decide)]
      simp
  simp only [ofParts, BitVec.getLsbD_or, BitVec.getLsbD_shiftLeft, BitVec.getLsbD_and, hsign,
    show (0x7fff : CInt) = WordField.mask 64 15 from rfl, show fractMask = WordField.mask 64 48 from rfl,
    WordField.getLsbD_mask, expBitPos]
  by_cases h48 : i < 48
  · simp [h48, show i < 64 by omega, show ¬ i = 63 by omega]
  · by_cases h63 : i < 63
    · simp [h48, h63, show i < 64 by omega, show ¬ i = 63 by omega, show i - 48 < 15 by omega,
        show i - 48 < 64 by omega]
    · simp [h48, h63, show ¬ i - 48 < 15 by omega]

@[simp] theorem isPositive_ofParts (e : Int) (p : Bool) (f : CInt) :
    (ofParts e p f).isPositive = p := by
  rw [isPositive_eq, getLsbD_ofParts]
  simp

theorem toNat_uFract_ofParts (e : Int) (p : Bool) (f : CInt) :
    (ofParts e p f).uFract.toNat = f.toNat % 2 ^ 48 := by
  rw [toNat_uFract]
  apply Nat.eq_of_testBit_eq
  intro i
  rw [Nat.testBit_mod_two_pow, Nat.testBit_mod_two_pow, BitVec.testBit_toNat, BitVec.testBit_toNat,
    getLsbD_ofParts]
  by_cases h : i < 48
  · simp [h]
  · simp [h]

theorem rawExp_ofParts (e : Nat) (he : e < 2 ^ 15) (p : Bool) (f : CInt) :
    (ofParts (e - expOfs) p f).rawExp = e := by
  rw [rawExp_eq]
  apply Nat.eq_of_testBit_eq
  intro i
  rw [Nat.testBit_mod_two_pow, Nat.testBit_div_two_pow, BitVec.testBit_toNat, getLsbD_ofParts,
    Int.sub_add_cancel, BitVec.ofInt_natCast, BitVec.getLsbD_ofNat]
  by_cases h : i < 15
  · simp [h, show i + 48 < 63 by omega, show ¬ i + 48 < 48 by omega, show i < 64 by omega]
  · have hz : e.testBit i = false := Nat.testBit_lt_two_pow
      (Nat.lt_of_lt_of_le he (Nat.pow_le_pow_right (by decide) (by omega)))
    simp [h, hz]

/-- The body of the loop in `Normalize`: one shift of the fraction, one off the exponent. -/
def normalizeStep (v : CInt) : CInt :=
  (v &&& fractSignMask) ||| (((v &&& expMask) - ((1 : CInt) <<< expBitPos)) &&& expMask) |||
    ((v <<< 1) &&& fractMask)

/-- The guard of that loop. -/
def normalizeGuard (v : CInt) : Bool :=
  v &&& ((1 : CInt) <<< (fractSize - 1)) == 0 && decide (((v &&& expMask) >>> expBitPos).toNat > expMin)

def normalizeLoop : Nat → CInt → CInt
  | 0, v => v
  | n + 1, v => if normalizeGuard v then normalizeLoop n (normalizeStep v) else v

/-- `Normalize`. A nonzero fraction is normalized after at most 47 shifts
    (`normalizeLoop_exit`). -/
def normalize (a : CFloat) : CFloat :=
  if a.value &&& fractMask = 0 then ⟨0⟩ else ⟨normalizeLoop 47 a.value⟩

end CFloat

/-! ## 2. Addition -/

/-- `Shift`: a signed right shift. -/
def shift (aFract : CInt) (aAmount : Nat) : CInt := aFract.sshiftRight aAmount

def abs (aA : CInt) : CInt := if BitVec.slt 0 aA then aA else -aA

/-- `operator +`. -/
def CFloat.add (aA aB : CFloat) : CFloat :=
  let a := aA.underflowOrValue
  let b := aB.underflowOrValue
  let expA := a.exp
  let expB := b.exp
  let fractB := if expA > expB then shift b.uFract (min 63 (expA - expB)).toNat else b.uFract
  let fractA := if expA < expB then shift a.uFract (min 63 (expB - expA)).toNat else a.uFract
  let resultExp := if expA > expB then expA else expB
  let diff := if a.isPositive then fractA - fractB else fractB - fractA
  let (resultFract, resultPositive) :=
    if a.isPositive == b.isPositive then (fractA + fractB, a.isPositive)
    else if diff.slt 0 then (-diff, false)
    else (diff, true)
  let carry := abs resultFract &&& ((1 : CInt) <<< CFloat.fractSize) != 0
  let resultExp := if carry then resultExp + 1 else resultExp
  let resultFract := if carry then shift resultFract 1 else resultFract
  (CFloat.ofParts resultExp resultPositive resultFract).normalize.underflowOrValue

/-- Unary `operator -`. -/
def CFloat.neg (aA : CFloat) : CFloat := aA.flipSign

/-- `operator -`. -/
def CFloat.sub (aA aB : CFloat) : CFloat := aA.add aB.neg

/-! ## 3. Multiplication -/

/-- The 48 steps of the multiplier: `fractA` is halved at every step and added where the
    multiplier `fractB`, read from bit 55 down, has a one. -/
def multLoop (fractA fractB : CInt) : CInt :=
  ((List.range 48).foldl (fun (p : CInt × CInt) bitIdx =>
    (if (fractB >>> (47 + 8 - bitIdx)) &&& 1 != 0 then p.1 + p.2 else p.1, p.2 >>> 1))
    (0, fractA)).1

/-- The correction factor `Mult` adds to the sum of partial products. -/
def correctionFactor (aDoRounding aHalfPrecision aTwoMinus : Bool) : CInt :=
  let c : CInt := 18
  let c := if aDoRounding then c ||| (0x80 ||| 0x40) else c
  let c := if aHalfPrecision then c ||| (((1 : CInt) <<< 24) ||| ((1 : CInt) <<< 25)) else c
  if aTwoMinus then ~~~c else c

/-- `Mult` on `CFloat_t`. -/
def mult (aA aB : CFloat) (aDoRounding aHalfPrecision aTwoMinus : Bool) : CFloat :=
  let a := if aA.rawExp = 0 then aA else aA.underflowOrValue
  let b := if aB.rawExp = 0 then aB else aB.underflowOrValue
  if a.value = 0 then ⟨0⟩
  else if b.value = 0 then ⟨0⟩
  else
    let integerMult := a.rawExp = 0 ∧ b.rawExp = 0
    let resultPositive := a.isPositive == b.isPositive
    let fractA := a.uFract <<< 8
    let fractB := b.uFract <<< 8
    let sum := multLoop fractA fractB + correctionFactor aDoRounding aHalfPrecision aTwoMinus
    let resultFract := if aTwoMinus then ~~~sum else sum
    if integerMult then
      -- both exponents zero: the operands are integers and so is the product
      CFloat.ofParts (-CFloat.expOfs) resultPositive (resultFract >>> 1 >>> 8)
    else
      let carry := resultFract &&& ((1 : CInt) <<< 56) != 0
      let exp := if carry then a.exp + b.exp + 1 else a.exp + b.exp
      let resultFract := if carry then resultFract >>> 1 else resultFract
      let underflow := exp + CFloat.expOfs < CFloat.expMin
      let exp := if underflow then -CFloat.expOfs else exp
      let resultFract := if underflow then 0 else resultFract
      let resultPositive := if underflow then true else resultPositive
      let resultFract :=
        if aHalfPrecision then resultFract &&& 0xFFFFFFFFF8000000 else resultFract
      CFloat.ofParts exp resultPositive (resultFract >>> 8)

/-- `operator *`. -/
def CFloat.mul (aA aB : CFloat) : CFloat := mult aA aB false false false

/-- `ReciprocIterate`: two minus the product. -/
def reciprocIterate (aLeft aRight : CFloat) : CFloat := mult aLeft aRight false false true

def roundedMult (aLeft aRight : CFloat) : CFloat := mult aLeft aRight true false false

def halfPrecisionMult (aLeft aRight : CFloat) : CFloat := mult aLeft aRight false true false

/-! ## 4. The reciprocal approximation -/

/-- `ReciprocLookup_s`: for each 7 bit index, twice the first guess (above bit 18) and its
    square (above bit 2). -/
def reciprocLookup : Array CInt := #[
  0x7FBF804, 0x7EBE824, 0x7DBD864, 0x7CBC8C4, 0x7BBB944, 0x7ABA9E4, 0x7A3A240, 0x7939310,
  0x7838400, 0x7737510, 0x76B6DA4, 0x75B5EE4, 0x74B5044, 0x7434900, 0x7333A90, 0x7232C40,
  0x71B2524, 0x70B1704, 0x7031000, 0x6F30210, 0x6EAFB24, 0x6DAED64, 0x6D2E690, 0x6C2D900,
  0x6BAD244, 0x6AAC4E4, 0x6A2BE40, 0x69AB7A4, 0x68AAA84, 0x682A400, 0x67A9D84, 0x66A90A4,
  0x6628A40, 0x65A83E4, 0x6527D90, 0x6427100, 0x63A6AC4, 0x6326490, 0x62A5E64, 0x6225840,
  0x6124C10, 0x60A4604, 0x6024000, 0x5FA3A04, 0x5F23410, 0x5EA2E24, 0x5E22840, 0x5DA2264,
  0x5D21C90, 0x5CA16C4, 0x5C21100, 0x5BA0B44, 0x5B20590, 0x5A9FFE4, 0x5A1FA40, 0x599F4A4,
  0x591EF10, 0x589E984, 0x581E400, 0x579DE84, 0x571D910, 0x569D3A4, 0x561CE40, 0x559C8E4,
  0x551C390, 0x549BE44, 0x541B900, 0x541B900, 0x539B3C4, 0x531AE90, 0x529A964, 0x521A440,
  0x5199F24, 0x5199F24, 0x5119A10, 0x5099504, 0x5019000, 0x4F98B04, 0x4F98B04, 0x4F18610,
  0x4E98124, 0x4E17C40, 0x4E17C40, 0x4D97764, 0x4D17290, 0x4C96DC4, 0x4C96DC4, 0x4C16900,
  0x4B96444, 0x4B96444, 0x4B15F90, 0x4A95AE4, 0x4A95AE4, 0x4A15640, 0x49951A4, 0x49951A4,
  0x4914D10, 0x4894884, 0x4894884, 0x4814400, 0x4793F84, 0x4793F84, 0x4713B10, 0x4713B10,
  0x46936A4, 0x4613240, 0x4613240, 0x4592DE4, 0x4592DE4, 0x4512990, 0x4492544, 0x4492544,
  0x4412100, 0x4412100, 0x4391CC4, 0x4391CC4, 0x4311890, 0x4291464, 0x4291464, 0x4211040,
  0x4211040, 0x4190C24, 0x4190C24, 0x4110810, 0x4110810, 0x4090404, 0x4090404, 0x4010000]

/-- One partial product of `ReciprocApproxFinalMul`: line `idx` adds the multiplicand shifted
    right by `35 - idx` where the multiplier has a one, with some low bits cleared. -/
def finalMulTerm (a b : CInt) (idx : Nat) (cleared : CInt) : CInt :=
  (if getBit a idx != 0 then b >>> (35 - idx) else 0) &&& ~~~cleared

/-- One group of lines: the additions to `SubP`. -/
def finalMulGroup (a b : CInt) (lines : List (Nat × CInt)) : CInt :=
  lines.foldl (fun subP l => subP + finalMulTerm a b l.1 l.2) 0

/-- The sum of the partial products before the final rounding. -/
def finalMulSum (a b : CInt) : CInt :=
  let p0 := finalMulGroup a b [(0, 3), (1, 3), (3, 3), (4, 3), (5, 3), (6, 3), (7, 3)] &&& ~~~7
  let p8 := finalMulGroup a b [(8, 1), (9, 0), (10, 0), (11, 0)] &&& ~~~3
  let p12 := finalMulGroup a b [(12, 3), (13, 3), (14, 7), (15, 15)]
  let p16 := finalMulGroup a b
    [(16, 3), (17, 7), (18, 3), (19, 3), (20, 3), (21, 3), (22, 3), (23, 3)] &&& ~~~7
  let p24 := finalMulGroup a b [(24, 1), (25, 0), (26, 0), (27, 0)] &&& ~~~3
  let p28 := finalMulGroup a b [(28, 3), (29, 3), (30, 7), (31, 15)]
  let p32 := finalMulGroup a b [(32, 3), (33, 3), (34, 3), (35, 3)] &&& ~~~7
  p0 + p8 + p12 + p16 + p24 + p28 + p32

/-- `ReciprocApproxFinalMul`. The lines and the bits each clears are those of the hardware
    multiplier triangle: line 2 is missing and lines 14, 15, 17, 30 and 31 clear more. -/
def reciprocApproxFinalMul (aA aB : CInt) (aDoFinalRounding : Bool) : CInt :=
  let a := aA &&& ((1 : CInt) <<< 37 - 1)
  let b := (aB &&& ((1 : CInt) <<< 37 - 1)) <<< 3
  let p := finalMulSum a b >>> 2
  if aDoFinalRounding then
    let bit1 : CInt := if getBit p 1 != 0 then 1 else 0
    (p >>> 2 + bit1) >>> 2
  else p

def fractionalMult (aA aB : CInt) (aBitCnt : Nat) : CInt :=
  (List.range aBitCnt).foldl (fun retVal bitIdx =>
    retVal + if getBit aA bitIdx != 0 then aB >>> (aBitCnt - bitIdx - 1) else 0) 0

/-- The table entry the top seven fraction bits below the leading one select. -/
def lookupVal (aInput : CInt) : CInt :=
  reciprocLookup.getD ((aInput >>> 40) &&& 127).toNat 0

/-- The first iteration: `2 * A0 - A0^2 * Mantissa`, cut to 18 bits. -/
def reciprocA1 (aInput : CInt) : CInt :=
  let lookup := lookupVal aInput
  let twiceA0 := lookup >>> 18
  let a0sq := (lookup >>> 2) &&& 0xffff
  let mantissa := aInput &&& CFloat.fractMask
  let a0sqB := fractionalMult a0sq (mantissa >>> 24) 16
  let roundedA0 := ((twiceA0 <<< 8 + 1) <<< 8) + twiceA0 >>> 1
  ((roundedA0 - a0sqB - 256) >>> 6) &&& ((1 : CInt) <<< 18 - 1)

/-- The second iteration: `2 * A1 - A1^2 * B2`, normalized and cut to 33 bits. -/
def reciprocMantissa (aInput : CInt) : CInt :=
  let a1 := reciprocA1 aInput
  let b2 := ((aInput &&& CFloat.fractMask) ||| ((1 : CInt) <<< 47)) >>> 11
  let a1sqB2 := reciprocApproxFinalMul (a1 * a1) b2 true
  ((a1 <<< 31 - a1sqB2 <<< 14 - 1) ||| ((1 : CInt) <<< 47)) &&& 0xffffffff8000

/-- `ReciprocApprox` on words. -/
def reciprocApproxWord (aInput : CInt) : CInt :=
  let finalMantissa := reciprocMantissa aInput
  let exp := (CFloat.mk aInput).rawExp
  let sign := aInput >>> 63 == 0
  if exp < 0x6000 ∧ exp > 0x2001 then
    (CFloat.ofParts ((2 * CFloat.expOfs - exp - 1) - CFloat.expOfs) sign finalMantissa).value
  else
    (CFloat.ofParts (0x6000 - CFloat.expOfs) sign (finalMantissa &&& ~~~((1 : CInt) <<< 47))).value

def reciprocApprox (aInput : CFloat) : CFloat := ⟨reciprocApproxWord aInput.value⟩

end CraySim
