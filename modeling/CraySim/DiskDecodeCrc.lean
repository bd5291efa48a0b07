/-
  Subject:   The CRC of headers and sectors as division of polynomials.

  `Validate` of `disk_decode.cpp` adds up the check from the last bit of the data backwards, with an
  index that is unsigned; the check that was read is the number in the 32 bits behind the data.

  * `validateLoop`, `validateAt` -- `Validate` with its index and its accesses,
  * `GoodRange.returns` -- it stops, and is `validate`,
  * `crcRound_eq`, `binInt_eq` -- its parts as those of the library,
  * `crcGenerator` -- the generator,
  * `GoodRange.validate_eq_true_iff` -- what is accepted,
  * `Burst`, `Burst.rejected` -- an error of at most 32 bits is found,
  * `validate_right` -- all of it, of the loop as it is written.
-/
import CraySim.DiskDecode
import CraySim.Lib.Crc
import CraySim.Types

open Polynomial

namespace CraySim

namespace DiskDecode

/-! ## 1. The loop as it is written -/

/-- The difference of two numbers of type `size_t`. -/
def sizeSub (a b : Nat) : Nat := if b ≤ a then a - b else a + 2 ^ 64 - b

/-- The loop of `Validate`, for a number of rounds. -/
def validateLoop (aData : List Bit) (aStartIdx : Nat) :
    Nat → Nat → BitVec 32 × BitVec 32 → Option (Except Exn (BitVec 32))
  | 0, _, _ => none
  | fuel + 1, idx, crc =>
    if aStartIdx ≤ idx then
      match aData[idx]? with
      | none => some (.error .undefinedBehaviour)
      | some c => validateLoop aData aStartIdx fuel (sizeSub idx 1) (crcRound crc c)
    else some (.ok crc.1)

/-- `Validate`, for a number of rounds of its loop. -/
def validateAt (fuel : Nat) (aData : List Bit) (aStartIdx aEndIdx : Nat) :
    Option (Except Exn Bool) :=
  let endIdx := min aEndIdx aData.length
  (validateLoop aData aStartIdx fuel (sizeSub (sizeSub endIdx cCrcSize) 1) (0, polynom)).map
    (Except.map fun localCrc =>
      (binInt aData (sizeSub endIdx 32) endIdx).setWidth 32 == localCrc)

theorem validateLoop_eq (aData : List Bit) {aStartIdx : Nat} (hstart : 1 ≤ aStartIdx)
    (fuel : Nat) : ∀ {idx : Nat} (crc : BitVec 32 × BitVec 32), aStartIdx ≤ idx + 1 →
      idx < aData.length →
        validateLoop aData aStartIdx fuel idx crc =
          if idx + 1 - aStartIdx < fuel then
            some (.ok (((aData.take (idx + 1)).drop aStartIdx).reverse.foldl crcRound crc).1)
          else none := by
  induction fuel with
  | zero => exact fun _ _ _ => rfl
  | succ fuel ih =>
    intro idx crc hle hlt
    rw [validateLoop]
    by_cases hmore : aStartIdx ≤ idx
    · obtain ⟨prev, rfl⟩ := Nat.exists_eq_add_of_le' (hstart.trans hmore)
      have hpayload : (aData.take (prev + 1 + 1)).drop aStartIdx =
          (aData.take (prev + 1)).drop aStartIdx ++ [aData[prev + 1]] := by
        rw [List.take_succ_eq_append_getElem hlt, List.drop_append_of_le_length]
        rw [List.length_take]
        omega
      rw [if_pos hmore, List.getElem?_eq_getElem hlt]
      simp only
      rw [sizeSub, if_pos (Nat.le_add_left 1 prev), Nat.add_sub_cancel,
        ih _ hmore (Nat.lt_of_succ_lt hlt), hpayload, List.reverse_append]
      have hfuel : prev + 1 - aStartIdx < fuel ↔ prev + 1 + 1 - aStartIdx < fuel + 1 := by omega
      simp only [hfuel]
      rfl
    · rw [if_neg hmore, if_pos (by omega), List.drop_eq_nil_of_le]
      · rfl
      · rw [List.length_take]
        omega

/-- A range that has room for the check, and does not start with the first bit. -/
structure GoodRange (aData : List Bit) (aStartIdx aEndIdx : Nat) : Prop where
  start : 1 ≤ aStartIdx
  room : aStartIdx + 32 ≤ min aEndIdx aData.length

/-- `Validate` returns: from some number of rounds on, that is the result. -/
def Returns (aData : List Bit) (aStartIdx aEndIdx : Nat) (result : Bool) : Prop :=
  ∃ rounds, ∀ fuel, rounds ≤ fuel → validateAt fuel aData aStartIdx aEndIdx = some (.ok result)

variable {aData : List Bit} {aStartIdx aEndIdx : Nat}

/-- **The loop stops, and stays within the data.** -/
theorem GoodRange.loop (h : GoodRange aData aStartIdx aEndIdx) {fuel : Nat}
    (hfuel : min aEndIdx aData.length ≤ fuel) :
    validateLoop aData aStartIdx fuel
        (sizeSub (sizeSub (min aEndIdx aData.length) cCrcSize) 1) (0, polynom) =
      some (.ok (((aData.take (min aEndIdx aData.length - cCrcSize)).drop aStartIdx).reverse.foldl
        crcRound (0, polynom)).1) := by
  have hstart := h.start
  have hroom := h.room
  have hfirst : sizeSub (sizeSub (min aEndIdx aData.length) cCrcSize) 1 =
      min aEndIdx aData.length - 33 := by
    rw [sizeSub, sizeSub, cCrcSize, if_pos (show 32 ≤ min aEndIdx aData.length by omega),
      if_pos (by omega)]
    omega
  have hpayload : min aEndIdx aData.length - 33 + 1 = min aEndIdx aData.length - cCrcSize := by
    rw [cCrcSize]
    omega
  rw [hfirst, validateLoop_eq aData hstart fuel _ (by omega) (by omega), if_pos (by omega),
    hpayload]

theorem GoodRange.returns (h : GoodRange aData aStartIdx aEndIdx) :
    Returns aData aStartIdx aEndIdx (validate aData aStartIdx aEndIdx) := by
  have hroom := h.room
  refine ⟨min aEndIdx aData.length, fun fuel hfuel => ?_⟩
  rw [validateAt, h.loop hfuel, sizeSub, if_pos (by omega)]
  rfl

/-! ## 2. The parts -/

/-- The bits of a list; what is not a one counts as a zero. -/
def ones (bits : List Bit) : List Bool := bits.map fun c => decide (c = .One)

theorem shiftRight_eq_one_iff (v : BitVec 32) : v >>> 31 = 1 ↔ v.msb = true := by
  have hlt := v.isLt
  rw [BitVec.msb_eq_decide, decide_eq_true_eq, BitVec.toNat_eq, BitVec.toNat_ushiftRight,
    Nat.shiftRight_eq_div_pow]
  show v.toNat / 2 ^ 31 = 1 ↔ 2 ^ 31 ≤ v.toNat
  omega

theorem crcRound_eq (crc : BitVec 32 × BitVec 32) (c : Bit) :
    crcRound crc c = Crc.round polynom crc (decide (c = .One)) := by
  rw [crcRound, Crc.round, Crc.shiftStep]
  simp only [shiftRight_eq_one_iff, decide_eq_true_eq]

theorem foldl_crcRound (bits : List Bit) : ∀ crc : BitVec 32 × BitVec 32,
    bits.foldl crcRound crc = (ones bits).foldl (Crc.round polynom) crc := by
  induction bits with
  | nil => exact fun _ => rfl
  | cons c bits ih =>
    intro crc
    rw [List.foldl_cons, ih, crcRound_eq]
    rfl

theorem getLsbD_shift_add (v : BitVec 64) (b : Bool) {i : Nat} (hi : i < 64) :
    ((v <<< 1) + (if b then 1 else 0)).getLsbD i = if i = 0 then b else v.getLsbD (i - 1) := by
  have hand : (v <<< 1) &&& (if b then 1 else 0) = 0#64 := by
    refine BitVec.eq_of_getLsbD_eq fun k hk => ?_
    rw [BitVec.getLsbD_and, BitVec.getLsbD_shiftLeft]
    cases b <;> cases k <;> simp
  rw [BitVec.add_eq_or_of_and_eq_zero _ _ hand, BitVec.getLsbD_or, BitVec.getLsbD_shiftLeft]
  cases i <;> cases b <;> simp [hi]

/-- The number of some bits. -/
def number (bits : List Bit) : BitVec 64 :=
  bits.foldl (fun retVal c => (retVal <<< 1) + (if c = .One then 1 else 0)) 0

theorem binInt_eq (aString : List Bit) (aStartIdx aEndIdx : Nat) :
    binInt aString aStartIdx aEndIdx = number ((aString.take aEndIdx).drop aStartIdx) := rfl

theorem getLsbD_number (bits : List Bit) {i : Nat} (hi : i < 64) :
    (number bits).getLsbD i = (ones bits).reverse.getD i false := by
  induction bits using List.reverseRecOn generalizing i with
  | nil => simp [ones, number]
  | append_singleton bits c ih =>
    have hbit := getLsbD_shift_add (number bits) (decide (c = .One)) hi
    simp only [decide_eq_true_eq] at hbit
    rw [number, List.foldl_append, List.foldl_cons, List.foldl_nil, ← number, hbit, ones,
      List.map_append, List.reverse_append]
    cases i with
    | zero => rfl
    | succ i =>
      rw [if_neg (Nat.succ_ne_zero i), Nat.add_sub_cancel, ih (Nat.lt_of_succ_lt hi)]
      rfl

theorem regPoly_number {bits : List Bit} (hlength : bits.length = 32) :
    Crc.regPoly ((number bits).setWidth 32) = Crc.bitsPoly (ones bits) := by
  refine Crc.regPoly_eq_bitsPoly fun i => ?_
  rw [BitVec.getLsbD_setWidth]
  by_cases hi : i < 32
  · rw [getLsbD_number bits (by omega), decide_eq_true hi, Bool.true_and]
  · rw [decide_eq_false hi, Bool.false_and, List.getD_eq_default]
    simp [ones, hlength]
    omega

/-! ## 3. What is accepted -/

/-- The generator of the check. -/
noncomputable def crcGenerator : (ZMod 2)[X] := X ^ 32 + X ^ 23 + X ^ 21 + X ^ 11 + X ^ 2 + 1

theorem generator_polynom : Crc.generator polynom = crcGenerator := by
  have hterm : ∀ i ∈ Finset.range 32, monomial i (Crc.bit (polynom.getLsbD i)) =
      if i ∈ ({0, 2, 11, 21, 23} : Finset Nat) then (X : (ZMod 2)[X]) ^ i else 0 := by
    intro i hi
    have hbit : ∀ i ∈ Finset.range 32,
        polynom.getLsbD i = decide (i ∈ ({0, 2, 11, 21, 23} : Finset Nat)) := by decide
    rw [hbit i hi, Crc.bit, X_pow_eq_monomial]
    split <;> simp_all
  have hmem : Finset.range 32 ∩ {0, 2, 11, 21, 23} = {0, 2, 11, 21, 23} := by decide
  have hlow : Crc.regPoly polynom = 1 + (X ^ 2 + (X ^ 11 + (X ^ 21 + X ^ 23))) := by
    rw [Crc.regPoly, Finset.sum_congr rfl hterm, Finset.sum_ite_mem, hmem]
    simp
  rw [Crc.generator, hlow, crcGenerator]
  ring

/-- The data bits of a range, and the check behind them. -/
def dataBits (aData : List Bit) (aStartIdx aEndIdx : Nat) : List Bool :=
  ones ((aData.take (min aEndIdx aData.length - 32)).drop aStartIdx)

def checkBits (aData : List Bit) (aEndIdx : Nat) : List Bool :=
  ones ((aData.take (min aEndIdx aData.length)).drop (min aEndIdx aData.length - 32))

/-- **A range is accepted where the generator divides its data, moved up, and its check.** -/
theorem GoodRange.validate_eq_true_iff (h : GoodRange aData aStartIdx aEndIdx) :
    validate aData aStartIdx aEndIdx = true ↔
      crcGenerator ∣ Crc.bitsPoly (dataBits aData aStartIdx aEndIdx) * X ^ 32 +
        Crc.bitsPoly (checkBits aData aEndIdx) := by
  have hroom := h.room
  have hlength : ((aData.take (min aEndIdx aData.length)).drop
      (min aEndIdx aData.length - 32)).length = 32 := by
    rw [List.length_drop, List.length_take]
    omega
  rw [checkBits, ← regPoly_number hlength, ← generator_polynom, ← Crc.sumBack_eq_iff, validate,
    binInt_eq, beq_iff_eq, foldl_crcRound, dataBits, Crc.sumBack, eq_comm, ones, List.map_reverse]
  rfl

/-! ## 4. Errors -/

/-- Some bits of a vector are flipped, at least one, and all of them within 32 consecutive positions
    of the range. -/
structure Burst (aData aData' : List Bit) (aStartIdx aEndIdx : Nat) : Prop where
  length : aData'.length = aData.length
  flipped : ones aData' ≠ ones aData
  within : ∃ k, aStartIdx ≤ k ∧ k + 32 ≤ min aEndIdx aData.length ∧
    ∀ i, i < k ∨ k + 32 ≤ i → (ones aData')[i]? = (ones aData)[i]?

theorem drop_take_append {α : Type} (l : List α) {a b c : Nat} (hab : a ≤ b) (hbc : b ≤ c) :
    (l.take c).drop a = (l.take b).drop a ++ (l.take c).drop b := by
  have hfront : ((l.take c).drop a).take (b - a) = (l.take b).drop a := by
    rw [List.take_drop, Nat.add_sub_cancel' hab, List.take_take, Nat.min_eq_left hbc]
  have hback : ((l.take c).drop a).drop (b - a) = (l.take c).drop b := by
    rw [List.drop_drop, Nat.add_sub_cancel' hab]
  rw [← hfront, ← hback, List.take_append_drop]

theorem length_ones (bits : List Bit) : (ones bits).length = bits.length := List.length_map _

theorem ones_cut (bits : List Bit) (a b : Nat) :
    ones ((bits.take b).drop a) = ((ones bits).take b).drop a := by
  rw [ones, List.map_drop, List.map_take, ones]

theorem GoodRange.rangePoly (h : GoodRange aData aStartIdx aEndIdx) :
    Crc.bitsPoly (dataBits aData aStartIdx aEndIdx) * X ^ 32 +
      Crc.bitsPoly (checkBits aData aEndIdx) =
        Crc.bitsPoly (((ones aData).take (min aEndIdx aData.length)).drop aStartIdx) := by
  have hroom := h.room
  have hlength : (((ones aData).take (min aEndIdx aData.length)).drop
      (min aEndIdx aData.length - 32)).length = 32 := by
    rw [List.length_drop, List.length_take, length_ones]
    omega
  rw [drop_take_append (ones aData) (b := min aEndIdx aData.length - 32) (by omega) (by omega),
    Crc.bitsPoly_append, hlength, dataBits, checkBits, ones_cut, ones_cut]

theorem getElem?_cut {α : Type} (l : List α) {a b i : Nat} (hi : a + i < b) :
    ((l.take b).drop a)[i]? = l[a + i]? := by
  rw [List.getElem?_drop, List.getElem?_take_of_lt hi]

/-- Parts of lists that agree there are the same. -/
theorem cut_congr {α : Type} {l l' : List α} {a b : Nat}
    (h : ∀ i, a ≤ i → i < b → l[i]? = l'[i]?) : (l.take b).drop a = (l'.take b).drop a := by
  refine List.ext_getElem? fun i => ?_
  by_cases hi : a + i < b
  · rw [getElem?_cut l hi, getElem?_cut l' hi, h _ (Nat.le_add_right a i) hi]
  · rw [List.getElem?_eq_none, List.getElem?_eq_none]
    · rw [List.length_drop, List.length_take]
      omega
    · rw [List.length_drop, List.length_take]
      omega

/-- **An error of at most 32 bits is found.** -/
theorem Burst.rejected {aData aData' : List Bit}
    (hburst : Burst aData aData' aStartIdx aEndIdx) (h : GoodRange aData aStartIdx aEndIdx)
    (haccepted : validate aData aStartIdx aEndIdx = true) :
    validate aData' aStartIdx aEndIdx = false := by
  have hlength := hburst.length
  have h' : GoodRange aData' aStartIdx aEndIdx := ⟨h.start, hlength ▸ h.room⟩
  obtain ⟨k, hstart, hend, hsame⟩ := hburst.within
  rw [h.validate_eq_true_iff, h.rangePoly, drop_take_append _ hstart (by omega : k ≤ _),
    drop_take_append _ (Nat.le_add_right k 32) hend, ← List.append_assoc, ← generator_polynom]
    at haccepted
  rw [← Bool.not_eq_true, h'.validate_eq_true_iff, h'.rangePoly, hlength,
    drop_take_append _ hstart (by omega : k ≤ _),
    drop_take_append _ (Nat.le_add_right k 32) hend, ← List.append_assoc, ← generator_polynom,
    cut_congr (fun i _ hi => hsame i (.inl hi)),
    cut_congr (a := k + 32) (fun i hi _ => hsame i (.inr hi))]
  have hwindow : (((ones aData).take (k + 32)).drop k).length = 32 := by
    rw [List.length_drop, List.length_take, length_ones]
    omega
  refine Crc.not_dvd_of_burst polynom (by decide) ?_ hwindow.le (fun heq => ?_) haccepted
  · rw [hwindow, List.length_drop, List.length_take, length_ones]
    omega
  · refine hburst.flipped (List.ext_getElem? fun i => ?_)
    by_cases hi : i < k ∨ k + 32 ≤ i
    · exact hsame i hi
    · have hat := congrArg (fun l => l[i - k]?) heq
      rw [getElem?_cut _ (by omega), getElem?_cut _ (by omega), Nat.add_sub_cancel' (by omega)]
        at hat
      exact hat.symm

/-- **`Validate` stops; it accepts a range exactly where the generator divides its data and its
    check, and it finds every error of at most 32 bits.** -/
theorem validate_right {aData : List Bit} {aStartIdx aEndIdx : Nat} (hstart : 1 ≤ aStartIdx)
    (hroom : aStartIdx + 32 ≤ min aEndIdx aData.length) :
    ∃ result, Returns aData aStartIdx aEndIdx result ∧
      (result = true ↔ crcGenerator ∣
        Crc.bitsPoly (dataBits aData aStartIdx aEndIdx) * X ^ 32 +
          Crc.bitsPoly (checkBits aData aEndIdx)) ∧
      (result = true → ∀ aData', Burst aData aData' aStartIdx aEndIdx →
        Returns aData' aStartIdx aEndIdx false) := by
  have h : GoodRange aData aStartIdx aEndIdx := ⟨hstart, hroom⟩
  refine ⟨_, h.returns, h.validate_eq_true_iff, fun haccepted aData' hburst => ?_⟩
  have h' : GoodRange aData' aStartIdx aEndIdx := ⟨h.start, hburst.length ▸ h.room⟩
  rw [← hburst.rejected h haccepted]
  exact h'.returns

/-- A one and its check, behind a bit that is not looked at. -/
def checkedOne : List Bit :=
  .Zero :: .One :: (List.range 32).map fun k => if polynom.getLsbD (31 - k) then .One else .Zero

/-- The law applied to it: it is accepted. -/
theorem validate_right_checkedOne :
    validate checkedOne 1 34 = true ∧ ∃ result, Returns checkedOne 1 34 result ∧
      (result = true ↔ crcGenerator ∣
        Crc.bitsPoly (dataBits checkedOne 1 34) * X ^ 32 + Crc.bitsPoly (checkBits checkedOne 34)) ∧
      (result = true → ∀ aData', Burst checkedOne aData' 1 34 → Returns aData' 1 34 false) :=
  ⟨by decide +kernel, validate_right (by decide) (by decide)⟩

end DiskDecode

end CraySim
