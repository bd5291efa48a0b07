/-
  Subject:   Scalars of the configuration, as `config_file.h` reads and puts them.

  One template reads every integer type but `int64_t` through an unsigned number of 64 bits, and
  checks the range by converting there and back. A stream puts the two types of 8 bits out as
  characters.

  * `BoolTranslator`, `IntTranslator` -- `get_value` and `put_value`,
  * `fromString` -- the value, or the exception that names the type and the string,
  * `getTemplate_iff` -- what the template makes of a number,
  * `roundTrips_iff` -- a value is read again, unless it is put out as a character,
  * `readsAs_iff` -- a numeral is read as what it denotes, unless it turns around in 64 bits,
  * `scalars_iff` -- **both, for every type**.
-/
import CraySim.Lib.CNumber
import CraySim.Types

namespace CraySim

namespace ConfigFile

open CNumber

/-! ## 1. Types -/

/-- The integer types of `FROM_STRING`. -/
inductive IntType where
  | uint8 | int8 | uint16 | int16 | uint32 | int32 | uint64 | int64
  deriving DecidableEq, Repr

namespace IntType

def width : IntType → Nat
  | uint8 | int8 => 8
  | uint16 | int16 => 16
  | uint32 | int32 => 32
  | uint64 | int64 => 64

def isSigned : IntType → Bool
  | int8 | int16 | int32 | int64 => true
  | _ => false

/-- The text `FROM_STRING` hands to the exception. -/
def name : IntType → String
  | uint8 => "uint8_t"
  | int8 => "int8_t"
  | uint16 => "uint16_t"
  | int16 => "int16_t"
  | uint32 => "uint32_t"
  | int32 => "int32_t"
  | uint64 => "uint64_t"
  | int64 => "int64_t"

abbrev Value (t : IntType) : Type := BitVec t.width

/-- The integer of a value. -/
def toInt (t : IntType) (v : t.Value) : Int := if t.isSigned then v.toInt else v.toNat

/-- `uint64_t(aValue)`. -/
def toUInt64 (t : IntType) (v : t.Value) : BitVec 64 :=
  if t.isSigned then v.signExtend 64 else v.setWidth 64

end IntType

/-- The scalars that have a translator. -/
inductive Scalar where
  | bool
  | int (t : IntType)
  deriving DecidableEq, Repr

namespace Scalar

def name : Scalar → String
  | bool => "bool"
  | int t => t.name

def Value : Scalar → Type
  | bool => Bool
  | int t => t.Value

/-- The integer of a value; 0 and 1 are false and true. -/
def toInt : (t : Scalar) → t.Value → Int
  | bool, v => Bool.toInt v
  | int t, v => t.toInt v

end Scalar

/-! ## 2. Translators -/

/-- `toupper` in the locale of C. -/
def toUpper (c : BitVec 8) : BitVec 8 :=
  if 0x61 ≤ c.toNat ∧ c.toNat ≤ 0x7a then c - 0x20 else c

/-- `boost::algorithm::iequals`. -/
def iequals (aA aB : List (BitVec 8)) : Bool := aA.map toUpper = aB.map toUpper

def trueText : List (BitVec 8) := [0x74, 0x72, 0x75, 0x65]
def falseText : List (BitVec 8) := [0x66, 0x61, 0x6c, 0x73, 0x65]
def yesText : List (BitVec 8) := [0x79, 0x65, 0x73]

namespace BoolTranslator

def getValue (aStr : List (BitVec 8)) : Option Bool :=
  if aStr = [] then none
  else some (iequals aStr trueText || iequals aStr yesText || aStr = [0x30])

def putValue (aValue : Bool) : List (BitVec 8) := if aValue then trueText else falseText

end BoolTranslator

/-- What `stoull` and `stoll` make of what `strtoull` and `strtoll` leave: no number and a number
    out of range are exceptions; the second part is `EndIdx`. -/
def checked {α : Type} (cs : List (BitVec 8)) (r : Converted α) : Option (α × Nat) :=
  if r.rest = cs then none
  else if r.erange then none
  else some (r.value, cs.length - r.rest.length)

/-- `std::stoull` with base 0. -/
def stoull (aStr : List (BitVec 8)) : Option (BitVec 64 × Nat) :=
  (checked (cString aStr) (strtoul (cString aStr))).map fun (n, EndIdx) => (BitVec.ofNat 64 n, EndIdx)

/-- `std::stoll` with base 0. -/
def stoll (aStr : List (BitVec 8)) : Option (BitVec 64 × Nat) :=
  (checked (cString aStr) (strtoll (cString aStr))).map fun (n, EndIdx) => (BitVec.ofInt 64 n, EndIdx)

namespace IntTranslator

/-- `get_value` of the template; an exception is caught and gives nothing. -/
def getTemplate (t : IntType) (aStr : List (BitVec 8)) : Option t.Value :=
  if aStr = [] then none
  else
    match stoull aStr with
    | none => none
    | some (Data, EndIdx) =>
      if EndIdx ≠ aStr.length then none
      else
        let RetVal : t.Value := Data.setWidth t.width
        if Data ≠ t.toUInt64 RetVal then none else some RetVal

/-- `get_value` of the specialization for `int64_t`. -/
def getInt64 (aStr : List (BitVec 8)) : Option (BitVec 64) :=
  if aStr = [] then none
  else
    match stoll aStr with
    | none => none
    | some (RetVal, EndIdx) => if EndIdx ≠ aStr.length then none else some RetVal

def getValue : (t : IntType) → List (BitVec 8) → Option t.Value
  | .int64, aStr => getInt64 aStr
  | .uint8, aStr => getTemplate .uint8 aStr
  | .int8, aStr => getTemplate .int8 aStr
  | .uint16, aStr => getTemplate .uint16 aStr
  | .int16, aStr => getTemplate .int16 aStr
  | .uint32, aStr => getTemplate .uint32 aStr
  | .int32, aStr => getTemplate .int32 aStr
  | .uint64, aStr => getTemplate .uint64 aStr

/-- **`put_value`**: a type of 8 bits is a character to the stream. -/
def putValue (t : IntType) (aValue : t.Value) : List (BitVec 8) :=
  if t.width = 8 then [aValue.setWidth 8] else signedDecimal (t.toInt aValue)

end IntTranslator

def getValue : (t : Scalar) → List (BitVec 8) → Option t.Value
  | .bool, aStr => BoolTranslator.getValue aStr
  | .int t, aStr => IntTranslator.getValue t aStr

def putValue : (t : Scalar) → t.Value → List (BitVec 8)
  | .bool, aValue => BoolTranslator.putValue aValue
  | .int t, aValue => IntTranslator.putValue t aValue

/-- `InvalidConversion_x`: the type and the string that its text names. -/
structure InvalidConversion where
  aType : String
  aValue : List (BitVec 8)
  deriving DecidableEq, Repr

def fromString (t : Scalar) (aStr : List (BitVec 8)) : Except InvalidConversion t.Value :=
  match getValue t aStr with
  | some Val => .ok Val
  | none => .error ⟨t.name, aStr⟩

/-! ## 3. Numbers of 64 bits -/

namespace IntType

theorem width_le (t : IntType) : t.width ≤ 64 := by
  cases t <;> decide

theorem setWidth_toUInt64 (t : IntType) (v : t.Value) : (t.toUInt64 v).setWidth t.width = v := by
  have hle := t.width_le
  unfold toUInt64
  apply BitVec.eq_of_getLsbD_eq
  intro i hi
  split
  · rw [BitVec.getLsbD_setWidth, BitVec.getLsbD_signExtend]
    simp [hi, show i < 64 by omega]
  · rw [BitVec.getLsbD_setWidth, BitVec.getLsbD_setWidth]
    simp [hi, show i < 64 by omega]

theorem toUInt64_eq (t : IntType) (v : t.Value) : t.toUInt64 v = BitVec.ofInt 64 (t.toInt v) := by
  unfold toUInt64 toInt
  split
  · rfl
  · rw [BitVec.ofInt_natCast, BitVec.ofNat_toNat]

theorem toInt_bounds (t : IntType) (v : t.Value) : -2 ^ 63 ≤ t.toInt v ∧ t.toInt v < 2 ^ 64 := by
  have hpow : 2 ^ t.width ≤ 2 ^ 64 := Nat.pow_le_pow_right (by decide) t.width_le
  have hlt := v.isLt
  unfold toInt
  split
  · rw [BitVec.toInt_eq_toNat_cond]
    split
    · omega
    · omega
  · omega

end IntType

/-- A number of at most 64 bits and an integer of a type are the same in 64 bits where they are the
    same, or a turn apart. -/
theorem ofInt_eq_iff {z u : Int} (hz : z.natAbs < 2 ^ 64) (hlow : -2 ^ 63 ≤ u) (hhigh : u < 2 ^ 64) :
    BitVec.ofInt 64 z = BitVec.ofInt 64 u ↔ u = z ∨ u = z + 2 ^ 64 ∨ u = z - 2 ^ 64 := by
  rw [← BitVec.toNat_inj, BitVec.toNat_ofInt, BitVec.toNat_ofInt]
  constructor
  · intro h
    omega
  · intro h
    omega

section number
variable {s : List (BitVec 8)} {z : Int}

theorem Number.ne_nil (h : Number s z) : s ≠ [] := by
  obtain ⟨c, cs, rfl, -⟩ := not_isSpace_head h
  exact List.cons_ne_nil c cs

theorem checked_whole {α : Type} (hs : s ≠ []) (value : α) (erange : Bool) :
    checked s ⟨value, erange, []⟩ = if erange then none else some (value, s.length) :=
  if_neg hs.symm

/-- `stoull` of a number: out of range, or its 64 bits. -/
theorem stoull_number (h : Number s z) :
    stoull s = if z.natAbs < 2 ^ 64 then some (BitVec.ofInt 64 z, s.length) else none := by
  have hs : cString s = s := cString_of_ne_zero h.ne_zero
  have hscan := scan_number h
  rw [hs] at hscan
  rw [stoull, hs]
  by_cases hz : z.natAbs < 2 ^ 64
  · have hread : strtoul s = ⟨(z % 2 ^ 64).toNat, false, []⟩ := by
      rw [strtoul, hscan]
      exact if_pos hz
    have hbits : BitVec.ofNat 64 (z % 2 ^ 64).toNat = BitVec.ofInt 64 z := by
      apply BitVec.eq_of_toNat_eq
      rw [BitVec.toNat_ofNat, BitVec.toNat_ofInt]
      omega
    rw [hread, checked_whole (Number.ne_nil h), if_pos hz, if_neg Bool.false_ne_true,
      Option.map_some]
    exact congrArg (fun n => some (n, s.length)) hbits
  · have hread : strtoul s = ⟨2 ^ 64 - 1, true, []⟩ := by
      rw [strtoul, hscan]
      exact if_neg hz
    rw [hread, checked_whole (Number.ne_nil h), if_neg hz, if_pos rfl, Option.map_none]

/-- `stoll` of a number: out of range, or its value. -/
theorem stoll_number (h : Number s z) :
    stoll s = if -2 ^ 63 ≤ z ∧ z < 2 ^ 63 then some (BitVec.ofInt 64 z, s.length) else none := by
  have hs : cString s = s := cString_of_ne_zero h.ne_zero
  have hscan := scan_number h
  rw [hs] at hscan
  rw [stoll, hs]
  by_cases hlow : z < -2 ^ 63
  · have hread : strtoll s = ⟨-2 ^ 63, true, []⟩ := by
      rw [strtoll, hscan]
      exact if_pos hlow
    rw [hread, checked_whole (Number.ne_nil h), if_pos rfl, if_neg (by omega), Option.map_none]
  · by_cases hhigh : 2 ^ 63 ≤ z
    · have hread : strtoll s = ⟨2 ^ 63 - 1, true, []⟩ := by
        rw [strtoll, hscan]
        exact (if_neg hlow).trans (if_pos hhigh)
      rw [hread, checked_whole (Number.ne_nil h), if_pos rfl, if_neg (by omega), Option.map_none]
    · have hread : strtoll s = ⟨z, false, []⟩ := by
        rw [strtoll, hscan]
        exact (if_neg hlow).trans (if_neg hhigh)
      rw [hread, checked_whole (Number.ne_nil h), if_neg Bool.false_ne_true,
        if_pos ⟨by omega, by omega⟩, Option.map_some]

/-- **The range check of the template**: a number is read as a value that is the same in 64 bits. -/
theorem getTemplate_iff (t : IntType) (h : Number s z) (v : t.Value) :
    IntTranslator.getTemplate t s = some v ↔ z.natAbs < 2 ^ 64 ∧
      (t.toInt v = z ∨ t.toInt v = z + 2 ^ 64 ∨ t.toInt v = z - 2 ^ 64) := by
  rw [IntTranslator.getTemplate, if_neg (Number.ne_nil h), stoull_number h]
  by_cases hz : z.natAbs < 2 ^ 64
  · obtain ⟨hlow, hhigh⟩ := t.toInt_bounds v
    rw [if_pos hz, ← ofInt_eq_iff hz hlow hhigh, ← t.toUInt64_eq v]
    dsimp only
    rw [if_neg (not_not.mpr rfl)]
    constructor
    · intro hread
      split at hread
      · cases hread
      · next hback =>
        rw [← Option.some.inj hread]
        exact ⟨hz, not_not.mp hback⟩
    · intro hread
      rw [hread.2, t.setWidth_toUInt64 v, if_neg (not_not.mpr rfl)]
  · rw [if_neg hz]
    exact iff_of_false (by simp) fun hread => hz hread.1

theorem getInt64_iff (h : Number s z) (v : BitVec 64) :
    IntTranslator.getInt64 s = some v ↔ v.toInt = z := by
  have hlow := BitVec.le_toInt v
  have hhigh := BitVec.toInt_lt (x := v)
  rw [IntTranslator.getInt64, if_neg (Number.ne_nil h), stoll_number h]
  by_cases hz : -2 ^ 63 ≤ z ∧ z < 2 ^ 63
  · rw [if_pos hz]
    dsimp only
    rw [if_neg (not_not.mpr rfl), Option.some.injEq]
    have hself : (BitVec.ofInt 64 z).toInt = z :=
      BitVec.toInt_ofInt_eq_self (by decide) hz.1 hz.2
    constructor
    · intro hv
      rw [← hv, hself]
    · intro hv
      apply BitVec.eq_of_toInt_eq
      rw [hself, hv]
  · rw [if_neg hz]
    exact iff_of_false (by simp) fun hv => hz ⟨by omega, by omega⟩

end number

/-! ## 4. Round trips -/

/-- A value is read again from what it is put out as. -/
def RoundTrips (t : Scalar) (v : t.Value) : Prop := getValue t (putValue t v) = some v

/-- The types a stream puts out as characters. -/
def Scalar.isCharacter : Scalar → Bool
  | .int .uint8 | .int .int8 => true
  | _ => false

theorem getValue_of_ne (t : IntType) (ht : t ≠ .int64) (s : List (BitVec 8)) :
    IntTranslator.getValue t s = IntTranslator.getTemplate t s := by
  cases t <;> first | rfl | contradiction

theorem stoull_character (c : BitVec 8) :
    (stoull [c]).all fun r => r.1.toNat + 0x30 = c.toNat := by
  revert c
  decide

/-- What is read from a character is not its code. -/
theorem getTemplate_character {t : IntType} (ht : t.width = 8) {c : BitVec 8} {v : t.Value}
    (h : IntTranslator.getTemplate t [c] = some v) : v.toNat + 0x30 = c.toNat := by
  have hdigit := stoull_character c
  rw [IntTranslator.getTemplate, if_neg (List.cons_ne_nil c [])] at h
  cases hread : stoull [c] with
  | none =>
    rw [hread] at h
    cases h
  | some r =>
    rw [hread] at h hdigit
    have hcode : r.1.toNat + 0x30 = c.toNat := of_decide_eq_true hdigit
    have hlt := c.isLt
    dsimp only at h
    split at h
    · cases h
    · split at h
      · cases h
      · rw [← Option.some.inj h, BitVec.toNat_setWidth, ht, Nat.mod_eq_of_lt (by omega)]
        exact hcode

theorem not_roundTrips_character {t : IntType} (ht : t.width = 8) (v : t.Value) :
    ¬ RoundTrips (.int t) v := by
  intro h
  have h64 : t ≠ .int64 := by
    intro h64
    rw [h64] at ht
    cases ht
  have hput : IntTranslator.putValue t v = [v.setWidth 8] := if_pos ht
  have hread : IntTranslator.getValue t (IntTranslator.putValue t v) = some v := h
  rw [getValue_of_ne t h64, hput] at hread
  have hcode := getTemplate_character ht hread
  rw [BitVec.toNat_setWidth] at hcode
  omega

/-- An integer of a type that is put out as a number. -/
theorem roundTrips_number (t : IntType) (ht : t.width ≠ 8) (v : t.Value) :
    RoundTrips (.int t) v := by
  have hput : IntTranslator.putValue t v = signedDecimal (t.toInt v) := if_neg ht
  have hnum := number_signedDecimal (t.toInt v)
  show IntTranslator.getValue t (IntTranslator.putValue t v) = some v
  rw [hput]
  by_cases h64 : t = .int64
  · subst h64
    exact (getInt64_iff hnum v).mpr rfl
  · obtain ⟨hlow, hhigh⟩ := t.toInt_bounds v
    rw [getValue_of_ne t h64]
    exact (getTemplate_iff t hnum v).mpr ⟨by omega, Or.inl rfl⟩

theorem roundTrips_bool (v : Bool) : RoundTrips .bool v := by
  show BoolTranslator.getValue (BoolTranslator.putValue v) = some v
  revert v
  decide

/-- **A value is read again**, unless it is put out as a character. -/
theorem roundTrips_iff (t : Scalar) (v : t.Value) : RoundTrips t v ↔ t.isCharacter = false := by
  cases t with
  | bool => exact iff_of_true (roundTrips_bool v) rfl
  | int t =>
    cases t with
    | uint8 => exact iff_of_false (not_roundTrips_character rfl v) Bool.true_eq_false.mp
    | int8 => exact iff_of_false (not_roundTrips_character rfl v) Bool.true_eq_false.mp
    | _ => exact iff_of_true (roundTrips_number _ (by decide) v) rfl

/-! ## 5. Numerals -/

/-- A decimal, octal or hexadecimal numeral, with a minus in front or none. -/
def Numeral (s : List (BitVec 8)) (z : Int) : Prop := Number s z ∧ s.head? ≠ some 0x2b

/-- A numeral is read as the value it denotes, and not at all where that is none of the type. -/
def ReadsAs (t : Scalar) (s : List (BitVec 8)) (z : Int) : Prop :=
  ∀ v : t.Value, getValue t s = some v ↔ t.toInt v = z

/-- The numerals that are read right: of `bool` those of 0, but not 0 itself; of `int64_t` all; of
    another type those with more than 64 bits, and those that no turn in 64 bits makes a value. -/
def ReadRight : Scalar → List (BitVec 8) → Int → Prop
  | .bool, s, z => z = 0 ∧ s ≠ [0x30]
  | .int .int64, _, _ => True
  | .int t, _, z =>
    2 ^ 64 ≤ z.natAbs ∨ ∀ v : t.Value, t.toInt v ≠ z + 2 ^ 64 ∧ t.toInt v ≠ z - 2 ^ 64

section numerals
variable {s : List (BitVec 8)} {z : Int}

theorem head_number (h : Number s z) : ∃ c cs, s = c :: cs ∧ c.toNat ≤ 0x39 := by
  have hconstant : ∀ {num n}, Constant num n → ∃ c cs, num = c :: cs ∧ c.toNat ≤ 0x39 := by
    intro num n hnum
    obtain ⟨c, cs, hcs, hc⟩ := isDigit_head hnum
    refine ⟨c, cs, hcs, ?_⟩
    have hlt : digitValue c < 10 := of_decide_eq_true hc
    rw [digitValue] at hlt
    split at hlt
    · omega
    · split at hlt
      · omega
      · split at hlt
        · omega
        · omega
  cases h with
  | plain hnum => exact hconstant hnum
  | plus _ => exact ⟨_, _, rfl, by decide⟩
  | minus _ => exact ⟨_, _, rfl, by decide⟩

theorem iequals_number (h : Number s z) {x : BitVec 8} {xs : List (BitVec 8)}
    (hx : 0x39 < (toUpper x).toNat) : iequals s (x :: xs) = false := by
  obtain ⟨c, cs, rfl, hc⟩ := head_number h
  have hupper : toUpper c = c := if_neg (by omega)
  refine decide_eq_false fun heq => ?_
  have hhead := (List.cons.inj heq).1
  rw [hupper] at hhead
  rw [← hhead] at hx
  omega

theorem boolTranslator_number (h : Number s z) :
    BoolTranslator.getValue s = some (decide (s = [0x30])) := by
  rw [BoolTranslator.getValue, if_neg (Number.ne_nil h), trueText, yesText,
    iequals_number h (by decide), iequals_number h (by decide), Bool.false_or, Bool.false_or]

theorem number_zero (h : Number [0x30] z) : z = 0 := by
  have hzero : Number [0x30] 0 := number_signedDecimal 0
  have heq := (scan_number h).symm.trans (scan_number hzero)
  exact (Prod.mk.inj (Option.some.inj heq)).1

theorem readsAs_bool (h : Number s z) : ReadsAs .bool s z ↔ z = 0 ∧ s ≠ [0x30] := by
  have hread : ∀ v : Bool, getValue .bool s = some v ↔ decide (s = [0x30]) = v := by
    intro v
    show BoolTranslator.getValue s = some v ↔ _
    rw [boolTranslator_number h, Option.some.injEq]
  constructor
  · intro hall
    by_cases hs : s = [0x30]
    · rw [hs] at h
      have htrue := (hall true).mp ((hread true).mpr (decide_eq_true hs))
      rw [number_zero h] at htrue
      exact absurd htrue (by decide)
    · exact ⟨((hall false).mp ((hread false).mpr (decide_eq_false hs))).symm, hs⟩
  · rintro ⟨rfl, hs⟩ v
    refine (hread v).trans ?_
    rw [decide_eq_false hs]
    cases (show Bool from v) <;> decide

/-- **A numeral is read as what it denotes**, unless a turn in 64 bits makes it a value. -/
theorem readsAs_template (t : IntType) (ht : t ≠ .int64) (h : Number s z) :
    ReadsAs (.int t) s z ↔
      2 ^ 64 ≤ z.natAbs ∨ ∀ v : t.Value, t.toInt v ≠ z + 2 ^ 64 ∧ t.toInt v ≠ z - 2 ^ 64 := by
  have hread : ∀ v : t.Value, getValue (.int t) s = some v ↔ z.natAbs < 2 ^ 64 ∧
      (t.toInt v = z ∨ t.toInt v = z + 2 ^ 64 ∨ t.toInt v = z - 2 ^ 64) := by
    intro v
    show IntTranslator.getValue t s = some v ↔ _
    rw [getValue_of_ne t ht]
    exact getTemplate_iff t h v
  constructor
  · intro hall
    by_cases hz : 2 ^ 64 ≤ z.natAbs
    · exact Or.inl hz
    · refine Or.inr fun v => ⟨fun hup => ?_, fun hdown => ?_⟩
      · have hv : t.toInt v = z := (hall v).mp ((hread v).mpr ⟨by omega, Or.inr (Or.inl hup)⟩)
        omega
      · have hv : t.toInt v = z := (hall v).mp ((hread v).mpr ⟨by omega, Or.inr (Or.inr hdown)⟩)
        omega
  · intro hright v
    obtain ⟨hlow, hhigh⟩ := t.toInt_bounds v
    refine (hread v).trans ?_
    show _ ↔ t.toInt v = z
    rcases hright with hz | hnone
    · exact iff_of_false (fun hv => by omega) (fun hv => by omega)
    · constructor
      · rintro ⟨-, hv | hup | hdown⟩
        · exact hv
        · exact absurd hup (hnone v).1
        · exact absurd hdown (hnone v).2
      · intro hv
        exact ⟨by omega, Or.inl hv⟩

theorem readsAs_int64 (h : Number s z) : ReadsAs (.int .int64) s z := fun v => getInt64_iff h v

theorem readsAs_iff (t : Scalar) (h : Number s z) : ReadsAs t s z ↔ ReadRight t s z := by
  cases t with
  | bool => exact readsAs_bool h
  | int t =>
    cases t with
    | int64 => exact iff_of_true (readsAs_int64 h) trivial
    | _ => exact readsAs_template _ (by decide) h

end numerals

/-- **Scalars of the configuration.** The values of a type are read again exactly where the type is
    not put out as characters; a numeral is read as the integer it denotes, where that is a value of
    the type, and not at all where it is none, exactly where it is one that is read right. -/
theorem scalars_iff (t : Scalar) :
    (∀ v : t.Value, RoundTrips t v ↔ t.isCharacter = false) ∧
      ∀ s z, Numeral s z → (ReadsAs t s z ↔ ReadRight t s z) :=
  ⟨roundTrips_iff t, fun _ _ h => readsAs_iff t h.1⟩

/-- `-5`, of 16 bits. -/
theorem scalars_iff_int16 :
    RoundTrips (.int .int16) (-5#16) ∧ ReadsAs (.int .int16) [0x2d, 0x35] (-5) := by
  obtain ⟨hround, hread⟩ := scalars_iff (.int .int16)
  have hdigit : Constant [0x35] 5 := Constant.decimal (by decide) (by decide) (by decide)
  have hnum : Numeral [0x2d, 0x35] (-5) := ⟨Number.minus hdigit, by decide⟩
  refine ⟨(hround _).mpr rfl, (hread _ _ hnum).mpr (Or.inr fun v => ?_)⟩
  have hlow : -2 ^ 15 ≤ v.toInt := BitVec.le_toInt v
  have hhigh : v.toInt < 2 ^ 15 := BitVec.toInt_lt
  show v.toInt ≠ _ ∧ v.toInt ≠ _
  omega

/-- A value of `uint8_t`; 1 of `bool`; and -1 of `uint64_t`. -/
theorem not_scalars :
    ¬ RoundTrips (.int .uint8) (65#8) ∧
      (Numeral [0x31] 1 ∧ ¬ ReadsAs .bool [0x31] 1) ∧
      (Numeral [0x2d, 0x31] (-1) ∧ ¬ ReadsAs (.int .uint64) [0x2d, 0x31] (-1)) := by
  have hone : Constant [0x31] 1 := Constant.decimal (by decide) (by decide) (by decide)
  refine ⟨not_roundTrips_character rfl _, ⟨⟨Number.plain hone, by decide⟩, fun h => ?_⟩,
    ⟨Number.minus hone, by decide⟩, fun h => ?_⟩
  · have hread : BoolTranslator.getValue [0x31] = some false := by decide
    exact absurd ((h false).mp hread) (by decide)
  · have hread : IntTranslator.getTemplate .uint64 [0x2d, 0x31] = some (BitVec.allOnes 64) :=
      (getTemplate_iff .uint64 (Number.minus hone) _).mpr ⟨by decide, by decide⟩
    exact absurd ((h _).mp hread) (by decide)

end ConfigFile

end CraySim
