/-
  Subject:   Addresses in configuration files and on command lines, as `cray_types.h` reads them.

  The address of a word is a number; that of a parcel is the number of its word with `:p` and the
  parcel in the word behind it.

  * `CAddrTranslator`, `CProgramAddrTranslator` -- `get_value` and `put_value`,
  * `fromString`, `fromStringCombined` -- what takes either of them,
  * `WordAddr`, `ProgramAddr` -- the strings that are addresses,
  * `ParsedExactly` -- they are read as that, and no others are read,
  * `OddWord`, `OddProgram` -- the strings that are read and are no addresses,
  * `addresses_iff` -- a string is read exactly unless it is one of these.
-/
import CraySim.Lib.CNumber
import CraySim.Types

namespace CraySim

namespace AddrStrings

open CNumber

/-! ## 1. Reading -/

/-- What `FromString` throws. -/
inductive StringExn where
  | stringFormatError
  /-- No exception of the source: the C++ behaviour is undefined from here on. -/
  | undefinedBehaviour
  deriving DecidableEq, Repr

namespace CAddrTranslator

def getValue (aStr : List (BitVec 8)) : Option (BitVec 32) :=
  if aStr = [] then none
  else
    let r := strtoul (cString aStr)
    if r.erange then none
    else if r.rest ≠ [] then none
    else if 2 ^ 32 - 1 < r.value then none
    else some (BitVec.ofNat 32 r.value)

def putValue (aValue : BitVec 32) : List (BitVec 8) := 0x30 :: 0x78 :: hexDigits 6 aValue.toNat

end CAddrTranslator

namespace CProgramAddrTranslator

/-- A number of a `long long`. -/
def isLongLong (z : Int) : Bool := -2 ^ 63 ≤ z && z < 2 ^ 63

/-- `get_value` behind `strtoll`. -/
def finish (RetVal : Int) (rest : List (BitVec 8)) : Except StringExn (Option (BitVec 32)) :=
  let EndPtr := fun i => rest.getD i 0
  if EndPtr 0 ≠ 0x3a then .ok none
  else if EndPtr 1 ≠ 0x70 ∧ EndPtr 1 ≠ 0x50 then .ok none
  else if EndPtr 2 = 0 then .ok none
  else
    let Parcel := (EndPtr 2).toInt - 0x30
    if Parcel < 0 ∨ 3 < Parcel then .ok none
    else if isLongLong (RetVal * 4) && isLongLong (RetVal * 4 + Parcel) then
      if 2 ^ 32 - 1 < RetVal * 4 + Parcel then .ok none
      else .ok (some (BitVec.ofInt 32 (RetVal * 4 + Parcel)))
    else .error .undefinedBehaviour

def getValue (aStr : List (BitVec 8)) : Except StringExn (Option (BitVec 32)) :=
  if aStr = [] then .ok none
  else
    let r := strtoll (cString aStr)
    if r.erange then .ok none else finish r.value r.rest

def putValue (aValue : BitVec 32) : List (BitVec 8) :=
  0x30 :: 0x78 :: hexDigits 6 (aValue.toNat / 4) ++
    [0x3a, 0x70, BitVec.ofNat 8 (0x30 + aValue.toNat % 4)]

end CProgramAddrTranslator

/-- `StringFormat_e`. -/
inductive StringFormat where
  | dataAddr
  | programAddr
  | both
  deriving DecidableEq, Repr

def fromString (aString : List (BitVec 8)) (aFormat : StringFormat) :
    Except StringExn (BitVec 32) :=
  (if aFormat = .programAddr ∨ aFormat = .both then CProgramAddrTranslator.getValue aString
    else .ok none).bind fun
    | some Val => .ok Val
    | none =>
      match if aFormat = .dataAddr ∨ aFormat = .both then CAddrTranslator.getValue aString
        else none with
      | some Val => .ok Val
      | none => .error .stringFormatError

/-- `CCombinedAddr_t`. -/
structure CombinedAddr where
  Addr : BitVec 32
  IsParcelAddr : Bool
  deriving DecidableEq, Repr

/-- `FromString<CCombinedAddr_t>`. -/
def fromStringCombined (aStr : List (BitVec 8)) : Except StringExn CombinedAddr :=
  match fromString aStr .programAddr with
  | .ok Addr => .ok ⟨Addr, true⟩
  | .error .stringFormatError => (fromString aStr .dataAddr).map (⟨·, false⟩)
  | .error .undefinedBehaviour => .error .undefinedBehaviour

/-! ## 2. Addresses -/

/-- A p of either case. -/
def isP (p : BitVec 8) : Prop := p = 0x70 ∨ p = 0x50

/-- What stands behind the number of a word. -/
def suffix (p : BitVec 8) (d : Nat) : List (BitVec 8) := [0x3a, p, BitVec.ofNat 8 (0x30 + d)]

/-- The string of a word address. -/
def WordAddr (s : List (BitVec 8)) (v : BitVec 32) : Prop :=
  ∃ n : Nat, Number s n ∧ n < 2 ^ 32 ∧ v = BitVec.ofNat 32 n

/-- The string of a parcel address. -/
def ProgramAddr (s : List (BitVec 8)) (v : BitVec 32) : Prop :=
  ∃ (num : List (BitVec 8)) (n d : Nat) (p : BitVec 8), Number num n ∧ isP p ∧ d < 4 ∧
    s = num ++ suffix p d ∧ 4 * n + d < 2 ^ 32 ∧ v = BitVec.ofNat 32 (4 * n + d)

/-- The addresses are read, and nothing else is. -/
structure ParsedExactly (s : List (BitVec 8)) : Prop where
  program : ∃ r, CProgramAddrTranslator.getValue s = .ok r ∧ ∀ v, r = some v ↔ ProgramAddr s v
  word : ∀ v, CAddrTranslator.getValue s = some v ↔ WordAddr s v

/-- A number alone that is read as the address of a word: with white space in front, with a minus
    and close enough to -2^64, or with a zero character behind it; or nothing but what stands behind
    a zero character. -/
def OddWord (s : List (BitVec 8)) : Prop :=
  (∃ z : Int, scan (cString s) = some (z, []) ∧ z.natAbs < 2 ^ 64 ∧ z % 2 ^ 64 < 2 ^ 32 ∧
    (leadingSpace s ∨ z < 0 ∨ 0 ∈ s)) ∨
  s ≠ [] ∧ cString s = []

/-- A number with a parcel that is read as an address: negative, with white space in front or with
    anything behind it; a number that leaves the range of a `long long` when it is multiplied; or a
    parcel without number. -/
def OddProgram (s : List (BitVec 8)) : Prop :=
  (∃ (z : Int) (p : BitVec 8) (d : Nat) (tail : List (BitVec 8)),
    scan (cString s) = some (z, suffix p d ++ tail) ∧ isP p ∧ d < 4 ∧
      CProgramAddrTranslator.isLongLong z ∧ (z < -2 ^ 61 ∨ 2 ^ 61 ≤ z ∨
        4 * z + d < 2 ^ 32 ∧ (leadingSpace s ∨ z < 0 ∨ tail ≠ [] ∨ 0 ∈ s))) ∨
  ∃ (p : BitVec 8) (d : Nat) (tail : List (BitVec 8)),
    isP p ∧ d < 4 ∧ cString s = suffix p d ++ tail

/-! ## 3. What stands behind a number -/

variable {s rest tail : List (BitVec 8)} {p : BitVec 8} {z : Int} {d : Nat}

theorem stops_suffix (tail : List (BitVec 8)) : Stops (suffix p d ++ tail) := by
  intro c hc
  obtain rfl := Option.some.inj hc
  exact ⟨by decide, by decide⟩

theorem scan_suffix : scan (suffix p d ++ tail) = none := rfl

/-- The parcel of an address, and what is behind it. -/
theorem suffix_inj {p' : BitVec 8} {d' : Nat} {tail' : List (BitVec 8)} (hd : d < 4) (hd' : d' < 4)
    (h : suffix p d ++ tail = suffix p' d' ++ tail') : d = d' ∧ tail = tail' := by
  obtain ⟨_, h⟩ := List.cons.inj h
  obtain ⟨_, h⟩ := List.cons.inj h
  obtain ⟨hdigit, htail⟩ := List.cons.inj h
  refine ⟨?_, htail⟩
  have hnat := congrArg BitVec.toNat hdigit
  rw [BitVec.toNat_ofNat, BitVec.toNat_ofNat] at hnat
  omega

namespace CProgramAddrTranslator

theorem finish_suffix (hp : isP p) (hd : d < 4) : finish z (suffix p d ++ tail) =
    if isLongLong (z * 4) && isLongLong (z * 4 + d) then
      if 2 ^ 32 - 1 < z * 4 + d then .ok none else .ok (some (BitVec.ofInt 32 (z * 4 + d)))
    else .error .undefinedBehaviour := by
  have hdigit : ∀ d < 4, BitVec.ofNat 8 (0x30 + d) ≠ 0 ∧
      (BitVec.ofNat 8 (0x30 + d)).toInt - 0x30 = d := by
    decide
  have h2 : (suffix p d ++ tail).getD 2 0 = BitVec.ofNat 8 (0x30 + d) := rfl
  have hcolon : ¬ (suffix p d ++ tail).getD 0 0 ≠ 0x3a := not_not.mpr rfl
  have hletter : ¬ ((suffix p d ++ tail).getD 1 0 ≠ 0x70 ∧ (suffix p d ++ tail).getD 1 0 ≠ 0x50) :=
    fun ⟨hlower, hupper⟩ => hp.elim hlower hupper
  obtain ⟨hzero, hparcel⟩ := hdigit d hd
  rw [← h2] at hzero hparcel
  rw [finish]
  dsimp only
  rw [if_neg hcolon, if_neg hletter, if_neg hzero, hparcel, if_neg (by omega)]

theorem finish_other (h : ∀ p d tail, isP p → d < 4 → rest ≠ suffix p d ++ tail) :
    finish z rest = .ok none := by
  rw [finish]
  dsimp only
  by_cases h0 : rest.getD 0 0 = 0x3a
  · by_cases h1 : rest.getD 1 0 ≠ 0x70 ∧ rest.getD 1 0 ≠ 0x50
    · rw [if_neg (not_not.mpr h0), if_pos h1]
    · by_cases h2 : rest.getD 2 0 = 0
      · rw [if_neg (not_not.mpr h0), if_neg h1, if_pos h2]
      · rw [if_neg (not_not.mpr h0), if_neg h1, if_neg h2]
        match rest, h, h0, h1, h2 with
        | [], _, _, _, h2 => exact absurd rfl h2
        | [_], _, _, _, h2 => exact absurd rfl h2
        | [_, _], _, _, _, h2 => exact absurd rfl h2
        | c₀ :: c₁ :: c₂ :: tail, h, h0, h1, _ =>
          refine if_pos ?_
          by_contra hparcel
          have hin : 0 ≤ c₂.toInt - 0x30 ∧ c₂.toInt - 0x30 ≤ 3 := by
            have hdef : (c₀ :: c₁ :: c₂ :: tail).getD 2 0 = c₂ := rfl
            rw [hdef] at hparcel
            omega
          have hp : isP c₁ := by
            by_contra hnot
            exact h1 ⟨fun hlow => hnot (Or.inl hlow), fun hup => hnot (Or.inr hup)⟩
          have hdigit : ∀ c : BitVec 8, 0 ≤ c.toInt - 0x30 ∧ c.toInt - 0x30 ≤ 3 →
              c = BitVec.ofNat 8 (0x30 + (c.toInt - 0x30).toNat) := by
            decide
          refine h c₁ (c₂.toInt - 0x30).toNat tail hp (by omega) ?_
          rw [suffix, ← hdigit c₂ hin]
          obtain rfl : c₀ = 0x3a := h0
          rfl
  · rw [if_pos h0]

theorem getValue_of_scan_none (h : scan (cString s) = none) :
    getValue s = finish 0 (cString s) := by
  rw [getValue, (rest_of_scan_none h).2]
  split
  · next hempty =>
    rw [hempty]
    rfl
  · rfl

theorem isLongLong_iff : isLongLong z = true ↔ -2 ^ 63 ≤ z ∧ z < 2 ^ 63 := by
  simp [isLongLong]

/-- The parcels of a word number are computed without overflow. -/
theorem fits_iff {d : Nat} (hd : d < 4) :
    (isLongLong (z * 4) && isLongLong (z * 4 + d)) = true ↔ -2 ^ 61 ≤ z ∧ z < 2 ^ 61 := by
  rw [Bool.and_eq_true, isLongLong_iff, isLongLong_iff]
  omega

theorem getValue_of_scan (h : scan (cString s) = some (z, rest)) :
    getValue s = if isLongLong z then finish z rest else .ok none := by
  have hsome : s ≠ [] := by
    intro hempty
    rw [hempty] at h
    cases h
  rw [getValue, if_neg hsome, strtoll, h]
  dsimp only
  by_cases hlow : z < -2 ^ 63
  · rw [if_pos hlow, if_neg fun h => Int.not_le.mpr hlow (isLongLong_iff.mp h).1]
    rfl
  · by_cases hhigh : 2 ^ 63 ≤ z
    · rw [if_neg hlow, if_pos hhigh, if_neg fun h => Int.not_lt.mpr hhigh (isLongLong_iff.mp h).2]
      rfl
    · rw [if_neg hlow, if_neg hhigh,
        if_pos (isLongLong_iff.mpr ⟨Int.not_lt.mp hlow, Int.not_le.mp hhigh⟩)]
      rfl

end CProgramAddrTranslator

/-! ## 4. Parcels -/

/-- What makes a number with a parcel no address. -/
def oddParcel (s : List (BitVec 8)) (z : Int) (tail : List (BitVec 8)) : Prop :=
  leadingSpace s ∨ z < 0 ∨ tail ≠ [] ∨ 0 ∈ s

theorem nonneg_of_not_oddParcel (h : ¬ oddParcel s z tail) : 0 ≤ z := by
  by_contra hz
  exact h (Or.inr (Or.inl (by omega)))

theorem programAddr_scan {v : BitVec 32} (h : ProgramAddr s v) :
    0 ∉ s ∧ ¬ leadingSpace s ∧ ∃ (n d : Nat) (p : BitVec 8), isP p ∧ d < 4 ∧
      scan (cString s) = some ((n : Int), suffix p d ++ []) ∧ 4 * n + d < 2 ^ 32 ∧
        v = BitVec.ofNat 32 (4 * n + d) := by
  obtain ⟨num, n, d, p, hnum, hp, hd, hs, hlt, hv⟩ := h
  have hdigit : ∀ d < 4, BitVec.ofNat 8 (0x30 + d) ≠ 0 := by decide
  have hzero : ∀ c ∈ s, c ≠ 0 := by
    intro c hc
    rw [hs] at hc
    rcases List.mem_append.mp hc with hin | hin
    · exact hnum.ne_zero c hin
    · rcases List.mem_cons.mp hin with rfl | hin
      · decide
      · rcases List.mem_cons.mp hin with rfl | hin
        · rcases hp with rfl | rfl
          · decide
          · decide
        · rw [List.mem_singleton.mp hin]
          exact hdigit d hd
  obtain ⟨hspace, hscan⟩ := (scan_iff (stops_suffix [])).mp ⟨num, hnum, hs⟩
  refine ⟨fun h0 => hzero 0 h0 rfl, hspace, n, d, p, hp, hd, ?_, hlt, hv⟩
  rw [cString_of_ne_zero hzero]
  exact hscan

theorem programAddr_iff (hp : isP p) (hd : d < 4)
    (h : scan (cString s) = some (z, suffix p d ++ tail)) {v : BitVec 32} :
    ProgramAddr s v ↔ ¬ oddParcel s z tail ∧ 4 * z + d < 2 ^ 32 ∧
      v = BitVec.ofInt 32 (4 * z + d) := by
  constructor
  · intro haddr
    obtain ⟨hzero, hspace, n, d', p', hp', hd', hscan, hlt, hv⟩ := programAddr_scan haddr
    rw [h] at hscan
    obtain ⟨hz, hrest⟩ := Prod.mk.inj (Option.some.inj hscan)
    obtain ⟨rfl, htail⟩ := suffix_inj hd hd' hrest
    subst hz
    refine ⟨fun hodd => ?_, by omega, ?_⟩
    · rcases hodd with hodd | hodd | hodd | hodd
      · exact hspace hodd
      · omega
      · exact hodd htail
      · exact hzero hodd
    · rw [hv, ← BitVec.ofInt_natCast]
      push_cast
      rfl
  · intro ⟨hodd, hlt, hv⟩
    have hzero : ∀ c ∈ s, c ≠ 0 := fun c hc h0 =>
      hodd (Or.inr (Or.inr (Or.inr (h0 ▸ hc))))
    have hspace : ¬ leadingSpace s := fun hspace => hodd (Or.inl hspace)
    have htail : tail = [] := by
      by_contra htail
      exact hodd (Or.inr (Or.inr (Or.inl htail)))
    obtain ⟨n, rfl⟩ := Int.eq_ofNat_of_zero_le (nonneg_of_not_oddParcel hodd)
    subst htail
    rw [cString_of_ne_zero hzero] at h
    obtain ⟨num, hnum, hs⟩ := (scan_iff (stops_suffix [])).mpr ⟨hspace, h⟩
    refine ⟨num, n, d, p, hnum, hp, hd, hs, by omega, ?_⟩
    rw [hv, ← BitVec.ofInt_natCast]
    push_cast
    rfl

/-- Which numbers with a parcel are read and are no addresses. -/
theorem oddProgram_iff (hp : isP p) (hd : d < 4)
    (h : scan (cString s) = some (z, suffix p d ++ tail)) :
    OddProgram s ↔ CProgramAddrTranslator.isLongLong z ∧ (z < -2 ^ 61 ∨ 2 ^ 61 ≤ z ∨
      4 * z + d < 2 ^ 32 ∧ oddParcel s z tail) := by
  constructor
  · intro hodd
    rcases hodd with ⟨z', p', d', tail', hscan, hp', hd', hrange, hodd⟩ | ⟨p', d', tail', _, _, hs⟩
    · rw [h] at hscan
      obtain ⟨rfl, hrest⟩ := Prod.mk.inj (Option.some.inj hscan)
      obtain ⟨rfl, rfl⟩ := suffix_inj hd hd' hrest
      exact ⟨hrange, hodd⟩
    · rw [hs, scan_suffix] at h
      cases h
  · intro ⟨hrange, hodd⟩
    exact Or.inl ⟨z, p, d, tail, h, hp, hd, hrange, hodd⟩

/-- Where nothing is read, that is right if there is no address. -/
theorem nothing_iff {Q : BitVec 32 → Prop} (h : ∀ v, ¬ Q v) (v : BitVec 32) :
    none = some v ↔ Q v :=
  ⟨fun hnone => absurd hnone.symm (Option.some_ne_none v), fun hQ => absurd hQ (h v)⟩

theorem program_iff_of_none (h : scan (cString s) = none) :
    (∃ r, CProgramAddrTranslator.getValue s = .ok r ∧ ∀ v, r = some v ↔ ProgramAddr s v) ↔
      ¬ OddProgram s := by
  have hnot : ∀ v, ¬ ProgramAddr s v := by
    intro v haddr
    obtain ⟨_, _, n, d, p, _, _, hscan, _⟩ := programAddr_scan haddr
    rw [h] at hscan
    cases hscan
  rw [CProgramAddrTranslator.getValue_of_scan_none h]
  constructor
  · intro ⟨r, hr, hread⟩ hodd
    rcases hodd with ⟨z, p, d, tail, hscan, _⟩ | ⟨p, d, tail, hp, hd, hs⟩
    · rw [h] at hscan
      cases hscan
    · have hsmall : ¬ 2 ^ 32 - 1 < (0 : Int) * 4 + d := by omega
      have hrange := (@CProgramAddrTranslator.fits_iff 0 d hd).mpr (by decide)
      rw [hs, CProgramAddrTranslator.finish_suffix hp hd, if_pos hrange, if_neg hsmall] at hr
      exact hnot _ ((hread _).mp (Except.ok.inj hr).symm)
  · intro hodd
    refine ⟨none, ?_, nothing_iff hnot⟩
    exact CProgramAddrTranslator.finish_other fun p d tail hp hd hs =>
      hodd (Or.inr ⟨p, d, tail, hp, hd, hs⟩)

theorem program_iff_of_other (h : scan (cString s) = some (z, rest))
    (hrest : ∀ p d tail, isP p → d < 4 → rest ≠ suffix p d ++ tail) :
    (∃ r, CProgramAddrTranslator.getValue s = .ok r ∧ ∀ v, r = some v ↔ ProgramAddr s v) ↔
      ¬ OddProgram s := by
  have hnot : ∀ v, ¬ ProgramAddr s v := by
    intro v haddr
    obtain ⟨_, _, n, d, p, hp, hd, hscan, _⟩ := programAddr_scan haddr
    rw [h] at hscan
    exact hrest p d [] hp hd (Prod.mk.inj (Option.some.inj hscan)).2
  have hodd : ¬ OddProgram s := by
    intro hodd
    rcases hodd with ⟨z', p, d, tail, hscan, hp, hd, _⟩ | ⟨p, d, tail, _, _, hs⟩
    · rw [h] at hscan
      exact hrest p d tail hp hd (Prod.mk.inj (Option.some.inj hscan)).2
    · rw [hs, scan_suffix] at h
      cases h
  refine ⟨fun _ => hodd, fun _ => ⟨none, ?_, nothing_iff hnot⟩⟩
  rw [CProgramAddrTranslator.getValue_of_scan h, CProgramAddrTranslator.finish_other hrest, ite_self]

theorem program_iff_of_suffix (hp : isP p) (hd : d < 4)
    (h : scan (cString s) = some (z, suffix p d ++ tail)) :
    (∃ r, CProgramAddrTranslator.getValue s = .ok r ∧ ∀ v, r = some v ↔ ProgramAddr s v) ↔
      ¬ OddProgram s := by
  rw [CProgramAddrTranslator.getValue_of_scan h, CProgramAddrTranslator.finish_suffix hp hd,
    oddProgram_iff hp hd h]
  have haddr := @programAddr_iff s tail p z d hp hd h
  by_cases hrange : CProgramAddrTranslator.isLongLong z = true
  · by_cases hbig : z < -2 ^ 61 ∨ 2 ^ 61 ≤ z
    · have hover : ¬ (-2 ^ 61 ≤ z ∧ z < 2 ^ 61) := by omega
      rw [if_pos hrange, if_neg (mt (CProgramAddrTranslator.fits_iff hd).mp hover)]
      constructor
      · intro ⟨r, hr, _⟩
        cases hr
      · intro hodd
        exact absurd ⟨hrange, hbig.elim Or.inl fun h => Or.inr (Or.inl h)⟩ hodd
    · have hin : -2 ^ 61 ≤ z ∧ z < 2 ^ 61 := by omega
      rw [if_pos hrange, if_pos ((CProgramAddrTranslator.fits_iff hd).mpr hin)]
      by_cases hlarge : 2 ^ 32 - 1 < z * 4 + d
      · rw [if_pos hlarge]
        have hnot : ∀ v, ¬ ProgramAddr s v := fun v hv => by
          have hlt := (haddr.mp hv).2.1
          omega
        refine ⟨fun _ hodd => ?_, fun _ => ⟨none, rfl, nothing_iff hnot⟩⟩
        rcases hodd.2 with hlow | hhigh | hlt
        · exact hbig (Or.inl hlow)
        · exact hbig (Or.inr hhigh)
        · omega
      · rw [if_neg hlarge]
        have hlt : 4 * z + d < 2 ^ 32 := by omega
        have hsum : z * 4 + d = 4 * z + d := by omega
        rw [hsum]
        constructor
        · intro ⟨r, hr, hread⟩ hodd
          have hv := haddr.mp ((hread _).mp (Except.ok.inj hr).symm)
          rcases hodd.2 with hlow | hhigh | ⟨_, hodd⟩
          · exact hbig (Or.inl hlow)
          · exact hbig (Or.inr hhigh)
          · exact hv.1 hodd
        · intro hodd
          refine ⟨_, rfl, fun v => ?_⟩
          rw [haddr, Option.some.injEq]
          constructor
          · intro hv
            exact ⟨fun h => hodd ⟨hrange, Or.inr (Or.inr ⟨hlt, h⟩)⟩, hlt, hv.symm⟩
          · intro hv
            exact hv.2.2.symm
  · have hnot : ∀ v, ¬ ProgramAddr s v := by
      intro v hv
      obtain ⟨hodd, hlt, _⟩ := haddr.mp hv
      have hz := nonneg_of_not_oddParcel hodd
      exact hrange (CProgramAddrTranslator.isLongLong_iff.mpr (by omega))
    rw [if_neg hrange]
    exact ⟨fun _ hodd => hrange hodd.1, fun _ => ⟨none, rfl, nothing_iff hnot⟩⟩

/-- The parcels are read exactly unless the string is odd. -/
theorem program_iff (s : List (BitVec 8)) :
    (∃ r, CProgramAddrTranslator.getValue s = .ok r ∧ ∀ v, r = some v ↔ ProgramAddr s v) ↔
      ¬ OddProgram s := by
  cases h : scan (cString s) with
  | none => exact program_iff_of_none h
  | some r =>
    obtain ⟨z, rest⟩ := r
    by_cases hrest : ∃ p d tail, isP p ∧ d < 4 ∧ rest = suffix p d ++ tail
    · obtain ⟨p, d, tail, hp, hd, rfl⟩ := hrest
      exact program_iff_of_suffix hp hd h
    · exact program_iff_of_other h fun p d tail hp hd hs => hrest ⟨p, d, tail, hp, hd, hs⟩

/-! ## 5. Words -/

namespace CAddrTranslator

theorem getValue_of_scan_none (h : scan (cString s) = none) :
    getValue s = if s ≠ [] ∧ cString s = [] then some 0 else none := by
  rw [getValue, (rest_of_scan_none h).1]
  by_cases hempty : s = []
  · rw [if_pos hempty, if_neg fun hs => hs.1 hempty]
  · rw [if_neg hempty]
    dsimp only
    rw [if_neg Bool.false_ne_true]
    by_cases hs : cString s = []
    · rw [if_neg (not_not.mpr hs), if_neg (Nat.not_lt_zero _), if_pos ⟨hempty, hs⟩]
      rfl
    · rw [if_pos hs, if_neg fun h => hs h.2]

theorem getValue_of_scan (h : scan (cString s) = some (z, rest)) :
    getValue s = if rest = [] ∧ z.natAbs < 2 ^ 64 ∧ z % 2 ^ 64 < 2 ^ 32 then
      some (BitVec.ofNat 32 (z % 2 ^ 64).toNat) else none := by
  have hsome : s ≠ [] := by
    intro hempty
    rw [hempty] at h
    cases h
  rw [getValue, if_neg hsome, strtoul, h]
  dsimp only
  by_cases hrange : z.natAbs < 2 ^ 64
  · rw [if_pos hrange]
    dsimp only
    rw [if_neg Bool.false_ne_true]
    by_cases hrest : rest = []
    · rw [if_neg (not_not.mpr hrest)]
      by_cases hlt : z % 2 ^ 64 < 2 ^ 32
      · rw [if_neg (by omega), if_pos ⟨hrest, hrange, hlt⟩]
      · rw [if_pos (by omega), if_neg fun h => hlt h.2.2]
    · rw [if_pos hrest, if_neg fun h => hrest h.1]
  · rw [if_neg hrange]
    dsimp only
    rw [if_pos rfl, if_neg fun h => hrange h.2.1]

end CAddrTranslator

/-- What makes a number alone no address. -/
def oddNumber (s : List (BitVec 8)) (z : Int) : Prop := leadingSpace s ∨ z < 0 ∨ 0 ∈ s

theorem nonneg_of_not_oddNumber (h : ¬ oddNumber s z) : 0 ≤ z := by
  by_contra hz
  exact h (Or.inr (Or.inl (by omega)))

theorem wordAddr_scan {v : BitVec 32} (h : WordAddr s v) :
    0 ∉ s ∧ ¬ leadingSpace s ∧ ∃ n : Nat, scan (cString s) = some ((n : Int), []) ∧ n < 2 ^ 32 ∧
      v = BitVec.ofNat 32 n := by
  obtain ⟨n, hnum, hlt, hv⟩ := h
  obtain ⟨hspace, hscan⟩ := (scan_iff stops_nil).mp ⟨s, hnum, (List.append_nil s).symm⟩
  refine ⟨fun h0 => hnum.ne_zero 0 h0 rfl, hspace, n, ?_, hlt, hv⟩
  rw [cString_of_ne_zero hnum.ne_zero]
  exact hscan

theorem wordAddr_iff (h : scan (cString s) = some (z, [])) {v : BitVec 32} :
    WordAddr s v ↔ ¬ oddNumber s z ∧ z < 2 ^ 32 ∧ v = BitVec.ofNat 32 (z % 2 ^ 64).toNat := by
  constructor
  · intro haddr
    obtain ⟨hzero, hspace, n, hscan, hlt, hv⟩ := wordAddr_scan haddr
    rw [h] at hscan
    obtain ⟨rfl, _⟩ := Prod.mk.inj (Option.some.inj hscan)
    have hvalue : ((n : Int) % 2 ^ 64).toNat = n := by omega
    refine ⟨fun hodd => ?_, by omega, by rw [hvalue]; exact hv⟩
    rcases hodd with hodd | hodd | hodd
    · exact hspace hodd
    · omega
    · exact hzero hodd
  · intro ⟨hodd, hlt, hv⟩
    have hzero : ∀ c ∈ s, c ≠ 0 := fun c hc h0 => hodd (Or.inr (Or.inr (h0 ▸ hc)))
    have hspace : ¬ leadingSpace s := fun hspace => hodd (Or.inl hspace)
    obtain ⟨n, rfl⟩ := Int.eq_ofNat_of_zero_le (nonneg_of_not_oddNumber hodd)
    have hvalue : ((n : Int) % 2 ^ 64).toNat = n := by omega
    rw [cString_of_ne_zero hzero] at h
    obtain ⟨num, hnum, hs⟩ := (scan_iff stops_nil).mpr ⟨hspace, h⟩
    rw [List.append_nil] at hs
    rw [hvalue] at hv
    exact ⟨n, hs ▸ hnum, by omega, hv⟩

/-- A string with a number in it is not read for its end alone. -/
theorem cString_of_scan (h : scan (cString s) = some (z, rest)) : ¬ (s ≠ [] ∧ cString s = []) := by
  intro hempty
  rw [hempty.2] at h
  cases h

/-- Which numbers alone are read and are no addresses. -/
theorem oddWord_iff (h : scan (cString s) = some (z, [])) :
    OddWord s ↔ z.natAbs < 2 ^ 64 ∧ z % 2 ^ 64 < 2 ^ 32 ∧ oddNumber s z := by
  constructor
  · intro hodd
    obtain ⟨z', hscan, hodd⟩ := hodd.resolve_right (cString_of_scan h)
    rw [h] at hscan
    obtain ⟨rfl, _⟩ := Prod.mk.inj (Option.some.inj hscan)
    exact hodd
  · intro hodd
    exact Or.inl ⟨z, h, hodd⟩

theorem word_iff_of_none (h : scan (cString s) = none) :
    (∀ v, CAddrTranslator.getValue s = some v ↔ WordAddr s v) ↔ ¬ OddWord s := by
  have hnot : ∀ v, ¬ WordAddr s v := by
    intro v haddr
    obtain ⟨_, _, n, hscan, _⟩ := wordAddr_scan haddr
    rw [h] at hscan
    cases hscan
  have hodd : OddWord s ↔ s ≠ [] ∧ cString s = [] := by
    refine ⟨fun hodd => hodd.resolve_left fun ⟨z, hscan, _⟩ => ?_, Or.inr⟩
    rw [h] at hscan
    cases hscan
  rw [CAddrTranslator.getValue_of_scan_none h, hodd]
  split
  · next hempty =>
    exact ⟨fun hread => absurd ((hread 0).mp rfl) (hnot 0), fun hodd => absurd hempty hodd⟩
  · next hempty => exact ⟨fun _ => hempty, fun _ => nothing_iff hnot⟩

theorem word_iff_of_other (h : scan (cString s) = some (z, rest)) (hrest : rest ≠ []) :
    (∀ v, CAddrTranslator.getValue s = some v ↔ WordAddr s v) ↔ ¬ OddWord s := by
  have hother : ∀ z', scan (cString s) ≠ some (z', []) := by
    intro z' hscan
    rw [h] at hscan
    exact hrest (Prod.mk.inj (Option.some.inj hscan)).2
  have hnot : ∀ v, ¬ WordAddr s v := by
    intro v haddr
    obtain ⟨_, _, n, hscan, _⟩ := wordAddr_scan haddr
    exact hother _ hscan
  rw [CAddrTranslator.getValue_of_scan h, if_neg fun hread => hrest hread.1]
  refine ⟨fun _ hodd => ?_, fun _ => nothing_iff hnot⟩
  obtain ⟨z', hscan, _⟩ := hodd.resolve_right (cString_of_scan h)
  exact hother z' hscan

theorem word_iff_of_number (h : scan (cString s) = some (z, [])) :
    (∀ v, CAddrTranslator.getValue s = some v ↔ WordAddr s v) ↔ ¬ OddWord s := by
  have haddr := @wordAddr_iff s z h
  rw [CAddrTranslator.getValue_of_scan h, oddWord_iff h]
  by_cases hin : z.natAbs < 2 ^ 64 ∧ z % 2 ^ 64 < 2 ^ 32
  · rw [if_pos ⟨rfl, hin⟩]
    constructor
    · intro hread hodd
      exact (haddr.mp ((hread _).mp rfl)).1 hodd.2.2
    · intro hodd v
      rw [haddr, Option.some.injEq]
      have hplain : ¬ oddNumber s z := fun hnumber => hodd ⟨hin.1, hin.2, hnumber⟩
      have hz := nonneg_of_not_oddNumber hplain
      constructor
      · intro hv
        exact ⟨hplain, by omega, hv.symm⟩
      · intro hv
        exact hv.2.2.symm
  · rw [if_neg fun hread => hin hread.2]
    have hnot : ∀ v, ¬ WordAddr s v := by
      intro v hv
      obtain ⟨hplain, hlt, _⟩ := haddr.mp hv
      have hz := nonneg_of_not_oddNumber hplain
      exact hin ⟨by omega, by omega⟩
    exact ⟨fun _ hodd => hin ⟨hodd.1, hodd.2.1⟩, fun _ => nothing_iff hnot⟩

/-- The words are read exactly unless the string is odd. -/
theorem word_iff (s : List (BitVec 8)) :
    (∀ v, CAddrTranslator.getValue s = some v ↔ WordAddr s v) ↔ ¬ OddWord s := by
  cases h : scan (cString s) with
  | none => exact word_iff_of_none h
  | some r =>
    obtain ⟨z, rest⟩ := r
    by_cases hrest : rest = []
    · subst hrest
      exact word_iff_of_number h
    · exact word_iff_of_other h hrest

/-! ## 6. Words and parcels -/

/-- What is read as a word has nothing behind the number. -/
theorem nothing_of_word {v : BitVec 32} (h : CAddrTranslator.getValue s = some v) :
    cString s = [] ∨ ∃ z, scan (cString s) = some (z, []) := by
  cases hscan : scan (cString s) with
  | none =>
    rw [CAddrTranslator.getValue_of_scan_none hscan] at h
    split at h
    · next hempty => exact Or.inl hempty.2
    · cases h
  | some r =>
    obtain ⟨z, rest⟩ := r
    rw [CAddrTranslator.getValue_of_scan hscan] at h
    split at h
    · next hrest => exact Or.inr ⟨z, by rw [hrest.1]⟩
    · cases h

/-- What is read as a word is not read as a parcel. -/
theorem program_of_word {v : BitVec 32} (h : CAddrTranslator.getValue s = some v) :
    CProgramAddrTranslator.getValue s = .ok none := by
  rcases nothing_of_word h with hempty | ⟨z, hscan⟩
  · have hnone : scan (cString s) = none := by
      rw [hempty]
      rfl
    rw [CProgramAddrTranslator.getValue_of_scan_none hnone, hempty]
    rfl
  · have hfinish : CProgramAddrTranslator.finish z [] = .ok none := rfl
    rw [CProgramAddrTranslator.getValue_of_scan hscan, hfinish, ite_self]

theorem not_both (s : List (BitVec 8)) (v w : BitVec 32) :
    ¬ (CProgramAddrTranslator.getValue s = .ok (some v) ∧ CAddrTranslator.getValue s = some w) := by
  intro ⟨hprogram, hword⟩
  rw [program_of_word hword] at hprogram
  cases hprogram

/-- **`FromString`** takes a string for what the one translator that reads it says. -/
theorem fromString_eq (s : List (BitVec 8)) (v : BitVec 32) :
    (CProgramAddrTranslator.getValue s = .ok (some v) →
      fromString s .both = .ok v ∧ fromStringCombined s = .ok ⟨v, true⟩) ∧
    (CAddrTranslator.getValue s = some v →
      fromString s .both = .ok v ∧ fromStringCombined s = .ok ⟨v, false⟩) := by
  constructor
  · intro h
    constructor <;> simp [fromString, fromStringCombined, h, Except.bind]
  · intro h
    have hno := program_of_word h
    constructor <;> simp [fromString, fromStringCombined, h, hno, Except.bind, Except.map]

theorem getValue_of_programAddr {v : BitVec 32} (h : ProgramAddr s v) :
    CProgramAddrTranslator.getValue s = .ok (some v) := by
  obtain ⟨_, _, n, d, p, hp, hd, hscan, hlt, hv⟩ := programAddr_scan h
  have hrange := CProgramAddrTranslator.isLongLong_iff.mpr (by omega : -2 ^ 63 ≤ (n : Int) ∧ _)
  have hin := (CProgramAddrTranslator.fits_iff hd).mpr (by omega : -2 ^ 61 ≤ (n : Int) ∧ _)
  rw [CProgramAddrTranslator.getValue_of_scan hscan, CProgramAddrTranslator.finish_suffix hp hd,
    if_pos hrange, if_pos hin, if_neg (by omega), hv, ← BitVec.ofInt_natCast]
  push_cast
  rw [Int.mul_comm]

theorem getValue_of_wordAddr {v : BitVec 32} (h : WordAddr s v) :
    CAddrTranslator.getValue s = some v := by
  obtain ⟨_, _, n, hscan, hlt, hv⟩ := wordAddr_scan h
  have hvalue : ((n : Int) % 2 ^ 64).toNat = n := by omega
  rw [CAddrTranslator.getValue_of_scan hscan, if_pos ⟨rfl, by omega, by omega⟩, hvalue, hv]

theorem wordAddr_putValue (a : BitVec 32) : WordAddr (CAddrTranslator.putValue a) a :=
  ⟨a.toNat, number_hexDigits (by decide) a.toNat, a.isLt, (BitVec.ofNat_toNat 32 a).symm⟩

theorem programAddr_putValue (a : BitVec 32) :
    ProgramAddr (CProgramAddrTranslator.putValue a) a := by
  have hsplit : 4 * (a.toNat / 4) + a.toNat % 4 = a.toNat := Nat.div_add_mod a.toNat 4
  refine ⟨_, a.toNat / 4, a.toNat % 4, 0x70, number_hexDigits (by decide) (a.toNat / 4), Or.inl rfl,
    Nat.mod_lt _ (by decide), rfl, ?_, ?_⟩
  · rw [hsplit]
    exact a.isLt
  · rw [hsplit, BitVec.ofNat_toNat]
    rfl

/-- **Addresses**: a string is read exactly unless it is odd, no string is read as both kinds of
    address, and what is written is read. -/
theorem addresses_iff (s : List (BitVec 8)) (a : CAddr) :
    (ParsedExactly s ↔ ¬ OddProgram s ∧ ¬ OddWord s) ∧
    (∀ v w, ¬ (CProgramAddrTranslator.getValue s = .ok (some v) ∧
      CAddrTranslator.getValue s = some w)) ∧
    CAddrTranslator.getValue (CAddrTranslator.putValue a) = some a ∧
      CProgramAddrTranslator.getValue (CProgramAddrTranslator.putValue a) = .ok (some a) := by
  refine ⟨?_, not_both s, ?_⟩
  · rw [← program_iff, ← word_iff]
    exact ⟨fun h => ⟨h.program, h.word⟩, fun h => ⟨h.1, h.2⟩⟩
  · exact ⟨getValue_of_wordAddr (wordAddr_putValue a),
      getValue_of_programAddr (programAddr_putValue a)⟩

/-- The string -1:p0. -/
def minusOne : List (BitVec 8) := [0x2d, 0x31, 0x3a, 0x70, 0x30]

/-- A negative number is read as an address at the end of the memory. -/
theorem not_parsedExactly : CProgramAddrTranslator.getValue minusOne = .ok (some 0xfffffffc) ∧
    ¬ ParsedExactly minusOne := by
  have hread : CProgramAddrTranslator.getValue minusOne = .ok (some 0xfffffffc) := by
    rfl
  refine ⟨hread, fun h => ?_⟩
  obtain ⟨r, hr, haddr⟩ := h.program
  rw [hread] at hr
  obtain ⟨_, _, n, d, p, _, _, hscan, _⟩ :=
    programAddr_scan ((haddr _).mp (Except.ok.inj hr).symm)
  have hminus : scan (cString minusOne) = some (-1, [0x3a, 0x70, 0x30]) := by
    rfl
  rw [hminus] at hscan
  have hz := (Prod.mk.inj (Option.some.inj hscan)).1
  omega

end AddrStrings

end CraySim
