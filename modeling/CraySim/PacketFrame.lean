/-
  Subject:   Which getter of an exchange packet sees which setter.

  Every accessor gets a footprint, the bit segments of the packet it reads or writes. The
  footprints of two accessors are compared by computation, for each machine type; the frame rule
  of `Lib/Footprint` turns that into statements about the accessors.

  * `Accessor` -- the accessors of a packet as one type,
  * `Accessor.get_reads`, `Accessor.set_writes` -- footprints,
  * `accessors_frame` -- own getters, and getters of other fields.
-/
import CraySim.ExchangePacket
import Mathlib.Tactic.IntervalCases

namespace CraySim

open Footprint (Seg Reads AgreeOutside Apart)

/-! ## 1. Footprints of fields -/

/-- The segment of a field. -/
def Field.seg {w : Nat} (f : Field w) : Seg (Fin 16) :=
  ⟨f.wordIdx, min f.startIdx f.endIdx, max f.startIdx f.endIdx - min f.startIdx f.endIdx + 1⟩

/-- `aValue` masked to the field. -/
def Field.fit {w : Nat} (f : Field w) (aValue : BitVec w) : BitVec w :=
  aValue &&& (WordField.mask w f.seg.len <<< f.shift)

/-- `setBits` on one word of a packet is a write to the segment. -/
theorem setBits_eq_write (d : Fin 16 → CInt) (idx : Fin 16) (i j : Nat) (v : CInt) :
    (fun k => if k = idx then setBits (d idx) i j v else d k)
      = (⟨idx, min i j, max i j - min i j + 1⟩ : Seg (Fin 16)).write v d := by
  funext k
  unfold Footprint.Seg.write
  by_cases hk : k = idx
  · rw [if_pos hk, if_pos hk, hk, setBits_eq_put]
  · rw [if_neg hk, if_neg hk]

theorem getBits_eq_read (d : Fin 16 → CInt) (idx : Fin 16) (i j : Nat) :
    getBits (d idx) i j = (⟨idx, min i j, max i j - min i j + 1⟩ : Seg (Fin 16)).read d :=
  getBits_eq_get _ _ _

theorem Field.get_eq_read {w : Nat} (f : Field w) (p : ExchangePacket) :
    f.get p = (f.seg.read p.Data <<< f.shift).setWidth w := by
  unfold Field.get
  rw [getBits_eq_read]
  rfl

theorem Field.set_data {w : Nat} (f : Field w) (v : BitVec w) (p : ExchangePacket) :
    (f.set v p).Data = f.seg.write (v.setWidth 64 >>> f.shift) p.Data :=
  setBits_eq_write _ _ _ _ _

/-- **Own getter of a field**: the value masked to the field. -/
theorem Field.get_set {w : Nat} (f : Field w) (v : BitVec w) (p : ExchangePacket) (hw : w ≤ 64)
    (hlen : f.seg.lo + f.seg.len ≤ 64) : f.get (f.set v p) = f.fit v := by
  rw [Field.get_eq_read, Field.set_data, Footprint.read_write _ _ _ hlen]
  apply BitVec.eq_of_getLsbD_eq
  intro i hi
  unfold Field.fit
  rw [BitVec.getLsbD_setWidth, BitVec.getLsbD_shiftLeft, BitVec.getLsbD_and,
    BitVec.getLsbD_ushiftRight, BitVec.getLsbD_setWidth, BitVec.getLsbD_and,
    BitVec.getLsbD_shiftLeft, WordField.getLsbD_mask, WordField.getLsbD_mask]
  by_cases hs : i < f.shift
  · simp [hs]
  · rw [Nat.add_sub_cancel' (by omega)]
    simp [hs, hi, show i < 64 by omega, show i - f.shift < 64 by omega,
      show i - f.shift < w by omega]

/-! ## 2. Accessors as one type -/

/-- The accessors the macros generate: those of every machine, then those of one family. -/
inductive PlainField where
  | processorNumber | syndrome | programAddress | exchangeAddress | vectorLength | clusterNumber
  | vectorNotUsed | instBaseAddr | instLimitAddr | dataBaseAddr | dataLimitAddr
  | xmpErrorType | xmpReadMode | xmpReadAddress | xmpEnhancedAddressingMode | xmpProgramState
  | ympReadAddress | ympProcessorType
  deriving DecidableEq

/-- Bits of the type the accessors of a field use. -/
def PlainField.width : PlainField → Nat
  | .programAddress | .instBaseAddr | .instLimitAddr | .dataBaseAddr | .dataLimitAddr
  | .xmpReadAddress | .ympReadAddress => 32
  | _ => 8

def PlainField.field : (f : PlainField) → MachineField f.width
  | .processorNumber => CraySim.processorNumber
  | .syndrome => CraySim.syndrome
  | .programAddress => CraySim.programAddress
  | .exchangeAddress => CraySim.exchangeAddress
  | .vectorLength => CraySim.vectorLength
  | .clusterNumber => CraySim.clusterNumber
  | .vectorNotUsed => CraySim.vectorNotUsed
  | .instBaseAddr => CraySim.instBaseAddr
  | .instLimitAddr => CraySim.instLimitAddr
  | .dataBaseAddr => CraySim.dataBaseAddr
  | .dataLimitAddr => CraySim.dataLimitAddr
  | .xmpErrorType => fun _ => .ok CraySim.xmpErrorType
  | .xmpReadMode => fun _ => .ok CraySim.xmpReadMode
  | .xmpReadAddress => fun _ => .ok CraySim.xmpReadAddress
  | .xmpEnhancedAddressingMode => fun _ => .ok CraySim.xmpEnhancedAddressingMode
  | .xmpProgramState => fun _ => .ok CraySim.xmpProgramState
  | .ympReadAddress => fun _ => .ok CraySim.ympReadAddress
  | .ympProcessorType => fun _ => .ok CraySim.ympProcessorType

/-- The accessors of an exchange packet. -/
inductive Accessor where
  | plain (f : PlainField)
  | mode
  | flag
  | enableSecondVectorLogical
  | a (i : Fin 8)
  | s (i : Fin 8)
  deriving DecidableEq

namespace Accessor

/-- What the getter returns and the setter takes. -/
def Value : Accessor → Type
  | plain f => BitVec f.width
  | mode => Mode
  | flag => Flags
  | enableSecondVectorLogical => BitVec 8
  | a _ => CAddr
  | s _ => CInt

def get : (acc : Accessor) → ExchangePacket → Except Exn acc.Value
  | plain f, p => p.get f.field
  | mode, p => .ok p.getMode
  | flag, p => .ok p.getFlag
  | enableSecondVectorLogical, p => .ok p.getEnableSecondVectorLogical
  | a i, p => .ok (p.getA i)
  | s i, p => .ok (p.getS i)

def set : (acc : Accessor) → acc.Value → ExchangePacket → Except Exn ExchangePacket
  | plain f, v, p => p.set f.field v
  | mode, v, p => .ok (p.setMode v)
  | flag, v, p => .ok (p.setFlag v)
  | enableSecondVectorLogical, v, p => p.setEnableSecondVectorLogical v
  | a i, v, p => .ok (p.setA i v)
  | s i, v, p => .ok (p.setS i v)

/-- The fields of one machine family are no fields of a packet of the other one. -/
def inLayout (mt : MachineTypes) : Accessor → Bool
  | plain .xmpErrorType | plain .xmpReadMode | plain .xmpReadAddress
  | plain .xmpEnhancedAddressingMode | plain .xmpProgramState => mt.isXmp
  | plain .ympReadAddress | plain .ympProcessorType => !mt.isXmp
  | _ => true

/-- Interrupt flags masked to their field. -/
def fitFlag (mt : MachineTypes) (aFlag : Flags) : Flags :=
  aFlag &&& (if mt.isXmp then 0x07FF else 0x0FFF)

/-- The flag masked to its bit; as a flag of the mode word it is set by any value but zero. -/
def fitEnable (mt : MachineTypes) (aValue : BitVec 8) : BitVec 8 :=
  if mt.isXmp then aValue &&& 1 else if aValue = 0 then 0 else 1

/-- A value masked to its field. -/
def fit (mt : MachineTypes) : (acc : Accessor) → acc.Value → acc.Value
  | plain f, v =>
    match f.field mt with
    | .ok fld => fld.fit v
    | .error _ => v
  | mode, m => Mode.ofRaw (m.getRawValue &&& Mode.fieldMask mt) mt
  | flag, v => fitFlag mt v
  | enableSecondVectorLogical, v => fitEnable mt v
  | a _, v => v
  | s _, v => v

/-- The setters of an X-MP packet that reach bits 31..24 of the word `A[i]` is kept in. -/
def meetsHighA (i : Fin 8) : Accessor → Bool
  | plain .programAddress => i == 0
  | plain .instBaseAddr => i == 1
  | plain .instLimitAddr => i == 2
  | mode => i == 1 || i == 2
  | flag => i == 3
  | plain .dataBaseAddr | plain .xmpProgramState | plain .clusterNumber => i == 4
  | plain .dataLimitAddr => i == 5
  | _ => false

/-- A getter that sees the setter of another field. -/
def shares (mt : MachineTypes) : Accessor → Accessor → Bool
  | mode, enableSecondVectorLogical | enableSecondVectorLogical, mode => !mt.isXmp
  | acc, a i => mt.isXmp && meetsHighA i acc
  | _, _ => false

/-! ## 3. Footprints of accessors -/

/-- The segments a setter writes. -/
def written (mt : MachineTypes) : Accessor → List (Seg (Fin 16))
  | plain f =>
    match f.field mt with
    | .ok fld => [fld.seg]
    | .error _ => []
  | mode => if mt.isXmp then [⟨2, 24, 5⟩, ⟨1, 24, 5⟩] else [⟨6, 32, 12⟩, ⟨6, 62, 1⟩]
  | flag => if mt.isXmp then [⟨3, 48, 2⟩, ⟨3, 24, 9⟩] else [⟨6, 44, 12⟩]
  | enableSecondVectorLogical =>
    if mt.isXmp then [⟨3, 63, 1⟩] else [⟨6, 32, 12⟩, ⟨6, 62, 1⟩]
  | a i => [⟨ExchangePacket.aWord i, 0, if mt.isXmp then 24 else 32⟩]
  | s i => [⟨ExchangePacket.sWord i, 0, 64⟩]

/-- The segments a getter reads: those its setter writes, but for the 32 bits of `getA`. -/
def read (mt : MachineTypes) : Accessor → List (Seg (Fin 16))
  | a i => [⟨ExchangePacket.aWord i, 0, 32⟩]
  | acc => acc.written mt

theorem reads_getBits (idx : Fin 16) (i j : Nat) :
    Reads (fun d : Fin 16 → CInt => getBits (d idx) i j)
      [⟨idx, min i j, max i j - min i j + 1⟩] := by
  simp only [getBits_eq_read]
  exact Footprint.reads_read _

theorem get_reads (mt : MachineTypes) (acc : Accessor) :
    Reads (fun d => acc.get ⟨d, mt⟩) (acc.read mt) := by
  cases acc with
  | plain f =>
    unfold get read written ExchangePacket.get
    cases hf : f.field mt with
    | error e =>
      simp only [hf]
      exact Footprint.reads_const _
    | ok fld =>
      simp only [hf]
      exact (reads_getBits fld.wordIdx fld.startIdx fld.endIdx).map
        (fun x => Except.ok ((x <<< fld.shift).setWidth f.width))
  | mode =>
    unfold get read written ExchangePacket.getMode
    cases hx : mt.isXmp with
    | true =>
      simp only [hx, if_true]
      exact (reads_getBits 2 (63 - 35) (63 - 39)).map₂ (reads_getBits 1 (63 - 35) (63 - 39))
        (fun x y => Except.ok (Mode.ofRaw ((x.setWidth 16 <<< 5) ||| y.setWidth 16) mt))
    | false =>
      simp only [hx, Bool.false_eq_true, if_false]
      exact (reads_getBits 6 32 43).map₂ (reads_getBits 6 62 62)
        (fun x y => Except.ok (Mode.ofRaw ((x ||| y <<< 12).setWidth 16) mt))
  | flag =>
    unfold get read written ExchangePacket.getFlag
    cases hx : mt.isXmp with
    | true =>
      simp only [hx, if_true]
      exact (reads_getBits 3 (63 - 14) (63 - 15)).map₂ (reads_getBits 3 (63 - 31) (63 - 39))
        (fun x y => Except.ok ((x.setWidth 16 <<< 9) ||| y.setWidth 16))
    | false =>
      simp only [hx, Bool.false_eq_true, if_false]
      exact (reads_getBits 6 44 55).map (fun x => Except.ok (x.setWidth 16))
  | enableSecondVectorLogical =>
    unfold get read written ExchangePacket.getEnableSecondVectorLogical ExchangePacket.getMode
    cases hx : mt.isXmp with
    | true =>
      simp only [hx, if_true]
      exact (reads_getBits 3 (63 - 0) (63 - 0)).map (fun x => Except.ok ((x <<< 0).setWidth 8))
    | false =>
      simp only [hx, Bool.false_eq_true, if_false]
      exact (reads_getBits 6 32 43).map₂ (reads_getBits 6 62 62)
        (fun x y => Except.ok
          (if (Mode.ofRaw ((x ||| y <<< 12).setWidth 16) mt).mYmpEnableSecondVectorLogical
            then 1#8 else 0#8))
  | a i =>
    exact (reads_getBits (ExchangePacket.aWord i) (32 - 1) 0).map
      (fun x => Except.ok (x.setWidth 32))
  | s i =>
    intro d e hde
    have hword := hde _ List.mem_cons_self
    unfold Seg.read at hword
    rw [WordField.get_zero_width, WordField.get_zero_width] at hword
    exact congrArg Except.ok hword

theorem agreeOutside_setBits (p : ExchangePacket) (idx : Fin 16) (i j : Nat) (v : CInt) :
    AgreeOutside [⟨idx, min i j, max i j - min i j + 1⟩] p.Data
      (p.setWord idx (setBits (p.Data idx) i j v)).Data := by
  unfold ExchangePacket.setWord
  rw [setBits_eq_write]
  exact Footprint.agreeOutside_write _ _ _

theorem agreeOutside_setMode (p : ExchangePacket) (m : Mode) :
    AgreeOutside (written p.mMachineType mode) p.Data (p.setMode m).Data := by
  unfold written ExchangePacket.setMode
  cases hx : p.mMachineType.isXmp with
  | true =>
    exact (agreeOutside_setBits p 2 (63 - 35) (63 - 39) _).trans
      (agreeOutside_setBits _ 1 (63 - 35) (63 - 39) _)
  | false =>
    exact (agreeOutside_setBits p 6 32 43 _).trans (agreeOutside_setBits _ 6 62 62 _)

theorem setMode_machineType (p : ExchangePacket) (m : Mode) :
    (p.setMode m).mMachineType = p.mMachineType := by
  unfold ExchangePacket.setMode
  cases p.mMachineType.isXmp <;> rfl

variable {p q : ExchangePacket}

/-- The setter of a field returns where the field exists on the machine. -/
theorem set_eq_ok {w : Nat} {f : MachineField w} {v : BitVec w}
    (hq : p.set f v = .ok q) : ∃ fld, f p.mMachineType = .ok fld ∧ q = fld.set v p := by
  unfold ExchangePacket.set at hq
  cases hf : f p.mMachineType with
  | error e =>
    rw [hf] at hq
    cases hq
  | ok fld =>
    rw [hf] at hq
    cases hq
    exact ⟨fld, rfl, rfl⟩

/-- The assertion in the mode setter holds wherever the packet setter reaches it. -/
theorem setEnableSecondVectorLogical_eq (p : ExchangePacket) (v : BitVec 8) :
    p.setEnableSecondVectorLogical v =
      .ok (if p.mMachineType.isXmp then xmpEnableSecondVectorLogical.set v p
        else p.setMode { p.getMode with mYmpEnableSecondVectorLogical := v != 0 }) := by
  unfold ExchangePacket.setEnableSecondVectorLogical
  cases hx : p.mMachineType.isXmp with
  | true => rfl
  | false =>
    have hm : p.getMode.mMachineType.isXmp = false := by
      unfold ExchangePacket.getMode
      rw [if_neg (by simp [hx])]
      rw [(Mode.fitsMachine_ofRaw _ _).machineType, hx]
    unfold Mode.setYmpEnableSecondVectorLogical
    rw [hm]
    rfl

theorem agreeOutside_setFlag (p : ExchangePacket) (v : Flags) :
    AgreeOutside (written p.mMachineType flag) p.Data (p.setFlag v).Data := by
  unfold written ExchangePacket.setFlag
  cases hx : p.mMachineType.isXmp with
  | true =>
    exact (agreeOutside_setBits p 3 (63 - 14) (63 - 15) _).trans
      (agreeOutside_setBits _ 3 (63 - 31) (63 - 39) _)
  | false => exact agreeOutside_setBits p 6 44 55 _

theorem setFlag_machineType (p : ExchangePacket) (v : Flags) :
    (p.setFlag v).mMachineType = p.mMachineType := by
  unfold ExchangePacket.setFlag
  cases p.mMachineType.isXmp <;> rfl

theorem setEnableSecondVectorLogical_writes {v : BitVec 8}
    (hq : p.setEnableSecondVectorLogical v = .ok q) :
    q.mMachineType = p.mMachineType ∧
      AgreeOutside (written p.mMachineType enableSecondVectorLogical) p.Data q.Data := by
  rw [setEnableSecondVectorLogical_eq] at hq
  unfold written
  cases hx : p.mMachineType.isXmp with
  | true =>
    rw [hx, if_pos rfl] at hq
    cases hq
    exact ⟨rfl, agreeOutside_setBits p 3 (63 - 0) (63 - 0) _⟩
  | false =>
    rw [hx, if_neg (by decide)] at hq
    cases hq
    have hw := agreeOutside_setMode p { p.getMode with mYmpEnableSecondVectorLogical := v != 0 }
    unfold written at hw
    rw [hx] at hw
    exact ⟨setMode_machineType p _, hw⟩

theorem agreeOutside_setA (p : ExchangePacket) (i : Fin 8) (v : CAddr) :
    AgreeOutside (written p.mMachineType (a i)) p.Data (p.setA i v).Data := by
  unfold written ExchangePacket.setA
  cases hx : p.mMachineType.isXmp with
  | true => exact agreeOutside_setBits p (ExchangePacket.aWord i) (24 - 1) 0 _
  | false => exact agreeOutside_setBits p (ExchangePacket.aWord i) (32 - 1) 0 _

theorem setA_machineType (p : ExchangePacket) (i : Fin 8) (v : CAddr) :
    (p.setA i v).mMachineType = p.mMachineType := by
  unfold ExchangePacket.setA
  cases p.mMachineType.isXmp <;> rfl

theorem agreeOutside_setS (p : ExchangePacket) (i : Fin 8) (v : CInt) :
    AgreeOutside (written p.mMachineType (s i)) p.Data (p.setS i v).Data := by
  have hs := agreeOutside_setBits p (ExchangePacket.sWord i) 63 0 v
  rwa [show setBits (p.Data (ExchangePacket.sWord i)) 63 0 v = v from rfl] at hs

/-- A setter that returns keeps the machine type and writes its footprint only. -/
theorem set_writes {acc : Accessor} {v : acc.Value} (hq : acc.set v p = .ok q) :
    q.mMachineType = p.mMachineType ∧ AgreeOutside (acc.written p.mMachineType) p.Data q.Data := by
  cases acc with
  | plain f =>
    obtain ⟨fld, hf, rfl⟩ := set_eq_ok hq
    unfold written
    simp only [hf]
    exact ⟨rfl, agreeOutside_setBits p fld.wordIdx fld.startIdx fld.endIdx _⟩
  | mode =>
    cases hq
    exact ⟨setMode_machineType p v, agreeOutside_setMode p v⟩
  | flag =>
    cases hq
    exact ⟨setFlag_machineType p v, agreeOutside_setFlag p v⟩
  | enableSecondVectorLogical => exact setEnableSecondVectorLogical_writes hq
  | a i =>
    cases hq
    exact ⟨setA_machineType p i v, agreeOutside_setA p i v⟩
  | s i =>
    cases hq
    exact ⟨rfl, agreeOutside_setS p i v⟩

/-! ## 4. Comparing footprints -/

def PlainField.all : List PlainField :=
  [.processorNumber, .syndrome, .programAddress, .exchangeAddress, .vectorLength, .clusterNumber,
    .vectorNotUsed, .instBaseAddr, .instLimitAddr, .dataBaseAddr, .dataLimitAddr, .xmpErrorType,
    .xmpReadMode, .xmpReadAddress, .xmpEnhancedAddressingMode, .xmpProgramState,
    .ympReadAddress, .ympProcessorType]

/-- Every accessor of a packet. -/
def all : List Accessor :=
  PlainField.all.map plain ++ [mode, flag, enableSecondVectorLogical]
    ++ (List.finRange 8).map a ++ (List.finRange 8).map s

theorem mem_all (acc : Accessor) : acc ∈ all := by
  unfold all
  cases acc with
  | plain f => cases f <;> decide
  | a i => simp
  | s i => simp
  | _ => simp

/-- The table of fields of a machine, compared pair by pair. -/
theorem apart_table (mt : MachineTypes) :
    (all.all fun acc => !acc.inLayout mt || all.all fun acc' =>
      Footprint.apart (acc.written mt) (acc'.read mt) || acc' == acc || acc.shares mt acc'
        || !acc'.inLayout mt) = true := by
  cases mt <;> decide +kernel

/-- **No overlap**: two accessors of one packet have footprints with no bit in common, but for
    those that share a field on purpose and for the getters of `A`. -/
theorem apart_of_ne {mt : MachineTypes} {acc acc' : Accessor} (h : acc.inLayout mt = true)
    (h' : acc'.inLayout mt = true) (hne : acc' ≠ acc) (hs : acc.shares mt acc' = false) :
    Apart (acc.written mt) (acc'.read mt) := by
  have hacc := List.all_eq_true.mp (apart_table mt) acc (mem_all acc)
  rw [h, Bool.not_true, Bool.false_or] at hacc
  have hacc' := List.all_eq_true.mp hacc acc' (mem_all acc')
  rw [h', hs, beq_false_of_ne hne, Bool.not_true, Bool.or_false, Bool.or_false,
    Bool.or_false] at hacc'
  exact Footprint.apart_iff.mp hacc'

/-- A setter leaves the getter of another field alone. -/
theorem get_of_set_ne {acc acc' : Accessor} {v : acc.Value}
    (hq : acc.set v p = .ok q) (h : acc.inLayout p.mMachineType = true)
    (h' : acc'.inLayout p.mMachineType = true) (hne : acc' ≠ acc)
    (hs : acc.shares p.mMachineType acc' = false) : acc'.get q = acc'.get p := by
  obtain ⟨hmt, hout⟩ := set_writes hq
  obtain ⟨d, mt⟩ := p
  obtain ⟨e, mt'⟩ := q
  cases hmt
  exact Footprint.frame (get_reads mt acc') hout (apart_of_ne h h' hne hs)

/-! ## 5. Own getters -/

/-- A bit range of a packet word reads back as the value, cut to the range. -/
theorem getBits_setBits (d v : CInt) (i j : Nat) (h : max i j < 64) :
    getBits (setBits d i j v) i j = v &&& WordField.mask 64 (max i j - min i j + 1) := by
  rw [getBits_eq_get, setBits_eq_put, WordField.get_put _ _ _ _ (by omega)]

theorem getBits_setBits_of_lt (d v : CInt) (i j i' j' : Nat)
    (h : max i' j' < min i j ∨ max i j < min i' j') :
    getBits (setBits d i j v) i' j' = getBits d i' j' := by
  rw [getBits_eq_get, setBits_eq_put, getBits_eq_get,
    WordField.get_put_of_disjoint _ _ _ _ _ _ (by omega)]

theorem setWord_data_self (p : ExchangePacket) (i : Fin 16) (v : CInt) :
    (p.setWord i v).Data i = v :=
  if_pos rfl

theorem setWord_data_ne (p : ExchangePacket) {i j : Fin 16} (v : CInt) (h : j ≠ i) :
    (p.setWord i v).Data j = p.Data j :=
  if_neg h

/-- Two adjacent parts of a flag word, put back together. -/
theorem join_parts (raw : BitVec 16) (n m : Nat) (h : n + m ≤ 16) :
    (((raw >>> n).setWidth 64 &&& WordField.mask 64 m).setWidth 16 <<< n)
      ||| (raw.setWidth 64 &&& WordField.mask 64 n).setWidth 16
      = raw &&& WordField.mask 16 (n + m) := by
  apply BitVec.eq_of_getLsbD_eq
  intro i hi
  have h64 : i < 64 := by omega
  by_cases hn : i < n
  · simp [hn, hi, h64, show i < n + m by omega]
  · simp [hn, hi, h64, show n + (i - n) = i by omega, show i - n < m ↔ i < n + m by omega,
      show i - n < 64 by omega, Bool.and_comm]

/-- The Y-MP mode word: twelve bits, and the waiting-for-semaphore bit elsewhere. -/
theorem join_ymp_mode (raw : BitVec 16) :
    (((raw &&& 0x0fff).setWidth 64 &&& WordField.mask 64 12)
      ||| ((((raw &&& 0x1000) >>> 12).setWidth 64 &&& WordField.mask 64 1) <<< 12)).setWidth 16
      = raw &&& 0x1FFF#16 := by
  apply BitVec.eq_of_getLsbD_eq
  intro i hi
  interval_cases i <;> simp

theorem getMode_setMode (p : ExchangePacket) (m : Mode) :
    (p.setMode m).getMode = Mode.ofRaw (m.getRawValue &&& Mode.fieldMask p.mMachineType)
      p.mMachineType := by
  unfold ExchangePacket.getMode
  rw [setMode_machineType]
  unfold ExchangePacket.setMode Mode.fieldMask
  cases hx : p.mMachineType.isXmp with
  | true =>
    simp only [if_true]
    rw [setWord_data_self, setWord_data_ne _ _ (by decide), setWord_data_self,
      getBits_setBits _ _ _ _ (by decide), getBits_setBits _ _ _ _ (by decide)]
    exact congrArg (Mode.ofRaw · _) (join_parts m.getRawValue 5 5 (by decide))
  | false =>
    simp only [Bool.false_eq_true, if_false]
    rw [setWord_data_self, setWord_data_self, getBits_setBits _ _ _ _ (by decide),
      getBits_setBits_of_lt _ _ _ _ _ _ (by decide), getBits_setBits _ _ _ _ (by decide)]
    exact congrArg (Mode.ofRaw · _) (join_ymp_mode m.getRawValue)

theorem getFlag_setFlag (p : ExchangePacket) (v : Flags) :
    (p.setFlag v).getFlag = fitFlag p.mMachineType v := by
  unfold ExchangePacket.getFlag fitFlag
  rw [setFlag_machineType]
  unfold ExchangePacket.setFlag
  cases hx : p.mMachineType.isXmp with
  | true =>
    simp only [if_true]
    rw [setWord_data_self, setWord_data_self, getBits_setBits _ _ 32 24 (by decide),
      getBits_setBits_of_lt _ _ _ _ _ _ (by decide), getBits_setBits _ _ _ _ (by decide)]
    exact join_parts v 9 2 (by decide)
  | false =>
    simp only [Bool.false_eq_true, if_false]
    rw [setWord_data_self, getBits_setBits _ _ _ _ (by decide)]
    apply BitVec.eq_of_getLsbD_eq
    intro i hi
    interval_cases i <;> simp

/-- A mode that fits the packet's machine is read back as it is. -/
theorem getMode_setMode_of_fits {p : ExchangePacket} {m : Mode}
    (h : m.FitsMachine p.mMachineType) : (p.setMode m).getMode = m := by
  rw [getMode_setMode, Mode.ofRaw_and_fieldMask, Mode.ofRaw_getRawValue h]

theorem fitsMachine_getMode (p : ExchangePacket) : p.getMode.FitsMachine p.mMachineType := by
  unfold ExchangePacket.getMode
  cases p.mMachineType.isXmp
  · exact Mode.fitsMachine_ofRaw _ _
  · exact Mode.fitsMachine_ofRaw _ _

/-- **The shared bit**: off the X-MP the second vector logical flag is a bit of the mode word. -/
theorem getMode_setEnableSecondVectorLogical {v : BitVec 8}
    (hx : p.mMachineType.isXmp = false) (hq : p.setEnableSecondVectorLogical v = .ok q) :
    q.getMode = { p.getMode with mYmpEnableSecondVectorLogical := v != 0 } := by
  rw [setEnableSecondVectorLogical_eq, if_neg (by simp [hx])] at hq
  cases hq
  apply getMode_setMode_of_fits
  obtain ⟨hmt, _, hemam, hbml⟩ := fitsMachine_getMode p
  refine ⟨hmt, fun h => ?_, hemam, hbml⟩
  rw [hx] at h
  cases h

theorem getEnableSecondVectorLogical_set {v : BitVec 8}
    (hq : p.setEnableSecondVectorLogical v = .ok q) :
    q.getEnableSecondVectorLogical = fitEnable p.mMachineType v := by
  have hmt := (setEnableSecondVectorLogical_writes hq).1
  unfold ExchangePacket.getEnableSecondVectorLogical fitEnable
  rw [hmt]
  cases hx : p.mMachineType.isXmp with
  | true =>
    rw [setEnableSecondVectorLogical_eq, if_pos hx] at hq
    cases hq
    simp only [if_true]
    rw [Field.get_set _ _ _ (by decide) (by decide)]
    rfl
  | false =>
    simp only [Bool.false_eq_true, if_false]
    rw [getMode_setEnableSecondVectorLogical hx hq]
    by_cases hv : v = 0
    · simp [hv]
    · simp

theorem getA_setA_of_not_xmp {p : ExchangePacket} (hx : p.mMachineType.isXmp = false) (i : Fin 8)
    (v : CAddr) : (p.setA i v).getA i = v := by
  unfold ExchangePacket.getA ExchangePacket.setA
  rw [if_neg (by simp [hx]), setWord_data_self, getBits_setBits _ _ _ _ (by decide)]
  apply BitVec.eq_of_getLsbD_eq
  intro k hk
  simp [hk, show k < 64 by omega]

/-- On an X-MP the address reads back in the low 24 bits. -/
theorem getA_setA_of_xmp {p : ExchangePacket} (hx : p.mMachineType.isXmp = true) (i : Fin 8)
    (v : CAddr) : ((p.setA i v).getA i).setWidth 24 = v.setWidth 24 := by
  unfold ExchangePacket.getA ExchangePacket.setA
  rw [if_pos hx, setWord_data_self, getBits_eq_get, setBits_eq_put]
  apply BitVec.eq_of_getLsbD_eq
  intro k hk
  rw [BitVec.getLsbD_setWidth, BitVec.getLsbD_setWidth, WordField.getLsbD_get,
    WordField.getLsbD_put, if_pos (by omega), BitVec.getLsbD_setWidth, BitVec.getLsbD_setWidth]
  simp [show k < 32 by omega, show k < 64 by omega, hk]

theorem getS_setS (p : ExchangePacket) (i : Fin 8) (v : CInt) : (p.setS i v).getS i = v :=
  setWord_data_self p _ v

theorem seg_le {f : PlainField} {mt : MachineTypes} {fld : Field f.width}
    (h : f.field mt = .ok fld) : fld.seg.lo + fld.seg.len ≤ 64 := by
  cases f <;> cases mt <;> cases h <;> decide

theorem width_le (f : PlainField) : f.width ≤ 64 := by
  cases f <;> decide

/-- **Own getters**: but for `A` on an X-MP, a getter returns the value its setter was given,
    masked to the field. -/
theorem get_of_set {acc : Accessor} {v : acc.Value}
    (hq : acc.set v p = .ok q) (hA : p.mMachineType.isXmp = true → ∀ i, acc ≠ a i) :
    acc.get q = .ok (acc.fit p.mMachineType v) := by
  cases acc with
  | plain f =>
    obtain ⟨fld, hf, rfl⟩ := set_eq_ok hq
    unfold get ExchangePacket.get fit
    have hmt : (fld.set v p).mMachineType = p.mMachineType := rfl
    simp only [hmt, hf]
    exact congrArg Except.ok (Field.get_set fld v p (width_le f) (seg_le hf))
  | mode =>
    cases hq
    exact congrArg Except.ok (getMode_setMode p v)
  | flag =>
    cases hq
    exact congrArg Except.ok (getFlag_setFlag p v)
  | enableSecondVectorLogical =>
    exact congrArg Except.ok (getEnableSecondVectorLogical_set hq)
  | a i =>
    cases hq
    cases hx : p.mMachineType.isXmp with
    | true => exact absurd rfl (hA hx i)
    | false => exact congrArg Except.ok (getA_setA_of_not_xmp hx i v)
  | s i =>
    cases hq
    exact congrArg Except.ok (getS_setS p i v)

/-- The base and limit fields, which the C90 and the T90 have no layout for. -/
def isProtection : Accessor → Bool
  | plain .instBaseAddr | plain .instLimitAddr | plain .dataBaseAddr | plain .dataLimitAddr => true
  | _ => false

/-- A setter returns, but for a base or limit field of a machine without protection layout. -/
theorem set_returns (p : ExchangePacket) (acc : Accessor) (v : acc.Value)
    (h : acc.isProtection = false ∨ p.mMachineType ≠ .C90 ∧ p.mMachineType ≠ .T90) :
    ∃ q, acc.set v p = .ok q := by
  cases acc with
  | plain f =>
    have hf : ∃ fld, f.field p.mMachineType = .ok fld := by
      revert h
      cases f <;> cases p.mMachineType <;> simp [isProtection] <;> exact ⟨_, rfl⟩
    obtain ⟨fld, hf⟩ := hf
    refine ⟨fld.set v p, ?_⟩
    show p.set f.field v = _
    unfold ExchangePacket.set
    rw [hf]
    rfl
  | enableSecondVectorLogical => exact ⟨_, setEnableSecondVectorLogical_eq p v⟩
  | _ => exact ⟨_, rfl⟩

end Accessor

/-! ## 6. The accessors of a packet -/

open Accessor in
/-- **Accessors of an exchange packet.** Setters return, own getters return the value masked to
    the field, and the getters of other fields do not see the setter; on the X-MP an address
    register reads back in its low 24 bits; off it the second vector logical flag is one bit of the
    mode word, seen through both. -/
theorem accessors_frame (p : ExchangePacket) :
    (∀ (acc : Accessor) (v : acc.Value),
        acc.isProtection = false ∨ p.mMachineType ≠ .C90 ∧ p.mMachineType ≠ .T90 →
        ∃ q, acc.set v p = .ok q) ∧
    (∀ (acc : Accessor) (v : acc.Value) q, acc.set v p = .ok q →
        (p.mMachineType.isXmp = true → ∀ i, acc ≠ a i) →
        acc.get q = .ok (acc.fit p.mMachineType v)) ∧
    (∀ (acc acc' : Accessor) (v : acc.Value) q, acc.set v p = .ok q →
        acc.inLayout p.mMachineType = true → acc'.inLayout p.mMachineType = true →
        acc' ≠ acc → acc.shares p.mMachineType acc' = false → acc'.get q = acc'.get p) ∧
    (p.mMachineType.isXmp = true → ∀ i v,
        ((p.setA i v).getA i).setWidth 24 = v.setWidth 24) ∧
    (p.mMachineType.isXmp = false → ∀ m : Mode, m.FitsMachine p.mMachineType →
        (p.setMode m).getEnableSecondVectorLogical
          = if m.mYmpEnableSecondVectorLogical then 1 else 0) ∧
    (p.mMachineType.isXmp = false → ∀ v q, p.setEnableSecondVectorLogical v = .ok q →
        q.getMode = { p.getMode with mYmpEnableSecondVectorLogical := v != 0 }) := by
  refine ⟨fun acc v h => set_returns p acc v h, fun acc v q hq hA => get_of_set hq hA,
    fun acc acc' v q hq h h' hne hs => get_of_set_ne hq h h' hne hs,
    fun hx i v => getA_setA_of_xmp hx i v, fun hx m hm => ?_,
    fun hx v q hq => getMode_setEnableSecondVectorLogical hx hq⟩
  unfold ExchangePacket.getEnableSecondVectorLogical
  rw [setMode_machineType, hx, getMode_setMode_of_fits hm]
  rfl

/-- The shared mode bit: `SetMode` on a Y-MP packet changes `GetEnableSecondVectorLogical`. -/
theorem setMode_changes_enableSecondVectorLogical :
    ¬ ∀ (p : ExchangePacket) (acc acc' : Accessor) (v : acc.Value) (q : ExchangePacket),
      acc.set v p = .ok q → acc.inLayout p.mMachineType = true →
      acc'.inLayout p.mMachineType = true → acc' ≠ acc → acc'.get q = acc'.get p := by
  intro h
  have hsame := h (ExchangePacket.new .YMP) .mode .enableSecondVectorLogical
    (Mode.ofRaw 0x0800 .YMP) _ rfl rfl rfl (by decide)
  have hbit := Except.ok.inj hsame
  revert hbit
  change ¬ (_ : BitVec 8) = _
  decide

/-- An instance: `SetProgramAddress` on a J90 packet, read back, and seen from `GetMode`. -/
theorem accessors_frame_j90 :
    ∃ q, (Accessor.plain .programAddress).set (0x123456#32) (ExchangePacket.new .J90) = .ok q ∧
      (Accessor.plain .programAddress).get q
        = .ok ((Accessor.plain .programAddress).fit .J90 (0x123456#32)) ∧
      Accessor.mode.get q = Accessor.mode.get (ExchangePacket.new .J90) := by
  obtain ⟨hret, hown, hother, -, -, -⟩ := accessors_frame (ExchangePacket.new .J90)
  obtain ⟨q, hq⟩ := hret (.plain .programAddress) (0x123456#32) (.inl rfl)
  exact ⟨q, hq, hown _ _ q hq (fun hx => absurd hx (by decide)),
    hother _ .mode _ q hq rfl rfl (by decide) rfl⟩

end CraySim
