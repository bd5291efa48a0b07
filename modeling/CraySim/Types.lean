/-
  Subject:   Words, parcels and addresses of the simulator, and its bit access.

  `cray_types.h` and `utils.h`: the fixed width integers the source computes with are bit
  vectors of the same width, so every wrap of the C++ code is the wrap of the model.

  * `CInt`, `CAddr`, `CParcel` -- 64, 32 and 16 bit words,
  * `CXmpAddr` -- the 24 bit address class of the X-MP,
  * `MemorySize` -- the size of the memory,
  * `getBits`, `setBits`, `getBit` -- bit ranges, bounds in either order,
  * `MachineTypes` -- the mainframes the simulator knows,
  * `Exn` -- the exceptions of the simulator.
-/
import CraySim.Lib.WordField

namespace CraySim

/-! ## 1. Words -/

/-- `CInt_t`: a 64 bit register or memory word. -/
abbrev CInt := BitVec 64

/-- `CAddr_t`: a 32 bit address register. -/
abbrev CAddr := BitVec 32

/-- `CParcel_t`: a quarter of a word, most of the time one instruction. -/
abbrev CParcel := BitVec 16

def cParcelsPerWord : Nat := 4

/-- The size of the memory in words, which the configuration has as an `int`. -/
structure MemorySize where
  words : Nat
  words_lt : words < 2 ^ 31

/-! ## 2. Bit ranges -/

/-- `GetBits(uint64_t)`: the bits between two indices, in either order. -/
def getBits (aData : CInt) (aStartIdx aEndIdx : Nat) : CInt :=
  let startIdx := min aStartIdx aEndIdx
  let endIdx := max aStartIdx aEndIdx
  if startIdx = 0 ∧ endIdx = 63 then aData
  else (aData >>> startIdx) &&& ((1 : CInt) <<< (endIdx - startIdx + 1) - 1)

/-- `GetBitsReverse(uint64_t)`: bit 0 is the leftmost one. -/
def getBitsReverse (aData : CInt) (aStartIdx aEndIdx : Nat) : CInt :=
  getBits aData (63 - aStartIdx) (63 - aEndIdx)

def getBit (aData : CInt) (aIdx : Nat) : CInt := getBits aData aIdx aIdx

/-- `SetBits(uint64_t)`. -/
def setBits (aData : CInt) (aStartIdx aEndIdx : Nat) (aValue : CInt) : CInt :=
  let startIdx := min aStartIdx aEndIdx
  let endIdx := max aStartIdx aEndIdx
  if startIdx = 0 ∧ endIdx = 63 then aValue
  else
    let bits := ((1 : CInt) <<< (endIdx - startIdx + 1) - 1) <<< startIdx
    (aData &&& ~~~bits) ||| ((aValue <<< startIdx) &&& bits)

/-- `SetBitsReverse(uint64_t)`. -/
def setBitsReverse (aData : CInt) (aStartIdx aEndIdx : Nat) (aValue : CInt) : CInt :=
  setBits aData (63 - aStartIdx) (63 - aEndIdx) aValue

/-- `getBits` reads the field between its bounds; the full range is no special case. -/
theorem getBits_eq_get (x : CInt) (i j : Nat) :
    getBits x i j = WordField.get (min i j) (max i j - min i j + 1) x := by
  simp only [getBits]
  split
  · rename_i h
    rw [h.1, h.2]
    exact (WordField.get_zero_width x).symm
  · rfl

theorem setBits_eq_put (x v : CInt) (i j : Nat) :
    setBits x i j v = WordField.put (min i j) (max i j - min i j + 1) v x := by
  simp only [setBits]
  split
  · rename_i h
    rw [h.1, h.2]
    exact (WordField.put_zero_width v x).symm
  · rfl

/-- The indices from the left, as an offset and a width. -/
theorem getBitsReverse_eq_get (x : CInt) {i j : Nat} (h : i ≤ j) :
    getBitsReverse x i j = WordField.get (63 - j) ((63 - i) - (63 - j) + 1) x := by
  rw [getBitsReverse, getBits_eq_get, Nat.min_eq_right (by omega), Nat.max_eq_left (by omega)]

theorem setBitsReverse_eq_put (x v : CInt) {i j : Nat} (h : i ≤ j) :
    setBitsReverse x i j v = WordField.put (63 - j) ((63 - i) - (63 - j) + 1) v x := by
  rw [setBitsReverse, setBits_eq_put, Nat.min_eq_right (by omega), Nat.max_eq_left (by omega)]

/-- The field read is the value written, cut to the field. -/
theorem toNat_getBitsReverse_setBitsReverse (x v : CInt) {i j : Nat} (h : i ≤ j) (hj : j ≤ 63) :
    (getBitsReverse (setBitsReverse x i j v) i j).toNat = v.toNat % 2 ^ (j - i + 1) := by
  have hwidth : 63 - i - (63 - j) + 1 = j - i + 1 := by omega
  rw [getBitsReverse_eq_get _ h, setBitsReverse_eq_put _ _ h, hwidth,
    WordField.get_put _ _ _ _ (by omega), WordField.toNat_and_mask]

theorem getBitsReverse_setBitsReverse_of_disjoint (x v : CInt) {i j k l : Nat} (hij : i ≤ j)
    (hkl : k ≤ l) (hj : j ≤ 63) (hl : l ≤ 63) (h : j < k ∨ l < i) :
    getBitsReverse (setBitsReverse x k l v) i j = getBitsReverse x i j := by
  rw [getBitsReverse_eq_get _ hij, setBitsReverse_eq_put _ _ hkl,
    WordField.get_put_of_disjoint _ _ _ _ _ _ (by omega), ← getBitsReverse_eq_get _ hij]

/-- One bit, as the truth value the source tests. -/
theorem getBit_ne_zero (x : CInt) (i : Nat) : (getBit x i != 0) = x.getLsbD i := by
  have hbit : ∀ n, (getBit x i).getLsbD n = (decide (n < 1) && x.getLsbD (i + n)) := fun n => by
    rw [getBit, getBits_eq_get, WordField.getLsbD_get]
    simp
  cases hx : x.getLsbD i with
  | false =>
    have hz : getBit x i = 0 := by
      apply BitVec.eq_of_getLsbD_eq
      intro n _
      rw [hbit]
      by_cases hn : n < 1
      · simp [show n = 0 by omega, hx]
      · simp [hn]
    simp [hz]
  | true =>
    have h0 : (getBit x i).getLsbD 0 = true := by simpa [hx] using hbit 0
    rw [bne_iff_ne]
    rintro hz
    simp [hz] at h0

/-! ## 3. The 24 bit address class -/

/-- `CXmpAddr_t`: an address of `cBitCnt = 24` bits. -/
abbrev CXmpAddr := BitVec 24

/-- `CXmpAddr_t(x)`: the value cut to `cMask`. -/
def CXmpAddr.ofAddr (aVal : CAddr) : CXmpAddr := aVal.setWidth 24

/-- `SignExtend(CXmpAddr_t)`. -/
def CXmpAddr.signExtend (aA : CXmpAddr) : CAddr :=
  if aA &&& 0x800000#24 != 0 then aA.setWidth 32 ||| 0xFF000000#32 else aA.setWidth 32

/-- `SignExtendLongLong(CXmpAddr_t)`. -/
def CXmpAddr.signExtendLongLong (aA : CXmpAddr) : CInt :=
  if aA &&& 0x800000#24 != 0 then aA.setWidth 64 ||| 0xFFFFFFFFFF000000#64 else aA.setWidth 64

/-- `SignExtendShort(CXmpAddr_t)`: a 22 bit address sign extended to 24 bits. -/
def CXmpAddr.signExtendShort (aA : CXmpAddr) : CXmpAddr :=
  if aA &&& 0x200000#24 != 0 then aA ||| 0xC00000#24 else aA

/-- `ApplyShortMask(CXmpAddr_t)`: the address cut to 22 bits. -/
def CXmpAddr.applyShortMask (aA : CXmpAddr) : CXmpAddr := aA &&& 0x3FFFFF#24

/-! ## 4. Machine types -/

/-- `CpuParams_s::MachineTypes_e`. -/
inductive MachineTypes where
  | XMP1xx | XMP2xx | XMP4xx | YMP | C90 | T90 | YEL | J90 | SV1
  deriving DecidableEq, Repr

/-- `MachineTypes_e::IsXmp`: the machines with 24 bit addresses only. -/
def MachineTypes.isXmp : MachineTypes → Bool
  | .XMP1xx | .XMP2xx | .XMP4xx => true
  | _ => false

/-- `int(MachineTypes_e)`, as error texts print it. -/
def MachineTypes.toNat : MachineTypes → Nat
  | .XMP1xx => 0
  | .XMP2xx => 1
  | .XMP4xx => 2
  | .YMP => 3
  | .C90 => 4
  | .T90 => 5
  | .YEL => 6
  | .J90 => 7
  | .SV1 => 8

/-! ## 5. Exceptions -/

/-- The exceptions the processor and the mainframe throw. -/
inductive Exn where
  /-- `Generic_x() << aText << aIdx`. -/
  | generic (aText : String) (aIdx : Nat)
  /-- `Generic_x() << aText`. -/
  | genericText (aText : String)
  /-- `CRAY_ASSERT` failed. -/
  | assertion
  | instFetchOutOfBoundsError
  | dataReadOutOfBoundsError
  | dataWriteOutOfBoundsError
  | unknownInstError
  | undocumentedInstError
  | instUnimplementedError
  | terminateInstError
  /-- `Terminate_x`, the end of the simulation. -/
  | terminate
  /-- `InstExecError_x() << aText << aIdx << " out of bounds"`. -/
  | instExecError (aText : String) (aIdx : Nat)
  /-- No exception of the source: the C++ behaviour is undefined from here on. -/
  | undefinedBehaviour
  deriving DecidableEq, Repr

end CraySim
