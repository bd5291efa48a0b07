/-
  Subject:   The exchange packet and its accessors, `exchange_packet.h`.

  An exchange packet is 16 words that hold the registers of a process while another one runs.
  Each machine scatters the registers over the words in its own way; the accessors of the
  source are generated by macros from one line per field.

  * `Mode`, `Flags` -- `Mode_c` and `Flags_c`,
  * `Field`, `xmp…`, `ymp…` -- one line per `CREATE_FIELD` of the source,
  * `ExchangePacket.get`, `.set` -- the accessors the macros generate,
  * `getMode`, `getFlag`, `getA`, `getS` and their setters -- those of mode, flags and registers.
-/
import CraySim.Lib.Footprint
import CraySim.Types

namespace CraySim

open Footprint (Seg)

/-! ## 1. Mode bits -/

/-- `Mode_c`. -/
structure Mode where
  mWaitingForSemaphore : Bool
  mYmpEnableSecondVectorLogical : Bool
  mSv1BitMatrixLoaded : Bool
  mFloatingPointErrorStatus : Bool
  mBidirectionalMemoryMode : Bool
  mOperandRangeErrorMode : Bool
  mFloatingPointErrorMode : Bool
  mUncorrectableMemoryErrorMode : Bool
  mCorrectableMemoryErrorMode : Bool
  mYmpEnhancedAddressingMode : Bool
  mSelectedForExternalInterrupts : Bool
  mInterruptMonitorMode : Bool
  mMonitorMode : Bool
  mMachineType : MachineTypes
  deriving DecidableEq, Repr

/-- `(aData & aBit) != 0`. -/
def modeBit (aData aBit : BitVec 16) : Bool := aData &&& aBit != 0

/-- `aValue ? aBit : 0`. -/
def modeRaw (aValue : Bool) (aBit : BitVec 16) : BitVec 16 := if aValue then aBit else 0

/-- `Mode_c(aData, aMachineType)`; the masks are those of `XmpModes_e` and `YmpModes_e`. -/
def Mode.ofRaw (aData : BitVec 16) (aMachineType : MachineTypes) : Mode :=
  if aMachineType.isXmp then
    { mWaitingForSemaphore := modeBit aData 0x0010
      mYmpEnableSecondVectorLogical := false
      mSv1BitMatrixLoaded := false
      mFloatingPointErrorStatus := modeBit aData 0x0008
      mBidirectionalMemoryMode := modeBit aData 0x0004
      mOperandRangeErrorMode := modeBit aData 0x0200
      mFloatingPointErrorMode := modeBit aData 0x0080
      mUncorrectableMemoryErrorMode := modeBit aData 0x0040
      mCorrectableMemoryErrorMode := modeBit aData 0x0100
      mYmpEnhancedAddressingMode := false
      mSelectedForExternalInterrupts := modeBit aData 0x0002
      mInterruptMonitorMode := modeBit aData 0x0001
      mMonitorMode := modeBit aData 0x0020
      mMachineType := aMachineType }
  else
    { mWaitingForSemaphore := modeBit aData 0x1000
      mYmpEnableSecondVectorLogical := modeBit aData 0x0800
      mSv1BitMatrixLoaded := aMachineType == .SV1 && modeBit aData 0x0400
      mFloatingPointErrorStatus := modeBit aData 0x0200
      mBidirectionalMemoryMode := modeBit aData 0x0100
      mOperandRangeErrorMode := modeBit aData 0x0080
      mFloatingPointErrorMode := modeBit aData 0x0040
      mUncorrectableMemoryErrorMode := modeBit aData 0x0020
      mCorrectableMemoryErrorMode := modeBit aData 0x0010
      mYmpEnhancedAddressingMode := modeBit aData 0x0008
      mSelectedForExternalInterrupts := modeBit aData 0x0004
      mInterruptMonitorMode := modeBit aData 0x0002
      mMonitorMode := modeBit aData 0x0001
      mMachineType := aMachineType }

/-- `Mode_c::GetRawValue`. -/
def Mode.getRawValue (m : Mode) : BitVec 16 :=
  if m.mMachineType.isXmp then
    modeRaw m.mWaitingForSemaphore 0x0010
      ||| modeRaw m.mFloatingPointErrorStatus 0x0008
      ||| modeRaw m.mBidirectionalMemoryMode 0x0004
      ||| modeRaw m.mOperandRangeErrorMode 0x0200
      ||| modeRaw m.mFloatingPointErrorMode 0x0080
      ||| modeRaw m.mUncorrectableMemoryErrorMode 0x0040
      ||| modeRaw m.mCorrectableMemoryErrorMode 0x0100
      ||| modeRaw m.mSelectedForExternalInterrupts 0x0002
      ||| modeRaw m.mInterruptMonitorMode 0x0001
      ||| modeRaw m.mMonitorMode 0x0020
  else
    modeRaw m.mWaitingForSemaphore 0x1000
      ||| modeRaw m.mYmpEnableSecondVectorLogical 0x0800
      ||| modeRaw (m.mMachineType == .SV1 && m.mSv1BitMatrixLoaded) 0x0400
      ||| modeRaw m.mFloatingPointErrorStatus 0x0200
      ||| modeRaw m.mBidirectionalMemoryMode 0x0100
      ||| modeRaw m.mOperandRangeErrorMode 0x0080
      ||| modeRaw m.mFloatingPointErrorMode 0x0040
      ||| modeRaw m.mUncorrectableMemoryErrorMode 0x0020
      ||| modeRaw m.mCorrectableMemoryErrorMode 0x0010
      ||| modeRaw m.mYmpEnhancedAddressingMode 0x0008
      ||| modeRaw m.mSelectedForExternalInterrupts 0x0004
      ||| modeRaw m.mInterruptMonitorMode 0x0002
      ||| modeRaw m.mMonitorMode 0x0001

/-- `SetYmpEnableSecondVectorLogical`, with its assertion. -/
def Mode.setYmpEnableSecondVectorLogical (m : Mode) (aValue : Bool) : Except Exn Mode :=
  if !m.mMachineType.isXmp || !aValue then
    .ok { m with mYmpEnableSecondVectorLogical := aValue }
  else .error .assertion

/-- The mode bits a machine type has: what the assertions of the setters and the constructor
    from a packet keep. -/
structure Mode.FitsMachine (m : Mode) (mt : MachineTypes) : Prop where
  machineType : m.mMachineType = mt
  enableSecondVectorLogical : mt.isXmp = true → m.mYmpEnableSecondVectorLogical = false
  enhancedAddressingMode : mt.isXmp = true → m.mYmpEnhancedAddressingMode = false
  bitMatrixLoaded : mt ≠ .SV1 → m.mSv1BitMatrixLoaded = false

/-- The bits of the mode word a machine type uses. -/
def Mode.fieldMask (mt : MachineTypes) : BitVec 16 := if mt.isXmp then 0x03FF else 0x1FFF

theorem modeBit_and (x y b : BitVec 16) (h : y &&& b = b) : modeBit (x &&& y) b = modeBit x b := by
  unfold modeBit
  rw [BitVec.and_assoc, h]

theorem Mode.ofRaw_and_fieldMask (x : BitVec 16) (mt : MachineTypes) :
    Mode.ofRaw (x &&& Mode.fieldMask mt) mt = Mode.ofRaw x mt := by
  cases h : mt.isXmp
  · simp [Mode.ofRaw, Mode.fieldMask, h, modeBit_and]
  · simp [Mode.ofRaw, Mode.fieldMask, h, modeBit_and]

theorem Mode.fitsMachine_ofRaw (x : BitVec 16) (mt : MachineTypes) :
    (Mode.ofRaw x mt).FitsMachine mt := by
  refine ⟨?_, ?_, ?_, ?_⟩ <;> cases h : mt.isXmp <;> simp_all [Mode.ofRaw]

@[simp] theorem modeRaw_and (v : Bool) (x b : BitVec 16) :
    modeRaw v x &&& b = modeRaw v (x &&& b) := by
  cases v <;> simp [modeRaw]

@[simp] theorem modeRaw_zero (v : Bool) : modeRaw v 0#16 = 0#16 := by
  cases v <;> rfl

theorem modeRaw_bne (v : Bool) (b : BitVec 16) (h : b ≠ 0#16) : (modeRaw v b != 0#16) = v := by
  cases v
  · rfl
  · simpa [modeRaw] using h

/-- A mode that fits the machine survives the raw word. -/
theorem Mode.ofRaw_getRawValue {m : Mode} {mt : MachineTypes} (h : m.FitsMachine mt) :
    Mode.ofRaw m.getRawValue mt = m := by
  obtain ⟨rfl, hesvl, hemam, hbml⟩ := h
  cases hx : m.mMachineType.isXmp
  · have hsv : (m.mMachineType == .SV1 && m.mSv1BitMatrixLoaded) = m.mSv1BitMatrixLoaded := by
      cases hs : m.mMachineType == .SV1
      · rw [hbml (by simpa using hs)]
        rfl
      · rfl
    rw [Mode.ofRaw, Mode.getRawValue, if_neg (by simp [hx]), if_neg (by simp [hx]), hsv]
    simp [modeBit, BitVec.and_or_distrib_right, modeRaw_bne, hsv]
  · have hsv : m.mSv1BitMatrixLoaded = false := hbml (by rintro hs; rw [hs] at hx; cases hx)
    rw [Mode.ofRaw, Mode.getRawValue, if_pos hx, if_pos hx]
    obtain ⟨_, _, _, _, _, _, _, _, _, _, _, _, _, _⟩ := m
    simp only at hx hesvl hemam hsv
    simp [modeBit, BitVec.and_or_distrib_right, modeRaw_bne, hesvl hx, hemam hx, hsv]

/-! ## 2. Interrupt flags -/

/-- `Flags_c`: the interrupt flags, one bit each. -/
abbrev Flags := BitVec 16

def Flags.InterProcessorInterrupt : Flags := 0x0400
def Flags.Deadlock : Flags := 0x0200
def Flags.ProgrammableClockInterrupt : Flags := 0x0100
def Flags.McuInterrupt : Flags := 0x0080
def Flags.FloatingPointError : Flags := 0x0040
def Flags.OperandRangeError : Flags := 0x0020
def Flags.ProgramRangeError : Flags := 0x0010
def Flags.MemoryError : Flags := 0x0008
def Flags.IoInterrupt : Flags := 0x0004
def Flags.ErrorExit : Flags := 0x0002
def Flags.NormalExit : Flags := 0x0001

def Flags.clearBits (aFlags aMask : Flags) : Flags := aFlags &&& ~~~aMask

/-! ## 3. Fields -/

/-- `ExchangePacket_c`. -/
structure ExchangePacket where
  Data : Fin 16 → CInt
  mMachineType : MachineTypes

/-- `Data[aIdx] = aValue`. -/
def ExchangePacket.setWord (p : ExchangePacket) (aIdx : Fin 16) (aValue : CInt) : ExchangePacket :=
  { p with Data := fun i => if i = aIdx then aValue else p.Data i }

/-- A field of a packet: the word, the bit range and the shift its accessors are made of; `w` is
    the width of the type the accessors use. -/
structure Field (w : Nat) where
  wordIdx : Fin 16
  startIdx : Nat
  endIdx : Nat
  shift : Nat

/-- `CREATE_FIELD`: bits are counted from the left. -/
def createField {w : Nat} (wordIdx : Fin 16) (startBit endBit shift : Nat) : Field w :=
  ⟨wordIdx, 63 - startBit, 63 - endBit, shift⟩

/-- The getter the macros generate. -/
def Field.get {w : Nat} (f : Field w) (p : ExchangePacket) : BitVec w :=
  (getBits (p.Data f.wordIdx) f.startIdx f.endIdx <<< f.shift).setWidth w

/-- The setter the macros generate. -/
def Field.set {w : Nat} (f : Field w) (aValue : BitVec w) (p : ExchangePacket) : ExchangePacket :=
  p.setWord f.wordIdx
    (setBits (p.Data f.wordIdx) f.startIdx f.endIdx (aValue.setWidth 64 >>> f.shift))

-- X-MP fields
def xmpProcessorNumber : Field 8 := createField 0 0 1 0
def xmpErrorType : Field 8 := createField 0 2 3 0
def xmpSyndrome : Field 8 := createField 0 4 11 0
def xmpProgramAddress : Field 32 := createField 0 16 39 0
def xmpReadMode : Field 8 := createField 1 0 1 0
def xmpReadAddress : Field 32 := createField 1 2 11 6
def xmpVectorNotUsed : Field 8 := createField 2 0 0 0
def xmpEnableSecondVectorLogical : Field 8 := createField 3 0 0 0
def xmpExchangeAddress : Field 8 := createField 3 16 23 0
def xmpVectorLength : Field 8 := createField 3 24 30 0
def xmpEnhancedAddressingMode : Field 8 := createField 4 0 0 0
def xmpProgramState : Field 8 := createField 4 35 35 0
def xmpClusterNumber : Field 8 := createField 4 37 39 0
-- Y-MP fields
def ympProcessorNumber : Field 8 := createField 0 0 7 0
def ympProgramAddress : Field 32 := createField 0 8 31 0
def ympSyndrome : Field 8 := createField 1 0 7 0
def ympReadAddress : Field 32 := createField 2 0 7 0
def ympExchangeAddress : Field 8 := createField 5 8 15 0
def ympVectorLength : Field 8 := createField 5 16 22 0
def ympClusterNumber : Field 8 := createField 5 24 31 0
def ympVectorNotUsed : Field 8 := createField 6 0 0 0
def ympProcessorType : Field 8 := createField 7 0 1 0

/-- The exception of the `GetProtection…` functions. -/
def unknownMachineType (mt : MachineTypes) : Exn := .generic "Unknwon machine type: " mt.toNat

def getProtectionBits (mt : MachineTypes) : Except Exn Nat :=
  match mt with
  | .XMP1xx => .ok 19
  | .XMP2xx => .ok 17
  | .XMP4xx => .ok 18
  | .YMP => .ok 24
  | .YEL => .ok 23
  | .J90 => .ok 22
  | .SV1 => .ok 22
  | _ => .error (unknownMachineType mt)

def getProtectionTop (mt : MachineTypes) : Except Exn Nat :=
  match mt with
  | .XMP1xx => .ok (63 - 16)
  | .XMP2xx => .ok (63 - 18)
  | .XMP4xx => .ok (63 - 16)
  | .YMP => .ok 55
  | .YEL => .ok 54
  | .J90 => .ok 55
  | .SV1 => .ok 55
  | _ => .error (unknownMachineType mt)

def getProtectionShift (mt : MachineTypes) : Except Exn Nat :=
  match mt with
  | .XMP1xx => .ok 5
  | .XMP2xx => .ok 5
  | .XMP4xx => .ok 6
  | .YMP => .ok 8
  | .YEL => .ok 8
  | .J90 => .ok 10
  | .SV1 => .ok 10
  | _ => .error (unknownMachineType mt)

/-- A field whose place depends on the machine type; looking it up can throw. -/
abbrev MachineField (w : Nat) := MachineTypes → Except Exn (Field w)

/-- `CREATE_PROT_FIELD`. -/
def protField (wordIdx : Fin 16) : MachineField 32 := fun mt => do
  let top ← getProtectionTop mt
  let bits ← getProtectionBits mt
  let shift ← getProtectionShift mt
  return ⟨wordIdx, top, top - bits + 1, shift⟩

/-- `CREATE_UNIFIED_FIELD` over two plain fields. -/
def unifiedField {w : Nat} (xmp ymp : Field w) : MachineField w := fun mt =>
  .ok (if mt.isXmp then xmp else ymp)

/-- `CREATE_UNIFIED_FIELD` over two protection fields. -/
def unifiedProtField (xmp ymp : Fin 16) : MachineField 32 := fun mt =>
  if mt.isXmp then protField xmp mt else protField ymp mt

def processorNumber : MachineField 8 := unifiedField xmpProcessorNumber ympProcessorNumber
def syndrome : MachineField 8 := unifiedField xmpSyndrome ympSyndrome
def programAddress : MachineField 32 := unifiedField xmpProgramAddress ympProgramAddress
def exchangeAddress : MachineField 8 := unifiedField xmpExchangeAddress ympExchangeAddress
def vectorLength : MachineField 8 := unifiedField xmpVectorLength ympVectorLength
def clusterNumber : MachineField 8 := unifiedField xmpClusterNumber ympClusterNumber
def vectorNotUsed : MachineField 8 := unifiedField xmpVectorNotUsed ympVectorNotUsed
def instBaseAddr : MachineField 32 := unifiedProtField 1 1
def instLimitAddr : MachineField 32 := unifiedProtField 2 2
def dataBaseAddr : MachineField 32 := unifiedProtField 4 3
def dataLimitAddr : MachineField 32 := unifiedProtField 5 4

namespace ExchangePacket

/-- `Get…` of a field. -/
def get {w : Nat} (p : ExchangePacket) (f : MachineField w) : Except Exn (BitVec w) := do
  return (← f p.mMachineType).get p

/-- `Set…` of a field. -/
def set {w : Nat} (p : ExchangePacket) (f : MachineField w) (aValue : BitVec w) :
    Except Exn ExchangePacket := do
  return (← f p.mMachineType).set aValue p

/-! ## 4. Accessors of mode, flags and registers -/

def getMode (p : ExchangePacket) : Mode :=
  if p.mMachineType.isXmp then
    Mode.ofRaw
      (((getBits (p.Data 2) (63 - 35) (63 - 39)).setWidth 16 <<< 5)
        ||| (getBits (p.Data 1) (63 - 35) (63 - 39)).setWidth 16) p.mMachineType
  else
    Mode.ofRaw
      ((getBits (p.Data 6) 32 43 ||| (getBits (p.Data 6) 62 62 <<< 12)).setWidth 16) p.mMachineType

def setMode (p : ExchangePacket) (aMode : Mode) : ExchangePacket :=
  let rawMode := aMode.getRawValue
  if p.mMachineType.isXmp then
    let p := p.setWord 2 (setBits (p.Data 2) (63 - 35) (63 - 39) ((rawMode >>> 5).setWidth 64))
    p.setWord 1 (setBits (p.Data 1) (63 - 35) (63 - 39) (rawMode.setWidth 64))
  else
    let p := p.setWord 6 (setBits (p.Data 6) 32 43 ((rawMode &&& 0x0fff).setWidth 64))
    p.setWord 6 (setBits (p.Data 6) 62 62 (((rawMode &&& 0x1000) >>> 12).setWidth 64))

def getFlag (p : ExchangePacket) : Flags :=
  if p.mMachineType.isXmp then
    ((getBits (p.Data 3) (63 - 14) (63 - 15)).setWidth 16 <<< 9)
      ||| (getBits (p.Data 3) (63 - 31) (63 - 39)).setWidth 16
  else (getBits (p.Data 6) 44 55).setWidth 16

def setFlag (p : ExchangePacket) (aFlag : Flags) : ExchangePacket :=
  if p.mMachineType.isXmp then
    let p := p.setWord 3 (setBits (p.Data 3) (63 - 14) (63 - 15) ((aFlag >>> 9).setWidth 64))
    p.setWord 3 (setBits (p.Data 3) (63 - 31) (63 - 39) (aFlag.setWidth 64))
  else p.setWord 6 (setBits (p.Data 6) 44 55 (aFlag.setWidth 64))

def clearFlags (p : ExchangePacket) : ExchangePacket := p.setFlag 0

def getEnableSecondVectorLogical (p : ExchangePacket) : BitVec 8 :=
  if p.mMachineType.isXmp then xmpEnableSecondVectorLogical.get p
  else if p.getMode.mYmpEnableSecondVectorLogical then 1 else 0

def setEnableSecondVectorLogical (p : ExchangePacket) (aValue : BitVec 8) :
    Except Exn ExchangePacket :=
  if p.mMachineType.isXmp then .ok (xmpEnableSecondVectorLogical.set aValue p)
  else do
    let mode ← p.getMode.setYmpEnableSecondVectorLogical (aValue != 0)
    return p.setMode mode

/-- The packet word register `aIdx` of a set of eight is kept in. -/
def regWord (aBase : Nat) (aIdx : Fin 8) (h : aBase ≤ 8) : Fin 16 :=
  ⟨aBase + aIdx.val, by have := aIdx.isLt; omega⟩

def aWord (aIdx : Fin 8) : Fin 16 := regWord 0 aIdx (by decide)

def sWord (aIdx : Fin 8) : Fin 16 := regWord 8 aIdx (by decide)

/-- `GetA`: 32 bits on every machine. -/
def getA (p : ExchangePacket) (aIdx : Fin 8) : CAddr :=
  (getBits (p.Data (aWord aIdx)) (32 - 1) 0).setWidth 32

/-- `SetA`: 24 bits on an X-MP. -/
def setA (p : ExchangePacket) (aIdx : Fin 8) (aAddr : CAddr) : ExchangePacket :=
  if p.mMachineType.isXmp then
    p.setWord (aWord aIdx) (setBits (p.Data (aWord aIdx)) (24 - 1) 0 (aAddr.setWidth 64))
  else p.setWord (aWord aIdx) (setBits (p.Data (aWord aIdx)) (32 - 1) 0 (aAddr.setWidth 64))

def getS (p : ExchangePacket) (aIdx : Fin 8) : CInt := p.Data (sWord aIdx)

def setS (p : ExchangePacket) (aIdx : Fin 8) (aS : CInt) : ExchangePacket :=
  p.setWord (sWord aIdx) aS

/-- `ExchangePacket_c(aMachineType)`. -/
def new (aMachineType : MachineTypes) : ExchangePacket :=
  let p : ExchangePacket := ⟨fun _ => 0, aMachineType⟩
  if aMachineType = .J90 then ympProcessorType.set 0 p
  else if aMachineType = .SV1 then ympProcessorType.set 2 p
  else p

end ExchangePacket

end CraySim
