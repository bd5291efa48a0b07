/-
  Subject:   The tape of an expander channel.

  Its medium is a tape image. A command counts its parcels or records up in register C, which is
  set to the count negated, and ends in an interrupt.

  * `IopExpTape` -- the registers and the image,
  * `onTape` -- methods of the image,
  * `readForward`, `rewind`, `space`, `writeForward`, `writeEOF` -- the commands.

  An exception of the image ends the run like one of the device.
-/
import CraySim.IopExpDevice
import CraySim.PokedTapFile

namespace CraySim

open IopExpDevice

/-- `IopExpTape_c`, without its statistics. -/
structure IopExpTape where
  flags : DeviceFlags
  mRegA : IopInt
  mRegAStat : IopInt
  mRegB : IopInt
  mRegC : IopInt
  mTapeImage : PokedTapFile

instance : IopExpDevice IopExpTape where
  flags d := d.flags
  withFlags d f := { d with flags := f }
  flags_withFlags _ _ := rfl

namespace IopExpTape

/-! ## 1. The image -/

/-- An exception of the image. -/
def tapExn : TapExn → Exn
  | .generic aText => .generic aText 0
  | .assertion => .assertion
  | .undefinedBehaviour => .undefinedBehaviour

/-- A method of the image. -/
def onTape {α : Type} (m : Poked α) (x : Plugged IopExpTape) :
    Except Exn (α × Plugged IopExpTape) :=
  match m x.device.mTapeImage with
  | (.ok a, tape) => .ok (a, { x with device := { x.device with mTapeImage := tape } })
  | (.error e, _) => .error (tapExn e)

/-- A method of the image changes the image only. -/
theorem onTape_eq {α : Type} {m : Poked α} {a : α} {x r : Plugged IopExpTape}
    (h : onTape m x = .ok (a, r)) :
    r = { x with device := { x.device with
      mTapeImage := (m x.device.mTapeImage).2 } } := by
  rw [onTape] at h
  split at h
  · rename_i heq
    obtain ⟨-, rfl⟩ := Prod.mk.inj (Except.ok.inj h)
    rw [heq]
  · cases h

/-! ## 2. Registers -/

/-- `Status_e`. -/
def statusReady : IopInt := 0x0001
def statusReadOnly : IopInt := 0x0004
def statusBeginOfTape : IopInt := 0x0080
def statusEndOfFile : IopInt := 0x0100
def statusEndOfTape : IopInt := 0x0200
def statusError : IopInt := 0x8000

/-- The constructor, with the image it opens. -/
def new (mTapeImage : PokedTapFile) : IopExpTape where
  flags := .new
  mRegA := 0
  mRegAStat := 0
  mRegB := 0
  mRegC := 0
  mTapeImage := mTapeImage

def setRegA (aValue : IopInt) (d : IopExpTape) : IopExpTape :=
  { d with mRegA := aValue, mRegAStat := 0 }

def setRegB (aValue : IopInt) (d : IopExpTape) : IopExpTape := { d with mRegB := aValue }

def setRegC (aValue : IopInt) (d : IopExpTape) : IopExpTape := { d with mRegC := aValue }

variable (mIsReadOnly : Bool) (scan : IopExpTape → Except Exn Bool)

def getRegA (x : Plugged IopExpTape) : Except Exn (IopInt × Plugged IopExpTape) := do
  let (state, x) ← onTape PokedTapFile.getState x
  let position := match state with
    | .BeginningOfTape => statusBeginOfTape
    | .EndOfTape => statusEndOfTape
    | .EndOfFile => statusEndOfFile
    | _ => 0
  return (x.device.mRegAStat ||| (if mIsReadOnly then statusReadOnly else 0) ||| position, x)

/-! ## 3. Commands -/

def finalizeControl (aStatus : IopInt) (x : Plugged IopExpTape) :
    Except Exn (Plugged IopExpTape) :=
  setIntActive scan true { x with device := { x.device with
    flags := { x.device.flags with mDone := true, mBusy := false }
    mRegAStat := x.device.mRegAStat ||| aStatus } }

/-- `-int16_t(mRegC)`, which has to be positive. -/
def count (d : IopExpTape) : Except Exn Nat :=
  if d.mRegC.toInt < 0 then .ok (-d.mRegC.toInt).toNat else .error .assertion

/-- Registers B and C behind `n` parcels. -/
def advance (n : Nat) (d : IopExpTape) : IopExpTape :=
  { d with mRegB := d.mRegB + BitVec.ofNat 16 n, mRegC := d.mRegC + BitVec.ofNat 16 n }

def readForward (x : Plugged IopExpTape) : Except Exn (Plugged IopExpTape) := do
  let (_, x) ← onTape PokedTapFile.reOpen x
  let words ← count x.device
  let (_, x) ← onTape PokedTapFile.tellg x
  let (data, x) ← onTape (PokedTapFile.read (BitVec.ofNat 32 (2 * words))) x
  let parcels := parcelsOf data
  let mem := x.ioMemory.store x.device.mRegB parcels
  let x := { x with device := advance parcels.length x.device, ioMemory := mem }
  let (state, x) ← onTape PokedTapFile.getState x
  finalizeControl scan
    (if state = .EndOfTape ∨ state = .EndOfFile then statusReady ||| statusError else statusReady) x

def rewind (x : Plugged IopExpTape) : Except Exn (Plugged IopExpTape) := do
  let (_, x) ← onTape PokedTapFile.reOpen x
  let (_, x) ← onTape PokedTapFile.seekToBeginningOfTape x
  let x ← finalizeControl scan statusReady x
  let (_, x) ← onTape PokedTapFile.closeTape x
  return x

/-- The loop over the records; it is cut short by a mark and by the end of the tape. -/
def spaceRecords (seek : Poked Unit) : Nat → Plugged IopExpTape → Except Exn (Plugged IopExpTape)
  | 0, x => .ok x
  | n + 1, x => do
    let (_, x) ← onTape seek x
    let (state, x) ← onTape PokedTapFile.getState x
    if state = .EndOfTape ∨ state = .EndOfFile then
      finalizeControl scan (statusReady ||| statusError) x
    else
      spaceRecords seek n { x with device := { x.device with mRegC := x.device.mRegC + 1 } }

/-- The space commands. -/
def space (seek : Poked Unit) (x : Plugged IopExpTape) : Except Exn (Plugged IopExpTape) := do
  let (_, x) ← onTape PokedTapFile.reOpen x
  let records ← count x.device
  let (_, x) ← onTape PokedTapFile.tellg x
  let x ← spaceRecords scan seek records x
  if x.device.mRegC = 0 then finalizeControl scan statusReady x else .ok x

def writeForward (x : Plugged IopExpTape) : Except Exn (Plugged IopExpTape) :=
  if mIsReadOnly then .error .assertion
  else do
    let (_, x) ← onTape PokedTapFile.reOpen x
    let words ← count x.device
    let (_, x) ← onTape PokedTapFile.tellg x
    let data := bytesOf (x.ioMemory.load x.device.mRegB words)
    let x := { x with device := advance words x.device }
    let (_, x) ← onTape (PokedTapFile.writeRecord data) x
    finalizeControl scan statusReady x

def writeEOF (x : Plugged IopExpTape) : Except Exn (Plugged IopExpTape) :=
  if mIsReadOnly then .error .assertion
  else do
    let (_, x) ← onTape PokedTapFile.reOpen x
    let (_, x) ← onTape PokedTapFile.tellg x
    let (_, x) ← onTape PokedTapFile.writeEndOfFile x
    finalizeControl scan statusReady x

/-! ## 4. Calls -/

/-- A START. -/
def start (x : Plugged IopExpTape) : Except Exn (Plugged IopExpTape) :=
  let command : IopInt := x.device.mRegA >>> 3 &&& 7
  let x := { x with device := { x.device with mRegAStat := 0 } }
  match command.toNat with
  | 0 => readForward scan x
  | 1 => rewind scan x
  | 3 => space scan PokedTapFile.seekToNextRecord x
  | 4 => space scan PokedTapFile.seekToPrevRecord x
  | 5 => writeForward mIsReadOnly scan x
  | 6 => writeEOF mIsReadOnly scan x
  | _ => .error .assertion

def control (aControl : IopInt) (x : Plugged IopExpTape) : Except Exn (Plugged IopExpTape) :=
  if aControl &&& ~~~(controlStart ||| controlClear) ≠ 0 then .error .assertion
  else do
    let x ← clearInt scan aControl x
    if aControl &&& controlStart ≠ 0 then start mIsReadOnly scan x else .ok x

/-- What the tape does on a call. -/
def perform : Call → Plugged IopExpTape → Except Exn (IopInt × Plugged IopExpTape)
  | .setRegA v, x => silent (.ok { x with device := x.device.setRegA v })
  | .setRegB v, x => silent (.ok { x with device := x.device.setRegB v })
  | .setRegC v, x => silent (.ok { x with device := x.device.setRegC v })
  | .setIntEnabled b, x => silent (setIntEnabled scan b x)
  | .getRegA, x => getRegA mIsReadOnly x
  | .getRegB, x => .ok (x.device.mRegB, x)
  | .getRegC, x => .ok (x.device.mRegC, x)
  | .control a, x => silent (control mIsReadOnly scan a x)
  | .tick, x => silent (.ok x)

end IopExpTape

end CraySim
