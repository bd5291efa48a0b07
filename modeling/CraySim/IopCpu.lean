/-
  Subject:   The processor of an IOP, one instruction at a time.

  An instruction has a function `f` of seven bits and a designator `d` of nine. Branches and
  channel functions have their own decoders in the source; the rest computes with the accumulator,
  the operand registers and the I/O memory. Channels are known by what the processor calls on them.

  * `Registers`, `compute` -- the accumulator and the instructions that only compute,
  * `ChannelPXS`, `ChannelPFR` -- the exit stack and the program fetch request,
  * `IopChannels` -- the table of channels,
  * `IopCpu` -- the state, with the interrupt enable flag and its delay,
  * `decodeJump`, `decodeIo`, `decode` -- the instructions,
  * `singleStep`, `tick` -- one instruction, and one tick.
-/
import CraySim.Types

namespace CraySim

/-- `IopInt_t`: parcels, addresses and data of an IOP. -/
abbrev IopInt := BitVec 16

/-- The I/O memory: 65536 parcels. -/
abbrev IoMemory := IopInt → IopInt

/-! ## 1. Registers -/

/-- The registers a program computes with; a register number has nine bits. -/
structure Registers where
  A : IopInt
  Carry : BitVec 1
  B : BitVec 9
  OperandRegisters : BitVec 9 → IopInt

namespace Registers

variable (r : Registers)

/-- `RefC_A`: the carry in front of the accumulator. -/
def refC_A : BitVec 32 := (r.Carry ++ r.A).setWidth 32

/-- `RefC_A = aValue`. -/
def setC_A (aValue : BitVec 32) : Registers :=
  { r with A := aValue.setWidth 16, Carry := (aValue >>> 16).setWidth 1 }

/-- `RefC_A = aValue` for a value of 16 bits. -/
def load (aValue : IopInt) : Registers := r.setC_A (aValue.setWidth 32)

/-- `RefB = aValue`. -/
def setB (aValue : IopInt) : Registers := { r with B := aValue.setWidth 9 }

def refB : IopInt := r.B.setWidth 16

/-- `RefOr = aValue`. -/
def setOr (aRegIdx : BitVec 9) (aValue : IopInt) : Registers :=
  { r with OperandRegisters := fun i => if i = aRegIdx then aValue else r.OperandRegisters i }

def mShiftRight (aAmount : IopInt) : Registers :=
  r.setC_A (if aAmount > 16 then 0 else r.refC_A >>> aAmount.toNat)

/-- The carry and the accumulator three times over. -/
def threefold : BitVec 64 :=
  let data : BitVec 64 := r.refC_A.setWidth 64
  data <<< 34 ||| data <<< 17 ||| data

def mRotateRight (aAmount : IopInt) : Registers :=
  r.setC_A ((r.threefold >>> (aAmount &&& 0x1f).toNat).setWidth 32)

def mShiftLeft (aAmount : IopInt) : Registers :=
  r.setC_A (if aAmount > 17 then 0 else r.refC_A <<< aAmount.toNat)

def mRotateLeft (aAmount : IopInt) : Registers :=
  r.setC_A (((r.threefold <<< (aAmount &&& 0x1f).toNat) >>> 17).setWidth 32)

def increment (aAmount : IopInt) : Registers := r.setC_A (r.refC_A + aAmount.setWidth 32)

def decrement (aAmount : IopInt) : Registers :=
  r.setC_A (r.refC_A + ((~~~aAmount).setWidth 32 + 1))

/-- `RefA = aValue; RefC = 0; Increment(aAmount)`: the start of the instructions that count. -/
def count (aValue aAmount : IopInt) : Registers :=
  { r with A := aValue, Carry := 0 }.increment aAmount

end Registers

/-- The instructions that only compute, and by how much they advance the program. -/
def compute (f : Nat) (d : BitVec 9) (k : IopInt) (r : Registers) (mem : IoMemory) :
    Except Exn (Registers × IoMemory × IopInt) :=
  let dd := r.OperandRegisters d
  let bb := r.OperandRegisters r.B
  let toOr := fun (r : Registers) => .ok (r.setOr d r.A, mem, 1)
  let toMem := fun (r : Registers) => .ok (r, fun a => if a = dd then r.A else mem a, 1)
  let toB := fun (r : Registers) => .ok (r.setB r.A, mem, 1)
  let toOrB := fun (r : Registers) => .ok (r.setOr r.B r.A, mem, 1)
  match f with
  | 0o000 => .ok (r, mem, 1)
  | 0o004 => .ok (r.mShiftRight (d.setWidth 16), mem, 1)
  | 0o005 => .ok (r.mShiftLeft (d.setWidth 16), mem, 1)
  | 0o006 => .ok (r.mRotateRight (d.setWidth 16), mem, 1)
  | 0o007 => .ok (r.mRotateLeft (d.setWidth 16), mem, 1)
  | 0o010 => .ok (r.load (d.setWidth 16), mem, 1)
  | 0o011 => .ok (r.load (r.A &&& d.setWidth 16), mem, 1)
  | 0o012 => .ok (r.increment (d.setWidth 16), mem, 1)
  | 0o013 => .ok (r.decrement (d.setWidth 16), mem, 1)
  | 0o014 => .ok (r.load k, mem, 2)
  | 0o015 => .ok (r.load (r.A &&& k), mem, 2)
  | 0o016 => .ok (r.increment k, mem, 2)
  | 0o017 => .ok (r.decrement k, mem, 2)
  | 0o020 => .ok (r.load dd, mem, 1)
  | 0o021 => .ok (r.load (r.A &&& dd), mem, 1)
  | 0o022 => .ok (r.increment dd, mem, 1)
  | 0o023 => .ok (r.decrement dd, mem, 1)
  | 0o024 => toOr r
  | 0o025 => toOr (r.increment dd)
  | 0o026 => toOr (r.count 1 dd)
  | 0o027 => toOr (r.count (-1) dd)
  | 0o030 => .ok (r.load (mem dd), mem, 1)
  | 0o031 => .ok (r.load (r.A &&& mem dd), mem, 1)
  | 0o032 => .ok (r.increment (mem dd), mem, 1)
  | 0o033 => .ok (r.decrement (mem dd), mem, 1)
  | 0o034 => toMem r
  | 0o035 => toMem (r.increment (mem dd))
  | 0o036 => toMem (r.count 1 (mem dd))
  | 0o037 => toMem (r.count (-1) (mem dd))
  | 0o044 => .ok (r.mShiftRight r.refB, mem, 1)
  | 0o045 => .ok (r.mShiftLeft r.refB, mem, 1)
  | 0o046 => .ok (r.mRotateRight r.refB, mem, 1)
  | 0o047 => .ok (r.mRotateLeft r.refB, mem, 1)
  | 0o050 => .ok (r.load r.refB, mem, 1)
  | 0o051 => .ok (r.load (r.A &&& r.refB), mem, 1)
  | 0o052 => .ok (r.increment r.refB, mem, 1)
  | 0o053 => .ok (r.decrement r.refB, mem, 1)
  | 0o054 => toB r
  | 0o055 => toB (r.increment r.refB)
  | 0o056 => toB (r.count 1 r.refB)
  | 0o057 => toB (r.count (-1) r.refB)
  | 0o060 => .ok (r.load bb, mem, 1)
  | 0o061 => .ok (r.load (r.A &&& bb), mem, 1)
  | 0o062 => .ok (r.increment bb, mem, 1)
  | 0o063 => .ok (r.decrement bb, mem, 1)
  | 0o064 => toOrB r
  | 0o065 => toOrB (r.increment bb)
  | 0o066 => toOrB (r.count 1 bb)
  | 0o067 => toOrB (r.count (-1) bb)
  | _ => .error .assertion

/-! ## 2. Channels -/

/-- `ChannelPFR_c`: the program fetch request. -/
structure ChannelPFR where
  mRequestIdx : BitVec 9
  mRequestFlag : Bool
  mInterruptEnabled : Bool

namespace ChannelPFR

def setRequestIdx (ch : ChannelPFR) (aRequestIdx : BitVec 9) : ChannelPFR :=
  { ch with mRequestIdx := aRequestIdx, mRequestFlag := true }

def masterClear (ch : ChannelPFR) : ChannelPFR :=
  { ch with mRequestFlag := false, mInterruptEnabled := false }

def getInterrupt (ch : ChannelPFR) : Bool := ch.mInterruptEnabled && ch.mRequestFlag

def doIo (ch : ChannelPFR) (aFunction : Nat) : IopInt × ChannelPFR :=
  match aFunction with
  | 0o00 => (0, { ch with mRequestFlag := false })
  | 0o06 => (0, { ch with mInterruptEnabled := false })
  | 0o07 => (0, { ch with mInterruptEnabled := true })
  | 0o10 => (ch.mRequestIdx.setWidth 16, ch)
  | _ => (0, ch)

end ChannelPFR

/-- `ChannelPXS_c`: the exit stack. -/
structure ChannelPXS where
  mBundaryFlag : Bool
  mInterruptEnabled : Bool
  mE : BitVec 4
  mProgramExitStack : BitVec 4 → IopInt

namespace ChannelPXS

variable (ch : ChannelPXS)

def setE (aE : IopInt) : ChannelPXS := { ch with mE := aE.setWidth 4 }

def setAt (aE : BitVec 4) (aAddr : IopInt) : ChannelPXS :=
  { ch with mProgramExitStack := fun i => if i = aE then aAddr else ch.mProgramExitStack i }

def push (aAddr : IopInt) : ChannelPXS :=
  let ch := { ch with mE := ch.mE + 1 }.setAt (ch.mE + 1) aAddr
  { ch with mBundaryFlag := ch.mBundaryFlag || ch.mE ≥ 14 }

def pop : IopInt × ChannelPXS :=
  (ch.mProgramExitStack ch.mE,
    { ch with mBundaryFlag := ch.mBundaryFlag || ch.mE == 0, mE := ch.mE - 1 })

def masterClear : ChannelPXS :=
  { mE := 0, mProgramExitStack := fun _ => 0, mBundaryFlag := false, mInterruptEnabled := false }

def getInterrupt : Bool := ch.mInterruptEnabled && ch.mBundaryFlag

def doIo (aFunction : Nat) (aData : IopInt) : IopInt × ChannelPXS :=
  match aFunction with
  | 0o00 => (0, { ch with mBundaryFlag := false })
  | 0o06 => (0, { ch with mInterruptEnabled := false })
  | 0o07 => (0, { ch with mInterruptEnabled := true })
  | 0o10 => (ch.mE.setWidth 16, ch)
  | 0o11 => (ch.mProgramExitStack ch.mE, ch)
  | 0o14 => (0, ch.setE aData)
  | 0o15 => (0, ch.setAt ch.mE aData)
  | _ => (0, ch)

end ChannelPXS

/-- What channels act on; `devices` is what is behind all the others. -/
structure IoWorld (σ : Type) where
  mIoMemory : IoMemory
  pfr : ChannelPFR
  pxs : ChannelPXS
  devices : σ

/-- The table `mIoChannels`: its length, which entries are not null, and what the channels behind
    the first four do. -/
structure IopChannels (σ : Type) where
  size : Nat
  installed : Nat → Bool
  ioRequest : Nat → Nat → IopInt → IoWorld σ → Except Exn (IopInt × IoWorld σ)
  busy : Nat → IoWorld σ → IopInt
  done : Nat → IoWorld σ → IopInt
  interrupt : Nat → IoWorld σ → IopInt
  masterClear : IoWorld σ → IoWorld σ
  tickChannels : IoWorld σ → Except Exn (IoWorld σ)
  stallIop : IoWorld σ → Bool

namespace IopChannels

variable {σ : Type} (cs : IopChannels σ)

/-- `mIoChannels[Channel] != nullptr`; the constructor sets the first six entries. -/
def present (channel : Nat) : Bool := channel < 6 || cs.installed channel

/-- The same, for any subscript. -/
def lookup (channel : Nat) : Except Exn Bool :=
  if channel < cs.size then .ok (cs.present channel) else .error .undefinedBehaviour

def getBusy (channel : Nat) (w : IoWorld σ) : IopInt :=
  if channel < 4 then 0 else cs.busy channel w

def getDone (channel : Nat) (w : IoWorld σ) : IopInt :=
  match channel with
  | 0 => 1
  | 1 => if w.pfr.mRequestFlag then 1 else 0
  | 2 => if w.pxs.mBundaryFlag then 1 else 0
  | 3 => 0
  | _ => cs.done channel w

def getInterrupt (channel : Nat) (w : IoWorld σ) : Bool :=
  match channel with
  | 0 => false
  | 1 => w.pfr.getInterrupt
  | 2 => w.pxs.getInterrupt
  | 3 => false
  | _ => cs.interrupt channel w != 0

/-- The first channel with an interrupt. -/
def findInterrupt (w : IoWorld σ) : Option Nat :=
  (List.range cs.size).find? fun i => cs.present i && cs.getInterrupt i w

def doIo (channel aFunction : Nat) (aData : IopInt) (w : IoWorld σ) :
    Except Exn (IopInt × IoWorld σ) :=
  match channel with
  | 0 =>
    if aFunction ≠ 0o10 then .ok (0, w)
    else .ok (BitVec.ofNat 16 ((cs.findInterrupt w).getD 0), w)
  | 1 => .ok ((w.pfr.doIo aFunction).1, { w with pfr := (w.pfr.doIo aFunction).2 })
  | 2 => .ok ((w.pxs.doIo aFunction aData).1, { w with pxs := (w.pxs.doIo aFunction aData).2 })
  | 3 => .ok (0, w)
  | _ => cs.ioRequest channel aFunction aData w

end IopChannels

/-! ## 3. The processor -/

/-- `IopCpu_c`. -/
structure IopCpu (σ : Type) where
  regs : Registers
  P : IopInt
  /-- System interrupt enable flag. -/
  I : Bool
  /-- Setting `I` is delayed until the next non-branch or non-I/O instruction. -/
  ISetIsWaiting : Bool
  InReset : Bool
  io : IoWorld σ

/-- What a decoder returns: the state, the increment of `P`, and its two flags. -/
structure IopDecoded (σ : Type) where
  cpu : IopCpu σ
  increment : IopInt
  aDelayISet : Bool
  aBreakBurst : Bool

namespace IopCpu

variable {σ : Type} (c : IopCpu σ)

def push (aAddr : IopInt) : IopCpu σ := { c with io := { c.io with pxs := c.io.pxs.push aAddr } }

/-- The fetch request of a branch through an operand register that is 0. -/
def requestFetch (d : BitVec 9) : IopCpu σ :=
  if c.regs.OperandRegisters d = 0 then
    { c with io := { c.io with pfr := c.io.pfr.setRequestIdx d } }
  else c

/-- The condition of a branch. -/
def condition (f : Nat) : Bool :=
  if f / 8 = 0o7 then true
  else match f % 4 with
    | 0 => c.regs.Carry == 0
    | 1 => c.regs.Carry != 0
    | 2 => c.regs.A == 0
    | _ => c.regs.A != 0

/-- `InstCode` of a branch. -/
def instCode (f : Nat) : Nat := if f / 8 = 0o7 then f % 8 else f / 4 % 8

/-- A branch that is taken; a call puts the address behind it on the stack. -/
def jump (code : Nat) (d : BitVec 9) (k : IopInt) : IopCpu σ :=
  let dd := c.regs.OperandRegisters d
  match code with
  | 0 => { c with P := c.P + d.setWidth 16 }
  | 1 => { c with P := c.P - d.setWidth 16 }
  | 2 => { c.push (c.P + 1) with P := c.P + d.setWidth 16 }
  | 3 => { c.push (c.P + 1) with P := c.P - d.setWidth 16 }
  | 4 => { c.requestFetch d with P := dd }
  | 5 => { c.requestFetch d with P := dd + k }
  | 6 => { (c.requestFetch d).push (c.P + 1) with P := dd }
  | _ => { (c.requestFetch d).push (c.P + 2) with P := dd + k }

/-- `DecodeJump<true>`. -/
def decodeJump (f : Nat) (d : BitVec 9) (k : IopInt) : IopDecoded σ :=
  let code := instCode f
  let isCall := code = 2 ∨ code = 3 ∨ code = 6 ∨ code = 7
  if c.condition f then
    { cpu := c.jump code d k, increment := 0, aDelayISet := true, aBreakBurst := decide isCall }
  else
    { cpu := c, increment := if code = 5 ∨ code = 7 then 2 else 1, aDelayISet := true
      aBreakBurst := false }

variable (cs : IopChannels σ)

/-- A channel function on a channel that exists. -/
def performIo (channel function : Nat) : Except Exn (IopDecoded σ) := do
  let r ← cs.doIo channel function c.regs.A c.io
  let regs := if function / 4 = 2 then c.regs.load r.1 else c.regs
  return { cpu := { c with io := r.2, regs := regs }, increment := 1, aDelayISet := true
           aBreakBurst := true }

/-- `DecodeIo<true>`. -/
def decodeIo (f : Nat) (d : BitVec 9) : Except Exn (IopDecoded σ) := do
  let function := f % 16
  let channel := if f / 16 = 6 then d.toNat else c.regs.B.toNat
  if !(← cs.lookup channel) then
    if f / 16 = 6 ∧ ¬ (function = 0 ∨ function = 6) then throw .assertion
    return { cpu := c, increment := 1, aDelayISet := false, aBreakBurst := true }
  else c.performIo cs channel function

/-- The tests of a channel: for `d`, or for `B`, where a channel that does not exist is neither
    done nor busy. -/
def testChannel (useB : Bool) (d : BitVec 9) (get : Nat → IoWorld σ → IopInt) :
    Except Exn (IopDecoded σ) := do
  if !(← cs.lookup d.toNat) then throw .assertion
  let channel := if useB then c.regs.B.toNat else d.toNat
  let value := if ← cs.lookup channel then get channel c.io else 0
  return { cpu := { c with regs := { c.regs with Carry := value.setWidth 1 } }, increment := 1
           aDelayISet := true, aBreakBurst := true }

/-- `Decode<true, aFieldF>`. -/
def decodeOther (f : Nat) (d : BitVec 9) (k : IopInt) : Except Exn (IopDecoded σ) :=
  match f with
  | 0o001 =>
    .ok { cpu := { c with P := c.io.pxs.pop.1, io := { c.io with pxs := c.io.pxs.pop.2 } }
          increment := 0, aDelayISet := true, aBreakBurst := true }
  | 0o002 =>
    .ok { cpu := { c with I := false, ISetIsWaiting := false }, increment := 1
          aDelayISet := false, aBreakBurst := false }
  | 0o003 =>
    .ok { cpu := { c with ISetIsWaiting := true }, increment := 1, aDelayISet := true
          aBreakBurst := true }
  | 0o040 => c.testChannel cs false d cs.getDone
  | 0o041 => c.testChannel cs false d cs.getBusy
  | 0o042 => c.testChannel cs true d cs.getDone
  | 0o043 => c.testChannel cs true d cs.getBusy
  | _ => do
    let r ← compute f d k c.regs c.io.mIoMemory
    return { cpu := { c with regs := r.1, io := { c.io with mIoMemory := r.2.1 } }
             increment := r.2.2, aDelayISet := false, aBreakBurst := false }

/-- The function of an instruction. -/
def functionOf (aParcel : IopInt) : Nat := (aParcel >>> 9).toNat

/-- The designator of an instruction. -/
def designatorOf (aParcel : IopInt) : BitVec 9 := aParcel.setWidth 9

def isJump (f : Nat) : Bool := f / 8 = 0o7 ∨ f / 32 = 2

def isIo (f : Nat) : Bool := 6 ≤ f / 16

/-- `Decode<true>`: the table of the decoders. -/
def decode (aFirstParcel aSecondParcel : IopInt) : Except Exn (IopDecoded σ) :=
  let f := functionOf aFirstParcel
  let d := designatorOf aFirstParcel
  if isJump f then .ok (c.decodeJump f d aSecondParcel)
  else if isIo f then c.decodeIo cs f d
  else c.decodeOther cs f d aSecondParcel

/-- `SingleStep`, and whether it ends the burst. -/
def singleStep : Except Exn (IopCpu σ × Bool) := do
  let r ← c.decode cs (c.io.mIoMemory c.P) (c.io.mIoMemory (c.P + 1))
  let c := if !r.aDelayISet && r.cpu.ISetIsWaiting then
      { r.cpu with I := true, ISetIsWaiting := false }
    else r.cpu
  return ({ c with P := c.P + r.increment }, r.aBreakBurst)

def masterClear : IopCpu σ :=
  let io := cs.masterClear
    { c.io with pfr := c.io.pfr.masterClear, pxs := ChannelPXS.masterClear }
  { c with P := 0, I := true, ISetIsWaiting := false, io := io }

/-- The check for interrupts in `Tick`. -/
def checkInterrupts : IopCpu σ :=
  if c.I then
    match cs.findInterrupt c.io with
    | none => c
    | some _ =>
      let c := { c with InReset := false, I := false }.push c.P
      { c with P := c.io.pxs.mProgramExitStack 0 }
  else c

/-- The burst of `Tick`: at most `n` instructions. -/
def burst : Nat → IopCpu σ → Except Exn (IopCpu σ)
  | 0, c => .ok c
  | n + 1, c => do
    let r ← c.singleStep cs
    if r.2 then return r.1 else burst n r.1

def tick (mInstructionBurstSize : Nat) : Except Exn (IopCpu σ) := do
  let io ← cs.tickChannels c.io
  if cs.stallIop io then return { c with io := io }
  let c := { c with io := io }.checkInterrupts cs
  if c.InReset then return c else burst cs (mInstructionBurstSize + 1) c

end IopCpu

end CraySim
