/-
  Subject:   The channels of an IOP that move a block of words: `ChannelMOS_c` to and from the
    buffer memory, `ChannelHostMemory_c` to and from the central memory.

  Two functions assemble the memory address, one sets the I/O address, and one starts the transfer,
  which is over when the function returns. The size is a counter of 14 bits that wraps through
  zero; the I/O address wraps at the end of the I/O memory. The buffer memory is reached modulo its
  size, the central memory without any check.

  * `BlockChannel`, `BlockMemory` -- the registers of a channel, and the two memories,
  * `transferWord`, `transferLoop` -- the loop of `DoTransfer`,
  * `ChannelMOS.doIo`, `ChannelHostMemory.doIo` -- the channel functions,
  * `transferLoop_ok` -- the words that a transfer moves,
  * `block_transfer_iff` -- **a transfer moves its block, and back, exactly inside the
    memory**.
-/
import CraySim.IopCpu
import CraySim.IopCrayChannel
import CraySim.Lib.ByteStore
import CraySim.Lib.WordField

namespace CraySim

open BlockCopy

/-! ## 1. Words and memories -/

/-- `SwapBytes` for 16 bits. -/
def swapBytes16 (aInput : BitVec 16) : BitVec 16 := aInput.setWidth 8 ++ (aInput >>> 8).setWidth 8

def swapBytesInWords (aInput : CInt) : CInt :=
  swapBytes16 (aInput.extractLsb' 48 16) ++ swapBytes16 (aInput.extractLsb' 32 16) ++
    swapBytes16 (aInput.extractLsb' 16 16) ++ swapBytes16 (aInput.extractLsb' 0 16)

theorem getLsbD_swapBytes16 (x : BitVec 16) (i : Nat) :
    (swapBytes16 x).getLsbD i =
      (decide (i < 16) && x.getLsbD (if i < 8 then i + 8 else i - 8)) := by
  by_cases hi : i < 16
  · rw [swapBytes16, BitVec.getLsbD_append, decide_eq_true hi, Bool.true_and]
    by_cases h8 : i < 8
    · rw [if_pos h8, if_pos h8, BitVec.getLsbD_setWidth, BitVec.getLsbD_ushiftRight,
        decide_eq_true h8, Nat.add_comm, Bool.true_and]
    · rw [if_neg h8, if_neg h8, BitVec.getLsbD_setWidth,
        decide_eq_true (show i - 8 < 8 by omega), Bool.true_and]
  · rw [BitVec.getLsbD_of_ge _ _ (by omega), decide_eq_false hi, Bool.false_and]

theorem getLsbD_swapBytesInWords (x : CInt) {i : Nat} (hi : i < 64) :
    (swapBytesInWords x).getLsbD i = x.getLsbD (if i % 16 < 8 then i + 8 else i - 8) := by
  have hparcel : ∀ k j, j < 16 → (swapBytes16 (x.extractLsb' (16 * k) 16)).getLsbD j =
      x.getLsbD (16 * k + if j < 8 then j + 8 else j - 8) := by
    intro k j hj
    rw [getLsbD_swapBytes16, BitVec.getLsbD_extractLsb', decide_eq_true hj,
      decide_eq_true (show (if j < 8 then j + 8 else j - 8) < 16 by split <;> omega)]
    simp
  have hat : ∀ k j, i = 16 * k + j → j < 16 →
      (16 * k + if j < 8 then j + 8 else j - 8) = if i % 16 < 8 then i + 8 else i - 8 := by
    intro k j hij hj
    rw [show i % 16 = j by omega]
    split <;> omega
  rw [swapBytesInWords, BitVec.getLsbD_append, BitVec.getLsbD_append, BitVec.getLsbD_append]
  split
  · rw [hparcel 0 i (by omega), hat 0 i (by omega) (by omega)]
  split
  · rw [hparcel 1 (i - 16) (by omega), hat 1 (i - 16) (by omega) (by omega)]
  split
  · rw [hparcel 2 (i - 16 - 16) (by omega), hat 2 (i - 16 - 16) (by omega) (by omega)]
  · rw [hparcel 3 (i - 16 - 16 - 16) (by omega), hat 3 (i - 16 - 16 - 16) (by omega) (by omega)]

/-- The bytes of a word swapped twice are as they were. -/
theorem swapBytesInWords_twice (x : CInt) : swapBytesInWords (swapBytesInWords x) = x := by
  apply BitVec.eq_of_getLsbD_eq
  intro i hi
  rw [getLsbD_swapBytesInWords _ hi, getLsbD_swapBytesInWords _ (by split <;> omega)]
  congr 1
  split <;> split <;> omega

/-- The I/O memory as words, and the memory behind a channel with as many words as configured. -/
structure BlockMemory (W : Nat) where
  io : Fin 0x4000 → CInt
  words : Fin W → CInt

/-! ## 2. The channels -/

/-- `ChannelMOS_c` and `ChannelHostMemory_c`. The memory address is `mBufferMemoryAddr` or
    `mCentralMemoryAddr`; out of the I/O memory is `mItoBActive` or `mItoCActive`, and into it is
    `mBtoIActive` or `mCtoIActive`. -/
structure BlockChannel where
  mMemoryAddr : CAddr
  mIoMemoryAddr : IopInt
  mTransferSize : IopInt
  mDone : Bool
  mOutActive : Bool
  mInActive : Bool
  mInterruptEnabled : Bool
  deriving DecidableEq

namespace BlockChannel

variable {W : Nat}

def masterClear : BlockChannel :=
  { mMemoryAddr := 0, mIoMemoryAddr := 0, mTransferSize := 0, mDone := false, mOutActive := false
    mInActive := false, mInterruptEnabled := true }

/-- `IoMemAccessByType<uint64_t>(aAddr)`: the vector is not checked. -/
def ioMemAccess (aAddr : IopInt) : Except Exn (Fin 0x4000) :=
  if h : aAddr.toNat < 0x4000 then .ok ⟨aAddr.toNat, h⟩ else .error .undefinedBehaviour

/-- The counters behind a word, and the end of the transfer. -/
def advance (c : BlockChannel) : BlockChannel :=
  let c := { c with
    mIoMemoryAddr := if c.mIoMemoryAddr ≠ 0x3fff then c.mIoMemoryAddr + 1 else 0
    mMemoryAddr := c.mMemoryAddr + 1
    mTransferSize := (c.mTransferSize - 1) &&& 0x3fff }
  if c.mTransferSize = 0 then { c with mOutActive := false, mInActive := false, mDone := true }
  else c

/-- A word moved out of the I/O memory or into it. -/
def moveWord (out : Bool) (ioAddr : Fin 0x4000) (w : Fin W) (mem : BlockMemory W) :
    BlockMemory W :=
  if out then { mem with words := Function.update mem.words w (swapBytesInWords (mem.io ioAddr)) }
  else { mem with io := Function.update mem.io ioAddr (swapBytesInWords (mem.words w)) }

/-- One round of the loop of `DoTransfer`; `access` is how the channel reaches its memory. -/
def transferWord (access : CAddr → Except Exn (Fin W)) (c : BlockChannel) (mem : BlockMemory W) :
    Except Exn (BlockChannel × BlockMemory W) := do
  if c.mDone then .error .assertion
  else
    let w ← access c.mMemoryAddr
    let ioAddr ← ioMemAccess c.mIoMemoryAddr
    let mem := if c.mOutActive then moveWord true ioAddr w mem else mem
    let mem := if c.mInActive then moveWord false ioAddr w mem else mem
    return (c.advance, mem)

/-- The loop of `DoTransfer`, for as many rounds as `fuel` allows. -/
def transferLoop (access : CAddr → Except Exn (Fin W)) :
    Nat → BlockChannel × BlockMemory W → Except Exn (BlockChannel × BlockMemory W)
  | 0, s => if s.1.mOutActive || s.1.mInActive then .error .undefinedBehaviour else .ok s
  | fuel + 1, s =>
    if s.1.mOutActive || s.1.mInActive then
      (s.1.transferWord access s.2).bind (transferLoop access fuel)
    else .ok s

/-- The two halves of the memory address. -/
def setMemoryAddrHigh (c : BlockChannel) (aData : IopInt) : BlockChannel :=
  { c with
    mMemoryAddr :=
      (c.mMemoryAddr &&& (0x000001ff : CAddr)) ||| ((aData &&& 0x7fff).setWidth 32 <<< 9) }

def setMemoryAddrLow (c : BlockChannel) (aData : IopInt) : BlockChannel :=
  { c with
    mMemoryAddr := (c.mMemoryAddr &&& (0xfffffe00 : CAddr)) ||| (aData &&& 0x01ff).setWidth 32 }

end BlockChannel

namespace ChannelMOS

open BlockChannel

variable {W : Nat}

/-- `BufferMemAccessByType<uint64_t>(aAddr)`: the address is taken modulo the size. -/
def bufferMemAccess (W : Nat) (aAddr : CAddr) : Except Exn (Fin W) :=
  if h : 0 < W then .ok ⟨aAddr.toNat % W, Nat.mod_lt _ h⟩ else .error .undefinedBehaviour

/-- `DoTransfer`; no transfer is longer than `0x4000` words. -/
def doTransfer (c : BlockChannel) (mem : BlockMemory W) :
    Except Exn (BlockChannel × BlockMemory W) :=
  if c.mOutActive && c.mInActive then .error .assertion
  else transferLoop (bufferMemAccess W) 0x4000 (c, mem)

/-- `DoIo`; every function answers 0. -/
def doIo (aFunction : Nat) (aData : IopInt) (s : BlockChannel × BlockMemory W) :
    Except Exn (BlockChannel × BlockMemory W) :=
  let c := s.1
  match aFunction with
  | 0o000 => .ok ({ c with mOutActive := false, mInActive := false, mDone := false }, s.2)
  | 0o001 => .ok ({ c with mIoMemoryAddr := aData >>> 2 }, s.2)
  | 0o002 => .ok (c.setMemoryAddrHigh aData, s.2)
  | 0o003 => .ok (c.setMemoryAddrLow aData, s.2)
  | 0o004 =>
    doTransfer { c with mTransferSize := aData &&& 0x3fff, mInActive := true, mDone := false } s.2
  | 0o005 =>
    doTransfer { c with mTransferSize := aData &&& 0x3fff, mOutActive := true, mDone := false } s.2
  | 0o006 => .ok ({ c with mInterruptEnabled := false }, s.2)
  | 0o007 => .ok ({ c with mInterruptEnabled := true }, s.2)
  | _ => .ok s

/-- `DeadStart` loads the I/O memory from the buffer memory. -/
def deadStart (mem : BlockMemory W) : Except Exn (BlockChannel × BlockMemory W) :=
  doTransfer { masterClear with mInActive := true } mem

/-- The states of the channel, whatever the memories hold between the calls. -/
inductive Reachable (W : Nat) : BlockChannel → Prop where
  | masterClear : Reachable W BlockChannel.masterClear
  | deadStart {c : BlockChannel} {mem mem' : BlockMemory W} :
    deadStart mem = .ok (c, mem') → Reachable W c
  | doIo {c c' : BlockChannel} {f : Nat} {d : IopInt} {mem mem' : BlockMemory W} :
    Reachable W c → doIo f d (c, mem) = .ok (c', mem') → Reachable W c'

end ChannelMOS

namespace ChannelHostMemory

open BlockChannel

variable {W : Nat}

/-- `mCentralMemory[mCentralMemoryAddr * sizeof(CInt_t)]`: the vector is not checked. -/
def centralMemory (W : Nat) (aAddr : CAddr) : Except Exn (Fin W) :=
  if h : aAddr.toNat < W then .ok ⟨aAddr.toNat, h⟩ else .error .undefinedBehaviour

/-- `DoTransfer`; no transfer is longer than `0x4000` words. -/
def doTransfer (c : BlockChannel) (mem : BlockMemory W) :
    Except Exn (BlockChannel × BlockMemory W) :=
  transferLoop (centralMemory W) 0x4000 (c, mem)

/-- `DoIo`; every function answers 0. -/
def doIo (mAllowCtoI mAllowItoC : Bool) (aFunction : Nat) (aData : IopInt)
    (s : BlockChannel × BlockMemory W) : Except Exn (BlockChannel × BlockMemory W) :=
  let c := s.1
  match aFunction with
  | 0o000 => .ok ({ c with mOutActive := false, mInActive := false, mDone := false }, s.2)
  | 0o001 => .ok ({ c with mIoMemoryAddr := aData >>> 2 }, s.2)
  | 0o002 => .ok (c.setMemoryAddrHigh aData, s.2)
  | 0o003 => .ok (c.setMemoryAddrLow aData, s.2)
  | 0o004 =>
    if mAllowCtoI then
      doTransfer { c with
        mTransferSize := aData &&& 0x3fff, mInActive := true, mOutActive := false
        mDone := false } s.2
    else doTransfer c s.2
  | 0o005 =>
    if mAllowItoC then
      doTransfer { c with
        mTransferSize := aData &&& 0x3fff, mOutActive := true, mInActive := false
        mDone := false } s.2
    else doTransfer c s.2
  | 0o006 => .ok ({ c with mInterruptEnabled := false }, s.2)
  | 0o007 => .ok ({ c with mInterruptEnabled := true }, s.2)
  | 0o014 => .error .assertion
  | _ => .ok s

/-- The states of a channel, whatever the memories hold between the calls. -/
inductive Reachable (W : Nat) (mAllowCtoI mAllowItoC : Bool) : BlockChannel → Prop where
  | masterClear : Reachable W mAllowCtoI mAllowItoC BlockChannel.masterClear
  | doIo {c c' : BlockChannel} {f : Nat} {d : IopInt} {mem mem' : BlockMemory W} :
    Reachable W mAllowCtoI mAllowItoC c →
      doIo mAllowCtoI mAllowItoC f d (c, mem) = .ok (c', mem') →
        Reachable W mAllowCtoI mAllowItoC c'

end ChannelHostMemory

/-! ## 3. The transfer loop -/

namespace BlockChannel

section loop
variable {W : Nat} {access : CAddr → Except Exn (Fin W)} {c : BlockChannel} {mem : BlockMemory W}
  {out : Bool}

/-- No transfer is under way. -/
def Idle (c : BlockChannel) : Prop := c.mOutActive = false ∧ c.mInActive = false

/-- A transfer is under way, in one direction. -/
structure Active (out : Bool) (c : BlockChannel) : Prop where
  notDone : c.mDone = false
  outActive : c.mOutActive = out
  inActive : c.mInActive = !out
  address : c.mIoMemoryAddr.toNat < 0x4000
  size : c.mTransferSize.toNat < 0x4000

/-- The words that are left to move; a size of 0 stands for the whole memory. -/
def remaining (c : BlockChannel) : Nat :=
  if c.mTransferSize.toNat = 0 then 0x4000 else c.mTransferSize.toNat

theorem Active.condition (h : Active out c) : (c.mOutActive || c.mInActive) = true := by
  rw [h.outActive, h.inActive, Bool.or_not_self]

theorem remaining_pos (c : BlockChannel) : 0 < c.remaining := by
  unfold remaining
  split <;> omega

/-- A loop that ends leaves no transfer under way. -/
theorem idle_of_transferLoop {fuel : Nat} {s s' : BlockChannel × BlockMemory W}
    (h : transferLoop access fuel s = .ok s') : Idle s'.1 := by
  have hstop : ∀ s : BlockChannel × BlockMemory W, ¬ (s.1.mOutActive || s.1.mInActive) = true →
      Idle s.1 := fun s hs => by simpa [Idle] using hs
  induction fuel generalizing s with
  | zero =>
    rw [transferLoop] at h
    split at h
    · cases h
    · cases h
      exact hstop _ ‹_›
  | succ fuel ih =>
    rw [transferLoop] at h
    split at h
    · obtain ⟨s₁, -, hrest⟩ := EventRun.exists_of_bind h
      exact ih hrest
    · cases h
      exact hstop _ ‹_›

theorem transferLoop_of_idle (h : Idle c) (fuel : Nat) :
    transferLoop access fuel (c, mem) = .ok (c, mem) := by
  cases fuel <;> simp [transferLoop, h.1, h.2]

theorem advance_mMemoryAddr (c : BlockChannel) : c.advance.mMemoryAddr = c.mMemoryAddr + 1 := by
  unfold advance
  dsimp only
  split <;> rfl

theorem toNat_advance_address (h : c.mIoMemoryAddr.toNat < 0x4000) :
    c.advance.mIoMemoryAddr.toNat = (c.mIoMemoryAddr.toNat + 1) % 0x4000 := by
  have hone : (1 : IopInt).toNat = 1 := rfl
  have hnext : (if c.mIoMemoryAddr ≠ 0x3fff then c.mIoMemoryAddr + 1 else 0).toNat =
      (c.mIoMemoryAddr.toNat + 1) % 0x4000 := by
    by_cases hend : c.mIoMemoryAddr = 0x3fff
    · rw [hend]
      rfl
    · have hne : c.mIoMemoryAddr.toNat ≠ 0x3fff := fun he => hend (BitVec.eq_of_toNat_eq he)
      rw [if_pos hend, BitVec.toNat_add]
      omega
  rw [← hnext]
  unfold advance
  dsimp only
  split <;> rfl

theorem toNat_advance_size (c : BlockChannel) :
    c.advance.mTransferSize.toNat = (c.mTransferSize.toNat + 0x3fff) % 0x4000 := by
  rw [← IopCrayChannel.toNat_size_sub_one]
  unfold advance
  dsimp only
  split <;> rfl

/-- Behind the last word nothing is under way any more. -/
theorem advance_last (hlast : c.remaining = 1) : Idle c.advance := by
  have hzero : (c.mTransferSize - 1) &&& 0x3fff = 0 := by
    apply BitVec.eq_of_toNat_eq
    rw [IopCrayChannel.toNat_size_sub_one]
    unfold remaining at hlast
    split at hlast
    · omega
    · rw [hlast]
      rfl
  unfold advance
  rw [if_pos hzero]
  exact ⟨rfl, rfl⟩

/-- Behind any other word the transfer is still under way, with one word less to move. -/
theorem advance_next {n : Nat} (h : Active out c) (hnext : c.remaining = n + 2) :
    Active out c.advance ∧ c.advance.remaining = n + 1 := by
  have hsize := toNat_advance_size c
  have haddress := toNat_advance_address h.address
  have hremaining : (c.mTransferSize.toNat + 0x3fff) % 0x4000 = n + 1 := by
    have hlt := h.size
    unfold remaining at hnext
    split at hnext <;> omega
  have hzero : ¬ (c.mTransferSize - 1) &&& 0x3fff = 0 := by
    intro hz
    have := congrArg BitVec.toNat hz
    rw [IopCrayChannel.toNat_size_sub_one, hremaining] at this
    cases this
  refine ⟨⟨?_, ?_, ?_, ?_, ?_⟩, ?_⟩
  · unfold advance
    rw [if_neg hzero]
    exact h.notDone
  · unfold advance
    rw [if_neg hzero]
    exact h.outActive
  · unfold advance
    rw [if_neg hzero]
    exact h.inActive
  · rw [haddress]
    exact Nat.mod_lt _ (by decide)
  · rw [hsize]
    exact Nat.mod_lt _ (by decide)
  · unfold remaining
    rw [hsize, hremaining, if_neg (Nat.succ_ne_zero n)]

theorem transferWord_ok (h : Active out c) {w : Fin W} (haccess : access c.mMemoryAddr = .ok w) :
    c.transferWord access mem =
      .ok (c.advance, moveWord out (Fin.ofNat 0x4000 c.mIoMemoryAddr.toNat) w mem) := by
  have hio : ioMemAccess c.mIoMemoryAddr = .ok (Fin.ofNat 0x4000 c.mIoMemoryAddr.toNat) := by
    rw [ioMemAccess, dif_pos h.address]
    exact congrArg Except.ok (Fin.ext (Nat.mod_eq_of_lt h.address).symm)
  rw [transferWord, h.notDone, haccess, hio, h.outActive, h.inActive]
  cases out <;> rfl

/-- The words of a block, moved one after the other. -/
def moveBlock (out : Bool) :
    Nat → (Nat → Fin 0x4000) → (Nat → Fin W) → BlockMemory W → BlockMemory W
  | 0, _, _, mem => mem
  | n + 1, p, q, mem =>
    moveBlock out n (fun i => p (i + 1)) (fun i => q (i + 1)) (moveWord out (p 0) (q 0) mem)

theorem moveBlock_out (n : Nat) (p : Nat → Fin 0x4000) (q : Nat → Fin W) (mem : BlockMemory W) :
    moveBlock true n p q mem =
      { mem with words := copyBlock swapBytesInWords mem.io n p q mem.words } := by
  induction n generalizing p q mem with
  | zero => rfl
  | succ n ih =>
    rw [moveBlock, ih]
    rfl

theorem moveBlock_in (n : Nat) (p : Nat → Fin 0x4000) (q : Nat → Fin W) (mem : BlockMemory W) :
    moveBlock false n p q mem =
      { mem with io := copyBlock swapBytesInWords mem.words n q p mem.io } := by
  induction n generalizing p q mem with
  | zero => rfl
  | succ n ih =>
    rw [moveBlock, ih]
    rfl

/-- **A transfer**: as long as the words are there, all of them are moved and the loop ends. -/
theorem transferLoop_ok {n fuel : Nat} (h : Active out c) (hn : c.remaining = n) (hfuel : n ≤ fuel)
    {q : Nat → Fin W} (haccess : ∀ i < n, access (c.mMemoryAddr + BitVec.ofNat 32 i) = .ok (q i)) :
    ∃ c', transferLoop access fuel (c, mem) = .ok (c', moveBlock out n
        (fun i => Fin.ofNat 0x4000 (c.mIoMemoryAddr.toNat + i)) q mem) ∧ Idle c' := by
  induction n generalizing c mem fuel q with
  | zero => exact absurd hn (Nat.ne_of_gt c.remaining_pos)
  | succ n ih =>
    obtain ⟨fuel, rfl⟩ : ∃ k, fuel = k + 1 := ⟨fuel - 1, by omega⟩
    have hfirst : access c.mMemoryAddr = .ok (q 0) := by simpa using haccess 0 (by omega)
    have hround := @transferWord_ok _ _ _ mem _ h _ hfirst
    have hloop : transferLoop access (fuel + 1) (c, mem) = transferLoop access fuel
        (c.advance, moveWord out (Fin.ofNat 0x4000 c.mIoMemoryAddr.toNat) (q 0) mem) := by
      rw [transferLoop, if_pos h.condition]
      dsimp only
      rw [hround]
      rfl
    rw [hloop]
    cases n with
    | zero =>
      have hidle := advance_last hn
      exact ⟨c.advance, transferLoop_of_idle hidle fuel, hidle⟩
    | succ n =>
      obtain ⟨hactive, hleft⟩ := advance_next h hn
      obtain ⟨c', hrun, hidle⟩ := @ih _ _ fuel hactive hleft (by omega) (fun i => q (i + 1))
        (fun i hi => by
          rw [advance_mMemoryAddr, ← WordField.add_ofNat_succ]
          exact haccess (i + 1) (by omega))
      refine ⟨c', ?_, hidle⟩
      rw [hrun, toNat_advance_address h.address]
      have hwalk : (fun i => Fin.ofNat 0x4000 ((c.mIoMemoryAddr.toNat + 1) % 0x4000 + i)) =
          fun i => Fin.ofNat 0x4000 (c.mIoMemoryAddr.toNat + (i + 1)) := by
        funext i
        apply Fin.ext
        simp only [Fin.ofNat]
        omega
      rw [hwalk]
      rfl

end loop

end BlockChannel

/-! ## 4. Blocks -/

/-- The words from `a` on in the I/O memory are in the words from `m` on, and nothing else has
    changed. -/
structure MovesOut {W : Nat} (a m n : Nat) (mem mem' : BlockMemory W) : Prop where
  io : mem'.io = mem.io
  moved : ∀ i < n, ∀ w : Fin W, w.val = m + i →
    mem'.words w = swapBytesInWords (mem.io (Fin.ofNat 0x4000 (a + i)))
  frame : ∀ w : Fin W, (∀ i < n, w.val ≠ m + i) → mem'.words w = mem.words w

/-- The words from `m` on are in the words from `a` on in the I/O memory, and nothing else has
    changed. -/
structure MovesIn {W : Nat} (a m n : Nat) (mem mem' : BlockMemory W) : Prop where
  words : mem'.words = mem.words
  moved : ∀ i < n, ∀ w : Fin W, w.val = m + i →
    mem'.io (Fin.ofNat 0x4000 (a + i)) = swapBytesInWords (mem.words w)
  frame : ∀ x : Fin 0x4000, (∀ i < n, Fin.ofNat 0x4000 (a + i) ≠ x) → mem'.io x = mem.io x

/-- What a block channel promises for a block: the words it reaches are those from `m` on, all
    inside the memory, a transfer out and a transfer in move them and nothing else, and a transfer
    in behind a transfer out brings the I/O memory back. -/
structure TransfersBlock {W : Nat} (access : CAddr → Except Exn (Fin W))
    (out into outInto : BlockMemory W → Except Exn (BlockMemory W)) (a m n : Nat)
    (mem : BlockMemory W) : Prop where
  inside : ∀ i < n, ∃ w : Fin W, access (BitVec.ofNat 32 (m + i)) = .ok w ∧ w.val = m + i
  out : ∃ mem', out mem = .ok mem' ∧ MovesOut a m n mem mem'
  into : ∃ mem', into mem = .ok mem' ∧ MovesIn a m n mem mem'
  back : ∃ mem', outInto mem = .ok mem' ∧ mem'.io = mem.io

/-- The calls for a block: the addresses, and the function that starts the transfer. -/
def blockCalls (f : Nat) (a hi lo z : IopInt) : List (Nat × IopInt) :=
  [(0o001, a), (0o002, hi), (0o003, lo), (f, z)]

/-- The I/O address: the lowest two bits are cleared. -/
def ioAddress (a : IopInt) : Nat := a.toNat / 4

/-- The memory address of 24 bits, from its two halves. -/
def memoryAddress (hi lo : IopInt) : Nat := 2 ^ 9 * (hi.toNat % 2 ^ 15) + lo.toNat % 2 ^ 9

/-- The number of words. -/
def transferLength (z : IopInt) : Nat :=
  if z.toNat % 0x4000 = 0 then 0x4000 else z.toNat % 0x4000

/-- The calls set the registers one after the other; then the transfer starts. -/
theorem run_blockCalls {S : Type} {step : Nat × IopInt → S → Except Exn S} {s s₁ s₂ s₃ : S}
    {a hi lo : IopInt} (h₁ : step (0o001, a) s = .ok s₁) (h₂ : step (0o002, hi) s₁ = .ok s₂)
    (h₃ : step (0o003, lo) s₂ = .ok s₃) (f : Nat) (z : IopInt) :
    EventRun.run step (blockCalls f a hi lo z) s = step (f, z) s₃ := by
  rw [blockCalls, EventRun.run_cons h₁, EventRun.run_cons h₂, EventRun.run_cons h₃, EventRun.run]
  cases step (f, z) s₃ <;> rfl

theorem transferLength_pos (z : IopInt) : 0 < transferLength z := by
  unfold transferLength
  split <;> omega

theorem transferLength_le (z : IopInt) : transferLength z ≤ 0x4000 := by
  unfold transferLength
  split <;> omega

theorem memoryAddress_lt (hi lo : IopInt) : memoryAddress hi lo < 2 ^ 24 := by
  unfold memoryAddress
  omega

namespace BlockChannel

section block
variable {W : Nat} {access : CAddr → Except Exn (Fin W)} {mem : BlockMemory W}

/-- The channel as a transfer starts. -/
def started (out : Bool) (a hi lo z : IopInt) (c : BlockChannel) : BlockChannel :=
  { (({ c with mIoMemoryAddr := a >>> 2 } : BlockChannel).setMemoryAddrHigh hi).setMemoryAddrLow
      lo with
    mTransferSize := z &&& 0x3fff, mOutActive := out, mInActive := !out, mDone := false }

variable {out : Bool} {a hi lo z : IopInt} {c : BlockChannel}

theorem toNat_ioAddress : (a >>> 2).toNat = ioAddress a := by
  rw [BitVec.toNat_ushiftRight, Nat.shiftRight_eq_div_pow]
  rfl

theorem toNat_size : (z &&& 0x3fff).toNat = z.toNat % 0x4000 := by
  rw [show (0x3fff : IopInt) = WordField.mask 16 14 from rfl, WordField.toNat_and_mask]
  rfl

/-- The second half keeps what the first one left, and nothing of the address before. -/
theorem toNat_memoryAddr :
    ((c.setMemoryAddrHigh hi).setMemoryAddrLow lo).mMemoryAddr.toNat = memoryAddress hi lo := by
  have hlow : (c.mMemoryAddr &&& (0x000001ff : CAddr)) &&& (0xfffffe00 : CAddr) = 0#32 := by
    rw [BitVec.and_assoc]
    exact BitVec.and_zero
  have hhigh : (hi &&& 0x7fff).setWidth 32 <<< 9 &&& (0xfffffe00 : CAddr) =
      (hi &&& 0x7fff).setWidth 32 <<< 9 := by
    rw [show (0xfffffe00 : CAddr) = BitVec.allOnes 32 <<< 9 from rfl, ← BitVec.shiftLeft_and_distrib,
      BitVec.and_allOnes]
  have hhi : ((hi &&& 0x7fff).setWidth 32).toNat = hi.toNat % 2 ^ 15 := by
    rw [BitVec.toNat_setWidth, show (0x7fff : IopInt) = WordField.mask 16 15 from rfl,
      WordField.toNat_and_mask]
    omega
  have hlo : ((lo &&& 0x01ff).setWidth 32).toNat = lo.toNat % 2 ^ 9 := by
    rw [BitVec.toNat_setWidth, show (0x01ff : IopInt) = WordField.mask 16 9 from rfl,
      WordField.toNat_and_mask]
    omega
  have hshift : ((hi &&& 0x7fff).setWidth 32 <<< 9 : BitVec 32).toNat =
      2 ^ 9 * (hi.toNat % 2 ^ 15) := by
    rw [BitVec.toNat_shiftLeft, hhi, Nat.shiftLeft_eq]
    omega
  rw [setMemoryAddrLow, setMemoryAddrHigh]
  dsimp only
  rw [BitVec.and_or_distrib_right, hlow, hhigh, BitVec.zero_or, BitVec.toNat_or, hshift, hlo,
    ← Nat.two_pow_add_eq_or_of_lt (by omega)]
  rfl

theorem active_started : Active out (started out a hi lo z c) where
  notDone := rfl
  outActive := rfl
  inActive := rfl
  address := by
    have hlt := a.isLt
    change (a >>> 2).toNat < 0x4000
    rw [toNat_ioAddress, ioAddress]
    omega
  size := by
    change (z &&& 0x3fff).toNat < 0x4000
    rw [toNat_size]
    exact Nat.mod_lt _ (by decide)

theorem remaining_started : (started out a hi lo z c).remaining = transferLength z := by
  change (if (z &&& 0x3fff).toNat = 0 then 0x4000 else (z &&& 0x3fff).toNat) = _
  rw [toNat_size]
  rfl

/-- The I/O words of a block. -/
def ioBlock (a : Nat) (i : Nat) : Fin 0x4000 := Fin.ofNat 0x4000 (a + i)

/-- The words of a block in a memory; the walk goes on at the start of the memory. -/
def memoryBlock (hW : 0 < W) (m : Nat) (i : Nat) : Fin W := ⟨(m + i) % W, Nat.mod_lt _ hW⟩

/-- A transfer of words that the channel reaches. -/
theorem transfer_started (hW : 0 < W)
    (haccess : ∀ i < transferLength z, access (BitVec.ofNat 32 (memoryAddress hi lo + i)) =
      .ok (memoryBlock hW (memoryAddress hi lo) i)) :
    ∃ c', transferLoop access 0x4000 (started out a hi lo z c, mem) =
        .ok (c', moveBlock out (transferLength z) (ioBlock (ioAddress a))
          (memoryBlock hW (memoryAddress hi lo)) mem) ∧ Idle c' := by
  have haddress : (started out a hi lo z c).mMemoryAddr =
      BitVec.ofNat 32 (memoryAddress hi lo) := by
    apply BitVec.eq_of_toNat_eq
    have hlt := memoryAddress_lt hi lo
    rw [BitVec.toNat_ofNat, Nat.mod_eq_of_lt (by omega)]
    exact toNat_memoryAddr
  have hio : (started out a hi lo z c).mIoMemoryAddr.toNat = ioAddress a := toNat_ioAddress
  obtain ⟨c', hrun, hidle⟩ := @transferLoop_ok W access _ mem out _ 0x4000
    (@active_started out a hi lo z c) remaining_started (transferLength_le z)
    (memoryBlock hW (memoryAddress hi lo)) (fun i hi => by
      rw [haddress, ← BitVec.ofNat_add]
      exact haccess i hi)
  rw [hio] at hrun
  exact ⟨c', hrun, hidle⟩

variable {hW : 0 < W} {m n x : Nat}

theorem memoryBlock_eq {i : Nat} {w : Fin W} (hw : w.val = m + i) : memoryBlock hW m i = w :=
  Fin.ext ((Nat.mod_eq_of_lt (by omega)).trans hw.symm)

theorem val_memoryBlock (hfits : m + n ≤ W) {i : Nat} (hi : i < n) :
    (memoryBlock hW m i).val = m + i :=
  Nat.mod_eq_of_lt (by omega)

theorem memoryBlock_injective (hfits : m + n ≤ W) :
    ∀ i < n, ∀ j < n, memoryBlock hW m i = memoryBlock hW m j → i = j := by
  intro i hi j hj heq
  have := congrArg Fin.val heq
  rw [val_memoryBlock hfits hi, val_memoryBlock hfits hj] at this
  omega

theorem ioBlock_injective (hn : n ≤ 0x4000) :
    ∀ i < n, ∀ j < n, ioBlock x i = ioBlock x j → i = j := by
  intro i hi j hj heq
  have := congrArg Fin.val heq
  simp only [ioBlock, Fin.ofNat] at this
  omega

theorem movesOut (hfits : m + n ≤ W) :
    MovesOut x m n mem (moveBlock true n (ioBlock x) (memoryBlock hW m) mem) := by
  rw [moveBlock_out]
  refine ⟨rfl, fun i hi w hw => ?_, fun w hw => ?_⟩
  · rw [← @memoryBlock_eq _ hW _ _ _ hw]
    exact copyBlock_of_injective (memoryBlock_injective hfits) hi
  · exact copyBlock_of_notMem fun i hi heq => hw i hi (by rw [← heq, val_memoryBlock hfits hi])

theorem movesIn (hn : n ≤ 0x4000) :
    MovesIn x m n mem (moveBlock false n (ioBlock x) (memoryBlock hW m) mem) := by
  rw [moveBlock_in]
  refine ⟨rfl, fun i hi w hw => ?_, fun w hw => ?_⟩
  · rw [← @memoryBlock_eq _ hW _ _ _ hw]
    exact copyBlock_of_injective (ioBlock_injective hn) hi
  · exact copyBlock_of_notMem fun i hi => hw i hi

theorem moveBlock_back (hfits : m + n ≤ W) :
    (moveBlock false n (ioBlock x) (memoryBlock hW m)
      (moveBlock true n (ioBlock x) (memoryBlock hW m) mem)).io = mem.io := by
  rw [moveBlock_in, moveBlock_out]
  refine copyBlock_same fun i hi => ?_
  dsimp only
  rw [copyBlock_of_injective (memoryBlock_injective hfits) hi, swapBytesInWords_twice]

end block

end BlockChannel

/-! ## 5. The channels between transfers -/

namespace ChannelMOS

open BlockChannel

variable {W : Nat} {c : BlockChannel} {mem : BlockMemory W} {a hi lo z : IopInt}

/-- The calls of a program, one after the other. -/
def calls (es : List (Nat × IopInt)) (s : BlockChannel × BlockMemory W) :
    Except Exn (BlockChannel × BlockMemory W) :=
  EventRun.run (fun e => doIo e.1 e.2) es s

theorem idle_of_doTransfer {s : BlockChannel × BlockMemory W} (h : doTransfer c mem = .ok s) :
    Idle s.1 := by
  unfold doTransfer at h
  split at h
  · cases h
  · exact idle_of_transferLoop h

theorem idle_of_doIo {f : Nat} {d : IopInt} {s s' : BlockChannel × BlockMemory W} (hs : Idle s.1)
    (h : doIo f d s = .ok s') : Idle s'.1 := by
  unfold doIo at h
  dsimp only at h
  split at h
  case h_5 => exact idle_of_doTransfer h
  case h_6 => exact idle_of_doTransfer h
  case h_1 => cases h; exact ⟨rfl, rfl⟩
  all_goals cases h; exact hs

theorem Reachable.idle (h : Reachable W c) : Idle c := by
  induction h with
  | masterClear => exact ⟨rfl, rfl⟩
  | deadStart h => exact idle_of_doTransfer h
  | doIo _ h ih => exact idle_of_doIo (s := (_, _)) ih h

theorem calls_out (hidle : Idle c) : calls (blockCalls 0o005 a hi lo z) (c, mem) =
    transferLoop (bufferMemAccess W) 0x4000 (started true a hi lo z c, mem) := by
  obtain ⟨address, io, size, done, outActive, inActive, enabled⟩ := c
  obtain ⟨hout, hin⟩ := hidle
  dsimp only at hout hin
  rw [hout, hin]
  exact (@run_blockCalls _ (fun e => doIo e.1 e.2) (_, mem) _ _ _ a hi lo rfl rfl rfl _ z).trans rfl

theorem calls_in (hidle : Idle c) : calls (blockCalls 0o004 a hi lo z) (c, mem) =
    transferLoop (bufferMemAccess W) 0x4000 (started false a hi lo z c, mem) := by
  obtain ⟨address, io, size, done, outActive, inActive, enabled⟩ := c
  obtain ⟨hout, hin⟩ := hidle
  dsimp only at hout hin
  rw [hout, hin]
  exact (@run_blockCalls _ (fun e => doIo e.1 e.2) (_, mem) _ _ _ a hi lo rfl rfl rfl _ z).trans rfl

end ChannelMOS

namespace ChannelHostMemory

open BlockChannel

variable {W : Nat} {c : BlockChannel} {mem : BlockMemory W} {a hi lo z : IopInt}
  {mAllowCtoI mAllowItoC : Bool}

/-- The calls of a program on the channel into the I/O memory, `HIA`. -/
def callsIn (es : List (Nat × IopInt)) (s : BlockChannel × BlockMemory W) :
    Except Exn (BlockChannel × BlockMemory W) :=
  EventRun.run (fun e => doIo true false e.1 e.2) es s

/-- The calls of a program on the channel out of the I/O memory, `HOA`. -/
def callsOut (es : List (Nat × IopInt)) (s : BlockChannel × BlockMemory W) :
    Except Exn (BlockChannel × BlockMemory W) :=
  EventRun.run (fun e => doIo false true e.1 e.2) es s

theorem calls_out : callsOut (blockCalls 0o005 a hi lo z) (c, mem) =
    transferLoop (centralMemory W) 0x4000 (started true a hi lo z c, mem) := by
  exact (@run_blockCalls _ (fun e => doIo false true e.1 e.2) (c, mem) _ _ _ a hi lo rfl rfl rfl
    _ z).trans rfl

theorem calls_in : callsIn (blockCalls 0o004 a hi lo z) (c, mem) =
    transferLoop (centralMemory W) 0x4000 (started false a hi lo z c, mem) := by
  exact (@run_blockCalls _ (fun e => doIo true false e.1 e.2) (c, mem) _ _ _ a hi lo rfl rfl rfl
    _ z).trans rfl

end ChannelHostMemory

/-! ## 6. Blocks inside the memory -/

section blocks
open BlockChannel

variable {W : Nat} {access : CAddr → Except Exn (Fin W)} {a hi lo z : IopInt}

/-- The last word of a block that is reached is inside the memory. -/
theorem fits_of_inside (h : ∀ i < transferLength z, ∃ w : Fin W,
      access (BitVec.ofNat 32 (memoryAddress hi lo + i)) = .ok w ∧
        w.val = memoryAddress hi lo + i) :
    memoryAddress hi lo + transferLength z ≤ W := by
  have hpos := transferLength_pos z
  obtain ⟨w, -, hw⟩ := h (transferLength z - 1) (by omega)
  have hlt := w.isLt
  omega

theorem toNat_blockAddr {i : Nat} (hi' : i < transferLength z) :
    (BitVec.ofNat 32 (memoryAddress hi lo + i) : CAddr).toNat = memoryAddress hi lo + i := by
  have hlt := memoryAddress_lt hi lo
  have hle := transferLength_le z
  rw [BitVec.toNat_ofNat]
  exact Nat.mod_eq_of_lt (by omega)

/-- The buffer memory is reached everywhere, modulo its size. -/
theorem bufferMemAccess_block (hW : 0 < W) {i : Nat} (hi' : i < transferLength z) :
    ChannelMOS.bufferMemAccess W (BitVec.ofNat 32 (memoryAddress hi lo + i)) =
      .ok (memoryBlock hW (memoryAddress hi lo) i) := by
  rw [ChannelMOS.bufferMemAccess, dif_pos hW]
  simp only [toNat_blockAddr hi']
  rfl

/-- The central memory is reached up to its size. -/
theorem centralMemory_block (hW : 0 < W) (hfits : memoryAddress hi lo + transferLength z ≤ W)
    {i : Nat} (hi' : i < transferLength z) :
    ChannelHostMemory.centralMemory W (BitVec.ofNat 32 (memoryAddress hi lo + i)) =
      .ok (memoryBlock hW (memoryAddress hi lo) i) := by
  have haddr := @toNat_blockAddr hi lo z i hi'
  rw [ChannelHostMemory.centralMemory, dif_pos (by omega)]
  exact congrArg Except.ok (Fin.ext (haddr.trans (val_memoryBlock hfits hi').symm))

/-- A block inside the memory, by a channel out of the I/O memory and one into it. -/
theorem transfersBlock_started {mem : BlockMemory W} {cOut cIn : BlockChannel}
    {out into outInto : BlockMemory W → Except Exn (BlockMemory W)} (hW : 0 < W)
    (hfits : memoryAddress hi lo + transferLength z ≤ W)
    (hreach : ∀ i < transferLength z, access (BitVec.ofNat 32 (memoryAddress hi lo + i)) =
      .ok (memoryBlock hW (memoryAddress hi lo) i))
    (hout : out mem =
      (transferLoop access 0x4000 (started true a hi lo z cOut, mem)).map Prod.snd)
    (hinto : into mem =
      (transferLoop access 0x4000 (started false a hi lo z cIn, mem)).map Prod.snd)
    (hback : ∀ s, transferLoop access 0x4000 (started true a hi lo z cOut, mem) = .ok s →
      Idle s.1 → ∃ c, outInto mem =
        (transferLoop access 0x4000 (started false a hi lo z c, s.2)).map Prod.snd) :
    TransfersBlock access out into outInto (ioAddress a) (memoryAddress hi lo) (transferLength z)
      mem := by
  obtain ⟨c₁, hrunOut, hidle⟩ := @transfer_started W _ mem true a hi lo z cOut hW hreach
  obtain ⟨c₂, hrunIn, -⟩ := @transfer_started W _ mem false a hi lo z cIn hW hreach
  obtain ⟨c, hboth⟩ := hback _ hrunOut hidle
  obtain ⟨c₃, hrunBack, -⟩ := @transfer_started W _ (moveBlock true (transferLength z)
    (ioBlock (ioAddress a)) (memoryBlock hW (memoryAddress hi lo)) mem) false a hi lo z c hW hreach
  refine ⟨fun i hi' => ⟨_, hreach i hi', val_memoryBlock hfits hi'⟩,
    ⟨_, ?_, @movesOut W mem hW _ _ (ioAddress a) hfits⟩,
    ⟨_, ?_, @movesIn W mem hW _ _ (ioAddress a) (transferLength_le z)⟩,
    ⟨_, ?_, @moveBlock_back W mem hW _ _ (ioAddress a) hfits⟩⟩
  · rw [hout, hrunOut]
    rfl
  · rw [hinto, hrunIn]
    rfl
  · rw [hboth, hrunBack]
    rfl

end blocks

open BlockChannel in
/-- **Block transfers**: for every channel as its calls leave it, every I/O address, memory address
    and size, the MOS channel and the two channels to the central memory transfer the block, whole
    and back, exactly if its last word is inside the memory. -/
theorem block_transfer_iff {W : Nat} (a hi lo z : IopInt) (mem : BlockMemory W) :
    (∀ c, ChannelMOS.Reachable W c →
      (TransfersBlock (ChannelMOS.bufferMemAccess W)
          (fun m => (ChannelMOS.calls (blockCalls 0o005 a hi lo z) (c, m)).map Prod.snd)
          (fun m => (ChannelMOS.calls (blockCalls 0o004 a hi lo z) (c, m)).map Prod.snd)
          (fun m => (ChannelMOS.calls (blockCalls 0o005 a hi lo z ++ blockCalls 0o004 a hi lo z)
            (c, m)).map Prod.snd)
          (ioAddress a) (memoryAddress hi lo) (transferLength z) mem ↔
        memoryAddress hi lo + transferLength z ≤ W)) ∧
    ∀ cIn cOut, ChannelHostMemory.Reachable W true false cIn →
      ChannelHostMemory.Reachable W false true cOut →
      (TransfersBlock (ChannelHostMemory.centralMemory W)
          (fun m => (ChannelHostMemory.callsOut (blockCalls 0o005 a hi lo z) (cOut, m)).map Prod.snd)
          (fun m => (ChannelHostMemory.callsIn (blockCalls 0o004 a hi lo z) (cIn, m)).map Prod.snd)
          (fun m => do
            let s ← ChannelHostMemory.callsOut (blockCalls 0o005 a hi lo z) (cOut, m)
            let s' ← ChannelHostMemory.callsIn (blockCalls 0o004 a hi lo z) (cIn, s.2)
            return s'.2)
          (ioAddress a) (memoryAddress hi lo) (transferLength z) mem ↔
        memoryAddress hi lo + transferLength z ≤ W) := by
  have hpos := transferLength_pos z
  constructor
  · intro c hc
    refine ⟨fun h => fits_of_inside h.inside, fun hfits => ?_⟩
    have hW : 0 < W := by omega
    refine @transfersBlock_started W _ a hi lo z mem c c _ _ _ hW hfits
      (fun i hi' => bufferMemAccess_block hW hi') ?_ ?_ fun s hs hidle => ⟨s.1, ?_⟩
    · exact congrArg _ (ChannelMOS.calls_out hc.idle)
    · exact congrArg _ (ChannelMOS.calls_in hc.idle)
    · rw [← ChannelMOS.calls_out hc.idle] at hs
      rw [ChannelMOS.calls, EventRun.run_append_ok _ hs]
      exact congrArg _ (ChannelMOS.calls_in hidle)
  · intro cIn cOut _ _
    refine ⟨fun h => fits_of_inside h.inside, fun hfits => ?_⟩
    have hW : 0 < W := by omega
    refine @transfersBlock_started W _ a hi lo z mem cOut cIn _ _ _ hW hfits
      (fun i hi' => centralMemory_block hW hfits hi') ?_ ?_ fun s hs _ => ⟨cIn, ?_⟩
    · exact congrArg _ ChannelHostMemory.calls_out
    · exact congrArg _ ChannelHostMemory.calls_in
    · rw [← ChannelHostMemory.calls_out] at hs
      rw [hs]
      dsimp only [bind, Except.bind]
      rw [ChannelHostMemory.calls_in]
      cases transferLoop (ChannelHostMemory.centralMemory W) 0x4000
        (started false a hi lo z cIn, s.2) <;> rfl

/-- Two words, between the end of a memory of eight words and an I/O memory that wraps. -/
theorem block_transfer_iff_eight :
    TransfersBlock (ChannelMOS.bufferMemAccess 8)
        (fun m => (ChannelMOS.calls (blockCalls 0o005 0xfffc 0 6 2)
          (BlockChannel.masterClear, m)).map Prod.snd)
        (fun m => (ChannelMOS.calls (blockCalls 0o004 0xfffc 0 6 2)
          (BlockChannel.masterClear, m)).map Prod.snd)
        (fun m => (ChannelMOS.calls (blockCalls 0o005 0xfffc 0 6 2 ++ blockCalls 0o004 0xfffc 0 6 2)
          (BlockChannel.masterClear, m)).map Prod.snd)
        (ioAddress 0xfffc) (memoryAddress 0 6) (transferLength 2)
        ⟨fun x => BitVec.ofNat 64 x.val, fun _ => 0⟩ ∧
      ¬ TransfersBlock (ChannelHostMemory.centralMemory 8)
        (fun m => (ChannelHostMemory.callsOut (blockCalls 0o005 0 0 7 2)
          (BlockChannel.masterClear, m)).map Prod.snd)
        (fun m => (ChannelHostMemory.callsIn (blockCalls 0o004 0 0 7 2)
          (BlockChannel.masterClear, m)).map Prod.snd)
        (fun m => do
          let s ← ChannelHostMemory.callsOut (blockCalls 0o005 0 0 7 2)
            (BlockChannel.masterClear, m)
          let s' ← ChannelHostMemory.callsIn (blockCalls 0o004 0 0 7 2)
            (BlockChannel.masterClear, s.2)
          return s'.2)
        (ioAddress 0) (memoryAddress 0 7) (transferLength 2) ⟨fun _ => 0, fun _ => 0⟩ := by
  constructor
  · exact ((block_transfer_iff 0xfffc 0 6 2 _).1 _ .masterClear).mpr (by decide)
  · exact fun h => absurd
      (((block_transfer_iff 0 0 7 2 _).2 _ _ .masterClear .masterClear).mp h) (by decide)

/-- The central memory of a mainframe with the usual eight million words. -/
def usualMemory : BlockMemory (8 * 1024 * 1024) := ⟨fun _ => 0, fun _ => 0⟩

/-- One word to the address behind the last word of the central memory. -/
theorem not_transfers_block_behind :
    ChannelHostMemory.callsOut (blockCalls 0o005 0 0x4000 0 1)
        (BlockChannel.masterClear, usualMemory) = .error .undefinedBehaviour ∧
      ¬ ∀ {W : Nat} (a hi lo z : IopInt) (mem : BlockMemory W) (cIn cOut : BlockChannel),
        ChannelHostMemory.Reachable W true false cIn →
        ChannelHostMemory.Reachable W false true cOut →
        TransfersBlock (ChannelHostMemory.centralMemory W)
          (fun m => (ChannelHostMemory.callsOut (blockCalls 0o005 a hi lo z) (cOut, m)).map Prod.snd)
          (fun m => (ChannelHostMemory.callsIn (blockCalls 0o004 a hi lo z) (cIn, m)).map Prod.snd)
          (fun m => do
            let s ← ChannelHostMemory.callsOut (blockCalls 0o005 a hi lo z) (cOut, m)
            let s' ← ChannelHostMemory.callsIn (blockCalls 0o004 a hi lo z) (cIn, s.2)
            return s'.2)
          (ioAddress a) (memoryAddress hi lo) (transferLength z) mem := by
  have hrun : ChannelHostMemory.callsOut (blockCalls 0o005 0 0x4000 0 1)
      (BlockChannel.masterClear, usualMemory) = .error .undefinedBehaviour := by
    rw [ChannelHostMemory.calls_out]
    rfl
  refine ⟨hrun, fun hall => ?_⟩
  obtain ⟨mem', hout, -⟩ := (hall 0 0x4000 0 1 usualMemory _ _ .masterClear .masterClear).out
  rw [hrun] at hout
  cases hout

end CraySim
