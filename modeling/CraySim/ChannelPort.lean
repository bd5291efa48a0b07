/-
  Subject:   The side of a channel the devices use: words taken from and put into its buffer.

  `Channel_i` gives a device `GetData`, `SetData` and `Disconnect`. Both transfers assert that the
  channel is active and not at its limit; only `GetData` goes inactive at the limit.

  * `memWords`, `memWriteWords` -- consecutive words of the mainframe memory,
  * `ChannelPort` -- a channel and the memory behind it,
  * `getData`, `setData` -- the two transfers, for a memory of `mMemSizeInWords`,
  * `HasRoom` -- the buffer has room for a number of words.
-/
import CraySim.Requests

namespace CraySim

/-! ## 1. Words of the mainframe memory -/

open SysRun (memIndex memRead memWrite)

/-- The words `CAddr_t` subscripts of 32 bits reach. -/
def cReachableWords : Nat := 2 ^ 29

theorem memIndex_of_lt {a : Nat} (h : a < cReachableWords) : memIndex a = a * 8 := by
  unfold memIndex
  unfold cReachableWords at h
  exact Nat.mod_eq_of_lt (by omega)

theorem memRead_memWrite_self (mem : Nat → BitVec 8) (a : Nat) (w : CInt) :
    memRead (memWrite mem a w) a = w :=
  ByteStore.load_store 8 mem _ w

theorem memRead_memWrite_ne (mem : Nat → BitVec 8) {a b : Nat} (w : CInt)
    (ha : a < cReachableWords) (hb : b < cReachableWords) (h : b ≠ a) :
    memRead (memWrite mem a w) b = memRead mem b := by
  apply ByteStore.load_store_of_disjoint
  rw [memIndex_of_lt ha, memIndex_of_lt hb]
  omega

/-- The `n` words from `a` on. -/
def memWords (mem : Nat → BitVec 8) (a : Nat) : Nat → List CInt
  | 0 => []
  | n + 1 => memRead mem a :: memWords mem (a + 1) n

/-- The words `ws` put into memory from `a` on. -/
def memWriteWords (mem : Nat → BitVec 8) (a : Nat) : List CInt → Nat → BitVec 8
  | [] => mem
  | w :: ws => memWriteWords (memWrite mem a w) (a + 1) ws

theorem memRead_memWriteWords_outside {mem : Nat → BitVec 8} {a b : Nat} {ws : List CInt}
    (ha : a + ws.length ≤ cReachableWords) (hb : b < cReachableWords)
    (h : b < a ∨ a + ws.length ≤ b) :
    memRead (memWriteWords mem a ws) b = memRead mem b := by
  induction ws generalizing mem a with
  | nil => rfl
  | cons w ws ih =>
    rw [List.length_cons] at ha h
    rw [memWriteWords, ih (by omega) (by omega),
      memRead_memWrite_ne mem w (by omega) hb (by omega)]

theorem memWords_memWriteWords {mem : Nat → BitVec 8} {a : Nat} {ws : List CInt}
    (ha : a + ws.length ≤ cReachableWords) :
    memWords (memWriteWords mem a ws) a ws.length = ws := by
  induction ws generalizing mem a with
  | nil => rfl
  | cons w ws ih =>
    rw [List.length_cons] at ha
    have hhead : memRead (memWriteWords (memWrite mem a w) (a + 1) ws) a = w := by
      rw [memRead_memWriteWords_outside (by omega) (by omega) (by omega), memRead_memWrite_self]
    rw [memWriteWords, List.length_cons, memWords, hhead, ih (by omega)]

/-! ## 2. Channel and memory -/

/-- A channel and the mainframe memory its buffer lies in. -/
structure ChannelPort where
  ch : Channel
  mMemory : Nat → BitVec 8

def Channel.bufferLeft (ch : Channel) : CAddr := ch.mLimit - ch.mAddress

/-- `Disconnect`; the devices behind the model do nothing on deactivation. -/
def Channel.disconnect (ch : Channel) : Channel :=
  { ch with mActive := false, mInterruptPending := true }

namespace ChannelPort

/-- `GetData`; `MemReadNoWatchpoint` checks the address, in 64 bits. -/
def getData (mMemSizeInWords : Nat) (p : ChannelPort) : Except Exn (CInt × ChannelPort) :=
  if !p.ch.mActive then .error .assertion
  else if p.ch.mAddress = p.ch.mLimit then .error .assertion
  else if mMemSizeInWords ≤ p.ch.mAddress.toNat then .error .dataReadOutOfBoundsError
  else
    let retVal := ByteStore.load 8 p.mMemory (p.ch.mAddress.toNat * 8)
    let ch := { p.ch with mAddress := p.ch.mAddress + 1 }
    .ok (retVal, { p with ch := if ch.mAddress = ch.mLimit then ch.disconnect else ch })

/-- `SetData`; `MemWrite` does not check its subscript. -/
def setData (mMemSizeInWords : Nat) (aData : CInt) (aWithDisconnect : Bool) (p : ChannelPort) :
    Except Exn ChannelPort :=
  if !p.ch.mActive then .error .assertion
  else if p.ch.mAddress = p.ch.mLimit then .error .assertion
  else if mMemSizeInWords ≤ memIndex p.ch.mAddress.toNat / 8 then .error .undefinedBehaviour
  else
    let ch := { p.ch with mAddress := p.ch.mAddress + 1 }
    .ok
      { ch := if aWithDisconnect then ch.disconnect else ch
        mMemory := memWrite p.mMemory p.ch.mAddress.toNat aData }

/-- The word `GetData` takes from an address. -/
def word (mem : Nat → BitVec 8) (a : CAddr) : CInt := ByteStore.load 8 mem (a.toNat * 8)

/-- The `n` words a buffer starts with. -/
def bufferWords (mem : Nat → BitVec 8) (a : CAddr) : Nat → List CInt
  | 0 => []
  | n + 1 => word mem a :: bufferWords mem (a + 1) n

@[simp] theorem length_bufferWords (mem : Nat → BitVec 8) (a : CAddr) (n : Nat) :
    (bufferWords mem a n).length = n := by
  induction n generalizing a with
  | zero => rfl
  | succ n ih => rw [bufferWords, List.length_cons, ih]

/-- The words of the buffer that are left. -/
def source (p : ChannelPort) : List CInt :=
  if p.ch.mActive then bufferWords p.mMemory p.ch.mAddress p.ch.bufferLeft.toNat else []

/-- The next `n` words of the buffer are in memory. -/
def Readable (mMemSizeInWords : Nat) (a : CAddr) (n : Nat) : Prop :=
  ∀ i < n, (a + BitVec.ofNat 32 i).toNat < mMemSizeInWords

theorem Readable.next {mMemSizeInWords n : Nat} {a : CAddr}
    (h : Readable mMemSizeInWords a (n + 1)) : Readable mMemSizeInWords (a + 1) n := by
  intro i hi
  rw [← WordField.add_ofNat_succ]
  exact h (i + 1) (Nat.succ_lt_succ hi)

/-- The next `n` words of the buffer are there, and the memory has them. -/
structure HasRoom (mMemSizeInWords : Nat) (p : ChannelPort) (n : Nat) : Prop where
  left : n ≤ p.ch.bufferLeft.toNat
  memory : p.ch.mAddress.toNat + n ≤ mMemSizeInWords
  reachable : p.ch.mAddress.toNat + n ≤ cReachableWords

variable {mMemSizeInWords n : Nat} {p : ChannelPort}

theorem bufferLeft_pos (h : p.ch.mAddress ≠ p.ch.mLimit) :
    p.ch.bufferLeft.toNat = (p.ch.mLimit - (p.ch.mAddress + 1)).toNat + 1 := by
  have hne : p.ch.mAddress.toNat ≠ p.ch.mLimit.toNat := fun he => h (BitVec.eq_of_toNat_eq he)
  have ha := p.ch.mAddress.isLt
  have hl := p.ch.mLimit.isLt
  have hone : (1 : BitVec 32).toNat = 1 := rfl
  rw [Channel.bufferLeft, BitVec.toNat_sub, BitVec.toNat_sub, BitVec.toNat_add, hone]
  omega

theorem source_active (hactive : p.ch.mActive) (h : p.ch.mAddress ≠ p.ch.mLimit) :
    p.source = word p.mMemory p.ch.mAddress ::
      bufferWords p.mMemory (p.ch.mAddress + 1) (p.ch.mLimit - (p.ch.mAddress + 1)).toNat := by
  rw [source, if_pos hactive, bufferLeft_pos h, bufferWords]

/-- The channel behind one word taken from its buffer. -/
def taken (p : ChannelPort) : ChannelPort :=
  { p with
    ch :=
      if p.ch.mAddress + 1 = p.ch.mLimit then
        { p.ch with mAddress := p.ch.mAddress + 1 }.disconnect
      else { p.ch with mAddress := p.ch.mAddress + 1 } }

/-- **One word out of the buffer.** -/
theorem getData_ok (hactive : p.ch.mActive) (h : p.ch.mAddress ≠ p.ch.mLimit)
    (hmem : p.ch.mAddress.toNat < mMemSizeInWords) :
    getData mMemSizeInWords p = .ok (word p.mMemory p.ch.mAddress, p.taken) := by
  rw [getData, hactive, if_neg (by simp), if_neg h, if_neg (by omega)]
  rfl

/-- What is left of the buffer is what stood behind the word. -/
theorem source_taken (hactive : p.ch.mActive) :
    p.taken.source =
      bufferWords p.mMemory (p.ch.mAddress + 1) (p.ch.mLimit - (p.ch.mAddress + 1)).toNat := by
  by_cases hlast : p.ch.mAddress + 1 = p.ch.mLimit
  · have hzero : (p.ch.mLimit - (p.ch.mAddress + 1)).toNat = 0 := by
      rw [hlast, BitVec.sub_self]
      rfl
    rw [hzero, taken, if_pos hlast]
    rfl
  · rw [taken, if_neg hlast, source, if_pos hactive]
    rfl

theorem mActive_taken (hactive : p.ch.mActive) :
    p.taken.ch.mActive = decide (p.ch.mAddress + 1 ≠ p.ch.mLimit) := by
  by_cases hlast : p.ch.mAddress + 1 = p.ch.mLimit
  · rw [taken, if_pos hlast, decide_eq_false (not_not.mpr hlast)]
    rfl
  · rw [taken, if_neg hlast, decide_eq_true hlast]
    exact hactive

@[simp] theorem mAddress_taken : p.taken.ch.mAddress = p.ch.mAddress + 1 := by
  unfold taken
  split <;> rfl

@[simp] theorem mLimit_taken : p.taken.ch.mLimit = p.ch.mLimit := by
  unfold taken
  split <;> rfl

@[simp] theorem mInterruptPending_taken : p.taken.ch.mInterruptPending =
    (p.ch.mInterruptPending || decide (p.ch.mAddress + 1 = p.ch.mLimit)) := by
  by_cases hlast : p.ch.mAddress + 1 = p.ch.mLimit
  · rw [taken, if_pos hlast, decide_eq_true hlast, Bool.or_true]
    rfl
  · rw [taken, if_neg hlast, decide_eq_false hlast, Bool.or_false]

/-- The interrupt comes with the last word of the buffer. -/
theorem mInterruptPending_taken_source (hactive : p.ch.mActive) :
    p.taken.ch.mInterruptPending = (p.ch.mInterruptPending || p.taken.source.isEmpty) := by
  rw [mInterruptPending_taken]
  congr 1
  rw [Bool.eq_iff_iff, decide_eq_true_iff, List.isEmpty_iff, source_taken hactive,
    ← List.length_eq_zero_iff, length_bufferWords, BitVec.toNat_sub]
  have ha := (p.ch.mAddress + 1).isLt
  have hl := p.ch.mLimit.isLt
  constructor
  · intro hlast
    rw [hlast]
    omega
  · exact fun h => BitVec.eq_of_toNat_eq (by omega)

/-- A buffer inside the memory has room for as many words as it is long. -/
theorem hasRoom_of_buffer (hle : p.ch.mAddress.toNat ≤ p.ch.mLimit.toNat)
    (hmem : p.ch.mLimit.toNat ≤ mMemSizeInWords) (hreach : p.ch.mLimit.toNat ≤ cReachableWords)
    (hn : p.ch.mAddress.toNat + n ≤ p.ch.mLimit.toNat) : HasRoom mMemSizeInWords p n := by
  refine ⟨?_, by omega, by omega⟩
  rw [Channel.bufferLeft, BitVec.toNat_sub_of_le hle]
  omega

theorem HasRoom.not_at_limit (h : HasRoom mMemSizeInWords p (n + 1)) :
    p.ch.mAddress ≠ p.ch.mLimit := by
  intro he
  have hleft := h.left
  rw [Channel.bufferLeft, he, BitVec.sub_self] at hleft
  exact absurd hleft (by simp)

theorem HasRoom.toNat_succ (h : HasRoom mMemSizeInWords p (n + 1)) :
    (p.ch.mAddress + 1).toNat = p.ch.mAddress.toNat + 1 := by
  have hreach := h.reachable
  unfold cReachableWords at hreach
  rw [BitVec.toNat_add]
  exact Nat.mod_eq_of_lt (by simp; omega)

/-- **One word into the buffer**, where it has room for it. -/
theorem setData_ok (hactive : p.ch.mActive) (h : HasRoom mMemSizeInWords p (n + 1)) (w : CInt)
    (aWithDisconnect : Bool) :
    setData mMemSizeInWords w aWithDisconnect p = .ok
      { ch :=
          if aWithDisconnect then { p.ch with mAddress := p.ch.mAddress + 1 }.disconnect
          else { p.ch with mAddress := p.ch.mAddress + 1 }
        mMemory := memWrite p.mMemory p.ch.mAddress.toNat w } := by
  have hmem := h.memory
  have hreach := h.reachable
  have hindex : ¬ mMemSizeInWords ≤ memIndex p.ch.mAddress.toNat / 8 := by
    rw [memIndex_of_lt (by omega)]
    omega
  rw [setData, hactive, if_neg (by simp), if_neg h.not_at_limit, if_neg hindex]

/-- The room that is left behind the word written. -/
theorem HasRoom.next (h : HasRoom mMemSizeInWords p (n + 1)) {mem : Nat → BitVec 8} :
    HasRoom mMemSizeInWords
      { ch := { p.ch with mAddress := p.ch.mAddress + 1 }, mMemory := mem } n := by
  have hmem := h.memory
  have hreach := h.reachable
  have hleft := h.left
  have hnext := h.toNat_succ
  refine ⟨?_, ?_, ?_⟩
  · simp only [Channel.bufferLeft, BitVec.toNat_sub, hnext] at hleft ⊢
    omega
  · rw [hnext]
    omega
  · rw [hnext]
    omega

end ChannelPort

end CraySim
