/-
  Subject:   The channel between a mainframe and its I/O processor.

  Both sides of `IopCrayChannel_c` are started on their own: the mainframe by setting limit and
  address of its buffer, the IOP by its functions 002 (transfer size) and 001 (address, start).
  Words move while both are active; whichever side is done first waits for the other.

  * `IopCrayChannel`, `doTransfer` -- the channel and its transfer loop,
  * `decodeBuffer` -- the text that is made of a transfer, and what it reads,
  * `step` -- the calls of the two sides,
  * `Proper` -- buffers in memory that are exhausted when another one is given, and transfers whose
    text can be made,
  * `cToI_follows` -- a run does what giver and taker do.
-/
import CraySim.ChannelPort
import CraySim.Lib.EventRun
import CraySim.Lib.Rendezvous

namespace CraySim

open EventRun (run Along trace)

/-! ## 1. The memory of the IOP -/

/-- `IoMemAccessByType<uint64_t>(aAddr)`: four parcels, the first one on the left. -/
def ioWord (mem : Nat → CParcel) (aAddr : Nat) : CInt :=
  mem (4 * aAddr) ++ mem (4 * aAddr + 1) ++ mem (4 * aAddr + 2) ++ mem (4 * aAddr + 3)

def setIoWord (mem : Nat → CParcel) (aAddr : Nat) (aData : CInt) : Nat → CParcel := fun i =>
  if i / 4 = aAddr then (aData >>> (16 * (3 - i % 4))).setWidth 16 else mem i

/-- A word written to the memory of the IOP, as its words see it. -/
theorem ioWord_setIoWord (mem : Nat → CParcel) (a b : Nat) (w : CInt) :
    ioWord (setIoWord mem a w) b = if b = a then w else ioWord mem b := by
  have hdiv : ∀ k < 4, (4 * b + k) / 4 = b := fun k hk => by omega
  have hmod : ∀ k < 4, (4 * b + k) % 4 = k := fun k hk => by omega
  have h0 : (4 * b) / 4 = b ∧ (4 * b) % 4 = 0 := by omega
  unfold ioWord setIoWord
  rw [hdiv 1 (by omega), hdiv 2 (by omega), hdiv 3 (by omega), hmod 1 (by omega),
    hmod 2 (by omega), hmod 3 (by omega), h0.1, h0.2]
  by_cases h : b = a
  · simp only [h, if_true]
    apply BitVec.eq_of_getLsbD_eq
    intro i hi
    simp only [BitVec.getLsbD_append, BitVec.getLsbD_setWidth, BitVec.getLsbD_ushiftRight]
    split
    · rename_i h1
      simp [h1]
    · split
      · rename_i h1 h2
        simp [h2, show 16 + (i - 16) = i by omega]
      · split
        · rename_i h1 h2 h3
          simp [h3, show 32 + (i - 16 - 16) = i by omega]
        · rename_i h1 h2 h3
          simp [show i - 16 - 16 - 16 < 16 by omega, show 48 + (i - 16 - 16 - 16) = i by omega]
  · simp only [h, if_false]

/-! ## 2. The channel -/

/-- `IopCrayChannel_c`. `overread` is a log for the statements: a subscript of `mMsgBuffer` was behind
    its end, which is undefined behaviour. -/
structure IopCrayChannel where
  port : ChannelPort
  ioMemory : Nat → CParcel
  mIoMemoryAddr : BitVec 16
  mTransferSize : BitVec 16
  mAllowItoC : Bool
  mAllowCtoI : Bool
  mDone : Bool
  mItoCActive : Bool
  mCtoIActive : Bool
  mInterruptEnabled : Bool
  mHoldDisconnect : Bool
  mReadyWaiting : Bool
  /-- The master clear line to the channels, kept by the mainframe. -/
  mIoMasterClear : Bool
  mMsgBuffer : List CInt
  overread : Bool

namespace IopCrayChannel

/-- `mIoMemoryAddr` wraps at the end of the memory; `mTransferSize` wraps through zero. -/
def advance (s : IopCrayChannel) : IopCrayChannel :=
  { s with
    mIoMemoryAddr := if s.mIoMemoryAddr ≠ 0x3fff then s.mIoMemoryAddr + 1 else 0
    mTransferSize := (s.mTransferSize - 1) &&& 0x3fff }

/-- A packet of a request to station `A` or of a response from it: `DID` and `SID` are the first 32
    bits of the first word, with the characters `A`, `1` and `C`. -/
def packetA (aData : CInt) : Bool :=
  let did := aData >>> 48
  let sid := aData >>> 32
  let (dtid, dpt) := (did.setWidth 8, (did >>> 8).setWidth 8)
  let (stid, spt) := (sid.setWidth 8, (sid >>> 8).setWidth 8)
  stid = 0x31#8 && spt = 0x43#8 && dtid = 0x41#8 || dtid = 0x31#8 && dpt = 0x43#8 && stid = 0x41#8

/-- `DecodeBuffer` takes the words 1 to 5 of such a packet, however many there are. -/
def readsBehind (mMsgBuffer : List CInt) : Bool :=
  packetA (mMsgBuffer.headD 0) && decide (mMsgBuffer.length < 6)

/-- `DecodeBuffer`, without the text for the operator. -/
def decodeBuffer (s : IopCrayChannel) : IopCrayChannel :=
  { s with overread := s.overread || readsBehind s.mMsgBuffer }

/-- The end of a transfer. -/
def complete (s : IopCrayChannel) : IopCrayChannel :=
  { s.decodeBuffer with
    port :=
      if !s.mHoldDisconnect && s.mItoCActive then { s.port with ch := s.port.ch.disconnect }
      else s.port
    mItoCActive := false
    mCtoIActive := false
    mDone := true
    mMsgBuffer := [] }

/-- One round of the loop of `DoTransfer`. -/
def transferWord (mMemSizeInWords : Nat) (s : IopCrayChannel) : Except Exn IopCrayChannel := do
  if s.mDone then .error .assertion
  else
    let s ←
      if s.mItoCActive then do
        let data := ioWord s.ioMemory s.mIoMemoryAddr.toNat
        let port ← s.port.setData mMemSizeInWords data false
        pure { s with port := port, mMsgBuffer := s.mMsgBuffer ++ [data] }
      else pure s
    let s ←
      if s.mCtoIActive then do
        let (data, port) ← s.port.getData mMemSizeInWords
        pure { s with
          port := port
          ioMemory := setIoWord s.ioMemory s.mIoMemoryAddr.toNat data
          mMsgBuffer := s.mMsgBuffer ++ [data] }
      else pure s
    let s := s.advance
    if s.mTransferSize = 0 then return s.complete else return s

/-- The condition of the loop. -/
def transferring (s : IopCrayChannel) : Bool :=
  (s.mItoCActive || s.mCtoIActive) && s.port.ch.mActive

/-- The loop of `DoTransfer`, for as many rounds as `fuel` allows. -/
def transferLoop (mMemSizeInWords : Nat) : Nat → IopCrayChannel → Except Exn IopCrayChannel
  | 0, s => if s.transferring then .error .undefinedBehaviour else .ok s
  | fuel + 1, s =>
    if s.transferring then
      (s.transferWord mMemSizeInWords).bind (transferLoop mMemSizeInWords fuel)
    else .ok s

/-- `DoTransfer`; the IOP side of a transfer is over after `0x4000` words. -/
def doTransfer (mMemSizeInWords : Nat) (s : IopCrayChannel) : Except Exn IopCrayChannel :=
  s.transferLoop mMemSizeInWords 0x4000

def handleActivation (mMemSizeInWords : Nat) (s : IopCrayChannel) : Except Exn IopCrayChannel :=
  let s := if !s.mCtoIActive then { s with mReadyWaiting := true } else s
  s.doTransfer mMemSizeInWords

/-- `SetAddress`, with the activation of `Channel_i::SetActive`. -/
def setAddress (mMemSizeInWords : Nat) (aAddress : CAddr) (s : IopCrayChannel) :
    Except Exn IopCrayChannel :=
  let ch := s.port.ch.setAddress aAddress
  let s' := { s with port := { s.port with ch := ch } }
  if ch.mActive && !s.port.ch.mActive then s'.handleActivation mMemSizeInWords else .ok s'

/-- The bit of a function word. -/
def bit (aData : BitVec 16) (i : Nat) : Bool := aData &&& ((1 : BitVec 16) <<< i) != 0

/-- The I/O master clear of the mainframe resets its channels on the falling edge. -/
def ioMasterClear (aMasterClear : Bool) (s : IopCrayChannel) : IopCrayChannel :=
  let s :=
    if s.mIoMasterClear && !aMasterClear then
      { s with port := { s.port with ch := s.port.ch.mainframeSideMasterClear } }
    else s
  { s with mIoMasterClear := aMasterClear }

/-- `DoIo`, without the master clear line to the processors. -/
def doIo (mMemSizeInWords : Nat) (aFunction : Nat) (aData : BitVec 16) (s : IopCrayChannel) :
    Except Exn (BitVec 16 × IopCrayChannel) := do
  match aFunction with
  | 0o00 => return (0, { s with mItoCActive := false, mCtoIActive := false, mDone := false })
  | 0o01 =>
    let s := { s with mIoMemoryAddr := aData >>> 2 }
    let s :=
      if s.mAllowCtoI then { s with mCtoIActive := true, mItoCActive := false, mDone := false }
      else s
    let s :=
      if s.mAllowItoC then { s with mCtoIActive := false, mItoCActive := true, mDone := false }
      else s
    let s ← s.doTransfer mMemSizeInWords
    return (0, s)
  | 0o02 => return (0, { s with mTransferSize := aData >>> 2 })
  | 0o03 => return (0, s)
  | 0o04 =>
    let s := if s.mAllowCtoI then { s with mReadyWaiting := false } else s
    if s.mAllowItoC then
      let s := if bit aData 8 then { s with port := { s.port with ch := s.port.ch.disconnect } }
        else s
      let s := { s with mHoldDisconnect := bit aData 9 }
      if bit aData 11 || bit aData 12 || bit aData 13 then .error .assertion
      else return (0, s.ioMasterClear (bit aData 14))
    else return (0, s)
  | 0o06 => return (0, { s with mInterruptEnabled := false })
  | 0o07 => return (0, { s with mInterruptEnabled := true })
  | 0o10 => return (s.mIoMemoryAddr <<< 2, s)
  | 0o11 =>
    if s.mAllowCtoI then return (if s.mReadyWaiting then 1 <<< 15 else 0, s)
    else if s.mAllowItoC then return (0, s)
    else .error .assertion
  | _ => return (0, s)

/-- The calls of the mainframe and of the IOP. -/
inductive Event where
  | setAddress (aAddress : CAddr)
  | setLimit (aLimit : CAddr)
  | clearInterrupt
  | clearError
  /-- `DoIo(002, aData)`. -/
  | transferSize (aData : BitVec 16)
  /-- `DoIo(001, aData)`. -/
  | start (aData : BitVec 16)

def step (mMemSizeInWords : Nat) : Event → IopCrayChannel → Except Exn IopCrayChannel
  | .setAddress a, s => s.setAddress mMemSizeInWords a
  | .setLimit l, s => .ok { s with port := { s.port with ch := s.port.ch.setLimit l } }
  | .clearInterrupt, s => .ok { s with port := { s.port with ch := s.port.ch.clearInterrupt } }
  | .clearError, s => .ok { s with port := { s.port with ch := s.port.ch.clearError } }
  | .transferSize aData, s => (s.doIo mMemSizeInWords 0o02 aData).map Prod.snd
  | .start aData, s => (s.doIo mMemSizeInWords 0o01 aData).map Prod.snd

/-! ## 3. From the mainframe to the IOP -/

/-- The words the IOP side waits for; a size of 0 stands for the whole memory. -/
def remaining (s : IopCrayChannel) : Nat :=
  if s.mTransferSize = 0 then 0x4000 else s.mTransferSize.toNat

/-- The channel as giver and taker; `passed` is what it does not keep. -/
def link (s : IopCrayChannel) (passed : List CInt) : Rendezvous.State CInt :=
  { source := s.port.source
    wanted := if s.mCtoIActive then s.remaining else 0
    passed := passed
    giverDone := s.port.ch.mInterruptPending
    takerDone := s.mDone
    ring := ioWord s.ioMemory
    next := s.mIoMemoryAddr.toNat }

/-- What holds of a channel from the mainframe at all times. -/
structure Valid (s : IopCrayChannel) : Prop where
  direction : s.mAllowCtoI = true ∧ s.mAllowItoC = false ∧ s.mItoCActive = false
  atLimit : s.port.ch.mActive → s.port.ch.mAddress ≠ s.port.ch.mLimit
  notDone : s.mCtoIActive → s.mDone = false
  size : s.mTransferSize.toNat < 0x4000
  address : s.mIoMemoryAddr.toNat < 0x4000

section cToI

variable {mMemSizeInWords : Nat} {s : IopCrayChannel}

theorem remaining_eq (s : IopCrayChannel) :
    s.remaining = if s.mTransferSize.toNat = 0 then 0x4000 else s.mTransferSize.toNat := by
  have hzero : s.mTransferSize = 0 ↔ s.mTransferSize.toNat = 0 :=
    ⟨fun hz => by rw [hz]; rfl, fun hz => BitVec.eq_of_toNat_eq hz⟩
  simp only [remaining, hzero]

theorem remaining_pos (s : IopCrayChannel) : 0 < s.remaining := by
  rw [remaining_eq]
  split <;> omega

theorem remaining_le (h : s.mTransferSize.toNat < 0x4000) : s.remaining ≤ 0x4000 := by
  rw [remaining_eq]
  split <;> omega

/-- The size counter behind one word: it wraps through zero. -/
theorem toNat_size_sub_one (x : BitVec 16) :
    ((x - 1) &&& 0x3fff).toNat = (x.toNat + 0x3fff) % 0x4000 := by
  have hmask : (0x3fff : BitVec 16).toNat = 2 ^ 14 - 1 := rfl
  have hone : (1 : BitVec 16).toNat = 1 := rfl
  rw [BitVec.toNat_and, hmask, Nat.and_two_pow_sub_one_eq_mod, BitVec.toNat_sub, hone]
  omega

theorem toNat_advance_address (h : s.mIoMemoryAddr.toNat < 0x4000) :
    s.advance.mIoMemoryAddr.toNat = (s.mIoMemoryAddr.toNat + 1) % 0x4000 := by
  unfold advance
  by_cases hend : s.mIoMemoryAddr = 0x3fff
  · simp [hend]
  · have hne : s.mIoMemoryAddr.toNat ≠ 0x3fff := fun he => hend (BitVec.eq_of_toNat_eq he)
    simp only [hend, ne_eq, not_false_eq_true, if_true, BitVec.toNat_add]
    have hone : (1 : BitVec 16).toNat = 1 := rfl
    omega

theorem toNat_advance_size (s : IopCrayChannel) :
    s.advance.mTransferSize.toNat = (s.mTransferSize.toNat + 0x3fff) % 0x4000 :=
  toNat_size_sub_one _

theorem remaining_advance (h : s.mTransferSize.toNat < 0x4000) :
    s.remaining =
      (if s.advance.mTransferSize = 0 then 0 else s.advance.remaining) + 1 := by
  have hsize := toNat_advance_size s
  have hzero : s.advance.mTransferSize = 0 ↔ s.advance.mTransferSize.toNat = 0 :=
    ⟨fun h => by rw [h]; rfl, fun h => BitVec.eq_of_toNat_eq h⟩
  rw [remaining_eq, remaining_eq]
  simp only [hzero]
  split
  · rw [if_neg (by omega), if_neg (by omega)]
    omega
  · by_cases hone : s.mTransferSize.toNat = 1
    · rw [if_pos (by omega)]
      omega
    · rw [if_neg (by omega), if_neg (by omega)]
      omega

/-- The channel behind one word from the mainframe, before its counters move. -/
def received (s : IopCrayChannel) : IopCrayChannel :=
  { s with
    port := s.port.taken
    ioMemory := setIoWord s.ioMemory s.mIoMemoryAddr.toNat
      (ChannelPort.word s.port.mMemory s.port.ch.mAddress)
    mMsgBuffer := s.mMsgBuffer ++ [ChannelPort.word s.port.mMemory s.port.ch.mAddress] }

theorem transferWord_cToI (hs : s.Valid) (hctoi : s.mCtoIActive) (hactive : s.port.ch.mActive)
    (hmem : s.port.ch.mAddress.toNat < mMemSizeInWords) :
    s.transferWord mMemSizeInWords = .ok
      (if s.advance.mTransferSize = 0 then s.received.advance.complete
        else s.received.advance) := by
  obtain ⟨-, -, hitoc⟩ := hs.direction
  have hdone := hs.notDone hctoi
  have hget := ChannelPort.getData_ok hactive (hs.atLimit hactive) hmem
  rcases s with ⟨port, ioMemory, address, size, allowI, allowC, done, itoc, ctoi, rest⟩
  obtain rfl : itoc = false := hitoc
  obtain rfl : ctoi = true := hctoi
  obtain rfl : done = false := hdone
  simp only [transferWord, Bool.false_eq_true, if_false, if_true, pure_bind]
  rw [hget]
  exact (apply_ite Except.ok _ _ _).symm

/-- The end of a transfer from the mainframe does not disconnect. -/
theorem complete_cToI (h : s.mItoCActive = false) :
    s.complete =
      { s.decodeBuffer with mCtoIActive := false, mDone := true, mMsgBuffer := [] } := by
  rcases s with ⟨port, ioMemory, address, size, allowI, allowC, done, itoc, ctoi, ie, hold, rest⟩
  obtain rfl : itoc = false := h
  cases hold <;> rfl

/-- **One word**: the round of the loop is one word from giver to taker. -/
theorem transferWord_link (hs : s.Valid) (hctoi : s.mCtoIActive) (hactive : s.port.ch.mActive)
    (hmem : s.port.ch.mAddress.toNat < mMemSizeInWords) (passed : List CInt) :
    ∃ s' w ws k, s.transferWord mMemSizeInWords = .ok s' ∧ s'.Valid ∧
      s.port.source = w :: ws ∧ s.remaining = k + 1 ∧
      s'.port.ch.mAddress = s.port.ch.mAddress + 1 ∧
      (s'.overread, s'.mMsgBuffer) =
        (if k = 0 then (s.overread || readsBehind (s.mMsgBuffer ++ [w]), [])
          else (s.overread, s.mMsgBuffer ++ [w])) ∧
      s'.link (passed ++ [w]) = Rendezvous.passOne 0x4000 w ws k (s.link passed) := by
  have hround := transferWord_cToI hs hctoi hactive hmem
  have hsource := ChannelPort.source_active hactive (hs.atLimit hactive)
  rw [← ChannelPort.source_taken hactive] at hsource
  have hring : ioWord s.received.ioMemory = fun b =>
      if b = s.mIoMemoryAddr.toNat then ChannelPort.word s.port.mMemory s.port.ch.mAddress
      else ioWord s.ioMemory b := funext fun b => ioWord_setIoWord _ _ _ _
  have haddress := toNat_advance_address hs.address
  have hsize := toNat_advance_size s
  have hremaining := remaining_advance hs.size
  have hpending := ChannelPort.mInterruptPending_taken_source hactive
  have hlimit : s.port.taken.ch.mActive → s.port.taken.ch.mAddress ≠ s.port.taken.ch.mLimit := by
    rw [ChannelPort.mActive_taken hactive]
    simp
  by_cases hlast : s.advance.mTransferSize = 0
  · rw [if_pos hlast, complete_cToI (s := s.received.advance) hs.direction.2.2] at hround
    rw [if_pos hlast] at hremaining
    refine ⟨_, _, _, _, hround, ⟨hs.direction, hlimit, fun h => absurd h (by simp), ?_, ?_⟩,
      hsource, hremaining, ChannelPort.mAddress_taken, rfl, ?_⟩
    · exact lt_of_eq_of_lt hsize (Nat.mod_lt _ (by omega))
    · exact lt_of_eq_of_lt haddress (Nat.mod_lt _ (by omega))
    · unfold link Rendezvous.passOne
      congr 1
      exact (Bool.or_true _).symm
  · rw [if_neg hlast] at hround
    rw [if_neg hlast] at hremaining
    have hpos := s.advance.remaining_pos
    refine ⟨_, _, _, _, hround, ⟨hs.direction, hlimit, hs.notDone, ?_, ?_⟩,
      hsource, hremaining, ChannelPort.mAddress_taken, ?_, ?_⟩
    · exact lt_of_eq_of_lt hsize (Nat.mod_lt _ (by omega))
    · exact lt_of_eq_of_lt haddress (Nat.mod_lt _ (by omega))
    · rw [if_neg (by omega)]
      rfl
    · unfold link Rendezvous.passOne
      congr 1
      · exact if_pos hctoi
      · rw [decide_eq_false (by omega), Bool.or_false]
        rfl

theorem link_resting (hresting : ¬ (s.mCtoIActive ∧ s.port.ch.mActive)) (passed : List CInt) :
    Rendezvous.Resting (s.link passed) := by
  cases hactive : s.port.ch.mActive with
  | false =>
    left
    simp [link, ChannelPort.source, hactive]
  | true =>
    right
    have hctoi : s.mCtoIActive = false := by simpa [hactive] using hresting
    simp [link, hctoi]

theorem link_wanted_pos (hctoi : s.mCtoIActive) (passed : List CInt) :
    0 < (s.link passed).wanted := by
  rw [link, if_pos hctoi]
  exact s.remaining_pos

theorem not_transferring_of_resting (hs : s.Valid) (passed : List CInt)
    (h : Rendezvous.Resting (s.link passed)) : ¬ (s.mCtoIActive ∧ s.port.ch.mActive) := by
  rintro ⟨hctoi, hactive⟩
  rcases h with h | h
  · rw [link, ChannelPort.source_active hactive (hs.atLimit hactive)] at h
    exact List.cons_ne_nil _ _ h
  · have hpos := link_wanted_pos hctoi passed
    omega

/-- The text of a transfer that these words end can be made. -/
def Decodable (s : IopCrayChannel) (source : List CInt) : Prop :=
  s.remaining ≤ source.length → readsBehind (s.mMsgBuffer ++ source.take s.remaining) = false

theorem Decodable.round {s₁ : IopCrayChannel} {w : CInt} {ws : List CInt} {k : Nat}
    (hdec : s.Decodable (w :: ws)) (hremaining : s.remaining = k + 1)
    (hbuffer : (s₁.overread, s₁.mMsgBuffer) =
      (if k = 0 then (s.overread || readsBehind (s.mMsgBuffer ++ [w]), [])
        else (s.overread, s.mMsgBuffer ++ [w])))
    (hover : s.overread = false) (hnext : k ≠ 0 → s₁.remaining = k) :
    s₁.overread = false ∧ (k ≠ 0 → s₁.Decodable ws) := by
  rw [Decodable, hremaining, List.length_cons, List.take_succ_cons] at hdec
  cases k with
  | zero =>
    have hread := hdec (by omega)
    rw [if_pos rfl] at hbuffer
    have hflag : s₁.overread = (s.overread || readsBehind (s.mMsgBuffer ++ [w])) :=
      congrArg Prod.fst hbuffer
    rw [List.take_zero] at hread
    exact ⟨by rw [hflag, hover, hread]; rfl, fun h => absurd rfl h⟩
  | succ k =>
    rw [if_neg (Nat.succ_ne_zero k)] at hbuffer
    have hflag : s₁.overread = s.overread := congrArg Prod.fst hbuffer
    have hwords : s₁.mMsgBuffer = s.mMsgBuffer ++ [w] := congrArg Prod.snd hbuffer
    refine ⟨hflag.trans hover, fun hk => ?_⟩
    rw [Decodable, hnext hk, hwords, List.append_assoc]
    exact fun hle => hdec (by omega)

/-- **The loop**: from any state in which the words that will pass are in memory, everything that
    can pass passes, and the rounds are enough. -/
theorem transferLoop_link {fuel : Nat} (hs : s.Valid) (passed : List CInt)
    (hfuel : (s.link passed).wanted ≤ fuel)
    (hmem : ChannelPort.Readable mMemSizeInWords s.port.ch.mAddress
      (min (s.link passed).source.length (s.link passed).wanted))
    (hover : s.overread = false) (hdec : s.mCtoIActive → s.Decodable s.port.source) :
    ∃ s', s.transferLoop mMemSizeInWords fuel = .ok s' ∧ s'.Valid ∧ s'.overread = false ∧
      s'.link (Rendezvous.transfer 0x4000 (s.link passed)).passed =
        Rendezvous.transfer 0x4000 (s.link passed) := by
  induction fuel generalizing s passed with
  | zero =>
    have hctoi : ¬ s.mCtoIActive := fun h => by
      have hpos := link_wanted_pos h passed
      omega
    have hstop : s.transferring = false := by simp [transferring, hs.direction.2.2, hctoi]
    rw [Rendezvous.transfer_of_resting hs.address (link_resting (fun h => hctoi h.1) passed)]
    exact ⟨s, by rw [transferLoop, hstop]; rfl, hs, hover, rfl⟩
  | succ fuel ih =>
    by_cases hgo : s.mCtoIActive ∧ s.port.ch.mActive
    · obtain ⟨hctoi, hactive⟩ := hgo
      have hgo : s.transferring := by simp [transferring, hctoi, hactive]
      have hwanted : (s.link passed).wanted = s.remaining := if_pos hctoi
      have hfirst : s.port.ch.mAddress.toNat < mMemSizeInWords := by
        have hlen : 0 < (s.link passed).source.length := by
          rw [link, ChannelPort.source_active hactive (hs.atLimit hactive)]
          exact Nat.succ_pos _
        have hpos := s.remaining_pos
        simpa using hmem 0 (by omega)
      obtain ⟨s₁, w, ws, k, hround, hs₁, hsource, hremaining, haddress, hbuffer, hlink⟩ :=
        transferWord_link hs hctoi hactive hfirst passed
      have hleft : s₁.port.source = ws := congrArg Rendezvous.State.source hlink
      have hwants : (if s₁.mCtoIActive then s₁.remaining else 0) = k :=
        congrArg Rendezvous.State.wanted hlink
      have hpassed : (s₁.link (passed ++ [w])).source = ws ∧
          (s₁.link (passed ++ [w])).wanted = k := ⟨hleft, hwants⟩
      have hone : Rendezvous.transfer 0x4000 (s.link passed) =
          Rendezvous.transfer 0x4000 (Rendezvous.passOne 0x4000 w ws k (s.link passed)) :=
        Rendezvous.transfer_eq hsource (hwanted.trans hremaining)
      rw [← hlink] at hone
      obtain ⟨hover₁, hdec₁⟩ := Decodable.round (hsource ▸ hdec hctoi) hremaining hbuffer hover
        fun hk => by
          by_cases hnext : s₁.mCtoIActive
          · rwa [if_pos hnext] at hwants
          · exact absurd ((if_neg hnext).symm.trans hwants).symm hk
      obtain ⟨s', hrun, hs', hover', hend⟩ := ih hs₁ (passed ++ [w]) (by omega) (by
        rw [haddress, hpassed.1, hpassed.2]
        refine ChannelPort.Readable.next fun i hi => hmem i ?_
        have hlen : (s.link passed).source.length = ws.length + 1 := congrArg List.length hsource
        omega) hover₁ (by
        intro hnext
        rw [hleft]
        refine hdec₁ ?_
        rw [if_pos hnext] at hwants
        have hpos := s₁.remaining_pos
        omega)
      refine ⟨s', ?_, hs', hover', by rw [hone]; exact hend⟩
      rw [transferLoop, if_pos hgo, hround]
      exact hrun
    · have hstop : s.transferring = false := by
        simpa [transferring, hs.direction.2.2] using hgo
      rw [Rendezvous.transfer_of_resting hs.address (link_resting hgo passed)]
      exact ⟨s, by rw [transferLoop, hstop]; rfl, hs, hover, rfl⟩

theorem doTransfer_link (hs : s.Valid) (passed : List CInt)
    (hmem : ChannelPort.Readable mMemSizeInWords s.port.ch.mAddress
      (min (s.link passed).source.length (s.link passed).wanted))
    (hover : s.overread = false) (hdec : s.mCtoIActive → s.Decodable s.port.source) :
    ∃ s', s.doTransfer mMemSizeInWords = .ok s' ∧ s'.Valid ∧ s'.overread = false ∧
      s'.link (Rendezvous.transfer 0x4000 (s.link passed)).passed =
        Rendezvous.transfer 0x4000 (s.link passed) := by
  refine transferLoop_link hs passed ?_ hmem hover hdec
  have hle := remaining_le hs.size
  unfold link
  simp only
  split <;> omega

/-! ## 4. Events -/

/-- What a call asks of giver and taker. -/
def request (s : IopCrayChannel) : Event → Rendezvous.Event CInt
  | .setAddress a => .offer (ChannelPort.bufferWords s.port.mMemory a (s.port.ch.mLimit - a).toNat)
  | .setLimit l =>
    if s.port.ch.mActive then
      .revise (ChannelPort.bufferWords s.port.mMemory s.port.ch.mAddress
        (l - s.port.ch.mAddress).toNat)
    else .idle
  | .clearInterrupt => .acknowledge
  | .clearError => .idle
  | .transferSize aData => .rethink { s with mTransferSize := aData >>> 2 }.remaining
  | .start aData => .want s.remaining (aData >>> 2).toNat

/-- The words that pass are in the memory of the mainframe. -/
def InMemory (mMemSizeInWords : Nat) (s : IopCrayChannel) : Event → Prop
  | .setAddress a => ChannelPort.Readable mMemSizeInWords a
      (min (s.port.ch.mLimit - a).toNat (if s.mCtoIActive then s.remaining else 0))
  | .start _ => ChannelPort.Readable mMemSizeInWords s.port.ch.mAddress
      (min s.port.source.length s.remaining)
  | _ => True

/-- The limit of an active channel is not set to its address. -/
def Apart (s : IopCrayChannel) : Event → Prop
  | .setLimit l => s.port.ch.mActive → l ≠ s.port.ch.mAddress
  | _ => True

/-- An address is set when the last buffer is exhausted. -/
def Waits (s : IopCrayChannel) : Event → Prop
  | .setAddress _ => s.port.ch.mActive = false
  | _ => True

/-- The text of a transfer that the call ends can be made. -/
def Decodes (s : IopCrayChannel) : Event → Prop
  | .setAddress a => s.mCtoIActive →
      s.Decodable (ChannelPort.bufferWords s.port.mMemory a (s.port.ch.mLimit - a).toNat)
  | .start _ => s.Decodable s.port.source
  | _ => True

/-- **The calls that lose nothing.** -/
structure Proper (mMemSizeInWords : Nat) (s : IopCrayChannel) (e : Event) : Prop where
  inMemory : InMemory mMemSizeInWords s e
  apart : Apart s e
  waits : Waits s e
  decodes : Decodes s e

/-- The channel and the two sides agree, and one side rests. -/
structure Follows (s : IopCrayChannel) (l : Rendezvous.State CInt) : Prop where
  valid : s.Valid
  inside : s.overread = false
  resting : Rendezvous.Resting l
  link : s.link l.passed = l

theorem link_setPort (p : ChannelPort) (passed : List CInt) :
    ({ s with port := p } : IopCrayChannel).link passed =
      { s.link passed with source := p.source, giverDone := p.ch.mInterruptPending } := rfl

variable {l : Rendezvous.State CInt}

theorem Follows.of_request {e : Rendezvous.Event CInt} (hs : s.Valid)
    (hinside : s.overread = false) (hlink : s.link l.passed = Rendezvous.request e l)
    (hresting : Rendezvous.Resting (Rendezvous.request e l)) :
    Follows s (Rendezvous.follow 0x4000 e l) := by
  have hnext : (Rendezvous.request e l).next < 0x4000 := by
    rw [← hlink]
    exact hs.address
  have hpassed : (Rendezvous.request e l).passed = l.passed := by
    rw [← hlink]
    rfl
  unfold Rendezvous.follow
  rw [Rendezvous.transfer_of_resting hnext hresting]
  exact ⟨hs, hinside, hresting, by rw [hpassed, hlink]⟩

theorem Follows.of_doTransfer {e : Rendezvous.Event CInt}
    (hs : s.Valid) (hinside : s.overread = false)
    (hlink : s.link l.passed = Rendezvous.request e l)
    (hmem : ChannelPort.Readable mMemSizeInWords s.port.ch.mAddress
      (min (s.link l.passed).source.length (s.link l.passed).wanted))
    (hdec : s.mCtoIActive → s.Decodable s.port.source) :
    ∃ s', s.doTransfer mMemSizeInWords = .ok s' ∧ Follows s' (Rendezvous.follow 0x4000 e l) := by
  obtain ⟨s', hrun, hs', hinside', hend⟩ := doTransfer_link hs l.passed hmem hinside hdec
  rw [hlink] at hend
  exact ⟨s', hrun, hs', hinside', Rendezvous.resting_follow e l, hend⟩

theorem toNat_data (aData : BitVec 16) : (aData >>> 2).toNat < 0x4000 := by
  have hlt := aData.isLt
  rw [BitVec.toNat_ushiftRight, Nat.shiftRight_eq_div_pow]
  omega

/-- The words a buffer offers that is set while it is given. -/
theorem source_setAddress (a : CAddr) :
    ({ s.port with ch := s.port.ch.setAddress a } : ChannelPort).source =
      ChannelPort.bufferWords s.port.mMemory a (s.port.ch.mLimit - a).toNat := by
  unfold ChannelPort.source Channel.setAddress Channel.bufferLeft
  by_cases h : a = s.port.ch.mLimit
  · simp [h, ChannelPort.bufferWords]
  · simp [h]

/-- A limit that is set to an active channel offers the words up to it. -/
theorem setLimit_follows {lim : CAddr} (h : Follows s l) (hapart : Apart s (.setLimit lim)) :
    ∃ s', step mMemSizeInWords (.setLimit lim) s = .ok s' ∧
      Follows s' (Rendezvous.follow 0x4000 (request s (.setLimit lim)) l) := by
  obtain ⟨hs, hinside, hresting, hlink⟩ := h
  have hidle := not_transferring_of_resting hs l.passed (by rwa [hlink])
  cases hactive : s.port.ch.mActive with
  | false =>
    refine ⟨_, rfl, ?_⟩
    rw [request, hactive, if_neg (by simp)]
    refine Follows.of_request ⟨hs.direction, fun h => absurd h ?_, hs.notDone, hs.size,
      hs.address⟩ hinside ?_ hresting
    · simp [Channel.setLimit, hactive]
    · have hnone : s.port.source = [] := by simp [ChannelPort.source, hactive]
      have hstill : ({ s.port with ch := s.port.ch.setLimit lim } : ChannelPort).source = [] := by
        simp [ChannelPort.source, Channel.setLimit, hactive]
      rw [link_setPort, hstill, ← hnone]
      exact hlink
  | true =>
    have hctoi : s.mCtoIActive = false := by simpa [hactive] using hidle
    refine ⟨_, rfl, ?_⟩
    rw [request, hactive, if_pos rfl]
    refine Follows.of_request ⟨hs.direction, fun _ => (hapart hactive).symm, hs.notDone, hs.size,
      hs.address⟩ hinside ?_ (.inr ?_)
    · have hsource : ({ s.port with ch := s.port.ch.setLimit lim } : ChannelPort).source =
          ChannelPort.bufferWords s.port.mMemory s.port.ch.mAddress
            (lim - s.port.ch.mAddress).toNat := if_pos hactive
      rw [link_setPort, hsource, Rendezvous.request, ← hlink]
      rfl
    · rw [← hlink]
      simp [Rendezvous.request, link, hctoi]

/-- The transfer of the buffer that a start asks for. -/
theorem start_follows {aData : BitVec 16} (h : Follows s l)
    (hmem : InMemory mMemSizeInWords s (.start aData)) (hdec : Decodes s (.start aData)) :
    ∃ s', step mMemSizeInWords (.start aData) s = .ok s' ∧
      Follows s' (Rendezvous.follow 0x4000 (request s (.start aData)) l) := by
  obtain ⟨hs, hinside, hresting, hlink⟩ := h
  have hvalid : ({ s with
      mIoMemoryAddr := aData >>> 2, mCtoIActive := true, mItoCActive := false,
      mDone := false } : IopCrayChannel).Valid :=
    ⟨⟨hs.direction.1, hs.direction.2.1, rfl⟩, hs.atLimit, fun _ => rfl, hs.size,
      toNat_data aData⟩
  obtain ⟨s', hrun, hfollows⟩ := Follows.of_doTransfer (l := l) (e := request s (.start aData))
    hvalid hinside (by rw [← hlink]; rfl) hmem fun _ => hdec
  refine ⟨s', ?_, hfollows⟩
  simp only [hs.direction.1, hs.direction.2.1] at hrun
  simp only [step, doIo, hs.direction.1, hs.direction.2.1, if_true, Bool.false_eq_true, if_false]
  rw [hrun]
  rfl

/-- An address offers the words from it; a transfer follows where it makes the channel active. -/
theorem setAddress_follows {a : CAddr} (h : Follows s l)
    (hmem : InMemory mMemSizeInWords s (.setAddress a)) (hdec : Decodes s (.setAddress a)) :
    ∃ s', step mMemSizeInWords (.setAddress a) s = .ok s' ∧
      Follows s' (Rendezvous.follow 0x4000 (request s (.setAddress a)) l) := by
  obtain ⟨hs, hinside, hresting, hlink⟩ := h
  have hidle := not_transferring_of_resting hs l.passed (by rwa [hlink])
  have hsource := source_setAddress (s := s) a
  have hvalid : ∀ rw, ({ s with
      port := { s.port with ch := s.port.ch.setAddress a }
      mReadyWaiting := rw } : IopCrayChannel).Valid := fun rw =>
    ⟨hs.direction, fun h => by simpa [Channel.setAddress] using h, hs.notDone, hs.size,
      hs.address⟩
  have hlinked : ∀ rw, ({ s with
      port := { s.port with ch := s.port.ch.setAddress a }
      mReadyWaiting := rw } : IopCrayChannel).link l.passed =
        Rendezvous.request (request s (.setAddress a)) l := fun rw => by
    rw [request, Rendezvous.request, ← hsource, ← hlink]
    rfl
  by_cases hgo : (s.port.ch.setAddress a).mActive && !s.port.ch.mActive
  · obtain ⟨s', hrun, hfollows⟩ := Follows.of_doTransfer (l := l)
      (e := request s (.setAddress a))
      (hvalid (if !s.mCtoIActive then true else s.mReadyWaiting)) hinside (hlinked _) (by
        have hlen : (ChannelPort.bufferWords s.port.mMemory a
          (s.port.ch.mLimit - a).toNat).length = (s.port.ch.mLimit - a).toNat :=
            ChannelPort.length_bufferWords _ _ _
        rw [link]
        simp only
        rw [hsource, hlen]
        exact hmem) fun hctoi => by
          rw [hsource]
          exact hdec hctoi
    refine ⟨s', ?_, hfollows⟩
    rw [step, setAddress]
    simp only [hgo, if_true]
    rw [← hrun, handleActivation]
    congr 1
    split <;> rfl
  · refine ⟨_, ?_, Follows.of_request (hvalid s.mReadyWaiting) hinside
      (hlinked s.mReadyWaiting) ?_⟩
    · rw [step, setAddress]
      simp only [hgo, Bool.false_eq_true, if_false]
    · rw [← hlinked s.mReadyWaiting]
      apply link_resting
      rintro ⟨hctoi, hactive⟩
      have hnew : (s.port.ch.setAddress a).mActive = true := hactive
      exact hidle ⟨hctoi, by simpa [hnew] using hgo⟩

/-- **One event**: it does not fail, and giver and taker do the same. -/
theorem step_follows {e : Event} (h : Follows s l) (hproper : Proper mMemSizeInWords s e) :
    ∃ s', step mMemSizeInWords e s = .ok s' ∧
      Follows s' (Rendezvous.follow 0x4000 (request s e) l) := by
  have hfollows := h
  obtain ⟨hs, hinside, hresting, hlink⟩ := h
  cases e with
  | clearInterrupt =>
    refine ⟨_, rfl, Follows.of_request ⟨hs.direction, hs.atLimit, hs.notDone, hs.size, hs.address⟩
      hinside ?_ hresting⟩
    rw [← hlink]
    rfl
  | clearError =>
    refine ⟨_, rfl, Follows.of_request ⟨hs.direction, hs.atLimit, hs.notDone, hs.size, hs.address⟩
      hinside ?_ hresting⟩
    rw [← hlink]
    rfl
  | setLimit lim => exact setLimit_follows hfollows hproper.apart
  | transferSize aData =>
    refine ⟨_, rfl, Follows.of_request ⟨hs.direction, hs.atLimit, hs.notDone, toNat_data aData,
      hs.address⟩ hinside ?_ ?_⟩
    · rw [← hlink, request, Rendezvous.request]
      cases hctoi : s.mCtoIActive with
      | false => simp [link, hctoi]
      | true =>
        rw [if_neg (Nat.ne_of_gt (link_wanted_pos hctoi _))]
        simp [link, hctoi]
    · rw [request, Rendezvous.request]
      split
      · exact hresting
      · rename_i hwanted
        exact .inl (hresting.resolve_right hwanted)
  | start aData => exact start_follows hfollows hproper.inMemory hproper.decodes
  | setAddress a => exact setAddress_follows hfollows hproper.inMemory hproper.decodes

/-- Another list comes when the last one is exhausted. -/
theorem source_of_offer {e : Event} (h : Follows s l)
    (hwaits : Waits s e) (ws : List CInt) (hoffer : request s e = .offer ws) : l.source = [] := by
  have hsource : l.source = s.port.source := (congrArg Rendezvous.State.source h.link).symm
  cases e with
  | setAddress a =>
    have hidle : s.port.ch.mActive = false := hwaits
    rw [hsource, ChannelPort.source, hidle, if_neg (by decide)]
  | setLimit lim =>
    rw [request] at hoffer
    split at hoffer <;> cases hoffer
  | clearInterrupt | clearError | transferSize aData | start aData => cases hoffer

end cToI

/-! ## 5. Runs -/

/-- The state of a channel that both sides cleared. -/
structure Cleared (s : IopCrayChannel) : Prop where
  direction : s.mAllowCtoI = true ∧ s.mAllowItoC = false
  mainframe : s.port.ch.mActive = false
  iop : s.mCtoIActive = false ∧ s.mItoCActive = false
  counters : s.mTransferSize = 0 ∧ s.mIoMemoryAddr = 0
  inside : s.overread = false

theorem Cleared.follows {s : IopCrayChannel} (h : Cleared s) : Follows s (s.link []) where
  valid :=
    { direction := ⟨h.direction.1, h.direction.2, h.iop.2⟩
      atLimit := fun ha => absurd ha (by simp [h.mainframe])
      notDone := fun hc => absurd hc (by simp [h.iop.1])
      size := by simp [h.counters.1]
      address := by simp [h.counters.2] }
  inside := h.inside
  resting := link_resting (fun hboth => absurd hboth.1 (by simp [h.iop.1])) []
  link := rfl

/-- The channel and the two sides agree, and no word is lost. -/
structure Conserves (s : IopCrayChannel) (l : Rendezvous.State CInt × List CInt) : Prop where
  follows : Follows s l.1
  words : l.1.passed ++ l.1.source = l.2

/-- Giver and taker behind the events, with the words of all buffers. -/
def followedWith (mMemSizeInWords : Nat) (es : List Event) (s : IopCrayChannel) :
    Rendezvous.State CInt × List CInt :=
  (trace (step mMemSizeInWords) request es s).foldl
    (fun l e => Rendezvous.followGiving 0x4000 e l) (s.link [], [])

/-- What giver and taker have done behind the events. -/
def followed (mMemSizeInWords : Nat) (es : List Event) (s : IopCrayChannel) :
    Rendezvous.State CInt :=
  (followedWith mMemSizeInWords es s).1

/-- The words of the buffers, one after the other; a limit that is set to an active channel is the
    end of its buffer. -/
def given (mMemSizeInWords : Nat) (es : List Event) (s : IopCrayChannel) : List CInt :=
  (followedWith mMemSizeInWords es s).2

/-- **From the mainframe to the IOP**: as long as every buffer comes behind the end of the last one,
    no limit is set to the address of an active channel, and the text of every transfer can be
    made, no call fails and the channel does what giver and taker do. The sides are never both left
    active. The words that passed and are left are those of the buffers, in order. -/
theorem cToI_follows (mMemSizeInWords : Nat) (es : List Event) (s : IopCrayChannel)
    (hs : Cleared s) (h : Along (step mMemSizeInWords) (Proper mMemSizeInWords) es s) :
    ∃ s', run (step mMemSizeInWords) es s = .ok s' ∧
      s'.link (followed mMemSizeInWords es s).passed = followed mMemSizeInWords es s ∧
      ¬ ((s'.mCtoIActive ∨ s'.mItoCActive) ∧ s'.port.ch.mActive) ∧
      (followed mMemSizeInWords es s).passed ++ s'.port.source = given mMemSizeInWords es s ∧
      s'.overread = false := by
  have hnone : (s.link []).source = [] := by simp [link, ChannelPort.source, hs.mainframe]
  obtain ⟨s', hrun, hfollows, hgiven⟩ : ∃ s', run (step mMemSizeInWords) es s = .ok s' ∧
      Conserves s' (followedWith mMemSizeInWords es s) := by
    refine EventRun.run_simulates (fun s l e hR hproper => ?_) ⟨hs.follows, hnone⟩ h
    obtain ⟨s₁, hone, hfollows⟩ := step_follows hR.follows hproper
    exact ⟨s₁, hone, hfollows, Rendezvous.follow_conserves
      (source_of_offer hR.follows hproper.waits) hR.words⟩
  have hlink : s'.link (followed mMemSizeInWords es s).passed = followed mMemSizeInWords es s :=
    hfollows.link
  refine ⟨s', hrun, hlink, ?_, ?_, hfollows.inside⟩
  · intro hboth
    obtain ⟨hiop, hactive⟩ := hboth
    have hitoc := hfollows.valid.direction.2.2
    have hrest := not_transferring_of_resting hfollows.valid
      (followed mMemSizeInWords es s).passed (by
        rw [hlink]
        exact hfollows.resting)
    exact hrest ⟨by simpa [hitoc] using hiop, hactive⟩
  · have hsource : s'.port.source = (followed mMemSizeInWords es s).source :=
      congrArg Rendezvous.State.source hlink
    rw [hsource]
    exact hgiven

/-- A cleared channel from the mainframe, in front of cleared memories. -/
def cleared : IopCrayChannel :=
  { port := { ch := ⟨0, 0, false, false, false, 0⟩, mMemory := fun _ => 0 }
    ioMemory := fun _ => 0, mIoMemoryAddr := 0, mTransferSize := 0, mAllowItoC := false
    mAllowCtoI := true, mDone := false, mItoCActive := false, mCtoIActive := false
    mInterruptEnabled := true, mHoldDisconnect := false, mReadyWaiting := false
    mIoMasterClear := false, mMsgBuffer := [], overread := false }

/-- A buffer of one word, a transfer of two, and a buffer of two words. -/
def twoForOne : List Event :=
  [.setLimit 1, .setAddress 0, .transferSize 8, .start 0, .setLimit 3, .setAddress 1]

theorem proper_twoForOne : Along (step 8) (Proper 8) twoForOne cleared :=
  .cons ⟨trivial, nofun, trivial, trivial⟩ rfl <|
    .cons ⟨fun i hi => absurd hi (by simp [cleared]), trivial, rfl, nofun⟩ rfl <|
    .cons ⟨trivial, trivial, trivial, trivial⟩ rfl <|
    .cons ⟨(by decide : ∀ i < 1, ((0 : CAddr) + BitVec.ofNat 32 i).toNat < 8), trivial, trivial,
      fun _ => rfl⟩ rfl <|
    .cons ⟨trivial, nofun, trivial, trivial⟩ rfl
      ⟨⟨(by decide : ∀ i < 1, ((1 : CAddr) + BitVec.ofNat 32 i).toNat < 8), trivial, rfl,
        fun _ _ => rfl⟩, fun _ _ => trivial⟩

theorem cToI_twoForOne : ∃ s', run (step 8) twoForOne cleared = .ok s' ∧
    s'.link (followed 8 twoForOne cleared).passed = followed 8 twoForOne cleared ∧
    ¬ ((s'.mCtoIActive ∨ s'.mItoCActive) ∧ s'.port.ch.mActive) ∧
    (followed 8 twoForOne cleared).passed ++ s'.port.source = given 8 twoForOne cleared ∧
    s'.overread = false :=
  cToI_follows 8 twoForOne cleared ⟨⟨rfl, rfl⟩, rfl, ⟨rfl, rfl⟩, ⟨rfl, rfl⟩, rfl⟩ proper_twoForOne

/-- The mainframe gives a buffer and takes it back by its limit; then the IOP starts. -/
def takenBack : List Event :=
  [.setLimit 1, .setAddress 0, .setLimit 0, .transferSize 4, .start 0]

theorem run_takenBack : run (step 8) takenBack cleared = .error .assertion := rfl

theorem not_cToI_takenBack : ¬ ∀ (mMemSizeInWords : Nat) (es : List Event) (s : IopCrayChannel),
    Cleared s → Along (step mMemSizeInWords) (InMemory mMemSizeInWords) es s →
      ∃ s', run (step mMemSizeInWords) es s = .ok s' := by
  intro h
  have hmem : Along (step 8) (InMemory 8) takenBack cleared :=
    .cons trivial rfl <| .cons (fun i hi => absurd hi (by simp [cleared])) rfl <|
      .cons trivial rfl <| .cons trivial rfl
        ⟨(by decide : ∀ i < 0, ((0 : CAddr) + BitVec.ofNat 32 i).toNat < 8), fun _ _ => trivial⟩
  obtain ⟨s', hrun⟩ := h 8 takenBack cleared
    ⟨⟨rfl, rfl⟩, rfl, ⟨rfl, rfl⟩, ⟨rfl, rfl⟩, rfl⟩ hmem
  rw [run_takenBack] at hrun
  exact absurd hrun (by simp)

end IopCrayChannel

end CraySim
