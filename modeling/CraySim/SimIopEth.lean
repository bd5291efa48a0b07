/-
  Subject:   The Ethernet interface of a simulated IOP.

  Frames go through two rings in the memory of the mainframe. A ring is a header of three words, the
  read index, the write index and the size, and entries of 192 words. An entry is a header word with
  the length of the frame, two bytes of padding and the frame. Both methods read a header, log parts
  of the memory, write an index and send a packet.

  * `EthDevices`, `EthRun` -- the interface with the memory, and its methods,
  * `handleTxPacket`, `txLoop`, `handleTxPackets` -- frames from the output ring to the adapter,
  * `handleRxPacket` -- a frame from the adapter to the input ring,
  * `Readable`, `Dumpable` -- reads that the memory has,
  * `sendSleep_ok` -- the packet to the mainframe is always sent.

  The source reads and writes the memory while it goes; `written` keeps the subscripts of what it
  wrote. The loop over the output ring need not end, so it gets `fuel`. Statistics are left out.
-/
import CraySim.ChannelPort
import CraySim.IopEPacket
import CraySim.Lib.Program

namespace CraySim

open ChannelPort (word)
open SysRun (memIndex memWrite)

/-! ## 1. The interface -/

/-- `IopRevision_e`. -/
inductive IopRevision where
  | IOSD
  | IOSE
  deriving DecidableEq, Repr

/-- `Packet_c`, a frame. -/
abbrev EthFrame := List (BitVec 8)

/-- `SimIopEth_c` with what it works on. The capture thread is there if the adapter could be opened;
    it has the frames that were received. -/
structure EthDevices where
  mIopRevision : IopRevision
  mChannelId : CInt
  mSimMacAddr : CInt
  CpInQAddr : CAddr
  CpOutQAddr : CAddr
  mBufferPtr : CAddr
  mDevStruct : CAddr
  mPacketCaptureThread : Option (List EthFrame)
  /-- What `write` to the open adapter returns for a frame behind others, or `errno`. -/
  mAdapter : List EthFrame → EthFrame → Except Nat (BitVec 32)
  mMemory : Nat → BitVec 8
  /-- The frames that the adapter has taken. -/
  transmitted : List EthFrame
  /-- The packets that were queued for the mainframe. -/
  sent : List (List CInt)
  /-- The subscripts of the bytes that were written. -/
  written : List Nat

abbrev EthCluster := SimIopCluster EthDevices

abbrev EthRun := Run Exn EthCluster

namespace SimIopEth

def cEtherPacketSize : Nat := 1536

variable (M : MemorySize)

/-! ## 2. Memory -/

/-- `MemReadNoWatchpoint<CInt_t>`, with the bytes swapped. -/
def memReadWord (aAddr : CAddr) : EthRun CInt := fun c =>
  if M.words ≤ aAddr.toNat then (.error .dataReadOutOfBoundsError, c)
  else (.ok (word c.devices.mMemory aAddr), c)

/-- `MemReadNoWatchpointByType<uint8_t>`. -/
def memReadByte (aAddr : CAddr) : EthRun (BitVec 8) := fun c =>
  if 8 * M.words ≤ aAddr.toNat then (.error .dataReadOutOfBoundsError, c)
  else (.ok (c.devices.mMemory aAddr.toNat), c)

/-- `MemWrite` of a word with the bytes swapped; the subscript is not checked. -/
def memWriteWord (aAddr : CAddr) (aVal : CInt) : EthRun Unit := fun c =>
  let idx := memIndex aAddr.toNat
  if 8 * M.words ≤ idx then (.error .undefinedBehaviour, c)
  else (.ok (), { c with devices := { c.devices with
    mMemory := memWrite c.devices.mMemory aAddr.toNat aVal
    written := c.devices.written ++ (List.range 8).map (idx + ·) } })

/-- `MemWrite` of a byte. -/
def memWriteByte (aAddr : CAddr) (aVal : BitVec 8) : EthRun Unit := fun c =>
  if 8 * M.words ≤ aAddr.toNat then (.error .undefinedBehaviour, c)
  else (.ok (), { c with devices := { c.devices with
    mMemory := ByteStore.update c.devices.mMemory aAddr.toNat aVal
    written := c.devices.written ++ [aAddr.toNat] } })

/-- `DumpMem`, which reads `n` words whether the log is on or not. -/
def dumpWords : Nat → CAddr → EthRun Unit
  | 0, _ => pure ()
  | n + 1, aAddr => do
    let _ ← memReadWord M aAddr
    dumpWords n (aAddr + 1)

/-- `DumpMem`. The memory ends long before the address could run over. -/
def dumpMem (aBuffer aLength : CAddr) : EthRun Unit :=
  dumpWords M ((aBuffer + aLength).toNat - aBuffer.toNat) aBuffer

def dumpQueues : EthRun Unit := do
  let c ← Run.get
  dumpMem M c.devices.CpInQAddr 3
  dumpMem M c.devices.CpOutQAddr 3

/-- Some bytes in a row. -/
def readBytes : Nat → CAddr → EthRun EthFrame
  | 0, _ => pure []
  | n + 1, aAddr => do
    let b ← memReadByte M aAddr
    let bs ← readBytes n (aAddr + 1)
    return b :: bs

def writeBytes : EthFrame → CAddr → EthRun Unit
  | [], _ => pure ()
  | b :: bs, aAddr => do
    memWriteByte M aAddr b
    writeBytes bs (aAddr + 1)

/-! ## 3. Rings -/

/-- The header of a ring; the other half of the third word is not used. -/
structure RingHeader where
  rdIdx : CInt
  wrIdx : CInt
  size : BitVec 32

def readHeader (aQueue : CAddr) : EthRun RingHeader := do
  let rdIdx ← memReadWord M aQueue
  let wrIdx ← memReadWord M (aQueue + 1)
  let contSize ← memReadWord M (aQueue + 2)
  return ⟨rdIdx, wrIdx, (getBits contSize 0 31).setWidth 32⟩

/-- The first word of an entry. -/
def entryBase (aQueue : CAddr) (aQueueIdx : CInt) : CAddr :=
  ((aQueue + 3).setWidth 64 + aQueueIdx * BitVec.ofNat 64 cEtherPacketSize / 8).setWidth 32

/-- `(Idx + 1) % Size`, where the size is not 0. -/
def nextIdx (aSize : BitVec 32) (aIdx : CInt) : CInt := (aIdx + 1) % aSize.setWidth 64

/-! ## 4. Packets to the mainframe -/

/-- `GenerateResponse`, without a request. -/
def generateResponse (c : EthCluster) : IopEPacket :=
  (((IopEPacket.setSize ⟨0, []⟩ 0).setAckSeq c.mSeqReceived).setSeq c.mSeqSent).setFlags
    IopEPacket.cFlagAck

/-- `SetBitsInPlace(Response.Data(aIdx), ...)`. -/
def setField (r : IopEPacket) (f : Nat × Nat × Nat × CInt) : Except Exn IopEPacket := do
  r.setData f.1 (setBits (← r.data f.1) f.2.1 f.2.2.1 f.2.2.2)

/-- The fields of the response. -/
def responseFields (d : EthDevices) (aReqType aCurIndex : CInt) :
    List (Nat × Nat × Nat × CInt) :=
  let (destId, sourceId) : CInt × CInt := match d.mIopRevision with
    | .IOSE => (0x4331, 0x004d)
    | .IOSD => (0x004d, 0x4331)
  [(0, 56, 63, BitVec.ofNat 64 'm'.toNat), (1, 48, 63, destId), (1, 32, 47, sourceId),
    (1, 22, 24, 0xff), (1, 16, 21, d.mChannelId), (1, 8, 15, 5), (1, 7, 7, 0), (1, 0, 6, 0),
    (2, 32, 63, d.mBufferPtr.setWidth 64), (2, 0, 31, d.mDevStruct.setWidth 64),
    (3, 32, 63, aReqType), (3, 0, 31, aCurIndex)]

def sendPacket (aPacket : IopEPacket) (c : EthCluster) : Except Exn EthCluster :=
  let queue := fun (c : EthCluster) (p : List CInt) =>
    { c with devices := { c.devices with sent := c.devices.sent ++ [p] } }
  match c.devices.mIopRevision with
  | .IOSE =>
    let packet := ((aPacket.setAckSeq c.mSeqReceived).setSeq c.mSeqSent).finalize
    .ok (queue { c with mSeqSent := c.mSeqSent + 1 } packet.mPacket)
  | .IOSD =>
    if aPacket.getLength ≠ 8 then .error .assertion
    else do
      let words ← (List.range 6).mapM fun idx => aPacket.data (idx + 1)
      return queue c (reversePacket words)

/-- `SleepRqType_e`. -/
def SLEEP_OUTPUT : CInt := 1
def WAKEUP_INPUT : CInt := 2

/-- The packet behind a transfer. -/
def sendSleep (aReqType aCurIndex : CInt) : EthRun Unit := fun c =>
  let response := (responseFields c.devices aReqType aCurIndex).foldlM setField
    ((generateResponse c).setSize 7)
  match response.bind fun r => sendPacket r c with
  | .ok c' => (.ok (), c')
  | .error e => (.error e, c)

/-! ## 5. Output -/

/-- The frame with the own address for its source. -/
def patchSrcMac (mSimMacAddr : CInt) (aFrame : EthFrame) : EthFrame :=
  aFrame.take 6 ++
    (List.range 6).map (fun i => (getBits mSimMacAddr ((5 - i) * 8) ((5 - i) * 8 + 7)).setWidth 8) ++
    aFrame.drop 12

/-- `Send` of the adapter. -/
def send (d : EthDevices) (aPacket : EthFrame) : Except Exn Unit :=
  match d.mAdapter d.transmitted aPacket with
  | .error errno => .error (.generic "Error writing to TAP device with error code: " errno)
  | .ok retVal =>
    if retVal ≠ BitVec.ofNat 32 aPacket.length then
      .error (.genericText "Incomplete packet write to TAP device")
    else .ok ()

def sendEthPacket (aFrame : EthFrame) : EthRun Unit := fun c =>
  match send c.devices aFrame with
  | .error e => (.error e, c)
  | .ok () => (.ok (), { c with devices := { c.devices with
      transmitted := c.devices.transmitted ++ [aFrame] } })

/-- The length in the header of an entry. -/
def payloadSize (aEntryHead : CInt) : BitVec 32 := (getBits aEntryHead 0 31).setWidth 32

/-- The first byte of the frame of an entry. -/
def payloadAddr (aBase : CAddr) : CAddr := (aBase + 1) * 8 + 2

def handleTxPacket (aQueueIdx : CInt) : EthRun Unit := do
  let d := (← Run.get).devices
  match d.mPacketCaptureThread with
  | none => pure ()
  | some _ =>
    let base := entryBase d.CpOutQAddr aQueueIdx
    let head ← memReadWord M base
    let size := payloadSize head
    dumpMem M (base + 1) ((size + 9) / 8)
    let frame ← readBytes M size.toNat (payloadAddr base)
    -- the source address is bytes 6 to 11 of the frame, whether it has them or not
    if frame.length < 12 then Run.throw .undefinedBehaviour
    else sendEthPacket (patchSrcMac d.mSimMacAddr frame)

/-- The loop of `HandleTxPackets`; nothing, where it does not end in `fuel` rounds. -/
def txLoop (aSize : BitVec 32) (aWrIdx : CInt) :
    Nat → CInt → EthCluster → Option (Except Exn Unit × EthCluster)
  | 0, _, _ => none
  | fuel + 1, idx, c =>
    if idx = aWrIdx then some (.ok (), c)
    else match handleTxPacket M idx c with
      | (.error e, c) => some (.error e, c)
      | (.ok (), c) =>
        if aSize = 0 then some (.error .undefinedBehaviour, c)
        else txLoop aSize aWrIdx fuel (nextIdx aSize idx) c

/-- What `HandleTxPackets` does behind the loop. -/
def finishTx (h : RingHeader) : EthRun Unit := do
  memWriteWord M (← Run.get).devices.CpOutQAddr h.wrIdx
  if h.rdIdx ≠ h.wrIdx then
    sendSleep SLEEP_OUTPUT h.rdIdx
    dumpQueues M

def handleTxPackets (fuel : Nat) (c : EthCluster) : Option (Except Exn Unit × EthCluster) :=
  match readHeader M c.devices.CpOutQAddr c with
  | (.error e, c) => some (.error e, c)
  | (.ok h, c) =>
    (txLoop M h.size h.wrIdx fuel h.rdIdx c).map fun r =>
      match r with
      | (.error e, c) => (.error e, c)
      | (.ok (), c) => finishTx M h c

/-! ## 6. Input -/

/-- The part of `HandleRxPacket` that puts a frame into an entry. -/
def storeFrame (aBase : CAddr) (aPacket : EthFrame) : EthRun Unit := do
  memWriteWord M aBase (BitVec.ofNat 64 aPacket.length)
  memWriteByte M ((aBase + 1) * 8) 0
  memWriteByte M ((aBase + 1) * 8 + 1) 0
  writeBytes M aPacket (payloadAddr aBase)

/-- The part of `HandleRxPacket` behind that. -/
def finishRx (aBase : CAddr) (aPacket : EthFrame) (aNextWrIdx : CInt) : EthRun Unit := do
  dumpMem M (aBase + 1) (BitVec.ofNat 32 ((aPacket.length + 9) / 8))
  memWriteWord M ((← Run.get).devices.CpInQAddr + 1) aNextWrIdx
  sendSleep WAKEUP_INPUT aNextWrIdx
  dumpQueues M

/-- The queue of the capture thread. -/
def setQueue (aQueue : List EthFrame) : EthRun Unit :=
  Run.modify fun c => { c with devices := { c.devices with mPacketCaptureThread := some aQueue } }

/-- The part of `HandleRxPacket` behind the tests of queue and ring. -/
def takeFrame (aBase : CAddr) (aPacket : EthFrame) (aRest : List EthFrame) (aNextWrIdx : CInt) :
    EthRun Unit := do
  setQueue aRest
  if aPacket.length ≤ cEtherPacketSize then
    storeFrame M aBase aPacket
    finishRx M aBase aPacket aNextWrIdx

def handleRxPacket : EthRun Unit := do
  let d := (← Run.get).devices
  match d.mPacketCaptureThread with
  | none => pure ()
  | some queue =>
    let h ← readHeader M d.CpInQAddr
    if h.size = 0 then Run.throw .undefinedBehaviour
    else
      let base := entryBase d.CpInQAddr h.wrIdx
      let next := nextIdx h.size h.wrIdx
      match queue with
      | [] => pure ()
      | packet :: rest =>
        if next = h.rdIdx then pure ()
        else takeFrame M base packet rest next

variable {M : MemorySize} {c c' : EthCluster} {a : CAddr}

/-! ## 7. Reads -/

theorem memReadWord_iff {w : CInt} :
    memReadWord M a c = (.ok w, c') ↔
      a.toNat < M.words ∧ w = word c.devices.mMemory a ∧ c' = c := by
  rw [memReadWord]
  split
  · rename_i h
    constructor
    · rintro ⟨⟩
    · exact fun hr => absurd hr.1 (Nat.not_lt.mpr h)
  · rename_i h
    constructor
    · rintro ⟨⟩
      exact ⟨Nat.lt_of_not_le h, rfl, rfl⟩
    · rintro ⟨-, rfl, rfl⟩
      rfl

theorem memReadByte_iff {b : BitVec 8} :
    memReadByte M a c = (.ok b, c') ↔
      a.toNat < 8 * M.words ∧ b = c.devices.mMemory a.toNat ∧ c' = c := by
  rw [memReadByte]
  split
  · rename_i h
    constructor
    · rintro ⟨⟩
    · exact fun hr => absurd hr.1 (Nat.not_lt.mpr h)
  · rename_i h
    constructor
    · rintro ⟨⟩
      exact ⟨Nat.lt_of_not_le h, rfl, rfl⟩
    · rintro ⟨-, rfl, rfl⟩
      rfl

theorem add_ofNat_zero (a : CAddr) : a + BitVec.ofNat 32 0 = a := BitVec.add_zero a

theorem forall_lt_succ {P : CAddr → Prop} (a : CAddr) (n : Nat) :
    (∀ i < n + 1, P (a + BitVec.ofNat 32 i)) ↔
      P a ∧ ∀ i < n, P (a + 1 + BitVec.ofNat 32 i) := by
  constructor
  · intro h
    refine ⟨?_, fun i hi => ?_⟩
    · have h0 := h 0 (Nat.succ_pos n)
      rwa [add_ofNat_zero] at h0
    · rw [← WordField.add_ofNat_succ]
      exact h (i + 1) (Nat.succ_lt_succ hi)
  · rintro ⟨h0, hrest⟩ i hi
    cases i with
    | zero => rwa [add_ofNat_zero]
    | succ i =>
      rw [WordField.add_ofNat_succ]
      exact hrest i (Nat.lt_of_succ_lt_succ hi)

/-- The words from `a` on are in memory. -/
def Readable (M : MemorySize) (a : CAddr) (n : Nat) : Prop :=
  ∀ i < n, (a + BitVec.ofNat 32 i).toNat < M.words

/-- The bytes from `a` on are in memory. -/
def ReadableBytes (M : MemorySize) (a : CAddr) (n : Nat) : Prop :=
  ∀ i < n, (a + BitVec.ofNat 32 i).toNat < 8 * M.words

/-- `DumpMem` can read what it logs. -/
def Dumpable (M : MemorySize) (aBuffer aLength : CAddr) : Prop :=
  Readable M aBuffer ((aBuffer + aLength).toNat - aBuffer.toNat)

theorem dumpWords_iff {n : Nat} :
    dumpWords M n a c = (.ok (), c') ↔ Readable M a n ∧ c' = c := by
  induction n generalizing a c with
  | zero =>
    constructor
    · rintro ⟨⟩
      exact ⟨fun i hi => absurd hi (Nat.not_lt_zero i), rfl⟩
    · rintro ⟨-, rfl⟩
      rfl
  | succ n ih =>
    rw [dumpWords, Run.bind_ok_iff, Readable, forall_lt_succ (P := fun a => a.toNat < M.words)]
    constructor
    · rintro ⟨w, c₁, hread, hrest⟩
      obtain ⟨hlt, -, rfl⟩ := memReadWord_iff.mp hread
      obtain ⟨hall, rfl⟩ := ih.mp hrest
      exact ⟨⟨hlt, hall⟩, rfl⟩
    · rintro ⟨⟨hlt, hall⟩, rfl⟩
      exact ⟨_, c', memReadWord_iff.mpr ⟨hlt, rfl, rfl⟩, ih.mpr ⟨hall, rfl⟩⟩

theorem dumpMem_iff {n : CAddr} :
    dumpMem M a n c = (.ok (), c') ↔ Dumpable M a n ∧ c' = c := dumpWords_iff

/-- Some bytes of the memory. -/
def bytesAt (mem : Nat → BitVec 8) : Nat → CAddr → EthFrame
  | 0, _ => []
  | n + 1, a => mem a.toNat :: bytesAt mem n (a + 1)

theorem length_bytesAt (mem : Nat → BitVec 8) (n : Nat) (a : CAddr) :
    (bytesAt mem n a).length = n := by
  induction n generalizing a with
  | zero => rfl
  | succ n ih => rw [bytesAt, List.length_cons, ih]

theorem readBytes_iff {n : Nat} {bs : EthFrame} :
    readBytes M n a c = (.ok bs, c') ↔
      ReadableBytes M a n ∧ bs = bytesAt c.devices.mMemory n a ∧ c' = c := by
  induction n generalizing a c bs c' with
  | zero =>
    constructor
    · rintro ⟨⟩
      exact ⟨fun i hi => absurd hi (Nat.not_lt_zero i), rfl, rfl⟩
    · rintro ⟨-, rfl, rfl⟩
      rfl
  | succ n ih =>
    rw [readBytes, Run.bind_ok_iff, ReadableBytes,
      forall_lt_succ (P := fun a => a.toNat < 8 * M.words)]
    constructor
    · rintro ⟨b, c₁, hread, hrest⟩
      obtain ⟨hlt, rfl, rfl⟩ := memReadByte_iff.mp hread
      obtain ⟨bs', c₂, htail, hlist⟩ := Run.bind_eq_ok hrest
      obtain ⟨hall, rfl, rfl⟩ := ih.mp htail
      cases hlist
      exact ⟨⟨hlt, hall⟩, rfl, rfl⟩
    · rintro ⟨⟨hlt, hall⟩, rfl, rfl⟩
      refine ⟨_, c', memReadByte_iff.mpr ⟨hlt, rfl, rfl⟩, ?_⟩
      rw [Run.bind_apply_ok (ih.mpr ⟨hall, rfl, rfl⟩)]
      rfl

/-- The header of a ring. -/
def headerOf (d : EthDevices) (aQueue : CAddr) : RingHeader :=
  ⟨word d.mMemory aQueue, word d.mMemory (aQueue + 1),
    (getBits (word d.mMemory (aQueue + 2)) 0 31).setWidth 32⟩

theorem readHeader_iff {h : RingHeader} :
    readHeader M a c = (.ok h, c') ↔
      Readable M a 3 ∧ h = headerOf c.devices a ∧ c' = c := by
  have hall : Readable M a 3 ↔
      a.toNat < M.words ∧ (a + 1).toNat < M.words ∧ (a + 2).toNat < M.words := by
    constructor
    · intro hr
      have h0 := hr 0 (by decide)
      rw [add_ofNat_zero] at h0
      exact ⟨h0, hr 1 (by decide), hr 2 (by decide)⟩
    · rintro ⟨h0, h1, h2⟩ i hi
      match i, hi with
      | 0, _ => rwa [add_ofNat_zero]
      | 1, _ => exact h1
      | 2, _ => exact h2
  rw [readHeader, Run.bind_ok_iff, hall]
  constructor
  · rintro ⟨rd, c₁, hrd, hrest⟩
    obtain ⟨wr, c₂, hwr, hrest⟩ := Run.bind_eq_ok hrest
    obtain ⟨size, c₃, hsize, hrest⟩ := Run.bind_eq_ok hrest
    obtain ⟨h0, rfl, rfl⟩ := memReadWord_iff.mp hrd
    obtain ⟨h1, rfl, rfl⟩ := memReadWord_iff.mp hwr
    obtain ⟨h2, rfl, rfl⟩ := memReadWord_iff.mp hsize
    cases hrest
    exact ⟨⟨h0, h1, h2⟩, rfl, rfl⟩
  · rintro ⟨⟨h0, h1, h2⟩, rfl, rfl⟩
    refine ⟨_, c', memReadWord_iff.mpr ⟨h0, rfl, rfl⟩, ?_⟩
    rw [Run.bind_apply_ok (memReadWord_iff.mpr ⟨h1, rfl, rfl⟩),
      Run.bind_apply_ok (memReadWord_iff.mpr ⟨h2, rfl, rfl⟩)]
    rfl

/-! ## 8. The packet to the mainframe -/

theorem setField_ok {r : IopEPacket} {f : Nat × Nat × Nat × CInt} (h : f.1 < r.payload.length) :
    ∃ r', setField r f = .ok r' ∧ r'.header = r.header ∧ r'.payload.length = r.payload.length := by
  let w := setBits r.payload[f.1] f.2.1 f.2.2.1 f.2.2.2
  refine ⟨{ r with payload := r.payload.set f.1 w }, ?_, rfl, List.length_set⟩
  have hdata : r.data f.1 = .ok r.payload[f.1] := by
    rw [IopEPacket.data, List.getElem?_eq_getElem h]
  rw [setField, hdata]
  show r.setData f.1 _ = _
  rw [IopEPacket.setData, if_pos h]

theorem setFields_ok {fs : List (Nat × Nat × Nat × CInt)} {r : IopEPacket}
    (h : ∀ f ∈ fs, f.1 < r.payload.length) :
    ∃ r', fs.foldlM setField r = .ok r' ∧ r'.header = r.header ∧
      r'.payload.length = r.payload.length := by
  induction fs generalizing r with
  | nil => exact ⟨r, rfl, rfl, rfl⟩
  | cons f fs ih =>
    obtain ⟨r₁, hset, hheader, hlen⟩ := setField_ok (h f List.mem_cons_self)
    obtain ⟨r', hrest, hheader', hlen'⟩ := ih (r := r₁) fun g hg =>
      hlen ▸ h g (List.mem_cons_of_mem _ hg)
    refine ⟨r', ?_, hheader'.trans hheader, hlen'.trans hlen⟩
    rw [List.foldlM_cons, hset]
    exact hrest

/-- The packet has the length that `SendPacket` asks for. -/
theorem getLength_response (c : EthCluster) : ((generateResponse c).setSize 7).getLength = 8 := by
  show (getBits (setBits _ 48 57 _) 48 57).setWidth 16 = 8
  rw [getBits_eq_get, setBits_eq_put, WordField.get_put _ _ _ _ (by decide)]
  rfl

theorem sendPacket_ok (c : EthCluster) {r : IopEPacket} (hlen : r.getLength = 8)
    (hdata : r.payload.length = 7) :
    ∃ c' p, sendPacket r c = .ok c' ∧ c'.devices = { c.devices with sent := c.devices.sent ++ [p] } := by
  rw [sendPacket]
  split
  · exact ⟨_, _, rfl, rfl⟩
  · rw [if_neg (not_not.mpr hlen)]
    obtain ⟨header, payload⟩ := r
    match payload, hdata with
    | [_, _, _, _, _, _, _], _ => exact ⟨_, _, rfl, rfl⟩

/-- **The packet is always sent**; it changes nothing but the queue of the mainframe. -/
theorem sendSleep_ok (aReqType aCurIndex : CInt) (c : EthCluster) :
    ∃ c' p, sendSleep aReqType aCurIndex c = (.ok (), c') ∧
      c'.devices = { c.devices with sent := c.devices.sent ++ [p] } := by
  have hlen : ((generateResponse c).setSize 7).payload.length = 7 := rfl
  have hfields : ∀ f ∈ responseFields c.devices aReqType aCurIndex,
      f.1 < ((generateResponse c).setSize 7).payload.length := by
    rw [hlen, responseFields]
    cases c.devices.mIopRevision <;> simp
  obtain ⟨r, hset, hheader, hr⟩ := setFields_ok hfields
  have hlength : r.getLength = 8 := by
    rw [← getLength_response c, IopEPacket.getLength, IopEPacket.getLength, hheader]
  obtain ⟨c', p, hsend, hdevices⟩ := sendPacket_ok c hlength (hr.trans hlen)
  refine ⟨c', p, ?_, hdevices⟩
  rw [sendSleep, hset]
  simp only [Except.bind, hsend]

/-! ## 9. Writing a word and the log -/

/-- A word that was written, with the subscripts of its bytes. -/
def wrote (c : EthCluster) (a : CAddr) (w : CInt) : EthCluster :=
  { c with devices := { c.devices with
    mMemory := memWrite c.devices.mMemory a.toNat w
    written := c.devices.written ++ (List.range 8).map (memIndex a.toNat + ·) } }

theorem memWriteWord_ok {w : CInt} (h : memIndex a.toNat < 8 * M.words) :
    memWriteWord M a w c = (.ok (), wrote c a w) :=
  if_neg (Nat.not_le.mpr h)

/-- What can be read can be written, but perhaps not there. -/
theorem memIndex_lt (h : a.toNat < M.words) : memIndex a.toNat < 8 * M.words := by
  have hle : memIndex a.toNat ≤ a.toNat * 8 := Nat.mod_le _ _
  omega

/-- The read index that was written is read again, where the product for its subscript does not run
    over; the write index stays. -/
theorem headerOf_wrote (c : EthCluster) (w : CInt) (h : a.toNat < 2 ^ 31) :
    (headerOf (wrote c a w).devices a).rdIdx =
        (if a.toNat < 2 ^ 29 then w else (headerOf c.devices a).rdIdx) ∧
      (headerOf (wrote c a w).devices a).wrIdx = (headerOf c.devices a).wrIdx := by
  have hnext : (a + 1).toNat = a.toNat + 1 := by
    have hsum : (a + 1).toNat = (a.toNat + 1) % 2 ^ 32 := BitVec.toNat_add a 1
    omega
  have hle : memIndex a.toNat ≤ a.toNat * 8 := Nat.mod_le _ _
  constructor
  · show word (memWrite c.devices.mMemory a.toNat w) a = _
    split
    · rename_i hlt
      have hindex : memIndex a.toNat = a.toNat * 8 := Nat.mod_eq_of_lt (by omega)
      rw [word, memWrite, hindex, ByteStore.load_store]
    · have hlt : memIndex a.toNat < 2 ^ 32 := Nat.mod_lt _ (by decide)
      have hmod : memIndex a.toNat % 8 = 0 := by
        unfold memIndex
        omega
      exact ByteStore.load_store_of_disjoint (n := 8) (m := 8) w (.inr (by omega))
  · refine ByteStore.load_store_of_disjoint (n := 8) (m := 8) w (.inr ?_)
    rw [hnext]
    omega

theorem Readable.zero {n : Nat} (h : Readable M a n) (hn : 0 < n) : a.toNat < M.words := by
  have h0 := h 0 hn
  rwa [add_ofNat_zero] at h0

/-- The header of a ring that can be read can be logged. -/
theorem Readable.dumpable (h : Readable M a 3) : Dumpable M a 3 := by
  intro i hi
  refine h i (Nat.lt_of_lt_of_le hi ?_)
  have hsum : (a + 3).toNat = (a.toNat + 3) % 2 ^ 32 := BitVec.toNat_add a 3
  omega

theorem dumpQueues_iff :
    dumpQueues M c = (.ok (), c') ↔
      Dumpable M c.devices.CpInQAddr 3 ∧ Dumpable M c.devices.CpOutQAddr 3 ∧ c' = c := by
  rw [dumpQueues, Run.bind_apply_ok (Run.get_apply c), Run.bind_ok_iff]
  constructor
  · rintro ⟨_, c₁, hin, hout⟩
    obtain ⟨hin, rfl⟩ := dumpMem_iff.mp hin
    obtain ⟨hout, rfl⟩ := dumpMem_iff.mp hout
    exact ⟨hin, hout, rfl⟩
  · rintro ⟨hin, hout, rfl⟩
    exact ⟨(), c', dumpMem_iff.mpr ⟨hin, rfl⟩, dumpMem_iff.mpr ⟨hout, rfl⟩⟩

/-- A packet to the mainframe and the log of the queues behind it. -/
theorem sendSleep_dumpQueues {aReqType aCurIndex : CInt} :
    ((sendSleep aReqType aCurIndex >>= fun _ => dumpQueues M) c = (.ok (), c')) ↔
      Dumpable M c.devices.CpInQAddr 3 ∧ Dumpable M c.devices.CpOutQAddr 3 ∧
        sendSleep aReqType aCurIndex c = (.ok (), c') := by
  obtain ⟨c₁, p, hsend, hdevices⟩ := sendSleep_ok aReqType aCurIndex c
  rw [Run.bind_apply_ok hsend, dumpQueues_iff, hdevices, hsend]
  refine and_congr_right fun _ => and_congr_right fun _ => ?_
  exact ⟨fun h => h ▸ rfl, fun h => ((Prod.mk.inj h).2).symm⟩

end SimIopEth

end CraySim
