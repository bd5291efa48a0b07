/-
  Subject:   The output ring of the Ethernet interface, and both rings.

  The indices, the size of the ring and the lengths of the entries come from the memory of the guest.
  A frame that the adapter does not take ends the method in front of the read index.

  * `Sendable`, `entryFrame` -- an entry that can be sent, and its frame,
  * `TakesAll` -- the adapter takes some frames,
  * `handleTxPacket_iff`, `txLoop_iff` -- what the ring gives,
  * `TxSafe`, `txSafe_iff` -- `HandleTxPackets` returns, and has sent each pending entry once,
  * `rings_safe_iff` -- both rings are safe exactly under the conditions of the two parts,
  * `zero_size_not_safe` -- a ring of size 0 is divided by, without a frame.
-/
import CraySim.Lib.RingWalk
import CraySim.SimIopEthInput

namespace CraySim

open ChannelPort (word)
open SysRun (memIndex memWrite)

namespace SimIopEth

variable {M : MemorySize} {c c' : EthCluster} {a : CAddr}

/-! ## 1. An entry and the loop -/

/-- The length in an entry of the output ring. -/
def entrySize (d : EthDevices) (aQueueIdx : CInt) : BitVec 32 :=
  payloadSize (word d.mMemory (entryBase d.CpOutQAddr aQueueIdx))

/-- The frame of an entry, as it is sent. -/
def entryFrame (d : EthDevices) (aQueueIdx : CInt) : EthFrame :=
  patchSrcMac d.mSimMacAddr (bytesAt d.mMemory (entrySize d aQueueIdx).toNat
    (payloadAddr (entryBase d.CpOutQAddr aQueueIdx)))

/-- The entry is in memory, with its frame and what the log takes of it, and the frame is long
    enough for the source address. -/
structure Sendable (M : MemorySize) (d : EthDevices) (aQueueIdx : CInt) : Prop where
  head : (entryBase d.CpOutQAddr aQueueIdx).toNat < M.words
  log : Dumpable M (entryBase d.CpOutQAddr aQueueIdx + 1) ((entrySize d aQueueIdx + 9) / 8)
  frame : ReadableBytes M (payloadAddr (entryBase d.CpOutQAddr aQueueIdx))
    (entrySize d aQueueIdx).toNat
  size : 12 ≤ (entrySize d aQueueIdx).toNat

/-- The cluster after some frames more. -/
def transmit (c : EthCluster) (fs : List EthFrame) : EthCluster :=
  { c with devices := { c.devices with transmitted := c.devices.transmitted ++ fs } }

theorem transmit_nil (c : EthCluster) : transmit c [] = c := by
  rw [transmit, List.append_nil]

theorem transmit_transmit (c : EthCluster) (fs gs : List EthFrame) :
    transmit (transmit c fs) gs = transmit c (fs ++ gs) := by
  rw [transmit, transmit, transmit, ← List.append_assoc]

/-- The adapter takes some frames whole, one after the other, behind those it has. -/
def TakesAll (mAdapter : List EthFrame → EthFrame → Except Nat (BitVec 32)) :
    List EthFrame → List EthFrame → Prop
  | _, [] => True
  | sent, f :: fs =>
    mAdapter sent f = .ok (BitVec.ofNat 32 f.length) ∧ TakesAll mAdapter (sent ++ [f]) fs

theorem takesAll_append {mAdapter : List EthFrame → EthFrame → Except Nat (BitVec 32)}
    {sent fs gs : List EthFrame} :
    TakesAll mAdapter sent (fs ++ gs) ↔
      TakesAll mAdapter sent fs ∧ TakesAll mAdapter (sent ++ fs) gs := by
  induction fs generalizing sent with
  | nil => rw [List.nil_append, TakesAll, List.append_nil, true_and]
  | cons f fs ih =>
    rw [List.cons_append, TakesAll, TakesAll, ih, and_assoc, List.append_assoc]
    rfl

/-- **One frame.** -/
theorem sendEthPacket_iff {f : EthFrame} :
    sendEthPacket f c = (.ok (), c') ↔
      TakesAll c.devices.mAdapter c.devices.transmitted [f] ∧ c' = transmit c [f] := by
  rw [sendEthPacket, send, TakesAll, TakesAll, and_true]
  rcases c.devices.mAdapter c.devices.transmitted f with errno | retVal
  · constructor
    · intro h
      cases h
    · exact fun h => nomatch h.1
  · by_cases hwhole : retVal = BitVec.ofNat 32 f.length
    · dsimp only
      rw [if_neg (not_not.mpr hwhole)]
      exact ⟨fun h => ⟨congrArg Except.ok hwhole, (Prod.mk.inj h).2.symm⟩, fun h => h.2 ▸ rfl⟩
    · dsimp only
      rw [if_pos hwhole]
      constructor
      · intro h
        cases h
      · exact fun h => absurd (Except.ok.inj h.1) hwhole

variable {idx : CInt}

/-- With an adapter an entry is sent if and only if it can be, and the adapter takes it. -/
theorem handleTxPacket_some {queue : List EthFrame}
    (hthread : c.devices.mPacketCaptureThread = some queue) :
    handleTxPacket M idx c = (.ok (), c') ↔
      Sendable M c.devices idx ∧
        TakesAll c.devices.mAdapter c.devices.transmitted [entryFrame c.devices idx] ∧
        c' = transmit c [entryFrame c.devices idx] := by
  rw [handleTxPacket, Run.bind_apply_ok (Run.get_apply c), hthread]
  dsimp only
  rw [Run.bind_ok_iff]
  constructor
  · rintro ⟨head, c₁, hhead, hrest⟩
    obtain ⟨_, c₂, hdump, hrest⟩ := Run.bind_eq_ok hrest
    obtain ⟨frame, c₃, hframe, hrest⟩ := Run.bind_eq_ok hrest
    obtain ⟨hbase, rfl, rfl⟩ := memReadWord_iff.mp hhead
    obtain ⟨hlog, rfl⟩ := dumpMem_iff.mp hdump
    obtain ⟨hbytes, rfl, rfl⟩ := readBytes_iff.mp hframe
    rw [length_bytesAt] at hrest
    split at hrest
    · cases hrest
    · rename_i hsize
      exact ⟨⟨hbase, hlog, hbytes, Nat.le_of_not_lt hsize⟩, sendEthPacket_iff.mp hrest⟩
  · intro ⟨h, hsend⟩
    refine ⟨_, c, memReadWord_iff.mpr ⟨h.head, rfl, rfl⟩, ?_⟩
    refine Run.bind_ok_iff.mpr ⟨(), c, dumpMem_iff.mpr ⟨h.log, rfl⟩, ?_⟩
    refine Run.bind_ok_iff.mpr ⟨_, c, readBytes_iff.mpr ⟨h.frame, rfl, rfl⟩, ?_⟩
    rw [length_bytesAt]
    exact (congrFun (if_neg (Nat.not_lt.mpr h.size)) c).trans (sendEthPacket_iff.mpr hsend)

theorem handleTxPacket_none (hthread : c.devices.mPacketCaptureThread = none) :
    handleTxPacket M idx c = (.ok (), c) := by
  rw [handleTxPacket, Run.bind_apply_ok (Run.get_apply c), hthread]
  rfl

/-- What the adapter gets of some entries, if there is one. -/
def given (d : EthDevices) (l : List CInt) : List EthFrame :=
  if d.mPacketCaptureThread.isSome then l.map (entryFrame d) else []

theorem given_nil (d : EthDevices) : given d [] = [] := by
  rw [given]
  split <;> rfl

theorem given_cons (d : EthDevices) (idx : CInt) (l : List CInt) :
    given d (idx :: l) = given d [idx] ++ given d l := by
  rw [given, given, given]
  split <;> rfl

/-- **One entry.** -/
theorem handleTxPacket_iff :
    handleTxPacket M idx c = (.ok (), c') ↔
      (c.devices.mPacketCaptureThread.isSome → Sendable M c.devices idx) ∧
        TakesAll c.devices.mAdapter c.devices.transmitted (given c.devices [idx]) ∧
        c' = transmit c (given c.devices [idx]) := by
  rw [given]
  cases hthread : c.devices.mPacketCaptureThread with
  | none =>
    rw [handleTxPacket_none hthread]
    constructor
    · rintro ⟨⟩
      exact ⟨nofun, trivial, (transmit_nil c).symm⟩
    · rintro ⟨-, -, rfl⟩
      rw [Option.isSome_none, if_neg Bool.false_ne_true, transmit_nil]
  | some queue =>
    rw [handleTxPacket_some hthread, Option.isSome_some, if_pos rfl]
    exact and_congr_left fun _ => ⟨fun h _ => h, fun h => h rfl⟩

/-- The index behind an index, as numbers. -/
def nextNat (aSize : BitVec 32) (i : Nat) : Nat := (nextIdx aSize (BitVec.ofNat 64 i)).toNat

theorem toNat_nextIdx (aSize : BitVec 32) (idx : CInt) :
    (nextIdx aSize idx).toNat = (idx.toNat + 1) % 2 ^ 64 % aSize.toNat := by
  rw [nextIdx, BitVec.toNat_umod, BitVec.toNat_setWidth, BitVec.toNat_add]
  have hlt : aSize.toNat < 2 ^ 32 := aSize.isLt
  rw [Nat.mod_eq_of_lt (show aSize.toNat < 2 ^ 64 by omega)]
  rfl

theorem nextNat_eq (aSize : BitVec 32) {i : Nat} (h : i < aSize.toNat) :
    nextNat aSize i = (i + 1) % aSize.toNat := by
  have hlt : aSize.toNat < 2 ^ 32 := aSize.isLt
  rw [nextNat, toNat_nextIdx, BitVec.toNat_ofNat, Nat.mod_eq_of_lt (show i < 2 ^ 64 by omega),
    Nat.mod_eq_of_lt (show i + 1 < 2 ^ 64 by omega)]

theorem nextNat_lt (aSize : BitVec 32) (h : 0 < aSize.toNat) (i : Nat) :
    nextNat aSize i < aSize.toNat := by
  rw [nextNat, toNat_nextIdx]
  exact Nat.mod_lt _ h

theorem nextNat_toNat (aSize : BitVec 32) (idx : CInt) :
    nextNat aSize idx.toNat = (nextIdx aSize idx).toNat := by
  rw [nextNat, BitVec.ofNat_toNat, BitVec.setWidth_eq]

theorem given_transmit (c : EthCluster) (fs : List EthFrame) (l : List CInt) :
    given (transmit c fs).devices l = given c.devices l := rfl

theorem sendable_transmit {fs : List EthFrame} :
    Sendable M (transmit c fs).devices idx ↔ Sendable M c.devices idx :=
  ⟨fun h => ⟨h.head, h.log, h.frame, h.size⟩, fun h => ⟨h.head, h.log, h.frame, h.size⟩⟩

theorem txLoop_succ {aSize : BitVec 32} {aWrIdx : CInt} {fuel : Nat} (hne : idx ≠ aWrIdx) :
    txLoop M aSize aWrIdx (fuel + 1) idx c = some (.ok (), c') ↔
      ∃ c₁, handleTxPacket M idx c = (.ok (), c₁) ∧ aSize ≠ 0 ∧
        txLoop M aSize aWrIdx fuel (nextIdx aSize idx) c₁ = some (.ok (), c') := by
  rw [txLoop, if_neg hne]
  rcases handleTxPacket M idx c with ⟨e | _, c₁⟩
  · constructor
    · rintro ⟨⟩
    · rintro ⟨_, ⟨⟩, -⟩
  · dsimp only
    by_cases hsize : aSize = 0
    · rw [if_pos hsize]
      constructor
      · rintro ⟨⟩
      · exact fun ⟨_, _, h, _⟩ => absurd hsize h
    · rw [if_neg hsize]
      constructor
      · exact fun h => ⟨c₁, rfl, hsize, h⟩
      · rintro ⟨c₂, ⟨⟩, -, h⟩
        exact h

/-- **The loop** walks around the ring, and sends what it comes by. -/
theorem txLoop_iff {aSize : BitVec 32} {aWrIdx : CInt} {fuel : Nat} :
    txLoop M aSize aWrIdx fuel idx c = some (.ok (), c') ↔
      ∃ l, RingWalk.walk aSize.toNat (nextNat aSize) aWrIdx.toNat fuel idx.toNat = some l ∧
        (c.devices.mPacketCaptureThread.isSome →
          ∀ i ∈ l, Sendable M c.devices (BitVec.ofNat 64 i)) ∧
        TakesAll c.devices.mAdapter c.devices.transmitted
          (given c.devices (l.map (BitVec.ofNat 64))) ∧
        c' = transmit c (given c.devices (l.map (BitVec.ofNat 64))) := by
  induction fuel generalizing idx c c' with
  | zero =>
    constructor
    · rintro ⟨⟩
    · rintro ⟨l, ⟨⟩, -⟩
  | succ fuel ih =>
    rw [RingWalk.walk]
    by_cases hstop : idx = aWrIdx
    · rw [txLoop, if_pos hstop, if_pos (congrArg BitVec.toNat hstop)]
      constructor
      · rintro ⟨⟩
        exact ⟨[], rfl, fun _ i hi => absurd hi List.not_mem_nil,
          by rw [List.map_nil, given_nil]; trivial, by rw [List.map_nil, given_nil, transmit_nil]⟩
      · rintro ⟨l, ⟨⟩, -, -, rfl⟩
        rw [List.map_nil, given_nil, transmit_nil]
    · have hne : ¬ idx.toNat = aWrIdx.toNat := fun h => hstop (BitVec.eq_of_toNat_eq h)
      have hzero : aSize ≠ 0 ↔ ¬ aSize.toNat = 0 :=
        not_congr ⟨fun h => h ▸ rfl, fun h => BitVec.eq_of_toNat_eq h⟩
      have hidx : BitVec.ofNat 64 idx.toNat = idx := by rw [BitVec.ofNat_toNat, BitVec.setWidth_eq]
      rw [txLoop_succ hstop, if_neg hne, nextNat_toNat]
      constructor
      · rintro ⟨c₁, hone, hsize, hrest⟩
        obtain ⟨hsend, htakes, rfl⟩ := handleTxPacket_iff.mp hone
        obtain ⟨l, hwalk, hall, htaken, rfl⟩ := ih.mp hrest
        refine ⟨idx.toNat :: l, ?_, fun hthread i hi => ?_, ?_, ?_⟩
        · rw [if_neg (hzero.mp hsize), hwalk]
          rfl
        · rcases List.mem_cons.mp hi with rfl | hi
          · rw [hidx]
            exact hsend hthread
          · exact sendable_transmit.mp (hall hthread i hi)
        · rw [List.map_cons, hidx, given_cons c.devices idx (l.map (BitVec.ofNat 64))]
          exact takesAll_append.mpr ⟨htakes, htaken⟩
        · rw [given_transmit, transmit_transmit, List.map_cons, hidx,
            given_cons c.devices idx (l.map (BitVec.ofNat 64))]
      · rintro ⟨l, hwalk, hall, htaken, rfl⟩
        split at hwalk
        · cases hwalk
        · rename_i hsize
          obtain ⟨l', hrest, rfl⟩ := Option.map_eq_some_iff.mp hwalk
          rw [List.map_cons, hidx, given_cons c.devices idx (l'.map (BitVec.ofNat 64)),
            takesAll_append] at htaken
          refine ⟨_, handleTxPacket_iff.mpr ⟨fun hthread => ?_, htaken.1, rfl⟩, hzero.mpr hsize, ?_⟩
          · rw [← hidx]
            exact hall hthread _ List.mem_cons_self
          · refine ih.mpr ⟨l', hrest, fun hthread i hi => ?_, htaken.2, ?_⟩
            · exact sendable_transmit.mpr (hall hthread i (List.mem_cons_of_mem _ hi))
            · rw [given_transmit, transmit_transmit, List.map_cons, hidx,
                given_cons c.devices idx (l'.map (BitVec.ofNat 64))]

/-! ## 2. Behind the loop -/

/-- What comes behind the loop writes the read index. -/
theorem finishTx_inv {h : RingHeader} (hout : Readable M c.devices.CpOutQAddr 3)
    (hrun : finishTx M h c = (.ok (), c')) :
    (h.rdIdx ≠ h.wrIdx → Dumpable M c.devices.CpInQAddr 3) ∧
      ∃ sent, c'.devices = { (wrote c c.devices.CpOutQAddr h.wrIdx).devices with sent := sent } := by
  rw [finishTx, Run.bind_apply_ok (Run.get_apply c),
    Run.bind_apply_ok (memWriteWord_ok (memIndex_lt (hout.zero (by decide))))] at hrun
  by_cases heq : h.rdIdx = h.wrIdx
  · rw [if_neg (not_not.mpr heq)] at hrun
    cases hrun
    exact ⟨fun hne => absurd heq hne, c.devices.sent, rfl⟩
  · rw [if_pos heq] at hrun
    obtain ⟨hin, -, hsleep⟩ := sendSleep_dumpQueues.mp hrun
    obtain ⟨c₁, p, hsend, hdevices⟩ :=
      sendSleep_ok SLEEP_OUTPUT h.rdIdx (wrote c c.devices.CpOutQAddr h.wrIdx)
    obtain rfl := (Prod.mk.inj (hsend.symm.trans hsleep)).2
    exact ⟨fun _ => hin, _, hdevices⟩

theorem finishTx_ok {h : RingHeader} (hout : Readable M c.devices.CpOutQAddr 3)
    (hin : h.rdIdx ≠ h.wrIdx → Dumpable M c.devices.CpInQAddr 3) :
    ∃ c', finishTx M h c = (.ok (), c') := by
  rw [finishTx, Run.bind_apply_ok (Run.get_apply c),
    Run.bind_apply_ok (memWriteWord_ok (memIndex_lt (hout.zero (by decide))))]
  by_cases heq : h.rdIdx = h.wrIdx
  · rw [if_neg (not_not.mpr heq)]
    exact ⟨_, rfl⟩
  · rw [if_pos heq]
    obtain ⟨c₁, p, hsend, -⟩ :=
      sendSleep_ok SLEEP_OUTPUT h.rdIdx (wrote c c.devices.CpOutQAddr h.wrIdx)
    exact ⟨c₁, sendSleep_dumpQueues.mpr ⟨hin heq, hout.dumpable, hsend⟩⟩

theorem handleTxPackets_iff {fuel : Nat} :
    handleTxPackets M fuel c = some (.ok (), c') ↔
      Readable M c.devices.CpOutQAddr 3 ∧ ∃ c₁,
        txLoop M (headerOf c.devices c.devices.CpOutQAddr).size
          (headerOf c.devices c.devices.CpOutQAddr).wrIdx fuel
          (headerOf c.devices c.devices.CpOutQAddr).rdIdx c = some (.ok (), c₁) ∧
        finishTx M (headerOf c.devices c.devices.CpOutQAddr) c₁ = (.ok (), c') := by
  rw [handleTxPackets]
  by_cases hread : Readable M c.devices.CpOutQAddr 3
  · rw [readHeader_iff.mpr ⟨hread, rfl, rfl⟩]
    dsimp only
    rw [Option.map_eq_some_iff]
    constructor
    · rintro ⟨⟨e | _, c₁⟩, hloop, hfinish⟩
      · cases hfinish
      · exact ⟨hread, c₁, hloop, hfinish⟩
    · rintro ⟨-, c₁, hloop, hfinish⟩
      exact ⟨_, hloop, hfinish⟩
  · rcases hheader : readHeader M c.devices.CpOutQAddr c with ⟨e | h, c₁⟩
    · constructor
      · rintro ⟨⟩
      · exact fun hr => absurd hr.1 hread
    · exact absurd (readHeader_iff.mp hheader).1 hread

/-! ## 3. The output ring -/

/-- The entries between the indices of the output ring, where they are indices of it. -/
def pendingEntries (d : EthDevices) : List CInt :=
  let h := headerOf d d.CpOutQAddr
  if h.rdIdx.toNat < h.size.toNat ∧ h.wrIdx.toNat < h.size.toNat then
    (RingWalk.pending h.size.toNat h.rdIdx.toNat h.wrIdx.toNat).map (BitVec.ofNat 64)
  else []

/-- Each pending entry was sent once, if there is an adapter, and none is left that the next call
    would send again. -/
structure TxReturns (c c' : EthCluster) : Prop where
  sent : c.devices.mPacketCaptureThread.isSome → c'.devices.transmitted =
    c.devices.transmitted ++ (pendingEntries c.devices).map (entryFrame c.devices)
  taken : (headerOf c'.devices c'.devices.CpOutQAddr).rdIdx =
    (headerOf c'.devices c'.devices.CpOutQAddr).wrIdx

/-- `HandleTxPackets` returns, and has done so. -/
def TxSafe (M : MemorySize) (c : EthCluster) : Prop :=
  ∃ fuel c', handleTxPackets M fuel c = some (.ok (), c') ∧ TxReturns c c'

/-- The header of the output ring is in memory, and either there is nothing between its indices, or
    they are in the ring, every entry between them can be sent and the other header can be logged,
    and the adapter takes the frames. Without an adapter the read index does not matter. The write of
    the read index reaches the first 4 GiB only. -/
structure TxCondition (M : MemorySize) (d : EthDevices) : Prop where
  header : Readable M d.CpOutQAddr 3
  ring : (headerOf d d.CpOutQAddr).rdIdx ≠ (headerOf d d.CpOutQAddr).wrIdx →
    (headerOf d d.CpOutQAddr).wrIdx.toNat < (headerOf d d.CpOutQAddr).size.toNat ∧
      Dumpable M d.CpInQAddr 3 ∧ d.CpOutQAddr.toNat < 2 ^ 29
  entries : (headerOf d d.CpOutQAddr).rdIdx ≠ (headerOf d d.CpOutQAddr).wrIdx →
    d.mPacketCaptureThread.isSome →
      (headerOf d d.CpOutQAddr).rdIdx.toNat < (headerOf d d.CpOutQAddr).size.toNat ∧
        ∀ idx ∈ pendingEntries d, Sendable M d idx
  adapter : d.mPacketCaptureThread.isSome →
    TakesAll d.mAdapter d.transmitted ((pendingEntries d).map (entryFrame d))

section entries
variable {d : EthDevices}

theorem pendingEntries_of_eq
    (h : (headerOf d d.CpOutQAddr).rdIdx = (headerOf d d.CpOutQAddr).wrIdx) :
    pendingEntries d = [] := by
  rw [pendingEntries, h]
  split
  · rename_i hlt
    rw [RingWalk.pending_self hlt.2]
    rfl
  · rfl

/-- In the ring the loop comes by the entries between the indices. -/
theorem pendingEntries_of_ne
    (hne : (headerOf d d.CpOutQAddr).rdIdx ≠ (headerOf d d.CpOutQAddr).wrIdx)
    (hrd : (headerOf d d.CpOutQAddr).rdIdx.toNat < (headerOf d d.CpOutQAddr).size.toNat)
    (hwr : (headerOf d d.CpOutQAddr).wrIdx.toNat < (headerOf d d.CpOutQAddr).size.toNat) :
    pendingEntries d = ((headerOf d d.CpOutQAddr).rdIdx.toNat ::
      RingWalk.pending (headerOf d d.CpOutQAddr).size.toNat
        (nextNat (headerOf d d.CpOutQAddr).size (headerOf d d.CpOutQAddr).rdIdx.toNat)
        (headerOf d d.CpOutQAddr).wrIdx.toNat).map (BitVec.ofNat 64) := by
  have hne' : ¬ (headerOf d d.CpOutQAddr).rdIdx.toNat = (headerOf d d.CpOutQAddr).wrIdx.toNat :=
    fun h => hne (BitVec.eq_of_toNat_eq h)
  rw [pendingEntries, if_pos ⟨hrd, hwr⟩, RingWalk.pending_of_ne hrd hwr hne', nextNat_eq _ hrd]

theorem exists_walk_header (h : RingHeader) {l : List Nat} :
    (∃ fuel, RingWalk.walk h.size.toNat (nextNat h.size) h.wrIdx.toNat fuel h.rdIdx.toNat =
        some l) ↔
      (h.rdIdx = h.wrIdx ∧ l = []) ∨
      (h.rdIdx ≠ h.wrIdx ∧ h.wrIdx.toNat < h.size.toNat ∧
        l = h.rdIdx.toNat ::
          RingWalk.pending h.size.toNat (nextNat h.size h.rdIdx.toNat) h.wrIdx.toNat) := by
  rw [RingWalk.exists_walk_iff (fun i => nextNat_eq h.size) (nextNat_lt h.size)]
  simp only [ne_eq, BitVec.toNat_inj]

end entries

/-- The read index behind a call is the write index, if it was written where it is read. -/
theorem taken_iff (hheader : Readable M c.devices.CpOutQAddr 3) {fs : List EthFrame}
    {sent : List (List CInt)}
    (hdevices : c'.devices = { (wrote (transmit c fs) c.devices.CpOutQAddr
      (headerOf c.devices c.devices.CpOutQAddr).wrIdx).devices with sent := sent }) :
    (headerOf c'.devices c'.devices.CpOutQAddr).rdIdx =
        (headerOf c'.devices c'.devices.CpOutQAddr).wrIdx ↔
      ((headerOf c.devices c.devices.CpOutQAddr).rdIdx ≠
        (headerOf c.devices c.devices.CpOutQAddr).wrIdx → c.devices.CpOutQAddr.toNat < 2 ^ 29) := by
  have hlt : c.devices.CpOutQAddr.toNat < 2 ^ 31 :=
    (hheader.zero (by decide)).trans M.words_lt
  obtain ⟨hrd, hwr⟩ := headerOf_wrote (transmit c fs)
    (headerOf c.devices c.devices.CpOutQAddr).wrIdx hlt
  have hheader' : headerOf c'.devices c'.devices.CpOutQAddr =
      headerOf (wrote (transmit c fs) c.devices.CpOutQAddr
        (headerOf c.devices c.devices.CpOutQAddr).wrIdx).devices c.devices.CpOutQAddr := by
    rw [hdevices]
    rfl
  have hsame : headerOf (transmit c fs).devices c.devices.CpOutQAddr =
      headerOf c.devices c.devices.CpOutQAddr := rfl
  rw [hheader', hrd, hwr, hsame]
  by_cases hreach : c.devices.CpOutQAddr.toNat < 2 ^ 29
  · rw [if_pos hreach]
    exact ⟨fun _ _ => hreach, fun _ => rfl⟩
  · rw [if_neg hreach]
    exact ⟨fun heq hne => absurd heq hne, fun h => by_contra fun hne => hreach (h hne)⟩

theorem TxSafe.condition (hsafe : TxSafe M c) : TxCondition M c.devices := by
  obtain ⟨fuel, c', hrun, hsent, htaken⟩ := hsafe
  obtain ⟨hheader, c₁, hloop, hfinish⟩ := handleTxPackets_iff.mp hrun
  obtain ⟨l, hwalk, hall, htaken', rfl⟩ := txLoop_iff.mp hloop
  have hheader' : Readable M
      (transmit c (given c.devices (l.map (BitVec.ofNat 64)))).devices.CpOutQAddr 3 := hheader
  obtain ⟨hin, sent, hdevices⟩ := finishTx_inv hheader' hfinish
  have htransmitted := congrArg EthDevices.transmitted hdevices
  have hends := (exists_walk_header _).mp ⟨fuel, hwalk⟩
  have hgiven : c.devices.mPacketCaptureThread.isSome →
      given c.devices (l.map (BitVec.ofNat 64)) =
        (pendingEntries c.devices).map (entryFrame c.devices) :=
    fun hthread => List.append_cancel_left (htransmitted.symm.trans (hsent hthread))
  refine ⟨hheader, fun hne => ?_, fun hne hthread => ?_, fun hthread => hgiven hthread ▸ htaken'⟩
  · obtain ⟨-, hwr, -⟩ := hends.resolve_left fun h => hne h.1
    exact ⟨hwr, hin hne, (taken_iff hheader hdevices).mp htaken hne⟩
  · obtain ⟨-, hwr, hl⟩ := hends.resolve_left fun h => hne h.1
    have hframes : (l.map (BitVec.ofNat 64)).map (entryFrame c.devices) =
        (pendingEntries c.devices).map (entryFrame c.devices) := by
      rw [← hgiven hthread, given, if_pos hthread]
    -- the loop came by an entry, so there has to be one between the indices
    have hrd : (headerOf c.devices c.devices.CpOutQAddr).rdIdx.toNat <
        (headerOf c.devices c.devices.CpOutQAddr).size.toNat := by
      by_contra hnot
      have hnil : pendingEntries c.devices = [] := if_neg fun h => hnot h.1
      rw [hnil, hl] at hframes
      cases hframes
    refine ⟨hrd, fun idx hidx => ?_⟩
    rw [pendingEntries_of_ne hne hrd hwr, ← hl] at hidx
    obtain ⟨i, hi, rfl⟩ := List.mem_map.mp hidx
    exact hall hthread i hi

theorem TxCondition.safe (h : TxCondition M c.devices) : TxSafe M c := by
  have hloops : ∃ l, (∃ fuel, RingWalk.walk (headerOf c.devices c.devices.CpOutQAddr).size.toNat
        (nextNat (headerOf c.devices c.devices.CpOutQAddr).size)
        (headerOf c.devices c.devices.CpOutQAddr).wrIdx.toNat fuel
        (headerOf c.devices c.devices.CpOutQAddr).rdIdx.toNat = some l) ∧
      (c.devices.mPacketCaptureThread.isSome →
        l.map (BitVec.ofNat 64) = pendingEntries c.devices ∧
          ∀ i ∈ l, Sendable M c.devices (BitVec.ofNat 64 i)) := by
    by_cases heq : (headerOf c.devices c.devices.CpOutQAddr).rdIdx =
        (headerOf c.devices c.devices.CpOutQAddr).wrIdx
    · refine ⟨[], (exists_walk_header _).mpr (.inl ⟨heq, rfl⟩), fun _ => ⟨?_, ?_⟩⟩
      · exact (pendingEntries_of_eq heq).symm
      · exact fun i hi => absurd hi List.not_mem_nil
    · obtain ⟨hwr, -⟩ := h.ring heq
      refine ⟨_, (exists_walk_header _).mpr (.inr ⟨heq, hwr, rfl⟩), fun hthread => ?_⟩
      obtain ⟨hrd, hall⟩ := h.entries heq hthread
      have hpending := pendingEntries_of_ne heq hrd hwr
      refine ⟨hpending.symm, fun i hi => hall _ ?_⟩
      rw [hpending]
      exact List.mem_map_of_mem hi
  obtain ⟨l, ⟨fuel, hwalk⟩, hsendable⟩ := hloops
  have htaken : TakesAll c.devices.mAdapter c.devices.transmitted
      (given c.devices (l.map (BitVec.ofNat 64))) := by
    rw [given]
    split
    · rw [(hsendable ‹_›).1]
      exact h.adapter ‹_›
    · trivial
  have hloop := txLoop_iff.mpr ⟨l, hwalk, fun hthread => (hsendable hthread).2, htaken, rfl⟩
  have hheader : Readable M
      (transmit c (given c.devices (l.map (BitVec.ofNat 64)))).devices.CpOutQAddr 3 := h.header
  obtain ⟨c', hfinish⟩ := finishTx_ok hheader fun hne => (h.ring hne).2.1
  obtain ⟨-, sent, hdevices⟩ := finishTx_inv hheader hfinish
  refine ⟨fuel, c', handleTxPackets_iff.mpr ⟨h.header, _, hloop, hfinish⟩, fun hthread => ?_,
    (taken_iff h.header hdevices).mpr fun hne => (h.ring hne).2.2⟩
  have htransmitted := congrArg EthDevices.transmitted hdevices
  rw [htransmitted, ← (hsendable hthread).1]
  show c.devices.transmitted ++ given c.devices (l.map (BitVec.ofNat 64)) = _
  rw [given, if_pos hthread]

/-- **The output ring is safe** under the condition, and only then. -/
theorem txSafe_iff : TxSafe M c ↔ TxCondition M c.devices :=
  ⟨TxSafe.condition, TxCondition.safe⟩

/-! ## 4. Both rings -/

/-- **Both rings are safe** exactly if the headers and what is between the indices are as the driver
    of the guest makes them, and the adapter takes every frame; the code checks nothing of it. -/
theorem rings_safe_iff (M : MemorySize) (c : EthCluster) :
    (TxSafe M c ∧ RxSafe M c) ↔ (TxCondition M c.devices ∧ RxCondition M c.devices) :=
  and_congr txSafe_iff rxSafe_iff

/-- An interface behind a memory that was never written, with no frame. -/
def untouched : EthDevices where
  mIopRevision := .IOSE
  mChannelId := 16
  mSimMacAddr := 0
  CpInQAddr := 0x100
  CpOutQAddr := 0x200
  mBufferPtr := 0
  mDevStruct := 0
  mPacketCaptureThread := some []
  mAdapter := fun _ f => .ok (BitVec.ofNat 32 f.length)
  mMemory := fun _ => 0
  transmitted := []
  sent := []
  written := []

/-- **A ring of size 0 is divided by**, with no frame there to store. -/
theorem zero_size_not_safe :
    ¬ (TxSafe ⟨1024, by decide⟩ ⟨0, 0, 0, untouched⟩ ∧
      RxSafe ⟨1024, by decide⟩ ⟨0, 0, 0, untouched⟩) := by
  rintro ⟨-, hsafe⟩
  exact hsafe.condition.size rfl (by decide)

end SimIopEth

end CraySim
