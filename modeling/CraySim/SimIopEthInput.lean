/-
  Subject:   The input ring of the Ethernet interface.

  * `subscripts`, `storeFrame_inv` -- the bytes that are written for a frame,
  * `InSlot`, `Fits` -- the entry that is next, and a frame that fits into it,
  * `RxSafe` -- `HandleRxPacket` returns, and has written nothing else than that entry,
  * `rxSafe_iff` -- exactly when.
-/
import CraySim.SimIopEth

namespace CraySim

open ChannelPort (word)
open SysRun (memIndex memWrite)

namespace SimIopEth

variable {M : MemorySize} {c c' : EthCluster} {a : CAddr}

/-! ## 1. Storing a frame -/

/-- What was written between two states; the rings stay where they are. -/
structure Wrote (c c' : EthCluster) (ws : List Nat) : Prop where
  written : c'.devices.written = c.devices.written ++ ws
  input : c'.devices.CpInQAddr = c.devices.CpInQAddr
  output : c'.devices.CpOutQAddr = c.devices.CpOutQAddr

theorem Wrote.trans {c'' : EthCluster} {ws ws' : List Nat} (h : Wrote c c' ws)
    (h' : Wrote c' c'' ws') : Wrote c c'' (ws ++ ws') :=
  ⟨by rw [h'.written, h.written, List.append_assoc], h'.input.trans h.input,
    h'.output.trans h.output⟩

theorem wrote_word (c : EthCluster) (a : CAddr) (w : CInt) :
    Wrote c (wrote c a w) ((List.range 8).map (memIndex a.toNat + ·)) := ⟨rfl, rfl, rfl⟩

theorem memWriteWord_inv {w : CInt} (h : memWriteWord M a w c = (.ok (), c')) :
    memIndex a.toNat < 8 * M.words ∧ c' = wrote c a w := by
  rw [memWriteWord] at h
  dsimp only at h
  split at h
  · cases h
  · rename_i hlt
    exact ⟨Nat.lt_of_not_le hlt, (Prod.mk.inj h).2.symm⟩

/-- A byte that was written. -/
def wroteByte (c : EthCluster) (a : CAddr) (b : BitVec 8) : EthCluster :=
  { c with devices := { c.devices with
    mMemory := ByteStore.update c.devices.mMemory a.toNat b
    written := c.devices.written ++ [a.toNat] } }

theorem wrote_byte (c : EthCluster) (a : CAddr) (b : BitVec 8) :
    Wrote c (wroteByte c a b) [a.toNat] := ⟨rfl, rfl, rfl⟩

theorem memWriteByte_iff {b : BitVec 8} :
    memWriteByte M a b c = (.ok (), c') ↔ a.toNat < 8 * M.words ∧ c' = wroteByte c a b := by
  rw [memWriteByte]
  split
  · rename_i h
    constructor
    · rintro ⟨⟩
    · exact fun hr => absurd hr.1 (Nat.not_lt.mpr h)
  · rename_i h
    constructor
    · rintro ⟨⟩
      exact ⟨Nat.lt_of_not_le h, rfl⟩
    · rintro ⟨-, rfl⟩
      rfl

/-- The subscripts of some bytes in a row. -/
def subscripts (a : CAddr) (n : Nat) : List Nat :=
  (List.range n).map fun i => (a + BitVec.ofNat 32 i).toNat

theorem mem_subscripts {n x : Nat} :
    x ∈ subscripts a n ↔ ∃ i < n, x = (a + BitVec.ofNat 32 i).toNat := by
  rw [subscripts, List.mem_map]
  exact exists_congr fun i => and_congr List.mem_range eq_comm

theorem subscripts_succ (a : CAddr) (n : Nat) :
    subscripts a (n + 1) = a.toNat :: subscripts (a + 1) n := by
  rw [subscripts, List.range_succ_eq_map, List.map_cons, List.map_map, add_ofNat_zero, subscripts]
  congr 1
  exact List.map_congr_left fun i _ => congrArg BitVec.toNat (WordField.add_ofNat_succ a i)

theorem writeBytes_inv {bs : EthFrame} (h : writeBytes M bs a c = (.ok (), c')) :
    ReadableBytes M a bs.length ∧ Wrote c c' (subscripts a bs.length) := by
  induction bs generalizing a c with
  | nil =>
    cases h
    exact ⟨fun i hi => absurd hi (Nat.not_lt_zero i), (List.append_nil _).symm, rfl, rfl⟩
  | cons b bs ih =>
    obtain ⟨_, c₁, hbyte, hrest⟩ := Run.bind_eq_ok h
    obtain ⟨hlt, rfl⟩ := memWriteByte_iff.mp hbyte
    obtain ⟨hall, hwrote⟩ := ih hrest
    rw [List.length_cons, ReadableBytes, forall_lt_succ (P := fun a => a.toNat < 8 * M.words),
      subscripts_succ]
    exact ⟨⟨hlt, hall⟩, (wrote_byte c a b).trans hwrote⟩

theorem writeBytes_ok {bs : EthFrame} (h : ReadableBytes M a bs.length) :
    ∃ c', writeBytes M bs a c = (.ok (), c') := by
  induction bs generalizing a c with
  | nil => exact ⟨c, rfl⟩
  | cons b bs ih =>
    rw [List.length_cons, ReadableBytes, forall_lt_succ (P := fun a => a.toNat < 8 * M.words)] at h
    obtain ⟨c', hrest⟩ := ih (c := wroteByte c a b) h.2
    exact ⟨c', (Run.bind_apply_ok (memWriteByte_iff.mpr ⟨h.1, rfl⟩)).trans hrest⟩

theorem subscripts_add (a : CAddr) (n m : Nat) :
    subscripts a (n + m) = subscripts a n ++ subscripts (a + BitVec.ofNat 32 n) m := by
  rw [subscripts, List.range_add, List.map_append, List.map_map, subscripts, subscripts]
  congr 1
  exact List.map_congr_left fun i _ => congrArg BitVec.toNat (WordField.add_ofNat_add a n i)

theorem readableBytes_add {n m : Nat} :
    ReadableBytes M a (n + m) ↔
      ReadableBytes M a n ∧ ReadableBytes M (a + BitVec.ofNat 32 n) m := by
  constructor
  · intro h
    refine ⟨fun i hi => h i (by omega), fun i hi => ?_⟩
    rw [← WordField.add_ofNat_add]
    exact h (n + i) (by omega)
  · rintro ⟨h, h'⟩ i hi
    by_cases hn : i < n
    · exact h i hn
    · have hi' := h' (i - n) (by omega)
      rwa [← WordField.add_ofNat_add, show n + (i - n) = i by omega] at hi'

theorem toNat_byte (a : CAddr) {k : Nat} (hk : k < 8) :
    (a * 8 + BitVec.ofNat 32 k).toNat = memIndex a.toNat + k := by
  have hmul : (a * 8).toNat = a.toNat * 8 % 2 ^ 32 := BitVec.toNat_mul a 8
  rw [BitVec.toNat_add, BitVec.toNat_ofNat, hmul, memIndex]
  omega

theorem subscripts_word (a : CAddr) :
    subscripts (a * 8) 8 = (List.range 8).map (memIndex a.toNat + ·) :=
  List.map_congr_left fun _ hk => toNat_byte a (List.mem_range.mp hk)

theorem readableBytes_word : ReadableBytes M (a * 8) 8 ↔ memIndex a.toNat < 8 * M.words := by
  constructor
  · intro h
    have h0 := h 0 (by decide)
    rwa [toNat_byte a (by decide)] at h0
  · intro h k hk
    rw [toNat_byte a hk]
    have hmod : memIndex a.toNat % 8 = 0 := by
      unfold memIndex
      omega
    omega

theorem readableBytes_one : ReadableBytes M a 1 ↔ a.toNat < 8 * M.words := by
  constructor
  · intro h
    have h0 := h 0 (by decide)
    rwa [add_ofNat_zero] at h0
  · intro h i hi
    rwa [Nat.lt_one_iff.mp hi, add_ofNat_zero]

theorem word_behind (a : CAddr) : (a + 1) * 8 = a * 8 + BitVec.ofNat 32 8 := by
  rw [BitVec.add_mul]
  rfl

theorem payloadAddr_eq (aBase : CAddr) :
    payloadAddr aBase = (aBase + 1) * 8 + BitVec.ofNat 32 1 + BitVec.ofNat 32 1 := by
  rw [payloadAddr, BitVec.add_assoc]
  rfl

theorem subscripts_one (a : CAddr) : subscripts a 1 = [a.toNat] := by
  rw [subscripts_succ]
  rfl

/-- The bytes of an entry: header word, padding and frame. -/
theorem subscripts_entry (aBase : CAddr) (n : Nat) :
    subscripts (aBase * 8) (8 + (1 + (1 + n))) =
      (List.range 8).map (memIndex aBase.toNat + ·) ++ ([((aBase + 1) * 8).toNat] ++
        ([((aBase + 1) * 8 + 1).toNat] ++ subscripts (payloadAddr aBase) n)) := by
  rw [subscripts_add, subscripts_add, subscripts_add, subscripts_word, subscripts_one,
    subscripts_one, payloadAddr_eq, word_behind]
  rfl

theorem readableBytes_entry (aBase : CAddr) (n : Nat) :
    ReadableBytes M (aBase * 8) (8 + (1 + (1 + n))) ↔
      memIndex aBase.toNat < 8 * M.words ∧ ((aBase + 1) * 8).toNat < 8 * M.words ∧
        ((aBase + 1) * 8 + 1).toNat < 8 * M.words ∧ ReadableBytes M (payloadAddr aBase) n := by
  rw [readableBytes_add, readableBytes_add, readableBytes_add, readableBytes_word,
    readableBytes_one, readableBytes_one, payloadAddr_eq, word_behind]
  exact Iff.rfl

/-- The length of what is stored for a frame. -/
def storedLength (aPacket : EthFrame) : Nat := 8 + (1 + (1 + aPacket.length))

variable {aBase : CAddr} {aPacket : EthFrame} {aNextWrIdx : CInt}

theorem storeFrame_inv (h : storeFrame M aBase aPacket c = (.ok (), c')) :
    ReadableBytes M (aBase * 8) (storedLength aPacket) ∧
      Wrote c c' (subscripts (aBase * 8) (storedLength aPacket)) := by
  obtain ⟨_, c₁, hword, hrest⟩ := Run.bind_eq_ok h
  obtain ⟨_, c₂, hfirst, hrest⟩ := Run.bind_eq_ok hrest
  obtain ⟨_, c₃, hsecond, hrest⟩ := Run.bind_eq_ok hrest
  obtain ⟨hlt, rfl⟩ := memWriteWord_inv hword
  obtain ⟨hlt₁, rfl⟩ := memWriteByte_iff.mp hfirst
  obtain ⟨hlt₂, rfl⟩ := memWriteByte_iff.mp hsecond
  obtain ⟨hall, hwrote⟩ := writeBytes_inv hrest
  refine ⟨(readableBytes_entry aBase _).mpr ⟨hlt, hlt₁, hlt₂, hall⟩, ?_⟩
  rw [storedLength, subscripts_entry]
  exact (wrote_word c aBase _).trans ((wrote_byte _ _ 0).trans ((wrote_byte _ _ 0).trans hwrote))

theorem storeFrame_ok (h : ReadableBytes M (aBase * 8) (storedLength aPacket)) :
    ∃ c', storeFrame M aBase aPacket c = (.ok (), c') := by
  obtain ⟨hword, hfirst, hsecond, hall⟩ := (readableBytes_entry aBase _).mp h
  obtain ⟨c', hrest⟩ := writeBytes_ok
    (c := wroteByte (wroteByte (wrote c aBase (BitVec.ofNat 64 aPacket.length))
      ((aBase + 1) * 8) 0) ((aBase + 1) * 8 + 1) 0) hall
  refine ⟨c', ?_⟩
  rw [storeFrame, Run.bind_apply_ok (memWriteWord_ok hword),
    Run.bind_apply_ok (memWriteByte_iff.mpr ⟨hfirst, rfl⟩),
    Run.bind_apply_ok (memWriteByte_iff.mpr ⟨hsecond, rfl⟩), hrest]

theorem finishRx_inv (h : finishRx M aBase aPacket aNextWrIdx c = (.ok (), c')) :
    Wrote c c' ((List.range 8).map (memIndex (c.devices.CpInQAddr + 1).toNat + ·)) ∧
      Dumpable M c.devices.CpOutQAddr 3 := by
  obtain ⟨_, c₁, hdump, hrest⟩ := Run.bind_eq_ok h
  obtain ⟨_, c₂, hget, hrest⟩ := Run.bind_eq_ok hrest
  obtain ⟨_, c₃, hword, hrest⟩ := Run.bind_eq_ok hrest
  obtain ⟨-, rfl⟩ := dumpMem_iff.mp hdump
  cases hget
  obtain ⟨-, rfl⟩ := memWriteWord_inv hword
  obtain ⟨-, hout, hsleep⟩ := sendSleep_dumpQueues.mp hrest
  obtain ⟨c₄, p, hsend, hdevices⟩ :=
    sendSleep_ok WAKEUP_INPUT aNextWrIdx (wrote c₁ (c₁.devices.CpInQAddr + 1) aNextWrIdx)
  obtain rfl := (Prod.mk.inj (hsend.symm.trans hsleep)).2
  refine ⟨⟨?_, ?_, ?_⟩, hout⟩ <;> rw [hdevices] <;> rfl

theorem finishRx_ok (hframe : Dumpable M (aBase + 1) (BitVec.ofNat 32 ((aPacket.length + 9) / 8)))
    (hin : Readable M c.devices.CpInQAddr 3) (hout : Dumpable M c.devices.CpOutQAddr 3) :
    ∃ c', finishRx M aBase aPacket aNextWrIdx c = (.ok (), c') := by
  have hindex : memIndex (c.devices.CpInQAddr + 1).toNat < 8 * M.words :=
    memIndex_lt (hin 1 (by decide))
  obtain ⟨c₁, p, hsend, -⟩ :=
    sendSleep_ok WAKEUP_INPUT aNextWrIdx (wrote c (c.devices.CpInQAddr + 1) aNextWrIdx)
  refine ⟨c₁, ?_⟩
  rw [finishRx, Run.bind_apply_ok (dumpMem_iff.mpr ⟨hframe, rfl⟩),
    Run.bind_apply_ok (Run.get_apply c), Run.bind_apply_ok (memWriteWord_ok hindex)]
  exact sendSleep_dumpQueues.mpr ⟨hin.dumpable, hout, hsend⟩

/-- **What a frame writes**: the bytes of an entry and the index, or nothing if it is too long. -/
theorem takeFrame_inv {aRest : List EthFrame}
    (h : takeFrame M aBase aPacket aRest aNextWrIdx c = (.ok (), c')) :
    (cEtherPacketSize < aPacket.length ∧ Wrote c c' []) ∨
      (aPacket.length ≤ cEtherPacketSize ∧
        ReadableBytes M (aBase * 8) (storedLength aPacket) ∧
        Dumpable M c.devices.CpOutQAddr 3 ∧ Wrote c c' (subscripts (aBase * 8) (storedLength aPacket) ++
          (List.range 8).map (memIndex (c.devices.CpInQAddr + 1).toNat + ·))) := by
  obtain ⟨_, c₁, hqueue, hrest⟩ := Run.bind_eq_ok h
  cases hqueue
  split at hrest
  · rename_i hlen
    obtain ⟨_, c₂, hstore, hfinish⟩ := Run.bind_eq_ok hrest
    obtain ⟨hread, hwrote⟩ := storeFrame_inv hstore
    obtain ⟨hindex, hout⟩ := finishRx_inv hfinish
    rw [hwrote.input] at hindex
    rw [hwrote.output] at hout
    exact .inr ⟨hlen, hread, hout, Wrote.trans ⟨hwrote.written, hwrote.input, hwrote.output⟩ hindex⟩
  · rename_i hlong
    cases hrest
    exact .inl ⟨Nat.lt_of_not_le hlong, (List.append_nil _).symm, rfl, rfl⟩

theorem takeFrame_ok {aRest : List EthFrame} (hin : Readable M c.devices.CpInQAddr 3)
    (hfits : aPacket.length ≤ cEtherPacketSize →
      ReadableBytes M (aBase * 8) (storedLength aPacket) ∧
        Dumpable M (aBase + 1) (BitVec.ofNat 32 ((aPacket.length + 9) / 8)) ∧
        Dumpable M c.devices.CpOutQAddr 3) :
    ∃ c', takeFrame M aBase aPacket aRest aNextWrIdx c = (.ok (), c') := by
  by_cases hlen : aPacket.length ≤ cEtherPacketSize
  · obtain ⟨hread, hframe, hout⟩ := hfits hlen
    obtain ⟨c₁, hstore⟩ := storeFrame_ok (c := { c with devices := { c.devices with
      mPacketCaptureThread := some aRest } }) hread
    have hwrote := (storeFrame_inv hstore).2
    have hin' : Readable M c₁.devices.CpInQAddr 3 := by
      rw [hwrote.input]
      exact hin
    have hout' : Dumpable M c₁.devices.CpOutQAddr 3 := by
      rw [hwrote.output]
      exact hout
    obtain ⟨c', hfinish⟩ : ∃ c', finishRx M aBase aPacket aNextWrIdx c₁ = (.ok (), c') :=
      finishRx_ok hframe hin' hout'
    refine ⟨c', ?_⟩
    rw [takeFrame, setQueue, Run.bind_apply_ok (Run.modify_apply _ c), if_pos hlen,
      Run.bind_apply_ok hstore, hfinish]
  · refine ⟨{ c with devices := { c.devices with mPacketCaptureThread := some aRest } }, ?_⟩
    rw [takeFrame, setQueue, Run.bind_apply_ok (Run.modify_apply _ c), if_neg hlen]
    rfl

/-! ## 2. The input ring -/

/-- The first byte of the entry that is next in the input ring, as the ring has it. -/
def slotStart (d : EthDevices) : Nat :=
  (d.CpInQAddr.toNat + 3 + 192 * (headerOf d d.CpInQAddr).wrIdx.toNat) * 8

/-- A byte of that entry. -/
structure InSlot (d : EthDevices) (x : Nat) : Prop where
  ring : (headerOf d d.CpInQAddr).wrIdx.toNat < (headerOf d d.CpInQAddr).size.toNat
  start : slotStart d ≤ x
  stop : x < slotStart d + cEtherPacketSize

/-- A byte of the write index. -/
def InIndex (d : EthDevices) (x : Nat) : Prop :=
  (d.CpInQAddr + 1).toNat * 8 ≤ x ∧ x < (d.CpInQAddr + 1).toNat * 8 + 8

/-- `HandleRxPacket` returns, and has written nothing but the entry and the index. -/
def RxSafe (M : MemorySize) (c : EthCluster) : Prop :=
  ∃ c' ws, handleRxPacket M c = (.ok (), c') ∧ c'.devices.written = c.devices.written ++ ws ∧
    ∀ x ∈ ws, InSlot c.devices x ∨ InIndex c.devices x

/-- A frame fits into the entry that is next. -/
structure Fits (M : MemorySize) (d : EthDevices) (aPacket : EthFrame) : Prop where
  ring : (headerOf d d.CpInQAddr).wrIdx.toNat < (headerOf d d.CpInQAddr).size.toNat
  length : storedLength aPacket ≤ cEtherPacketSize
  memory : slotStart d + storedLength aPacket ≤ 8 * M.words
  reach : slotStart d + storedLength aPacket ≤ 2 ^ 32

/-- With an adapter, the header of the input ring is in memory, its size is not 0, and a frame that
    is stored fits, with the other header in memory for the log. -/
structure RxCondition (M : MemorySize) (d : EthDevices) : Prop where
  header : d.mPacketCaptureThread.isSome → Readable M d.CpInQAddr 3
  size : d.mPacketCaptureThread.isSome → (headerOf d d.CpInQAddr).size ≠ 0
  frame : ∀ packet rest, d.mPacketCaptureThread = some (packet :: rest) →
    nextIdx (headerOf d d.CpInQAddr).size (headerOf d d.CpInQAddr).wrIdx ≠
      (headerOf d d.CpInQAddr).rdIdx →
    packet.length ≤ cEtherPacketSize → Fits M d packet ∧ Dumpable M d.CpOutQAddr 3

theorem toNat_entryBase (aQueue : CAddr) (idx : CInt) :
    (entryBase aQueue idx).toNat =
      (aQueue.toNat + 3 + idx.toNat * 1536 % 2 ^ 64 / 8) % 2 ^ 32 := by
  have hqueue : (aQueue + 3).toNat = (aQueue.toNat + 3) % 2 ^ 32 := BitVec.toNat_add aQueue 3
  have hmul : (idx * BitVec.ofNat 64 cEtherPacketSize).toNat = idx.toNat * 1536 % 2 ^ 64 :=
    BitVec.toNat_mul idx _
  have hdiv : (idx * BitVec.ofNat 64 cEtherPacketSize / 8).toNat =
      idx.toNat * 1536 % 2 ^ 64 / 8 := by
    rw [BitVec.toNat_udiv, hmul]
    rfl
  rw [entryBase, BitVec.toNat_setWidth, BitVec.toNat_add, BitVec.toNat_setWidth, hqueue, hdiv]
  omega

theorem toNat_entryStart (d : EthDevices) :
    (entryBase d.CpInQAddr (headerOf d d.CpInQAddr).wrIdx * 8).toNat = slotStart d % 2 ^ 32 := by
  have hmul : (entryBase d.CpInQAddr (headerOf d d.CpInQAddr).wrIdx * 8).toNat =
      (entryBase d.CpInQAddr (headerOf d d.CpInQAddr).wrIdx).toNat * 8 % 2 ^ 32 :=
    BitVec.toNat_mul _ 8
  rw [hmul, toNat_entryBase, slotStart]
  generalize (headerOf d d.CpInQAddr).wrIdx.toNat = wr at *
  omega

theorem not_inIndex_entryStart (d : EthDevices) (idx : CInt) :
    ¬ InIndex d (entryBase d.CpInQAddr idx * 8).toNat := by
  have hmul : (entryBase d.CpInQAddr idx * 8).toNat =
      (entryBase d.CpInQAddr idx).toNat * 8 % 2 ^ 32 := BitVec.toNat_mul _ 8
  have hindex : (d.CpInQAddr + 1).toNat = (d.CpInQAddr.toNat + 1) % 2 ^ 32 :=
    BitVec.toNat_add d.CpInQAddr 1
  rw [InIndex, hmul, toNat_entryBase, hindex]
  omega

section fits
variable {d : EthDevices} {packet : EthFrame}

theorem index_lt_slotStart (h : slotStart d < 2 ^ 32) :
    (d.CpInQAddr + 1).toNat * 8 + 16 ≤ slotStart d := by
  have hindex : (d.CpInQAddr + 1).toNat = (d.CpInQAddr.toNat + 1) % 2 ^ 32 :=
    BitVec.toNat_add d.CpInQAddr 1
  rw [slotStart] at h ⊢
  rw [hindex]
  omega

theorem toNat_stored (d : EthDevices) (j : Nat) :
    (entryBase d.CpInQAddr (headerOf d d.CpInQAddr).wrIdx * 8 + BitVec.ofNat 32 j).toNat =
      (slotStart d + j) % 2 ^ 32 := by
  rw [BitVec.toNat_add, toNat_entryStart d, BitVec.toNat_ofNat]
  omega

/-- If everything that was stored is in the entry, the frame fits. -/
theorem fits_of_stored
    (hread : ReadableBytes M (entryBase d.CpInQAddr (headerOf d d.CpInQAddr).wrIdx * 8)
      (storedLength packet))
    (hall : ∀ x ∈ subscripts (entryBase d.CpInQAddr (headerOf d d.CpInQAddr).wrIdx * 8)
      (storedLength packet), InSlot d x ∨ InIndex d x) : Fits M d packet := by
  have hpos : 0 < storedLength packet := by
    unfold storedLength
    omega
  have hfirst : InSlot d (entryBase d.CpInQAddr (headerOf d d.CpInQAddr).wrIdx * 8).toNat := by
    refine (hall _ (mem_subscripts.mpr ⟨0, hpos, ?_⟩)).resolve_right (not_inIndex_entryStart d _)
    rw [add_ofNat_zero]
  have hring := hfirst.ring
  have hstart : slotStart d < 2 ^ 32 := by
    have hle := hfirst.start
    rw [toNat_entryStart d] at hle
    omega
  have hindex := index_lt_slotStart hstart
  have hbyte : ∀ j < storedLength packet,
      InSlot d ((slotStart d + j) % 2 ^ 32) ∨ InIndex d ((slotStart d + j) % 2 ^ 32) :=
    fun j hj => hall _ (mem_subscripts.mpr ⟨j, hj, (toNat_stored d j).symm⟩)
  -- behind the last subscript comes byte 0, which is in front of the ring
  have hreach : slotStart d + storedLength packet ≤ 2 ^ 32 := by
    by_contra hover
    have hwrap : (slotStart d + (2 ^ 32 - slotStart d)) % 2 ^ 32 = 0 := by omega
    have hzero := hbyte (2 ^ 32 - slotStart d) (by omega)
    rw [hwrap] at hzero
    rcases hzero with h | h
    · have hle := h.start
      omega
    · have hle := h.1
      have hsum : (d.CpInQAddr + 1).toNat = (d.CpInQAddr.toNat + 1) % 2 ^ 32 :=
        BitVec.toNat_add d.CpInQAddr 1
      rw [slotStart] at hstart
      omega
  have hlast : (slotStart d + (storedLength packet - 1)) % 2 ^ 32 =
      slotStart d + storedLength packet - 1 := by omega
  refine ⟨hring, ?_, ?_, hreach⟩
  · have hin := hbyte (storedLength packet - 1) (by omega)
    rw [hlast] at hin
    rcases hin with h | h
    · have hlt := h.stop
      omega
    · have hlt := h.2
      omega
  · have hlt := hread (storedLength packet - 1) (by omega)
    rw [toNat_stored d, hlast] at hlt
    omega

theorem Fits.stored (h : Fits M d packet) :
    ReadableBytes M (entryBase d.CpInQAddr (headerOf d d.CpInQAddr).wrIdx * 8)
        (storedLength packet) ∧
      ∀ x ∈ subscripts (entryBase d.CpInQAddr (headerOf d d.CpInQAddr).wrIdx * 8)
        (storedLength packet), InSlot d x := by
  have hbyte : ∀ j < storedLength packet,
      (entryBase d.CpInQAddr (headerOf d d.CpInQAddr).wrIdx * 8 + BitVec.ofNat 32 j).toNat =
        slotStart d + j := by
    intro j hj
    have hreach := h.reach
    rw [toNat_stored]
    omega
  have hlen := h.length
  have hmem := h.memory
  constructor
  · intro j hj
    rw [hbyte j hj]
    omega
  · intro x hx
    obtain ⟨j, hj, rfl⟩ := mem_subscripts.mp hx
    rw [hbyte j hj]
    exact ⟨h.ring, by omega, by omega⟩

theorem Fits.dumpable (h : Fits M d packet) :
    Dumpable M (entryBase d.CpInQAddr (headerOf d d.CpInQAddr).wrIdx + 1)
      (BitVec.ofNat 32 ((packet.length + 9) / 8)) := by
  have hmem := h.memory
  have hreach := h.reach
  have hlen := h.length
  rw [slotStart, storedLength] at hmem hreach
  rw [storedLength, cEtherPacketSize] at hlen
  have hbase := toNat_entryBase d.CpInQAddr (headerOf d d.CpInQAddr).wrIdx
  generalize entryBase d.CpInQAddr (headerOf d d.CpInQAddr).wrIdx = base at *
  generalize (headerOf d d.CpInQAddr).wrIdx.toNat = wr at *
  have hnext : (base + 1).toNat = (base.toNat + 1) % 2 ^ 32 := BitVec.toNat_add base 1
  intro i hi
  rw [BitVec.toNat_add, BitVec.toNat_ofNat, hnext] at hi
  rw [BitVec.toNat_add, BitVec.toNat_ofNat, hnext]
  omega

/-- A frame that fits leaves the subscript of the index in reach. -/
theorem Fits.index (h : Fits M d packet) :
    ∀ x ∈ (List.range 8).map (memIndex (d.CpInQAddr + 1).toNat + ·), InIndex d x := by
  have hpos : 0 < storedLength packet := by
    unfold storedLength
    omega
  have hreach := h.reach
  have hindex := index_lt_slotStart (d := d) (by omega)
  have hmod : memIndex (d.CpInQAddr + 1).toNat = (d.CpInQAddr + 1).toNat * 8 :=
    Nat.mod_eq_of_lt (by omega)
  intro x hx
  obtain ⟨i, hi, rfl⟩ := List.mem_map.mp hx
  have hlt := List.mem_range.mp hi
  rw [hmod]
  exact ⟨by omega, by omega⟩

end fits

theorem handleRxPacket_none (hthread : c.devices.mPacketCaptureThread = none) :
    handleRxPacket M c = (.ok (), c) := by
  rw [handleRxPacket, Run.bind_apply_ok (Run.get_apply c)]
  dsimp only
  rw [hthread]
  rfl

/-- Whether there is a frame and an entry for it. -/
def Takes (d : EthDevices) (packet : EthFrame) (rest : List EthFrame) : Prop :=
  d.mPacketCaptureThread = some (packet :: rest) ∧
    nextIdx (headerOf d d.CpInQAddr).size (headerOf d d.CpInQAddr).wrIdx ≠
      (headerOf d d.CpInQAddr).rdIdx

theorem handleRxPacket_some (hthread : c.devices.mPacketCaptureThread.isSome) :
    handleRxPacket M c = (.ok (), c') ↔
      Readable M c.devices.CpInQAddr 3 ∧
      (headerOf c.devices c.devices.CpInQAddr).size ≠ 0 ∧
      (((¬ ∃ packet rest, Takes c.devices packet rest) ∧ c' = c) ∨
        ∃ packet rest, Takes c.devices packet rest ∧
          takeFrame M (entryBase c.devices.CpInQAddr
              (headerOf c.devices c.devices.CpInQAddr).wrIdx) packet rest
            (nextIdx (headerOf c.devices c.devices.CpInQAddr).size
              (headerOf c.devices c.devices.CpInQAddr).wrIdx) c = (.ok (), c')) := by
  obtain ⟨queue, hqueue⟩ := Option.isSome_iff_exists.mp hthread
  rw [handleRxPacket, Run.bind_apply_ok (Run.get_apply c)]
  dsimp only
  rw [hqueue]
  dsimp only
  rw [Run.bind_ok_iff]
  constructor
  · rintro ⟨h, c₁, hheader, hrest⟩
    obtain ⟨hread, rfl, rfl⟩ := readHeader_iff.mp hheader
    split at hrest
    · cases hrest
    · rename_i hsize
      refine ⟨hread, hsize, ?_⟩
      cases queue with
      | nil =>
        cases hrest
        refine .inl ⟨?_, rfl⟩
        rintro ⟨packet, rest, hsome, -⟩
        cases hqueue.symm.trans hsome
      | cons packet rest =>
        dsimp only at hrest
        split at hrest
        · rename_i hfull
          cases hrest
          refine .inl ⟨?_, rfl⟩
          rintro ⟨packet, rest, -, hne⟩
          exact hne hfull
        · rename_i hne
          exact .inr ⟨packet, rest, ⟨hqueue, hne⟩, hrest⟩
  · rintro ⟨hread, hsize, htaken⟩
    refine ⟨_, c, readHeader_iff.mpr ⟨hread, rfl, rfl⟩, ?_⟩
    rw [if_neg hsize]
    rcases htaken with ⟨hnone, rfl⟩ | ⟨packet, rest, ⟨hsome, hne⟩, hrun⟩
    · cases queue with
      | nil => rfl
      | cons packet rest =>
        dsimp only
        split
        · rfl
        · rename_i hne
          exact absurd ⟨packet, rest, hqueue, hne⟩ hnone
    · obtain rfl := Option.some.inj (hqueue.symm.trans hsome)
      dsimp only
      rw [if_neg hne]
      exact hrun

theorem RxSafe.condition (hsafe : RxSafe M c) : RxCondition M c.devices := by
  obtain ⟨c', ws, hrun, hwritten, hall⟩ := hsafe
  by_cases hthread : c.devices.mPacketCaptureThread.isSome
  · obtain ⟨hread, hsize, htaken⟩ := (handleRxPacket_some hthread).mp hrun
    refine ⟨fun _ => hread, fun _ => hsize, fun packet rest hsome hne hlen => ?_⟩
    rcases htaken with ⟨hnone, -⟩ | ⟨packet', rest', ⟨hsome', -⟩, htake⟩
    · exact absurd ⟨packet, rest, hsome, hne⟩ hnone
    · obtain ⟨rfl, rfl⟩ := List.cons.inj (Option.some.inj (hsome.symm.trans hsome'))
      rcases takeFrame_inv htake with ⟨hlong, -⟩ | ⟨-, hbytes, hout, hwrote⟩
      · exact absurd hlen (Nat.not_le.mpr hlong)
      · refine ⟨fits_of_stored hbytes fun x hx => hall x ?_, hout⟩
        obtain rfl := List.append_cancel_left (hwritten.symm.trans hwrote.written)
        exact List.mem_append_left _ hx
  · exact ⟨fun h => absurd h hthread, fun h => absurd h hthread,
      fun packet rest hsome => absurd (Option.isSome_of_eq_some hsome) hthread⟩

theorem RxCondition.safe (h : RxCondition M c.devices) : RxSafe M c := by
  by_cases hthread : c.devices.mPacketCaptureThread.isSome
  · have hread := h.header hthread
    by_cases htakes : ∃ packet rest, Takes c.devices packet rest
    · obtain ⟨packet, rest, hsome, hne⟩ := htakes
      have hfits := h.frame packet rest hsome hne
      obtain ⟨c', htake⟩ : ∃ c', takeFrame M (entryBase c.devices.CpInQAddr
            (headerOf c.devices c.devices.CpInQAddr).wrIdx) packet rest
          (nextIdx (headerOf c.devices c.devices.CpInQAddr).size
            (headerOf c.devices c.devices.CpInQAddr).wrIdx) c = (.ok (), c') :=
        takeFrame_ok hread fun hlen =>
          ⟨(hfits hlen).1.stored.1, (hfits hlen).1.dumpable, (hfits hlen).2⟩
      have hrun := (handleRxPacket_some hthread).mpr
        ⟨hread, h.size hthread, .inr ⟨packet, rest, ⟨hsome, hne⟩, htake⟩⟩
      rcases takeFrame_inv htake with ⟨-, hwrote⟩ | ⟨hlen, -, -, hwrote⟩
      · exact ⟨c', [], hrun, hwrote.written, fun x hx => absurd hx List.not_mem_nil⟩
      · refine ⟨c', _, hrun, hwrote.written, fun x hx => ?_⟩
        rcases List.mem_append.mp hx with hslot | hindex
        · exact .inl ((hfits hlen).1.stored.2 x hslot)
        · exact .inr ((hfits hlen).1.index x hindex)
    · exact ⟨c, [], (handleRxPacket_some hthread).mpr ⟨hread, h.size hthread, .inl ⟨htakes, rfl⟩⟩,
        (List.append_nil _).symm, fun x hx => absurd hx List.not_mem_nil⟩
  · exact ⟨c, [], handleRxPacket_none (Option.not_isSome_iff_eq_none.mp hthread),
      (List.append_nil _).symm, fun x hx => absurd hx List.not_mem_nil⟩

/-- **The input ring is safe** under the condition, and only then. -/
theorem rxSafe_iff : RxSafe M c ↔ RxCondition M c.devices :=
  ⟨RxSafe.condition, RxCondition.safe⟩

end SimIopEth

end CraySim
