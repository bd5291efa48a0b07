/-
  Subject:   Input channels and the end of their buffer.

  `SetData` does not go inactive at the limit: every device has to stop in time. The devices are
  the output side of an IOP, a file, and a packet of a simulated IOP.

  * `FileInputChannel` -- the channel that reads a file, a word a tick,
  * `Buffer`, `Offer` -- what the mainframe gives, and what a device has for it,
  * `amount` -- the words an offer puts into its buffer,
  * `safe_iff` -- an offer stays in its buffer and fails no assertion if and only if its words fit.
-/
import CraySim.IopCrayChannel
import CraySim.PacketChannel
import CraySim.Lib.ByteFile

namespace CraySim

open SysRun (memIndex memWrite)
open EventRun (run)

/-! ## 1. Words put into a buffer -/

theorem memWriteWords_outside {mem : Nat → BitVec 8} {a i : Nat} {ws : List CInt}
    (ha : a + ws.length ≤ cReachableWords) (hi : i < a * 8 ∨ (a + ws.length) * 8 ≤ i) :
    memWriteWords mem a ws i = mem i := by
  induction ws generalizing mem a with
  | nil => rfl
  | cons w ws ih =>
    rw [List.length_cons] at ha hi
    have hindex : memIndex a = a * 8 := memIndex_of_lt (by omega)
    rw [memWriteWords, ih (by omega) (by omega), memWrite, hindex]
    refine ByteStore.store_of_outside (n := 8) w ?_
    omega

namespace ChannelPort

/-- The words `ws`, one `SetData` after the other. -/
def putWords (mMemSizeInWords : Nat) : List CInt → ChannelPort → Except Exn ChannelPort
  | [], p => .ok p
  | w :: ws, p => (p.setData mMemSizeInWords w false).bind (putWords mMemSizeInWords ws)

/-- What is left of the buffer of an active channel lies in memory. -/
structure InBuffer (mMemSizeInWords : Nat) (p : ChannelPort) : Prop where
  active : p.ch.mActive
  le : p.ch.mAddress.toNat ≤ p.ch.mLimit.toNat
  memory : p.ch.mLimit.toNat ≤ mMemSizeInWords
  reachable : p.ch.mLimit.toNat ≤ cReachableWords

/-- The words left of the buffer. -/
def left (p : ChannelPort) : Nat := p.ch.mLimit.toNat - p.ch.mAddress.toNat

/-- The channel once `ws` is in its buffer. -/
def filled (p : ChannelPort) (ws : List CInt) : ChannelPort :=
  { ch := { p.ch with mAddress := p.ch.mAddress + BitVec.ofNat 32 ws.length }
    mMemory := memWriteWords p.mMemory p.ch.mAddress.toNat ws }

variable {mMemSizeInWords : Nat} {p : ChannelPort}

theorem setData_at_limit (hactive : p.ch.mActive) (h : p.ch.mAddress = p.ch.mLimit) (w : CInt)
    (aWithDisconnect : Bool) :
    setData mMemSizeInWords w aWithDisconnect p = .error .assertion := by
  rw [setData, hactive, if_neg (by simp), if_pos h]

theorem InBuffer.hasRoom (h : InBuffer mMemSizeInWords p) {n : Nat} (hn : n ≤ p.left) :
    p.HasRoom mMemSizeInWords n := by
  have hle := h.le
  unfold left at hn
  exact hasRoom_of_buffer hle h.memory h.reachable (by omega)

theorem InBuffer.filled {ws : List CInt} (h : InBuffer mMemSizeInWords p)
    (hws : ws.length ≤ p.left) :
    InBuffer mMemSizeInWords (p.filled ws) ∧ (p.filled ws).left = p.left - ws.length := by
  have hle := h.le
  have hreach := h.reachable
  unfold cReachableWords at hreach
  unfold left at hws
  have haddress : (p.filled ws).ch.mAddress.toNat = p.ch.mAddress.toNat + ws.length := by
    rw [ChannelPort.filled, BitVec.toNat_add, BitVec.toNat_ofNat]
    omega
  have hlimit : (p.filled ws).ch.mLimit = p.ch.mLimit := rfl
  refine ⟨⟨h.active, ?_, h.memory, h.reachable⟩, ?_⟩
  · rw [haddress, hlimit]
    omega
  · rw [left, left, haddress, hlimit]
    omega

theorem filled_cons {w : CInt} {ws : List CInt} (hroom : p.HasRoom mMemSizeInWords (0 + 1)) :
    (p.filled [w]).filled ws = p.filled (w :: ws) := by
  have hnext : p.ch.mAddress + BitVec.ofNat 32 (w :: ws).length =
      p.ch.mAddress + 1 + BitVec.ofNat 32 ws.length := WordField.add_ofNat_succ _ _
  have haddress : (p.filled [w]).ch.mAddress = p.ch.mAddress + 1 := rfl
  have hmemory : (p.filled [w]).mMemory =
      memWrite p.mMemory p.ch.mAddress.toNat w := rfl
  have hcons : p.filled (w :: ws) =
      { ch := { p.ch with mAddress := p.ch.mAddress + BitVec.ofNat 32 (w :: ws).length }
        mMemory := memWriteWords (memWrite p.mMemory p.ch.mAddress.toNat w)
          (p.ch.mAddress.toNat + 1) ws } := rfl
  rw [hcons, ChannelPort.filled, haddress, hmemory, hroom.toNat_succ, hnext]
  rfl

/-- **Words into a buffer**: they are put there if and only if they fit, else the assertion on the
    limit fails. -/
theorem putWords_eq (h : InBuffer mMemSizeInWords p) (ws : List CInt) :
    p.putWords mMemSizeInWords ws =
      if ws.length ≤ p.left then .ok (p.filled ws) else .error .assertion := by
  induction ws generalizing p with
  | nil =>
    have hnil : p.filled [] = p := by simp [filled, memWriteWords]
    rw [List.length_nil, if_pos (Nat.zero_le _), putWords, hnil]
  | cons w ws ih =>
    by_cases hleft : p.left = 0
    · have hlimit : p.ch.mAddress = p.ch.mLimit := by
        have hle := h.le
        unfold left at hleft
        exact BitVec.eq_of_toNat_eq (by omega)
      rw [putWords, setData_at_limit h.active hlimit, if_neg (by simp [hleft])]
      rfl
    · have hroom : p.HasRoom mMemSizeInWords (0 + 1) := h.hasRoom (by omega)
      have hfilled : InBuffer mMemSizeInWords (p.filled [w]) ∧ (p.filled [w]).left = p.left - 1 :=
        h.filled (by simp; omega)
      have hset : p.setData mMemSizeInWords w false = .ok (p.filled [w]) :=
        setData_ok h.active hroom w false
      rw [putWords, hset]
      refine (ih hfilled.1).trans ?_
      rw [hfilled.2]
      rw [filled_cons hroom]
      simp only [List.length_cons]
      by_cases hfit : ws.length + 1 ≤ p.left
      · rw [if_pos (by omega), if_pos hfit]
      · rw [if_neg (by omega), if_neg hfit]

theorem mActive_setData {q : ChannelPort} {w : CInt}
    (h : p.setData mMemSizeInWords w false = .ok q) : q.ch.mActive := by
  unfold setData at h
  split at h
  · exact absurd h (by simp)
  · rename_i hactive
    split at h
    · exact absurd h (by simp)
    · split at h
      · exact absurd h (by simp)
      · obtain rfl := Except.ok.inj h
        simpa using hactive

theorem mMemory_filled_outside (h : InBuffer mMemSizeInWords p) {ws : List CInt}
    (hws : ws.length ≤ p.left) {i : Nat}
    (hi : i < p.ch.mAddress.toNat * 8 ∨ p.ch.mLimit.toNat * 8 ≤ i) :
    (p.filled ws).mMemory i = p.mMemory i := by
  have hle := h.le
  have hreach := h.reachable
  unfold left at hws
  exact memWriteWords_outside (by omega) (by omega)

end ChannelPort
/-! ## 2. The output side of an IOP -/

namespace IopCrayChannel

/-- The words the next `k` rounds of the loop send. -/
def outgoing : Nat → IopCrayChannel → List CInt
  | 0, _ => []
  | k + 1, s => ioWord s.ioMemory s.mIoMemoryAddr.toNat :: outgoing k s.advance

/-- The device behind a word that is in the buffer `p`. -/
def sentWord (p : ChannelPort) (s : IopCrayChannel) : IopCrayChannel :=
  { s with
    port := p
    mMsgBuffer := s.mMsgBuffer ++ [ioWord s.ioMemory s.mIoMemoryAddr.toNat] }.advance

/-- The device once its last words are in the buffer `p`. -/
def sent : Nat → ChannelPort → IopCrayChannel → IopCrayChannel
  | 0, p, s => { s with port := p }.complete
  | k + 1, p, s => sent k p (s.sentWord p)

/-- What holds of an output channel at all times. -/
structure Output (hold : Bool) (s : IopCrayChannel) : Prop where
  direction : s.mAllowItoC = true ∧ s.mAllowCtoI = false ∧ s.mCtoIActive = false
  hold : s.mHoldDisconnect = hold
  size : s.mTransferSize.toNat < 0x4000

variable {mMemSizeInWords : Nat} {s : IopCrayChannel} {hold : Bool}

@[simp] theorem length_outgoing (k : Nat) (s : IopCrayChannel) : (outgoing k s).length = k := by
  induction k generalizing s with
  | zero => rfl
  | succ k ih => rw [outgoing, List.length_cons, ih]

/-- The words do not depend on the channel they go to. -/
theorem outgoing_congr {s' : IopCrayChannel} (k : Nat) (hmem : s'.ioMemory = s.ioMemory)
    (haddr : s'.mIoMemoryAddr = s.mIoMemoryAddr) : outgoing k s' = outgoing k s := by
  induction k generalizing s s' with
  | zero => rfl
  | succ k ih =>
    have hnext : s'.advance.mIoMemoryAddr = s.advance.mIoMemoryAddr := by
      rw [advance, advance, haddr]
    rw [outgoing, outgoing, @ih s.advance s'.advance hmem hnext, hmem, haddr]

/-- Nor does the device behind them depend on the channel in between. -/
theorem sent_setPort (k : Nat) (s : IopCrayChannel) (p q : ChannelPort) :
    sent k p { s with port := q } = sent k p s := by
  cases k <;> rfl

theorem sent_sentWord (k : Nat) (s : IopCrayChannel) (p q : ChannelPort) :
    sent k p (s.sentWord q) = sent k p (s.sentWord p) :=
  sent_setPort k (s.sentWord p) p q

theorem transferWord_iToC (hs : Output hold s) (hitoc : s.mItoCActive) (hdone : s.mDone = false) :
    s.transferWord mMemSizeInWords =
      (s.port.setData mMemSizeInWords (ioWord s.ioMemory s.mIoMemoryAddr.toNat) false).bind
        fun p => .ok
          (if s.advance.mTransferSize = 0 then (s.sentWord p).complete else s.sentWord p) := by
  obtain ⟨-, -, hctoi⟩ := hs.direction
  rcases s with ⟨port, ioMemory, address, size, allowI, allowC, done, itoc, ctoi, rest⟩
  obtain rfl : itoc = true := hitoc
  obtain rfl : ctoi = false := hctoi
  obtain rfl : done = false := hdone
  simp only [transferWord, Bool.false_eq_true, if_false, if_true]
  rcases ChannelPort.setData mMemSizeInWords (ioWord ioMemory address.toNat) false port with e | p
  · rfl
  · exact (apply_ite Except.ok _ _ _).symm

theorem transferLoop_complete (fuel : Nat) (s : IopCrayChannel) :
    s.complete.transferLoop mMemSizeInWords fuel = .ok s.complete := by
  cases fuel <;> rfl

/-- **The loop**: the words of the transfer are put into the buffer, one after the other. -/
theorem transferLoop_iToC {k fuel : Nat} (hs : Output hold s) (hitoc : s.mItoCActive)
    (hdone : s.mDone = false) (hactive : s.port.ch.mActive) (hk : s.remaining = k + 1)
    (hfuel : k + 1 ≤ fuel) :
    s.transferLoop mMemSizeInWords fuel =
      (s.port.putWords mMemSizeInWords (outgoing (k + 1) s)).map fun p => sent (k + 1) p s := by
  induction k generalizing s fuel with
  | zero =>
    obtain ⟨fuel, rfl⟩ : ∃ f, fuel = f + 1 := ⟨fuel - 1, by omega⟩
    have hgo : s.transferring := by simp [transferring, hitoc, hactive]
    have hlast : s.advance.mTransferSize = 0 := by
      by_contra hne
      have hremaining := remaining_advance hs.size
      rw [if_neg hne] at hremaining
      have hpos := s.advance.remaining_pos
      omega
    rw [transferLoop, if_pos hgo, transferWord_iToC hs hitoc hdone, outgoing, ChannelPort.putWords]
    rcases s.port.setData mMemSizeInWords (ioWord s.ioMemory s.mIoMemoryAddr.toNat) false with e | p
    · rfl
    · simp only [Except.bind, if_pos hlast]
      exact transferLoop_complete fuel _
  | succ k ih =>
    obtain ⟨fuel, rfl⟩ : ∃ f, fuel = f + 1 := ⟨fuel - 1, by omega⟩
    have hgo : s.transferring := by simp [transferring, hitoc, hactive]
    have hremaining := remaining_advance hs.size
    have hmore : s.advance.mTransferSize ≠ 0 := by
      intro hlast
      rw [if_pos hlast] at hremaining
      omega
    rw [if_neg hmore] at hremaining
    rw [transferLoop, if_pos hgo, transferWord_iToC hs hitoc hdone, outgoing, ChannelPort.putWords]
    rcases hset : s.port.setData mMemSizeInWords (ioWord s.ioMemory s.mIoMemoryAddr.toNat) false
      with e | p
    · rfl
    · simp only [Except.bind, if_neg hmore]
      have hnext : Output hold (s.sentWord p) :=
        ⟨hs.direction, hs.hold, lt_of_eq_of_lt (toNat_advance_size s) (Nat.mod_lt _ (by omega))⟩
      have hleft : (s.sentWord p).remaining = k + 1 := Nat.succ.inj (hremaining.symm.trans hk)
      have hout : outgoing (k + 1) (s.sentWord p) = outgoing (k + 1) s.advance :=
        outgoing_congr (k + 1) rfl rfl
      rw [ih hnext hitoc hdone (ChannelPort.mActive_setData hset) hleft (by omega), hout]
      simp only [sent_sentWord _ s _ p]
      rfl

theorem Output.sent (hs : Output hold s) (k : Nat) (p : ChannelPort) :
    Output hold (sent k p s) ∧ (sent k p s).mItoCActive = false := by
  induction k generalizing s with
  | zero => exact ⟨⟨⟨hs.direction.1, hs.direction.2.1, rfl⟩, hs.hold, hs.size⟩, rfl⟩
  | succ k ih =>
    exact ih (s := s.sentWord p)
      ⟨hs.direction, hs.hold, lt_of_eq_of_lt (toNat_advance_size s) (Nat.mod_lt _ (by omega))⟩

theorem port_sent (hs : Output hold s) (hitoc : s.mItoCActive) (k : Nat) (p : ChannelPort) :
    (sent k p s).port = if hold then p else { p with ch := p.ch.disconnect } := by
  induction k generalizing s with
  | zero =>
    rw [sent, complete]
    simp only [hs.hold, hitoc]
    cases hold <;> rfl
  | succ k ih =>
    exact ih (s := s.sentWord p)
      ⟨hs.direction, hs.hold, lt_of_eq_of_lt (toNat_advance_size s) (Nat.mod_lt _ (by omega))⟩ hitoc

/-- **One transfer**: it ends if and only if its words fit into what is left of the buffer. -/
theorem doTransfer_output (hs : Output hold s) (hitoc : s.mItoCActive) (hdone : s.mDone = false)
    (hb : s.port.InBuffer mMemSizeInWords) :
    s.doTransfer mMemSizeInWords =
      if s.remaining ≤ s.port.left then
        .ok (sent s.remaining (s.port.filled (outgoing s.remaining s)) s)
      else .error .assertion := by
  obtain ⟨k, hk⟩ : ∃ k, s.remaining = k + 1 := ⟨s.remaining - 1, by
    have hpos := s.remaining_pos
    omega⟩
  have hle := remaining_le hs.size
  rw [doTransfer, transferLoop_iToC hs hitoc hdone hb.active hk (by omega),
    ChannelPort.putWords_eq hb, length_outgoing, ← hk]
  split <;> rfl

theorem doTransfer_inactive (h : s.port.ch.mActive = false) :
    s.doTransfer mMemSizeInWords = .ok s := by
  have hstop : s.transferring = false := by simp [transferring, h]
  rw [doTransfer, transferLoop, hstop]
  rfl

theorem doTransfer_idle (hs : Output hold s) (h : s.mItoCActive = false) :
    s.doTransfer mMemSizeInWords = .ok s := by
  have hstop : s.transferring = false := by simp [transferring, h, hs.direction.2.2]
  rw [doTransfer, transferLoop, hstop]
  rfl

/-! ## 3. Several transfers -/

/-- The calls of the IOP for transfers with these sizes and addresses. -/
def calls (ts : List (BitVec 16 × BitVec 16)) : List Event :=
  ts.flatMap fun t => [.transferSize t.1, .start t.2]

/-- The words of a transfer with this size. -/
def wordsOf (aData : BitVec 16) : Nat := if aData >>> 2 = 0 then 0x4000 else (aData >>> 2).toNat

/-- The device that waits with a transfer. -/
def started (s : IopCrayChannel) (t : BitVec 16 × BitVec 16) : IopCrayChannel :=
  { s with
    mTransferSize := t.1 >>> 2
    mIoMemoryAddr := t.2 >>> 2
    mCtoIActive := false
    mItoCActive := true
    mDone := false }

theorem Output.started (hs : Output hold s) (t : BitVec 16 × BitVec 16) :
    Output hold (s.started t) :=
  ⟨⟨hs.direction.1, hs.direction.2.1, rfl⟩, hs.hold, toNat_data t.1⟩

theorem step_start (hs : Output hold s) (aData : BitVec 16) :
    step mMemSizeInWords (.start aData) s =
      ({ s with
          mIoMemoryAddr := aData >>> 2, mCtoIActive := false, mItoCActive := true,
          mDone := false } : IopCrayChannel).doTransfer mMemSizeInWords := by
  rcases s with ⟨port, ioMemory, address, size, allowI, allowC, done, itoc, ctoi, rest⟩
  obtain rfl : allowI = true := hs.direction.1
  obtain rfl : allowC = false := hs.direction.2.1
  simp only [step, doIo, Bool.false_eq_true, if_false, if_true]
  rcases doTransfer mMemSizeInWords _ with e | s'
  · rfl
  · rfl

theorem run_calls_cons (hs : Output hold s) (t : BitVec 16 × BitVec 16)
    (ts : List (BitVec 16 × BitVec 16)) :
    run (step mMemSizeInWords) (calls (t :: ts)) s =
      ((s.started t).doTransfer mMemSizeInWords).bind
        (run (step mMemSizeInWords) (calls ts)) := by
  have hsized : Output hold { s with mTransferSize := t.1 >>> 2 } :=
    ⟨hs.direction, hs.hold, toNat_data t.1⟩
  have hfirst : step mMemSizeInWords (.transferSize t.1) s =
      .ok { s with mTransferSize := t.1 >>> 2 } := rfl
  have hcalls : calls (t :: ts) = .transferSize t.1 :: .start t.2 :: calls ts := rfl
  rw [hcalls, EventRun.run_cons hfirst, run, step_start hsized]
  rfl

/-- A run either stays in what is left of the buffer, where `amount` words fit, or fails. -/
def Stays (p : ChannelPort) (amount : Nat) (r : Except Exn IopCrayChannel) : Prop :=
  if amount ≤ p.left then
    ∃ s', r = .ok s' ∧ ∀ i, (i < p.ch.mAddress.toNat * 8 ∨ p.ch.mLimit.toNat * 8 ≤ i) →
      s'.port.mMemory i = p.mMemory i
  else ∃ e, r = .error e

/-- The words transfers put into one buffer: all of them, or without hold those of the first. -/
def amountOf (hold : Bool) (ks : List Nat) : Nat := if hold then ks.sum else ks.headD 0

theorem amountOf_hold (ks : List Nat) : amountOf true ks = ks.sum := rfl

theorem amountOf_first (k : Nat) (ks : List Nat) : amountOf false (k :: ks) = k := rfl

theorem head_le_amountOf (hold : Bool) (k : Nat) (ks : List Nat) :
    k ≤ amountOf hold (k :: ks) := by
  cases hold with
  | false => exact Nat.le_refl k
  | true =>
    rw [amountOf_hold, List.sum_cons]
    omega

theorem run_calls_inactive (mMemSizeInWords : Nat) (hs : Output hold s)
    (h : s.port.ch.mActive = false) (ts : List (BitVec 16 × BitVec 16)) :
    ∃ s', run (step mMemSizeInWords) (calls ts) s = .ok s' ∧ s'.port = s.port := by
  induction ts generalizing s with
  | nil => exact ⟨s, rfl, rfl⟩
  | cons t ts ih =>
    rw [run_calls_cons hs, doTransfer_inactive (s := s.started t) h]
    exact ih (hs.started t) h

theorem stays_doTransfer {ts : List (BitVec 16 × BitVec 16)} (hs : Output hold s)
    (hitoc : s.mItoCActive) (hdone : s.mDone = false) (hb : s.port.InBuffer mMemSizeInWords)
    (hts : ∀ s : IopCrayChannel, Output hold s → s.port.InBuffer mMemSizeInWords →
      Stays s.port (amountOf hold (ts.map fun t => wordsOf t.1))
        (run (step mMemSizeInWords) (calls ts) s)) :
    Stays s.port (amountOf hold (s.remaining :: ts.map fun t => wordsOf t.1))
      ((s.doTransfer mMemSizeInWords).bind (run (step mMemSizeInWords) (calls ts))) := by
  have hout := hs.sent s.remaining (s.port.filled (outgoing s.remaining s))
  have hport := port_sent hs hitoc s.remaining (s.port.filled (outgoing s.remaining s))
  rw [doTransfer_output hs hitoc hdone hb]
  by_cases hfit : s.remaining ≤ s.port.left
  · have hwords : (outgoing s.remaining s).length ≤ s.port.left := by simpa using hfit
    have hfilled := hb.filled hwords
    rw [length_outgoing] at hfilled
    rw [if_pos hfit]
    cases hold with
    | false =>
      obtain ⟨s', hrun, hsame⟩ := run_calls_inactive mMemSizeInWords hout.1 (by rw [hport]; rfl) ts
      rw [Stays, amountOf_first, if_pos hfit]
      refine ⟨s', hrun, fun i hi => ?_⟩
      rw [hsame, hport]
      exact ChannelPort.mMemory_filled_outside hb hwords hi
    | true =>
      rw [if_pos rfl] at hport
      have hrest := hts _ hout.1 (by rw [hport]; exact hfilled.1)
      rw [Stays, amountOf_hold, hport, hfilled.2] at hrest
      rw [Stays, amountOf_hold, List.sum_cons]
      by_cases hall : s.remaining + (ts.map fun t => wordsOf t.1).sum ≤ s.port.left
      · rw [if_pos (by omega)] at hrest
        rw [if_pos hall]
        obtain ⟨s', hrun, hsame⟩ := hrest
        refine ⟨s', hrun, fun i hi => ?_⟩
        have haddress : s.port.ch.mAddress.toNat ≤
            (s.port.filled (outgoing s.remaining s)).ch.mAddress.toNat := by
          have hle := hfilled.1.le
          have hlimit : (s.port.filled (outgoing s.remaining s)).ch.mLimit = s.port.ch.mLimit := rfl
          have hleft := hfilled.2
          have hstart := hb.le
          unfold ChannelPort.left at hleft
          rw [hlimit] at hle hleft
          omega
        rw [hsame i (hi.imp_left fun h => by omega)]
        exact ChannelPort.mMemory_filled_outside hb hwords hi
      · rw [if_neg (by omega)] at hrest
        rw [if_neg hall]
        exact hrest
  · have hmore := head_le_amountOf hold s.remaining (ts.map fun t => wordsOf t.1)
    rw [if_neg hfit, Stays, if_neg (by omega)]
    exact ⟨_, rfl⟩

/-- Transfers into the buffer of an active channel. -/
theorem stays_calls (ts : List (BitVec 16 × BitVec 16)) (hs : Output hold s)
    (hb : s.port.InBuffer mMemSizeInWords) :
    Stays s.port (amountOf hold (ts.map fun t => wordsOf t.1))
      (run (step mMemSizeInWords) (calls ts) s) := by
  induction ts generalizing s with
  | nil =>
    have hzero : amountOf hold [] = 0 := by cases hold <;> rfl
    rw [List.map_nil, hzero, Stays, if_pos (Nat.zero_le _)]
    exact ⟨s, rfl, fun _ _ => rfl⟩
  | cons t ts ih =>
    rw [run_calls_cons hs]
    exact stays_doTransfer (hs.started t) rfl rfl hb fun s hs hb => ih hs hb

end IopCrayChannel

/-! ## 4. A file -/

/-- `FileInputChannel_c`. -/
structure FileInputChannel where
  port : ChannelPort
  /-- The bytes of `mFile` that have not been read. -/
  rest : List (BitVec 8)
  /-- `mFile.good()`. -/
  good : Bool

namespace FileInputChannel

/-- The word of up to eight bytes, filled up with zeros behind. -/
def fileWord (bytes : List (BitVec 8)) : CInt :=
  BitVec.ofNat 64 (ByteFile.valueBE (bytes ++ List.replicate (8 - bytes.length) 0))

/-- `ChannelTick`; the end of the file is seen by a read that comes short. -/
def channelTick (mMemSizeInWords : Nat) (s : FileInputChannel) : Except Exn FileInputChannel :=
  if s.port.ch.mActive then
    if s.good then do
      let port ← s.port.setData mMemSizeInWords (fileWord (s.rest.take 8)) false
      let eof : Bool := s.rest.length < 8
      return {
        port := if eof then { port with ch := port.ch.disconnect } else port
        rest := s.rest.drop 8
        good := !eof }
    else .ok s
  else .ok s

/-- A number of ticks. -/
def ticks (mMemSizeInWords : Nat) : Nat → FileInputChannel → Except Exn FileInputChannel
  | 0, s => .ok s
  | t + 1, s => (s.channelTick mMemSizeInWords).bind (ticks mMemSizeInWords t)

/-- The words of as many ticks. -/
def fileWords : Nat → List (BitVec 8) → List CInt
  | 0, _ => []
  | t + 1, rest =>
    fileWord (rest.take 8) :: if rest.length < 8 then [] else fileWords t (rest.drop 8)

theorem length_fileWords (t : Nat) (rest : List (BitVec 8)) :
    (fileWords t rest).length = min t (rest.length / 8 + 1) := by
  induction t generalizing rest with
  | zero => simp [fileWords]
  | succ t ih =>
    rw [fileWords, List.length_cons]
    split
    · rw [List.length_nil]
      omega
    · rw [ih, List.length_drop]
      omega

variable {mMemSizeInWords : Nat} {s : FileInputChannel}

theorem ticks_inactive (t : Nat) (h : s.port.ch.mActive = false) :
    ticks mMemSizeInWords t s = .ok s := by
  induction t with
  | zero => rfl
  | succ t ih =>
    have hone : s.channelTick mMemSizeInWords = .ok s := by
      rw [channelTick, h]
      rfl
    rw [ticks, hone]
    exact ih

/-- **A file**: the ticks put its words into the buffer, and one more word behind its end. -/
theorem ticks_eq (t : Nat) (hactive : s.port.ch.mActive) (hgood : s.good) :
    (ticks mMemSizeInWords t s).map FileInputChannel.port =
      (s.port.putWords mMemSizeInWords (fileWords t s.rest)).map fun p =>
        if s.rest.length / 8 < t then { p with ch := p.ch.disconnect } else p := by
  induction t generalizing s with
  | zero => rfl
  | succ t ih =>
    rw [ticks, channelTick, if_pos hactive, if_pos hgood, fileWords, ChannelPort.putWords]
    rcases hset : s.port.setData mMemSizeInWords (fileWord (s.rest.take 8)) false with e | p
    · rfl
    · by_cases hend : s.rest.length < 8
      · have hlast : s.rest.length / 8 < t + 1 := by omega
        simp only [hend, decide_true, if_true, hlast]
        have hstop : ticks mMemSizeInWords t ⟨{ p with ch := p.ch.disconnect }, s.rest.drop 8, false⟩
            = .ok ⟨{ p with ch := p.ch.disconnect }, s.rest.drop 8, false⟩ := ticks_inactive t rfl
        exact congrArg (Except.map FileInputChannel.port) hstop
      · have hmore : (s.rest.drop 8).length / 8 < t ↔ s.rest.length / 8 < t + 1 := by
          rw [List.length_drop]
          omega
        simp only [hend, decide_false, Bool.false_eq_true, if_false, Bool.not_false, ← hmore]
        exact ih (s := ⟨p, s.rest.drop 8, true⟩) (ChannelPort.mActive_setData hset) rfl

end FileInputChannel

/-! ## 5. A packet -/

namespace ChannelIToC

variable {mMemSizeInWords : Nat}

theorem setData_disconnect (p : ChannelPort) (w : CInt) :
    p.setData mMemSizeInWords w true =
      (p.setData mMemSizeInWords w false).map fun p => { p with ch := p.ch.disconnect } := by
  unfold ChannelPort.setData
  split
  · rfl
  · split
    · rfl
    · split <;> rfl

/-- **A packet**: its words are put into the buffer, and the last one disconnects. -/
theorem transmit_eq (w : CInt) (ws : List CInt) (s : ChannelIToC) (hactive : s.port.ch.mActive) :
    (transmit mMemSizeInWords (w :: ws) s).map ChannelIToC.port =
      (s.port.putWords mMemSizeInWords (w :: ws)).map fun p =>
        { p with ch := p.ch.disconnect } := by
  induction ws generalizing s w with
  | nil =>
    rw [transmit, hactive, if_neg (by simp), ChannelPort.putWords, List.isEmpty_nil,
      setData_disconnect]
    rcases s.port.setData mMemSizeInWords w false with e | p
    · rfl
    · rfl
  | cons v vs ih =>
    rw [transmit, hactive, if_neg (by simp), ChannelPort.putWords, List.isEmpty_cons]
    rcases hset : s.port.setData mMemSizeInWords w false with e | p
    · rfl
    · exact ih v { s with port := p, mPacketIdx := s.mPacketIdx + 1 }
        (ChannelPort.mActive_setData hset)

end ChannelIToC

/-! ## 6. Offers -/

/-- A buffer in the memory of the mainframe, and not an empty one. -/
structure Buffer (mMemSizeInWords : Nat) where
  address : CAddr
  limit : CAddr
  nonempty : address.toNat < limit.toNat
  memory : limit.toNat ≤ mMemSizeInWords
  reachable : limit.toNat ≤ cReachableWords

variable {mMemSizeInWords : Nat}

/-- The words of a buffer. -/
def Buffer.size (b : Buffer mMemSizeInWords) : Nat := b.limit.toNat - b.address.toNat

/-- A channel of the mainframe that has not been used. -/
def idlePort (mem : Nat → BitVec 8) : ChannelPort :=
  { ch := ⟨0, 0, false, false, false, 0⟩, mMemory := mem }

/-- `SetLimit` and `SetAddress`. -/
def Buffer.give (b : Buffer mMemSizeInWords) (p : ChannelPort) : ChannelPort :=
  { p with ch := (p.ch.setLimit b.limit).setAddress b.address }

/-- What a device has for the mainframe. -/
inductive Offer where
  /-- Transfers of an IOP with or without hold, the first one perhaps started before there is a
      buffer; each with the data of its functions 002 and 001. -/
  | iop (ioMemory : Nat → CParcel) (hold : Bool) (early : Option (BitVec 16 × BitVec 16))
      (ts : List (BitVec 16 × BitVec 16))
  /-- A file, for a number of ticks. -/
  | file (content : List (BitVec 8)) (ticks : Nat)
  /-- A packet in the slot. -/
  | packet (words : List CInt)

/-- An output channel behind a master clear. -/
def outputChannel (mem : Nat → BitVec 8) (ioMemory : Nat → CParcel) : IopCrayChannel :=
  { port := idlePort mem, ioMemory := ioMemory, mIoMemoryAddr := 0, mTransferSize := 0
    mAllowItoC := true, mAllowCtoI := false, mDone := false, mItoCActive := false
    mCtoIActive := false, mInterruptEnabled := true, mHoldDisconnect := false
    mReadyWaiting := false, mIoMasterClear := false, mMsgBuffer := [], overread := false }

/-- The channel behind everything the device does with the buffer. -/
def Offer.run (mem : Nat → BitVec 8) (b : Buffer mMemSizeInWords) : Offer → Except Exn ChannelPort
  | .iop ioMemory hold early ts => do
    let r ← (outputChannel mem ioMemory).doIo mMemSizeInWords 0o04 (if hold then 0x200 else 0)
    let s ← EventRun.run (IopCrayChannel.step mMemSizeInWords)
      (IopCrayChannel.calls early.toList ++
        (.setLimit b.limit :: .setAddress b.address :: IopCrayChannel.calls ts)) r.2
    return s.port
  | .file content t =>
    (FileInputChannel.ticks mMemSizeInWords t ⟨b.give (idlePort mem), content, true⟩).map
      FileInputChannel.port
  | .packet words =>
    (ChannelIToC.channelTick mMemSizeInWords ⟨b.give (idlePort mem), [], words, 0, true⟩).map
      ChannelIToC.port

/-- The words an offer puts into a buffer. -/
def Offer.amount : Offer → Nat
  | .iop _ hold early ts =>
    IopCrayChannel.amountOf hold ((early.toList ++ ts).map fun t => IopCrayChannel.wordsOf t.1)
  | .file content t => min t (content.length / 8 + 1)
  | .packet words => words.length

/-- The device gets through without a failed assertion, and nothing changes outside the buffer. -/
def StaysInside (mem : Nat → BitVec 8) (b : Buffer mMemSizeInWords) (o : Offer) : Prop :=
  ∃ p, o.run mem b = .ok p ∧
    ∀ i, (i < b.address.toNat * 8 ∨ b.limit.toNat * 8 ≤ i) → p.mMemory i = mem i

/-- The words fit into the buffer; a packet has words. -/
def Fits (b : Buffer mMemSizeInWords) (o : Offer) : Prop :=
  o.amount ≤ b.size ∧ o ≠ .packet []

/-! ## 7. Who stays in the buffer -/

variable {mem : Nat → BitVec 8} {b : Buffer mMemSizeInWords}

theorem Buffer.inBuffer_give (b : Buffer mMemSizeInWords) (p : ChannelPort) :
    (b.give p).InBuffer mMemSizeInWords where
  active := by
    have hne : b.address ≠ b.limit := fun h => by
      have hlt := b.nonempty
      rw [h] at hlt
      omega
    exact bne_iff_ne.mpr hne
  le := Nat.le_of_lt b.nonempty
  memory := b.memory
  reachable := b.reachable

theorem Buffer.left_give (b : Buffer mMemSizeInWords) (p : ChannelPort) :
    (b.give p).left = b.size := rfl

/-- A device that puts words into the buffer and then only changes the channel. -/
theorem safe_of_putWords {o : Offer} {ws : List CInt} {f : ChannelPort → ChannelPort}
    (hrun : o.run mem b =
      ((b.give (idlePort mem)).putWords mMemSizeInWords ws).map f)
    (hf : ∀ p, (f p).mMemory = p.mMemory) : StaysInside mem b o ↔ ws.length ≤ b.size := by
  have hb := b.inBuffer_give (idlePort mem)
  rw [ChannelPort.putWords_eq hb, b.left_give] at hrun
  unfold StaysInside
  rw [hrun]
  by_cases hfit : ws.length ≤ b.size
  · simp only [hfit, if_true, iff_true]
    refine ⟨_, rfl, fun i hi => ?_⟩
    rw [hf]
    exact ChannelPort.mMemory_filled_outside hb (by rw [b.left_give]; exact hfit) hi
  · simp only [hfit, if_false, iff_false]
    rintro ⟨p, hp, -⟩
    exact absurd hp (by simp [Except.map])

theorem safe_file (content : List (BitVec 8)) (t : Nat) :
    StaysInside mem b (.file content t) ↔ min t (content.length / 8 + 1) ≤ b.size := by
  rw [← FileInputChannel.length_fileWords t content]
  refine safe_of_putWords (FileInputChannel.ticks_eq t
    (b.inBuffer_give (idlePort mem)).active rfl) fun p => ?_
  split <;> rfl

theorem safe_packet (w : CInt) (ws : List CInt) :
    StaysInside mem b (.packet (w :: ws)) ↔ (w :: ws).length ≤ b.size := by
  have hactive := (b.inBuffer_give (idlePort mem)).active
  refine safe_of_putWords (f := fun p => { p with ch := p.ch.disconnect }) ?_ fun p => rfl
  rw [Offer.run, ChannelIToC.channelTick]
  simp only [Bool.not_true, Bool.false_eq_true, if_false, hactive, if_true, List.drop_zero]
  exact ChannelIToC.transmit_eq w ws _ hactive

theorem not_safe_packet_nil : ¬ StaysInside mem b (.packet []) := by
  have hactive := (b.inBuffer_give (idlePort mem)).active
  rintro ⟨p, hp, -⟩
  rw [Offer.run, ChannelIToC.channelTick] at hp
  simp only [Bool.not_true, Bool.false_eq_true, if_false, hactive, if_true, List.drop_zero,
    ChannelIToC.transmit] at hp
  exact absurd hp (by simp [Except.map])

theorem safe_of_stays {r : Except Exn IopCrayChannel} {amount : Nat} {o : Offer}
    (hrun : o.run mem b = r.map IopCrayChannel.port)
    (h : IopCrayChannel.Stays (b.give (idlePort mem)) amount r) :
    StaysInside mem b o ↔ amount ≤ b.size := by
  unfold IopCrayChannel.Stays at h
  rw [b.left_give] at h
  unfold StaysInside
  rw [hrun]
  by_cases hfit : amount ≤ b.size
  · rw [if_pos hfit] at h
    obtain ⟨s', rfl, hsame⟩ := h
    simp only [hfit, iff_true]
    exact ⟨s'.port, rfl, hsame⟩
  · rw [if_neg hfit] at h
    obtain ⟨e, rfl⟩ := h
    simp only [hfit, iff_false]
    rintro ⟨p, hp, -⟩
    exact absurd hp (by simp [Except.map])

/-- A buffer given to an output channel starts what the IOP side waits with. -/
theorem run_give {s : IopCrayChannel} {hold : Bool} (hs : IopCrayChannel.Output hold s)
    (h : s.port.ch.mActive = false) (b : Buffer mMemSizeInWords)
    (es : List IopCrayChannel.Event) :
    EventRun.run (IopCrayChannel.step mMemSizeInWords)
        (.setLimit b.limit :: .setAddress b.address :: es) s =
      (({ s with port := b.give s.port, mReadyWaiting := true } :
        IopCrayChannel).doTransfer mMemSizeInWords).bind
          (EventRun.run (IopCrayChannel.step mMemSizeInWords) es) := by
  have hgo : (b.give s.port).ch.mActive = true := (b.inBuffer_give s.port).active
  have hlimit : IopCrayChannel.step mMemSizeInWords (.setLimit b.limit) s =
      .ok { s with port := { s.port with ch := s.port.ch.setLimit b.limit } } := rfl
  have haddress : IopCrayChannel.step mMemSizeInWords (.setAddress b.address)
      { s with port := { s.port with ch := s.port.ch.setLimit b.limit } } =
        ({ s with port := b.give s.port, mReadyWaiting := true } :
          IopCrayChannel).doTransfer mMemSizeInWords := by
    have hactivated : ((s.port.ch.setLimit b.limit).setAddress b.address).mActive = true := hgo
    have hbefore : (s.port.ch.setLimit b.limit).mActive = false := h
    rw [IopCrayChannel.step, IopCrayChannel.setAddress]
    simp only [hactivated, hbefore, Bool.not_false, Bool.and_true, if_true]
    rw [IopCrayChannel.handleActivation]
    simp only [hs.direction.2.2, Bool.not_false, if_true]
    rfl
  rw [EventRun.run_cons hlimit, EventRun.run, haddress]

/-- The output channel behind function 004. -/
def heldChannel (mem : Nat → BitVec 8) (ioMemory : Nat → CParcel) (hold : Bool) : IopCrayChannel :=
  { outputChannel mem ioMemory with mHoldDisconnect := hold }

theorem output_heldChannel (mem : Nat → BitVec 8) (ioMemory : Nat → CParcel) (hold : Bool) :
    IopCrayChannel.Output hold (heldChannel mem ioMemory hold) :=
  ⟨⟨rfl, rfl, rfl⟩, rfl, (by decide : (0 : BitVec 16).toNat < 0x4000)⟩

theorem run_iop (ioMemory : Nat → CParcel) (hold : Bool)
    (early : Option (BitVec 16 × BitVec 16)) (ts : List (BitVec 16 × BitVec 16)) :
    (Offer.iop ioMemory hold early ts).run mem b =
      (EventRun.run (IopCrayChannel.step mMemSizeInWords)
        (IopCrayChannel.calls early.toList ++
          (.setLimit b.limit :: .setAddress b.address :: IopCrayChannel.calls ts))
        (heldChannel mem ioMemory hold)).map IopCrayChannel.port := by
  have hheld : (outputChannel mem ioMemory).doIo mMemSizeInWords 0o04
      (if hold then 0x200 else 0) = .ok (0, heldChannel mem ioMemory hold) := by
    cases hold <;> rfl
  rw [Offer.run, hheld]
  rfl

theorem safe_iop (ioMemory : Nat → CParcel) (hold : Bool) (early : Option (BitVec 16 × BitVec 16))
    (ts : List (BitVec 16 × BitVec 16)) :
    StaysInside mem b (.iop ioMemory hold early ts) ↔
      (Offer.iop ioMemory hold early ts).amount ≤ b.size := by
  have hs := output_heldChannel mem ioMemory hold
  have hb := b.inBuffer_give (idlePort mem)
  refine safe_of_stays (run_iop ioMemory hold early ts) ?_
  cases early with
  | none =>
    have hgiven : IopCrayChannel.Output hold
        { heldChannel mem ioMemory hold with
          port := b.give (idlePort mem), mReadyWaiting := true } :=
      ⟨hs.direction, hs.hold, hs.size⟩
    have hgive := run_give hs rfl b (IopCrayChannel.calls ts)
    rw [show (heldChannel mem ioMemory hold).port = idlePort mem from rfl,
      IopCrayChannel.doTransfer_idle hgiven rfl] at hgive
    rw [Option.toList_none, IopCrayChannel.calls, List.flatMap_nil, List.nil_append, hgive]
    exact IopCrayChannel.stays_calls ts hgiven hb
  | some t =>
    have hstarted := hs.started t
    have hfirst : EventRun.run (IopCrayChannel.step mMemSizeInWords) (IopCrayChannel.calls [t])
        (heldChannel mem ioMemory hold) = .ok ((heldChannel mem ioMemory hold).started t) := by
      rw [IopCrayChannel.run_calls_cons hs, IopCrayChannel.doTransfer_inactive rfl]
      rfl
    have hgiven : IopCrayChannel.Output hold
        { (heldChannel mem ioMemory hold).started t with
          port := b.give (idlePort mem), mReadyWaiting := true } :=
      ⟨hstarted.direction, hstarted.hold, hstarted.size⟩
    rw [Option.toList_some, EventRun.run_append, hfirst]
    refine Eq.mpr (congrArg _ (run_give hstarted rfl b (IopCrayChannel.calls ts))) ?_
    exact IopCrayChannel.stays_doTransfer hgiven rfl rfl hb fun s hs hb =>
      IopCrayChannel.stays_calls ts hs hb

/-- **Input channels respect the limit** if and only if the words of the offer fit into the buffer,
    and a packet is not empty. -/
theorem safe_iff (mem : Nat → BitVec 8) (b : Buffer mMemSizeInWords) (o : Offer) :
    StaysInside mem b o ↔ Fits b o := by
  cases o with
  | iop ioMemory hold early ts =>
    rw [safe_iop]
    exact ⟨fun h => ⟨h, by simp⟩, fun h => h.1⟩
  | file content t =>
    rw [safe_file]
    exact ⟨fun h => ⟨h, by simp⟩, fun h => h.1⟩
  | packet words =>
    cases words with
    | nil => exact ⟨fun h => absurd h not_safe_packet_nil, fun h => absurd rfl h.2⟩
    | cons w ws =>
      rw [safe_packet]
      exact ⟨fun h => ⟨h, by simp⟩, fun h => h.1⟩

/-- A buffer of one word, and a file of eight bytes, which takes two. -/
theorem not_safe_fileOfOneWord :
    ¬ ∀ (mMemSizeInWords : Nat) (mem : Nat → BitVec 8) (b : Buffer mMemSizeInWords) (o : Offer),
      o ≠ .packet [] → StaysInside mem b o := by
  intro h
  have hsafe := h 8 (fun _ => 0) ⟨0, 1, by decide, by decide, by decide⟩
    (.file [1, 2, 3, 4, 5, 6, 7, 8] 2) (by simp)
  rw [safe_file] at hsafe
  exact absurd hsafe (by decide)

end CraySim
