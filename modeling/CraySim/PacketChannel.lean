/-
  Subject:   The channel a simulated IOP sends packets to the mainframe on.

  `ChannelIToC_c` holds one packet in its slot and the rest in a queue. A tick moves the front of
  the queue into an empty slot, or writes the packet in the slot into the mainframe's buffer.
  `QueuePacket` uses the slot when it is empty, whatever waits in the queue.

  * `ChannelIToC`, `step` -- the channel and its events, with those of the mainframe side,
  * `pending` -- what waits, slot first,
  * `delivered` -- what a tick wrote into the mainframe's buffer,
  * `KeepsOrder` -- the packet queued does not get in front of one that waits,
  * `fifo` -- delivered and pending packets are the queued ones, in order.
-/
import CraySim.ChannelPort
import CraySim.Lib.EventRun

namespace CraySim

open SysRun (memRead)
open EventRun (run Along outputs)

/-! ## 1. The channel -/

/-- `SimIopCluster_c::ChannelIToC_c`. -/
structure ChannelIToC where
  port : ChannelPort
  mPacketQueue : List (List CInt)
  mPacket : List CInt
  mPacketIdx : Nat
  mPacketValid : Bool

namespace ChannelIToC

def sendPacket (aPacket : List CInt) (s : ChannelIToC) : Except Exn ChannelIToC :=
  if s.mPacketValid then .error .assertion
  else .ok { s with mPacket := aPacket, mPacketIdx := 0, mPacketValid := true }

def queuePacket (aPacket : List CInt) (s : ChannelIToC) : Except Exn ChannelIToC :=
  if !s.mPacketValid then s.sendPacket aPacket
  else .ok { s with mPacketQueue := s.mPacketQueue ++ [aPacket] }

/-- The loop of `ChannelTick` over the words left of the packet; the channel goes inactive with
    the last one only. -/
def transmit (mMemSizeInWords : Nat) : List CInt → ChannelIToC → Except Exn ChannelIToC
  | [], s => if s.port.ch.mActive then .error .undefinedBehaviour else .error .assertion
  | w :: ws, s =>
    if !s.port.ch.mActive then .error .assertion
    else do
      let port ← s.port.setData mMemSizeInWords w ws.isEmpty
      let s := { s with port := port, mPacketIdx := s.mPacketIdx + 1 }
      if ws.isEmpty then return { s with mPacketValid := false }
      else transmit mMemSizeInWords ws s

def channelTick (mMemSizeInWords : Nat) (s : ChannelIToC) : Except Exn ChannelIToC :=
  if !s.mPacketValid then
    match s.mPacketQueue with
    | [] => .ok s
    | front :: rest => do
      let s ← s.sendPacket front
      return { s with mPacketQueue := rest }
  else if s.port.ch.mActive then transmit mMemSizeInWords (s.mPacket.drop s.mPacketIdx) s
  else .ok s

/-- What can happen to the channel: calls of the cluster, ticks, calls of the processor. -/
inductive Event where
  | queuePacket (aPacket : List CInt)
  | channelTick
  | mainframe (op : ChannelOp)

def step (mMemSizeInWords : Nat) : Event → ChannelIToC → Except Exn ChannelIToC
  | .queuePacket aPacket, s => s.queuePacket aPacket
  | .channelTick, s => s.channelTick mMemSizeInWords
  | .mainframe op, s => .ok { s with port := { s.port with ch := op.apply s.port.ch } }

/-! ## 2. What a run queues and delivers -/

/-- The packets that wait, in the order they will be sent. -/
def pending (s : ChannelIToC) : List (List CInt) :=
  (if s.mPacketValid then [s.mPacket] else []) ++ s.mPacketQueue

/-- The words between the addresses of the channel before and after a tick. -/
def written (s s' : ChannelIToC) : List CInt :=
  memWords s'.port.mMemory s.port.ch.mAddress.toNat
    (s'.port.ch.mAddress - s.port.ch.mAddress).toNat

/-- The packet an event queues. -/
def queued : Event → List (List CInt)
  | .queuePacket aPacket => [aPacket]
  | _ => []

/-- What one event delivers: a tick that moves the address of the channel delivers what it wrote. -/
def delivered (s s' : ChannelIToC) : Event → List (List CInt)
  | .channelTick =>
    if s'.port.ch.mAddress = s.port.ch.mAddress then [] else [written s s']
  | _ => []

/-- Every packet sent finds a buffer it fits into. -/
def Fits (mMemSizeInWords : Nat) (s : ChannelIToC) : Event → Prop
  | .queuePacket _ => True
  | .channelTick => s.mPacketValid → s.port.ch.mActive →
      s.port.HasRoom mMemSizeInWords s.mPacket.length
  | .mainframe _ => True

/-- A packet is queued behind all that wait: the slot is not empty in front of a queue. -/
def KeepsOrder (s : ChannelIToC) : Event → Prop
  | .queuePacket aPacket => aPacket ≠ [] ∧ (s.mPacketValid ∨ s.mPacketQueue = [])
  | _ => True

/-- Nothing has been queued yet. -/
structure Fresh (s : ChannelIToC) : Prop where
  slot : s.mPacketValid = false
  queue : s.mPacketQueue = []

/-! ## 3. One packet into the buffer -/

section transmit

variable {mMemSizeInWords : Nat} {s : ChannelIToC}

/-- The channel once the words `ws` are in its buffer. -/
def transmitted (s : ChannelIToC) (ws : List CInt) : ChannelIToC :=
  { s with
    port :=
      { ch := { s.port.ch with
          mAddress := s.port.ch.mAddress + BitVec.ofNat 32 ws.length
          mActive := false
          mInterruptPending := true }
        mMemory := memWriteWords s.port.mMemory s.port.ch.mAddress.toNat ws }
    mPacketIdx := s.mPacketIdx + ws.length
    mPacketValid := false }

theorem transmit_ok {w : CInt} {ws : List CInt} (hactive : s.port.ch.mActive)
    (h : s.port.HasRoom mMemSizeInWords (w :: ws).length) :
    transmit mMemSizeInWords (w :: ws) s = .ok (s.transmitted (w :: ws)) := by
  induction ws generalizing s w with
  | nil =>
    rw [transmit, hactive, if_neg (by simp), ChannelPort.setData_ok hactive h]
    rfl
  | cons v vs ih =>
    have hnext := h.toNat_succ
    have hone : BitVec.ofNat 32 (w :: v :: vs).length =
        1 + BitVec.ofNat 32 (v :: vs).length := by
      rw [List.length_cons, Nat.add_comm, BitVec.ofNat_add]
      rfl
    have hidx : s.mPacketIdx + (w :: v :: vs).length =
        s.mPacketIdx + 1 + (v :: vs).length := by
      simp only [List.length_cons]
      omega
    rw [transmit, hactive, if_neg (by simp), ChannelPort.setData_ok hactive h]
    refine (ih ?_ h.next).trans ?_
    · exact hactive
    · simp only [transmitted, List.isEmpty_cons, Bool.false_eq_true, if_false, hnext, hone, hidx,
        memWriteWords, BitVec.add_assoc]

theorem address_transmitted_sub (ws : List CInt) :
    (s.transmitted ws).port.ch.mAddress - s.port.ch.mAddress = BitVec.ofNat 32 ws.length := by
  rw [transmitted, BitVec.add_comm, BitVec.add_sub_cancel]

/-- What the packet leaves in memory is the packet. -/
theorem written_transmitted {ws : List CInt} (h : s.port.HasRoom mMemSizeInWords ws.length) :
    written s (s.transmitted ws) = ws := by
  have hreach := h.reachable
  have hlen : (BitVec.ofNat 32 ws.length).toNat = ws.length := by
    unfold cReachableWords at hreach
    rw [BitVec.toNat_ofNat]
    exact Nat.mod_eq_of_lt (by omega)
  rw [written, address_transmitted_sub, hlen]
  exact memWords_memWriteWords hreach

theorem address_transmitted {ws : List CInt} (hne : ws ≠ [])
    (h : s.port.HasRoom mMemSizeInWords ws.length) :
    (s.transmitted ws).port.ch.mAddress ≠ s.port.ch.mAddress := by
  have hreach := h.reachable
  have hpos : 0 < ws.length := List.length_pos_iff.mpr hne
  intro he
  have hzero : BitVec.ofNat 32 ws.length = 0#32 := by
    rw [← address_transmitted_sub (s := s) ws, he, BitVec.sub_self]
  have hlen := congrArg BitVec.toNat hzero
  unfold cReachableWords at hreach
  rw [BitVec.toNat_ofNat, Nat.mod_eq_of_lt (by omega)] at hlen
  exact absurd hlen (by simp; omega)

end transmit

/-! ## 4. One event -/

/-- Between the events a packet in the slot has not been started, and no packet is empty. -/
structure WellKept (s : ChannelIToC) : Prop where
  start : s.mPacketValid → s.mPacketIdx = 0
  slot : s.mPacketValid → s.mPacket ≠ []
  queue : ∀ q ∈ s.mPacketQueue, q ≠ []

theorem Fresh.wellKept {s : ChannelIToC} (h : Fresh s) : WellKept s :=
  ⟨fun hv => absurd hv (by simp [h.slot]), fun hv => absurd hv (by simp [h.slot]),
    fun q hq => absurd hq (by simp [h.queue])⟩

theorem Fresh.pending {s : ChannelIToC} (h : Fresh s) : s.pending = [] := by
  simp [ChannelIToC.pending, h.slot, h.queue]

section step

variable {mMemSizeInWords : Nat} {s : ChannelIToC}

theorem queuePacket_ok {aPacket : List CInt} (hs : WellKept s) (hne : aPacket ≠ [])
    (hkeep : s.mPacketValid ∨ s.mPacketQueue = []) :
    ∃ s', s.queuePacket aPacket = .ok s' ∧ WellKept s' ∧ s'.pending = s.pending ++ [aPacket] := by
  cases hv : s.mPacketValid with
  | true =>
    refine ⟨{ s with mPacketQueue := s.mPacketQueue ++ [aPacket] }, by simp [queuePacket, hv],
      ⟨hs.start, hs.slot, ?_⟩, by simp [pending, hv]⟩
    intro q hq
    rcases List.mem_append.mp hq with hq | hq
    · exact hs.queue q hq
    · rwa [List.mem_singleton.mp hq]
  | false =>
    rcases hkeep with hkeep | hkeep
    · exact absurd hkeep (by simp [hv])
    · exact ⟨{ s with mPacket := aPacket, mPacketIdx := 0, mPacketValid := true },
        by simp [queuePacket, sendPacket, hv], ⟨fun _ => rfl, fun _ => hne, hs.queue⟩,
        by simp [pending, hv, hkeep]⟩

/-- A tick of an empty slot takes the front of the queue, and writes nothing. -/
theorem channelTick_empty (mMemSizeInWords : Nat) (hs : WellKept s)
    (hv : s.mPacketValid = false) :
    ∃ s', s.channelTick mMemSizeInWords = .ok s' ∧ WellKept s' ∧ s'.pending = s.pending ∧
      s'.port = s.port := by
  cases hq : s.mPacketQueue with
  | nil => exact ⟨s, by simp [channelTick, hv, hq], hs, rfl, rfl⟩
  | cons front rest =>
    have hfront : front ≠ [] := hs.queue front (by simp [hq])
    refine ⟨ChannelIToC.mk s.port rest front 0 true, ?_, ⟨fun _ => rfl, fun _ => hfront, ?_⟩,
      by simp [pending, hv, hq], rfl⟩
    · simp [channelTick, hv, hq, sendPacket]
    · exact fun q hmem => hs.queue q (by simp [hq, hmem])

/-- A tick of a primed channel writes the whole packet. -/
theorem channelTick_full (hs : WellKept s) (hv : s.mPacketValid) (hactive : s.port.ch.mActive)
    (h : s.port.HasRoom mMemSizeInWords s.mPacket.length) :
    s.channelTick mMemSizeInWords = .ok (s.transmitted s.mPacket) := by
  have hne := hs.slot hv
  rw [channelTick, hv, hactive, if_neg (by simp), if_pos rfl, hs.start hv, List.drop_zero]
  cases hp : s.mPacket with
  | nil => exact absurd hp hne
  | cons w ws => exact transmit_ok hactive (hp ▸ h)

/-- **One event**: what it delivers comes off the front of what waits, what it queues goes to the
    end. -/
theorem step_ok (hs : WellKept s) (e : Event) (hfits : Fits mMemSizeInWords s e)
    (hkeep : KeepsOrder s e) :
    ∃ s', step mMemSizeInWords e s = .ok s' ∧ WellKept s' ∧
      delivered s s' e ++ s'.pending = s.pending ++ queued e := by
  cases e with
  | queuePacket aPacket =>
    obtain ⟨s', hrun, hs', hpending⟩ := queuePacket_ok hs hkeep.1 hkeep.2
    exact ⟨s', hrun, hs', by simpa [delivered, queued] using hpending⟩
  | mainframe op =>
    exact ⟨_, rfl, ⟨hs.start, hs.slot, hs.queue⟩, by simp [delivered, queued, pending]⟩
  | channelTick =>
    cases hv : s.mPacketValid with
    | false =>
      obtain ⟨s', hrun, hs', hpending, hport⟩ := channelTick_empty mMemSizeInWords hs hv
      exact ⟨s', hrun, hs', by simp [delivered, queued, hport, hpending]⟩
    | true =>
      cases hactive : s.port.ch.mActive with
      | false =>
        refine ⟨s, ?_, hs, by simp [delivered, queued]⟩
        rw [step, channelTick, hv, hactive]
        rfl
      | true =>
        have hroom := hfits hv hactive
        refine ⟨s.transmitted s.mPacket, channelTick_full hs hv hactive hroom, ?_, ?_⟩
        · exact ⟨fun h => absurd h (by simp [transmitted]),
            fun h => absurd h (by simp [transmitted]), hs.queue⟩
        · rw [delivered, if_neg (address_transmitted (hs.slot hv) hroom),
            written_transmitted hroom]
          simp [pending, transmitted, hv, queued]

end step

/-! ## 5. Runs -/

/-- **The packet channel**: in a run that queues no packet in front of a waiting one, no call
    fails, and the packets delivered are the ones queued, whole, once each and in order, except
    those that still wait. -/
theorem fifo (mMemSizeInWords : Nat) (es : List Event) (s : ChannelIToC) (hs : Fresh s)
    (hfits : Along (step mMemSizeInWords) (Fits mMemSizeInWords) es s)
    (hkeep : Along (step mMemSizeInWords) KeepsOrder es s) :
    ∃ s', run (step mMemSizeInWords) es s = .ok s' ∧
      outputs (step mMemSizeInWords) delivered es s ++ s'.pending = es.flatMap queued := by
  obtain ⟨s', hrun, -, h⟩ := EventRun.run_balance
    (fun s e hs h => step_ok hs e h.1 h.2) hs.wellKept (hfits.and hkeep)
  exact ⟨s', hrun, by rw [h, hs.pending, List.nil_append]⟩

/-- A channel that has never been used, in front of a cleared memory. -/
def unused : ChannelIToC :=
  { port := { ch := ⟨0, 0, false, false, false, 0⟩, mMemory := fun _ => 0 }
    mPacketQueue := [], mPacket := [], mPacketIdx := 0, mPacketValid := false }

/-- Two packets are written, the second one behind a tick that takes it from the queue, and the
    third one waits. -/
def twoPackets : List Event :=
  [.queuePacket [5, 6], .queuePacket [7], .mainframe (.setLimit 2), .mainframe (.setAddress 0),
    .channelTick, .channelTick, .queuePacket [8], .mainframe (.setAddress 0), .channelTick]

theorem fifo_twoPackets : outputs (step 8) delivered twoPackets unused = [[5, 6], [7]] ∧
    ∃ s', run (step 8) twoPackets unused = .ok s' ∧
      outputs (step 8) delivered twoPackets unused ++ s'.pending = [[5, 6], [7], [8]] := by
  refine ⟨by decide +kernel, fifo 8 twoPackets unused ⟨rfl, rfl⟩ ?_ ?_⟩
  · exact .cons trivial rfl <| .cons trivial rfl <| .cons trivial rfl <| .cons trivial rfl <|
      .cons (fun _ _ => ⟨by decide, by decide, by decide⟩) rfl <|
        .cons (fun hv => absurd hv (by decide)) rfl <| .cons trivial rfl <| .cons trivial rfl <|
          .cons (fun _ _ => ⟨by decide, by decide, by decide⟩) rfl trivial
  · exact .cons ⟨by decide, .inr rfl⟩ rfl <| .cons ⟨by decide, .inl rfl⟩ rfl <|
      .cons trivial rfl <| .cons trivial rfl <| .cons trivial rfl <| .cons trivial rfl <|
        .cons ⟨by decide, .inl rfl⟩ rfl <| .cons trivial rfl <| .cons trivial rfl trivial

/-- Three packets; the third is queued after the first was delivered and before the next tick. -/
def overtaking : List Event :=
  [.queuePacket [1], .queuePacket [2], .mainframe (.setLimit 1), .mainframe (.setAddress 0),
    .channelTick, .queuePacket [3], .mainframe (.setAddress 0), .channelTick]

/-- The third packet is delivered in front of the second one. -/
theorem not_fifo_overtaking : ¬ ∀ (mMemSizeInWords : Nat) (es : List Event) (s : ChannelIToC),
    Fresh s → (∀ p ∈ es.flatMap queued, p ≠ []) →
      Along (step mMemSizeInWords) (Fits mMemSizeInWords) es s →
        ∃ s', run (step mMemSizeInWords) es s = .ok s' ∧
          outputs (step mMemSizeInWords) delivered es s ++ s'.pending = es.flatMap queued := by
  intro h
  have hfits : Along (step 8) (Fits 8) overtaking unused :=
    .cons trivial rfl <| .cons trivial rfl <| .cons trivial rfl <| .cons trivial rfl <|
      .cons (fun _ _ => ⟨by decide, by decide, by decide⟩) rfl <| .cons trivial rfl <|
        .cons trivial rfl
          ⟨fun _ _ => ⟨by decide, by decide, by decide⟩, fun _ _ => trivial⟩
  obtain ⟨s', -, hdelivered⟩ := h 8 overtaking unused ⟨rfl, rfl⟩ (by decide) hfits
  have hout : outputs (step 8) delivered overtaking unused = [[1], [3]] := by decide +kernel
  have hin : overtaking.flatMap queued = [[1], [2], [3]] := rfl
  rw [hout, hin] at hdelivered
  exact absurd hdelivered (by simp)

end ChannelIToC

end CraySim
