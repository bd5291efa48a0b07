/-
  Subject:   A connection behind another one.

  Accepting clears the buffers and leaves the variables that keep the place in a message. Until the
  next connection comes, the ticks go on with the bytes that the last one has left. A new connection
  finds the concentrator as good as new exactly if both directions are between messages then, and no
  segment size is set.

  * `awaitStep`, `reconnected` -- the connection is closed, and the next one accepted some time later,
  * `BetweenMessages` -- where the concentrator is at that time,
  * `same_forever` -- what agrees in both directions shows the same,
  * `reconnected_iff` -- when the new connection is like the first one.
-/
import CraySim.ConcentratorDirections

namespace CraySim

open EventRun (exists_of_bind)
open IncrementalParser (Progress Parser)
open Observe (observe Indistinguishable)

namespace Concentrator

/-- What happens until the next connection is accepted. -/
inductive Awaiting where
  | tick
  | transfer (data : List CInt)
  | getData
  | masterClear

/-- The tick goes on with the bytes that are left. -/
def awaitStep : Awaiting → Concentrator → Except Exn Concentrator
  | .tick, c => (step (.tick []) c).map Prod.snd
  | .transfer data, c => (step (.transfer data) c).map Prod.snd
  | .getData, c => (step .getData c).map Prod.snd
  | .masterClear, c => .ok c.masterClear

/-- `CloseConnSocket`, and what happens until the next connection. -/
def awaited (es : List Awaiting) (c : Concentrator) : Except Exn Concentrator :=
  EventRun.run awaitStep es c.closeConnSocket

/-- `AcceptHandler` for the next connection. -/
def reconnected (es : List Awaiting) (c : Concentrator) : Except Exn Concentrator :=
  (awaited es c).map acceptHandler

/-- Both directions are in front of an LCP, and no logon has set the segment size. -/
structure BetweenMessages (c : Concentrator) : Prop where
  rcv : c.mRcvState = .lcpPduLength
  xmt : c.mXmtState = .lcpPduStart
  size : c.mSegmentSize = 0

/-! ## 1. What agrees in both directions shows the same -/

section same

variable {c c' d d' : Concentrator}

/-- Both directions agree. -/
structure SameBoth (c c' : Concentrator) : Prop where
  rcv : SameRcv c c'
  xmt : SameXmt c c'

theorem SameBoth.received (h : SameBoth c c') (hd : Received c c' d d') (hkeeps : KeepsXmt c d)
    (hkeeps' : KeepsXmt c' d') : SameBoth d d' where
  rcv := hd.1
  xmt :=
    { state := by rw [hkeeps'.state, hkeeps.state, h.xmt.state]
      accepted := by rw [hkeeps'.accepted, hkeeps.accepted, h.xmt.accepted]
      words := by rw [hkeeps'.words, hkeeps.words, h.xmt.words]
      size := hd.1.rcv.size
      count := by
        intro hseg
        rw [hkeeps.state] at hseg
        rcases hd.2 with hcount | ⟨hcount, hcount'⟩
        · exact hcount
        · rw [hcount', hcount, h.xmt.count hseg]
      code := by
        intro hseg
        rw [hkeeps.state] at hseg
        rw [hkeeps'.code, hkeeps.code, h.xmt.code hseg]
      sent := by
        intro hseg
        rw [hkeeps.state] at hseg
        rw [hkeeps'.sent, hkeeps.sent, h.xmt.sent hseg] }

theorem SameBoth.sent (h : SameBoth c c') (hd : Sent c c' d d') (hkeeps : KeepsRcv c d)
    (hkeeps' : KeepsRcv c' d') : SameBoth d d' where
  rcv :=
    { rcv := by
        rw [hkeeps.rcv, hkeeps'.rcv]
        have hrcv := h.rcv.rcv
        refine ⟨hrcv.state, hrcv.size, hrcv.length, fun hseg => ?_, hrcv.code⟩
        rcases hd.2 with hcount | ⟨hcount, hcount'⟩
        · exact hcount
        · exact hcount'.trans ((hrcv.count hseg).trans hcount.symm)
      bytes := by rw [hkeeps'.bytes, hkeeps.bytes, h.rcv.bytes]
      queue := by rw [hkeeps'.queue, hkeeps.queue, h.rcv.queue]
      idx := by rw [hkeeps'.idx, hkeeps.idx, h.rcv.idx] }
  xmt := hd.1

theorem SameBoth.step (h : SameBoth c c') (e : Event) :
    Observe.Alike SameBoth (Concentrator.step e c) (Concentrator.step e c') := by
  cases e with
  | tick bytes =>
    have hkeeps := (step_tick_same h.rcv bytes).and (fun _ hr => (step_tick_keeps hr).1)
      (fun _ hr => (step_tick_keeps hr).1)
    exact hkeeps.imp fun _ _ hd => h.received hd.1 hd.2.1 hd.2.2
  | getData =>
    have hkeeps := (step_getData_same h.rcv).and (fun _ hr => (step_getData_keeps hr).1)
      (fun _ hr => (step_getData_keeps hr).1)
    exact hkeeps.imp fun _ _ hd => h.received hd.1 hd.2.1 hd.2.2
  | transfer data =>
    have hkeeps := (step_transfer_same h.xmt data).and (fun _ hr => (step_transfer_keeps hr).1)
      (fun _ hr => (step_transfer_keeps hr).1)
    exact hkeeps.imp fun _ _ hd => h.sent hd.1 hd.2.1 hd.2.2

/-- **Both directions**: concentrators that agree show the same in every run. -/
theorem same_forever (h : SameBoth c c') : Indistinguishable step c c' := by
  intro es
  have hstep : ∀ e c c', SameBoth c c' → True → Observe.Alike SameBoth (step e c) (step e c') :=
    fun e _ _ h _ => h.step e
  exact (Observe.observe_bisim hstep h
    (Observe.Along.of_forall (fun _ _ => trivial) es c)).outputs_eq

theorem sameBoth_acceptHandler (h : BetweenMessages c) (mSubsegmentCount : BitVec 64) :
    SameBoth c.acceptHandler (constructed mSubsegmentCount).acceptHandler := by
  have hrcv : c.acceptHandler.rcv.mRcvState = .lcpPduLength := h.rcv
  have hxmt : c.acceptHandler.mXmtState = .lcpPduStart := h.xmt
  refine ⟨⟨⟨h.rcv.symm, h.size.symm, ?_, ?_, ?_⟩, rfl, rfl, rfl⟩,
    ⟨h.xmt.symm, rfl, rfl, h.size.symm, ?_, ?_, ?_⟩⟩
  · rw [hrcv]
    exact fun hseg => nomatch hseg
  · rw [hrcv]
    exact fun hseg => nomatch hseg
  · rw [hrcv]
    exact fun hseg => nomatch hseg
  · rw [hxmt]
    exact fun hseg => nomatch hseg
  · rw [hxmt]
    exact fun hseg => nomatch hseg
  · rw [hxmt]
    exact fun hseg => nomatch hseg

end same

/-! ## 2. Runs that tell a place in a message -/

/-- The connection is there, and no words are left. -/
structure Ready (c : Concentrator) : Prop where
  accepted : c.mAccepted = true
  words : c.mFromCrayData = []

section transfer

variable {c : Concentrator}

theorem step_transfer_eq (h : Ready c) (word : CInt) :
    step (.transfer [word]) c =
      (startTransmit { c with mFromCrayData := [word] }).map fun r => (.transmitted r.1, r.2) := by
  have hwords : [word].foldl setData c = { c with mFromCrayData := [word] } := by
    rw [foldl_setData, h.words]
    rfl
  rw [step, hwords, processFromCrayData, if_pos h.accepted]

/-- The number of segments an LCP announces. -/
def announces (word : CInt) : BitVec 64 := (word >>> 24) &&& 0xff

theorem transfer_lcp (h : Ready c) (word : CInt) (hstate : c.mXmtState = .lcpPduStart) :
    ∃ d, step (.transfer [word]) c =
        .ok (.transmitted (lengthBytes bytesPerLCP ++ wordBytes word), d) ∧
      Ready d ∧ KeepsRcv c d ∧ d.mXmtState = nextXmt (announces word) ∧
      d.mSubsegmentCount = announces word ∧ d.mLastXmitMessageCode = (word >>> 8).setWidth 8 := by
  rw [step_transfer_eq h, startTransmit, hstate]
  refine ⟨_, rfl, ⟨h.accepted, rfl⟩, ⟨rfl, rfl, rfl, rfl⟩, rfl, rfl, rfl⟩

/-- Between the parts of a PDU there is no length. -/
theorem transfer_content (h : Ready c) (word : CInt)
    (hstate : c.mXmtState = .lcpPduContent ∨ c.mXmtState = .segPduContent) :
    ∃ d, step (.transfer [word]) c = .ok (.transmitted (wordBytes word), d) := by
  rw [step_transfer_eq h, startTransmit]
  rcases hstate with hstate | hstate
  · rw [hstate]
    exact ⟨_, rfl⟩
  · rw [hstate]
    exact ⟨_, rfl⟩

/-- The length in front of a segment. -/
def segmentLength (c : Concentrator) : BitVec 64 :=
  if c.mLastXmitMessageCode = mcStart then 8 else c.mSegmentSize

theorem transmitSegment_next (start : Bool) :
    (c.transmitSegment start).2.mAccepted = c.mAccepted ∧
      (c.transmitSegment start).2.mXmtState =
        if (if start then 0 else c.mBytesTransmitted) +
              BitVec.ofNat 64 (8 * c.mFromCrayData.length) ≥ c.mSegmentSize ∨
            c.mLastXmitMessageCode = mcStart then nextXmt (c.mSubsegmentCount - 1)
        else .segPduContent := by
  unfold transmitSegment
  simp only
  generalize (if start then 0 else c.mBytesTransmitted) + _ = sent
  by_cases hend : sent ≥ c.mSegmentSize ∨ c.mLastXmitMessageCode = mcStart
  · rw [if_pos hend, if_pos hend]
    exact ⟨rfl, rfl⟩
  · rw [if_neg hend, if_neg hend]
    exact ⟨rfl, rfl⟩

theorem startTransmit_segStart (hstate : c.mXmtState = .segPduStart) :
    c.startTransmit = .ok ((c.transmitSegment true).1, { (c.transmitSegment true).2 with
      mFromCrayData := []
      mTransmitBufIdx := (c.mTransmitBufIdx + 1) % 16 }) := by
  rw [startTransmit, hstate]
  rfl

theorem transfer_segStart (h : Ready c) (word : CInt) (hstate : c.mXmtState = .segPduStart) :
    ∃ d, step (.transfer [word]) c =
        .ok (.transmitted (lengthBytes c.segmentLength ++ wordBytes word), d) ∧
      Ready d ∧ KeepsRcv c d ∧
      d.mXmtState = (if 8 ≥ c.mSegmentSize ∨ c.mLastXmitMessageCode = mcStart then
        nextXmt (c.mSubsegmentCount - 1) else .segPduContent) := by
  have hkeeps := (transmitSegment_keeps (c := { c with mFromCrayData := [word] }) true).1
  have hnext := transmitSegment_next (c := { c with mFromCrayData := [word] }) true
  have hstart : startTransmit { c with mFromCrayData := [word] } = _ :=
    startTransmit_segStart (c := { c with mFromCrayData := [word] }) hstate
  rw [step_transfer_eq h, hstart]
  exact ⟨_, rfl, ⟨hnext.1.trans h.accepted, rfl⟩,
    ⟨hkeeps.rcv, hkeeps.bytes, hkeeps.queue, hkeeps.idx⟩, hnext.2⟩

end transfer

theorem lengthBytes_inj {m n : BitVec 64} (h : lengthBytes m = lengthBytes n) :
    m.toNat % 2 ^ 32 = n.toNat % 2 ^ 32 := by
  simp only [lengthBytes, List.cons.injEq, and_true] at h
  obtain ⟨h3, h2, h1, h0⟩ := h
  have hbyte : ∀ {i : Nat} {m n : BitVec 64}, (m >>> i).setWidth 8 = (n >>> i).setWidth 8 →
      m.toNat / 2 ^ i % 256 = n.toNat / 2 ^ i % 256 := by
    intro i m n h
    have hnat := congrArg BitVec.toNat h
    simpa only [BitVec.toNat_setWidth, BitVec.toNat_ushiftRight, Nat.shiftRight_eq_div_pow]
      using hnat
  have hlow : m.toNat % 256 = n.toNat % 256 := by
    have hnat := congrArg BitVec.toNat h0
    simpa only [BitVec.toNat_setWidth] using hnat
  have hone := hbyte h1
  have htwo := hbyte h2
  have hthree := hbyte h3
  omega

section distinguish

variable {c f : Concentrator}

theorem not_content (h : Indistinguishable step c f) (hc : Ready c) (hf : Ready f)
    (hfresh : f.mXmtState = .lcpPduStart) :
    ¬ (c.mXmtState = .lcpPduContent ∨ c.mXmtState = .segPduContent) := by
  intro hstate
  obtain ⟨d, hd⟩ := transfer_content hc 0 hstate
  obtain ⟨f', hf', -⟩ := transfer_lcp hf 0 hfresh
  obtain ⟨hout, -⟩ := h.later hd hf'
  have hlen := congrArg List.length (Output.transmitted.inj hout)
  rw [List.length_append] at hlen
  simp [lengthBytes] at hlen

/-- A segment longer than a word goes on behind a word. -/
theorem segment_open {size : BitVec 64} {code : BitVec 8} (hsize : 8 < size.toNat)
    (hcode : code ≠ mcStart) : ¬ (8 ≥ size ∨ code = mcStart) := by
  rintro (hle | h)
  · rw [ge_iff_le, BitVec.le_def] at hle
    have h8 : (8 : BitVec 64).toNat = 8 := rfl
    omega
  · exact hcode h

/-- What is sent in front of the words tells the state. -/
theorem xmt_of_indistinguishable (h : Indistinguishable step c f) (hc : Ready c) (hf : Ready f)
    (hfresh : f.mXmtState = .lcpPduStart) : c.mXmtState = .lcpPduStart := by
  cases hstate : c.mXmtState with
  | lcpPduStart => rfl
  | lcpPduContent => exact absurd (.inl hstate) (not_content h hc hf hfresh)
  | segPduContent => exact absurd (.inr hstate) (not_content h hc hf hfresh)
  | segPduStart =>
    obtain ⟨d, hd, hready, -, hnext⟩ := transfer_segStart hc 0 hstate
    obtain ⟨f', hf', hready', -, hnext', -, -⟩ := transfer_lcp hf 0 hfresh
    obtain ⟨hout, hlater⟩ := h.later hd hf'
    have hfront := lengthBytes_inj (List.append_cancel_right (Output.transmitted.inj hout))
    have h48 : bytesPerLCP.toNat = 48 := rfl
    unfold segmentLength at hfront
    by_cases hcode : c.mLastXmitMessageCode = mcStart
    · have h8 : (8 : BitVec 64).toNat = 8 := rfl
      rw [if_pos hcode] at hfront
      omega
    · -- the segment goes on, where the fresh one starts another message
      rw [if_neg hcode] at hfront
      rw [if_neg (segment_open (by omega) hcode)] at hnext
      exact absurd (.inr hnext) (not_content hlater hready hready' hnext')

/-- The length of a segment tells the segment size. -/
theorem size_of_indistinguishable (h : Indistinguishable step c f) (hc : Ready c) (hf : Ready f)
    (hstate : c.mXmtState = .lcpPduStart) (hfresh : f.mXmtState = .lcpPduStart)
    (hzero : f.mSegmentSize = 0) : c.mSegmentSize = 0 := by
  obtain ⟨d, hd, hready, hkeeps, hnext, hcount, hcode⟩ := transfer_lcp hc 0x1000000 hstate
  obtain ⟨f', hf', hready', hkeeps', hnext', hcount', hcode'⟩ := transfer_lcp hf 0x1000000 hfresh
  obtain ⟨-, hlater⟩ := h.later hd hf'
  have hsize : d.mSegmentSize = c.mSegmentSize := congrArg Receiver.mSegmentSize hkeeps.rcv
  have hsize' : f'.mSegmentSize = 0 := (congrArg Receiver.mSegmentSize hkeeps'.rcv).trans hzero
  obtain ⟨d₂, hd₂, hready₂, -, hnext₂⟩ := transfer_segStart hready 0 hnext
  obtain ⟨f₂, hf₂, hready₂', -, hnext₂'⟩ := transfer_segStart hready' 0 hnext'
  obtain ⟨hout, hlater₂⟩ := hlater.later hd₂ hf₂
  have hfront := lengthBytes_inj (List.append_cancel_right (Output.transmitted.inj hout))
  have hother : ((0x1000000 : CInt) >>> 8).setWidth 8 ≠ mcStart := by decide
  unfold segmentLength at hfront
  rw [hcode, hcode', if_neg hother, if_neg hother, hsize, hsize'] at hfront
  rw [hcode', hsize', hcount', if_pos (.inl (by decide))] at hnext₂'
  by_contra hne
  -- the length is a multiple of 4 GiB
  have hpos : c.mSegmentSize.toNat ≠ 0 := fun h => hne (BitVec.eq_of_toNat_eq h)
  have hz : (0 : BitVec 64).toNat = 0 := rfl
  rw [hcode, hsize, if_neg (segment_open (by omega) hother)] at hnext₂
  exact not_content hlater₂ hready₂ hready₂' hnext₂' (.inr hnext₂)

end distinguish

/-! ## 3. Bytes that tell a place in a message -/

section bytes

/-- The length of an empty PDU, and a byte. -/
def emptyPdu : List (BitVec 8) := [0, 0, 0, 0, 0]

variable {s : Receiver}

theorem nextPdu_inContent (n : BitVec 64) : (nextPdu n).inContent = false := by
  unfold nextPdu
  split <;> rfl

theorem drain_short_length (h : s.mRcvState.inContent = false) {data : List (BitVec 8)}
    (hlen : data.length < 4) : receiver.drain s data = .ok ⟨s, [], data⟩ := by
  have hnone : ∀ next, readLength next s data = none := by
    intro next
    unfold readLength
    split
    · exact absurd hlen (by simp)
    · rfl
  refine Parser.drain_wait ?_
  cases hstate : s.mRcvState with
  | lcpPduContent => simp [hstate, RcvStates.inContent] at h
  | segPduContent => simp [hstate, RcvStates.inContent] at h
  | lcpPduLength => rw [receiver_step_length (.inl ⟨hstate, rfl⟩), hnone]; rfl
  | segPduLength => rw [receiver_step_length (.inr ⟨hstate, rfl⟩), hnone]; rfl

/-- An empty content of a segment uses up no bytes. -/
theorem step_emptySegment (hstate : s.mRcvState = .segPduContent) (hlen : s.mPduLength = 0)
    (hcode : s.mLastRcvdMessageCode ≠ mcLogon) (b : BitVec 8) (data : List (BitVec 8)) :
    receiver.step s (b :: data) = some (.ok ⟨{ s with
      mPduLength := 0
      mSubsegmentCount := s.mSubsegmentCount - 1
      mRcvState := nextPdu (s.mSubsegmentCount - 1) }, [], b :: data⟩) := by
  change receiveStep s (b :: data) = _
  unfold receiveStep
  rw [hstate, hlen]
  change some (readSegment s (b :: data)) = _
  rw [readSegment, logonSize, if_neg hcode, hlen]
  simp only [bind, Except.bind, takeWords_zero]
  rfl

/-- In front of a segment that is not one of a logon message. -/
theorem drain_emptyPdu (hstate : s.mRcvState = .segPduLength)
    (hcode : s.mLastRcvdMessageCode ≠ mcLogon) : ∃ t, receiver.drain s emptyPdu = .ok t := by
  have hlength : receiver.step s emptyPdu =
      some (.ok ⟨{ s with mPduLength := 0, mRcvState := .segPduContent }, [], [0]⟩) := by
    rw [receiver_step_length (.inr ⟨hstate, rfl⟩)]
    rfl
  have hcontent := step_emptySegment (s := { s with mPduLength := 0, mRcvState := .segPduContent })
    rfl rfl hcode 0 []
  rw [Parser.drain_ok hlength, Parser.drain_ok hcontent,
    drain_short_length (nextPdu_inContent _) (by simp)]
  exact ⟨_, rfl⟩

section word

variable (b0 b1 b2 b3 b4 b5 b6 b7 : BitVec 8)

/-- A PDU of one word. -/
def wordPdu : List (BitVec 8) := [0, 0, 0, 8, b0, b1, b2, b3, b4, b5, b6, b7]

theorem takeWords_word : takeWords 8 [b0, b1, b2, b3, b4, b5, b6, b7] =
    .ok ([bigEndian [b0, b1, b2, b3, b4, b5, b6, b7]], []) := by
  have hlen : (8 : BitVec 64).toNat = [b0, b1, b2, b3, b4, b5, b6, b7].length := rfl
  exact takeWords_ok hlen (by simp) []

theorem drain_wordPdu {p : Pdu} {s' : Receiver} {word : CInt}
    (hs' : s'.mRcvState.inContent = false)
    (hlength : receiver.step s (wordPdu b0 b1 b2 b3 b4 b5 b6 b7) =
      some (.ok ⟨inside p 8 s, [], [b0, b1, b2, b3, b4, b5, b6, b7]⟩))
    (hstep : receiver.step (inside p 8 s) [b0, b1, b2, b3, b4, b5, b6, b7] =
      some (.ok ⟨s', [word], []⟩)) :
    receiver.drain s (wordPdu b0 b1 b2 b3 b4 b5 b6 b7) = .ok ⟨s', [word], []⟩ := by
  rw [Parser.drain_ok hlength, Parser.drain_ok hstep, drain_short_length hs' (by simp)]
  rfl

theorem drain_wordLcp (hstate : s.mRcvState = .lcpPduLength) :
    ∃ t, receiver.drain s (wordPdu b0 b1 b2 b3 b4 b5 b6 b7) = .ok t ∧
      t.out = [bigEndian [b0, b1, b2, b3, b4, b5, b6, b7]] ∧
      t.state.mSegmentSize = s.mSegmentSize := by
  have hread : readLcp (inside .lcp 8 s) [b0, b1, b2, b3, b4, b5, b6, b7] = .ok ⟨{ s with
      mSubsegmentCount := b4.setWidth 64
      mLastRcvdMessageCode := b6
      mPduLength := 0
      mRcvState := nextPdu (b4.setWidth 64) }, [bigEndian [b0, b1, b2, b3, b4, b5, b6, b7]], []⟩ := by
    have htake : takeWords (inside .lcp 8 s).mPduLength [b0, b1, b2, b3, b4, b5, b6, b7] = _ :=
      takeWords_word b0 b1 b2 b3 b4 b5 b6 b7
    have h4 : byteAt [b0, b1, b2, b3, b4, b5, b6, b7] 4 = .ok b4 := rfl
    have h6 : byteAt [b0, b1, b2, b3, b4, b5, b6, b7] 6 = .ok b6 := rfl
    rw [readLcp, h4, h6]
    simp only [bind, Except.bind, htake]
    rfl
  have hcontent : receiver.step (inside .lcp 8 s) [b0, b1, b2, b3, b4, b5, b6, b7] =
      some (readLcp (inside .lcp 8 s) [b0, b1, b2, b3, b4, b5, b6, b7]) :=
    step_inside (List.cons_ne_nil _ _) (Nat.lt_irrefl 8)
  exact ⟨_, drain_wordPdu b0 b1 b2 b3 b4 b5 b6 b7 (nextPdu_inContent _)
    (step_length (p := .lcp) hstate 0 0 0 8 _) (hcontent.trans (congrArg some hread)), rfl, rfl⟩

/-- In front of a segment of a logon message it is the one in the word. -/
theorem drain_wordLogon (hstate : s.mRcvState = .segPduLength)
    (hcode : s.mLastRcvdMessageCode = mcLogon) :
    ∃ t, receiver.drain s (wordPdu b0 b1 b2 b3 b4 b5 b6 b7) = .ok t ∧
      t.out = [bigEndian [b0, b1, b2, b3, b4, b5, b6, b7]] ∧
      t.state.mSegmentSize = segmentSize b6 b7 := by
  have hread : readSegment (inside (.segment 0 mcLogon) 8 s) [b0, b1, b2, b3, b4, b5, b6, b7] =
      .ok ⟨{ s with
        mSegmentSize := segmentSize b6 b7
        mPduLength := 0
        mSubsegmentCount := s.mSubsegmentCount - 1
        mRcvState := nextPdu (s.mSubsegmentCount - 1) },
        [bigEndian [b0, b1, b2, b3, b4, b5, b6, b7]], []⟩ := by
    have htake : takeWords (inside (.segment 0 mcLogon) 8 s).mPduLength
        [b0, b1, b2, b3, b4, b5, b6, b7] = _ := takeWords_word b0 b1 b2 b3 b4 b5 b6 b7
    have hsize : logonSize (inside (.segment 0 mcLogon) 8 s) [b0, b1, b2, b3, b4, b5, b6, b7] =
        .ok (segmentSize b6 b7) := by
      have hlogon : (inside (.segment 0 mcLogon) 8 s).mLastRcvdMessageCode = mcLogon := hcode
      rw [logonSize, if_pos hlogon]
      rfl
    rw [readSegment, hsize]
    simp only [bind, Except.bind, htake]
    rfl
  have hcontent : receiver.step (inside (.segment 0 mcLogon) 8 s) [b0, b1, b2, b3, b4, b5, b6, b7] =
      some (readSegment (inside (.segment 0 mcLogon) 8 s) [b0, b1, b2, b3, b4, b5, b6, b7]) :=
    step_inside (List.cons_ne_nil _ _) (Nat.lt_irrefl 8)
  have hlength : receiver.step s (wordPdu b0 b1 b2 b3 b4 b5 b6 b7) =
      some (.ok ⟨inside (.segment 0 mcLogon) 8 s, [], [b0, b1, b2, b3, b4, b5, b6, b7]⟩) := by
    rw [receiver_step_length (.inr ⟨hstate, rfl⟩)]
    rfl
  exact ⟨_, drain_wordPdu b0 b1 b2 b3 b4 b5 b6 b7 (nextPdu_inContent _) hlength
    (hcontent.trans (congrArg some hread)), rfl, rfl⟩

end word

/-- The words of a content are those `takeWords` takes. -/
theorem step_content (h : s.mRcvState.inContent = true) {data : List (BitVec 8)}
    {r : Progress Receiver (BitVec 8) CInt} (hstep : receiver.step s data = some (.ok r)) :
    takeWords s.mPduLength data = .ok (r.out, r.rest) := by
  change receiveStep s data = _ at hstep
  unfold receiveStep at hstep
  split at hstep
  · cases hstep
  · cases hstate : s.mRcvState with
    | lcpPduLength => simp [hstate, RcvStates.inContent] at h
    | segPduLength => simp [hstate, RcvStates.inContent] at h
    | lcpPduContent =>
      simp only [hstate] at hstep
      split at hstep
      · cases hstep
      · obtain ⟨count, -, hread⟩ := exists_of_bind (Option.some.inj hstep)
        obtain ⟨code, -, hread⟩ := exists_of_bind hread
        obtain ⟨t, htake, hread⟩ := exists_of_bind hread
        obtain rfl := Except.ok.inj hread
        exact htake
    | segPduContent =>
      simp only [hstate] at hstep
      split at hstep
      · cases hstep
      · obtain ⟨size, -, hread⟩ := exists_of_bind (Option.some.inj hstep)
        obtain ⟨t, htake, hread⟩ := exists_of_bind hread
        obtain rfl := Except.ok.inj hread
        exact htake

/-- In a content that is not empty, the length of a PDU is taken for a part of it. -/
theorem drain_zeroPdu (h : s.mRcvState.inContent = true) (hlen : s.mPduLength ≠ 0)
    {t : Progress Receiver (BitVec 8) CInt}
    (ht : receiver.drain s (wordPdu 0 0 0 0 0 0 0 0) = .ok t) : t.out ≠ [0] := by
  rcases hstep : receiver.step s (wordPdu 0 0 0 0 0 0 0 0) with - | e | r
  · obtain rfl := Except.ok.inj ((Parser.drain_wait hstep).symm.trans ht)
    simp
  · exact absurd ((Parser.drain_error hstep).symm.trans ht) (by simp)
  · have htake := step_content h hstep
    have hfirst : ∃ words, r.out = 0x800000000 :: words := by
      rw [wordPdu, takeWords, if_neg hlen] at htake
      rcases hrest : takeWords (s.mPduLength - 8) [0, 0, 0, 0] with e | u
      · rw [hrest] at htake
        cases htake
      · rw [hrest] at htake
        have hout := congrArg Prod.fst (Except.ok.inj htake)
        exact ⟨u.1, hout.symm.trans rfl⟩
    obtain ⟨words, hwords⟩ := hfirst
    rw [Parser.drain_ok hstep] at ht
    rcases hrest : receiver.drain r.state r.rest with e | u
    · rw [hrest] at ht
      cases ht
    · rw [hrest] at ht
      obtain rfl := Except.ok.inj ht
      rw [hwords]
      intro heq
      exact absurd (List.cons.inj heq).1 (by decide)

theorem drain_one_error (hstate : s.mRcvState = .lcpPduContent ∨
      (s.mRcvState = .segPduContent ∧ s.mLastRcvdMessageCode = mcLogon))
    (hlen : s.mPduLength = 0) : receiver.drain s [0] = .error .undefinedBehaviour := by
  refine Parser.drain_error ?_
  change receiveStep s [0] = _
  unfold receiveStep
  rcases hstate with hstate | ⟨hstate, hcode⟩
  · rw [hstate, hlen]
    rfl
  · rw [hstate, hlen]
    change some (readSegment s [0]) = _
    rw [readSegment, logonSize, if_pos hcode]
    rfl

theorem drain_emptyLcp (hstate : s.mRcvState = .lcpPduLength) :
    receiver.drain s emptyPdu = .error .undefinedBehaviour := by
  have hcontent := drain_one_error (s := inside .lcp 0 s) (.inl rfl) rfl
  rw [emptyPdu, Parser.drain_ok (step_length (p := .lcp) hstate 0 0 0 0 [0])]
  change Except.map _ (receiver.drain (inside .lcp 0 s) [0]) = _
  rw [hcontent]
  rfl

end bytes

/-! ## 4. The new connection -/

section connection

variable {c f : Concentrator}

/-- The words queued for the same bytes are the same, or both fail. -/
theorem drain_of_indistinguishable (h : Indistinguishable step c f) (hc : c.mReceiveBuf = [])
    (hf : f.mReceiveBuf = []) (bytes : List (BitVec 8)) :
    (receiver.drain c.rcv bytes).map Progress.out = (receiver.drain f.rcv bytes).map Progress.out := by
  have hes := h [.tick bytes]
  rw [observe, observe, step_tick, step_tick, hc, hf, List.nil_append] at hes
  generalize receiver.drain c.rcv bytes = x, receiver.drain f.rcv bytes = y at hes ⊢
  rcases x with e | r
  · rcases y with e' | r'
    · exact congrArg Except.error (Except.error.inj hes)
    · cases hes
  · rcases y with e' | r'
    · cases hes
    · exact congrArg Except.ok (Output.queued.inj (List.cons.inj (Except.ok.inj hes)).1)

theorem drain_error_iff (h : Indistinguishable step c f) (hc : c.mReceiveBuf = [])
    (hf : f.mReceiveBuf = []) {bytes : List (BitVec 8)} {e : Exn}
    {t : Progress Receiver (BitVec 8) CInt} (hce : receiver.drain c.rcv bytes = .error e)
    (hft : receiver.drain f.rcv bytes = .ok t) : False := by
  have hboth := drain_of_indistinguishable h hc hf bytes
  rw [hce, hft] at hboth
  cases hboth

theorem length_of_indistinguishable (h : Indistinguishable step c f) (hc : c.mReceiveBuf = [])
    (hf : f.mReceiveBuf = []) (hfresh : f.mRcvState = .lcpPduLength)
    (hcontent : c.mRcvState.inContent = true) : c.mPduLength = 0 := by
  by_contra hlen
  obtain ⟨t, ht, hout, -⟩ := drain_wordLcp (s := f.rcv) 0 0 0 0 0 0 0 0 hfresh
  have hboth := drain_of_indistinguishable h hc hf (wordPdu 0 0 0 0 0 0 0 0)
  rw [ht] at hboth
  rcases hdrain : receiver.drain c.rcv (wordPdu 0 0 0 0 0 0 0 0) with e | u
  · rw [hdrain] at hboth
    cases hboth
  · rw [hdrain] at hboth
    exact drain_zeroPdu hcontent hlen hdrain ((Except.ok.inj hboth).trans hout)

/-- Inside a segment of a message that is no logon: an LCP that is sent sets the count. -/
theorem not_in_segment (h : Indistinguishable step c f) (hc : Ready c) (hf : Ready f)
    (hxmt : c.mXmtState = .lcpPduStart) (hxmt' : f.mXmtState = .lcpPduStart)
    (hbuf : c.mReceiveBuf = []) (hbuf' : f.mReceiveBuf = []) (hfresh : f.mRcvState = .lcpPduLength)
    (hstate : c.mRcvState = .segPduContent) (hlen : c.mPduLength = 0)
    (hcode : c.mLastRcvdMessageCode ≠ mcLogon) : False := by
  obtain ⟨d, hd, -, hkeeps, -, hcount, -⟩ := transfer_lcp hc 0x2000000 hxmt
  obtain ⟨f', hf', -, hkeeps', -, -, -⟩ := transfer_lcp hf 0x2000000 hxmt'
  obtain ⟨-, hlater⟩ := h.later hd hf'
  have hfresh' : f'.rcv.mRcvState = .lcpPduLength := by rw [hkeeps'.rcv]; exact hfresh
  have hsegment : ∃ t, receiver.drain d.rcv emptyPdu = .ok t := by
    have hempty : receiver.step d.rcv emptyPdu = some (.ok ⟨{ d.rcv with
        mPduLength := 0
        mSubsegmentCount := d.rcv.mSubsegmentCount - 1
        mRcvState := nextPdu (d.rcv.mSubsegmentCount - 1) }, [], emptyPdu⟩) := by
      refine step_emptySegment ?_ ?_ ?_ 0 [0, 0, 0, 0]
      · rw [hkeeps.rcv]
        exact hstate
      · rw [hkeeps.rcv]
        exact hlen
      · rw [hkeeps.rcv]
        exact hcode
    have hnext : nextPdu (d.rcv.mSubsegmentCount - 1) = .segPduLength := by
      have htwo : d.rcv.mSubsegmentCount = announces 0x2000000 := hcount
      rw [htwo]
      rfl
    obtain ⟨t, ht⟩ := drain_emptyPdu (s := { d.rcv with
        mPduLength := 0
        mSubsegmentCount := d.rcv.mSubsegmentCount - 1
        mRcvState := nextPdu (d.rcv.mSubsegmentCount - 1) }) hnext (by rw [hkeeps.rcv]; exact hcode)
    rw [Parser.drain_ok hempty, ht]
    exact ⟨_, rfl⟩
  obtain ⟨t, ht⟩ := hsegment
  have hother : Indistinguishable step f' d := fun es => (hlater es).symm
  exact drain_error_iff hother (hkeeps'.bytes.trans hbuf') (hkeeps.bytes.trans hbuf)
    (drain_emptyLcp hfresh') ht

/-- In front of a segment of a logon message: the segment sets the size. -/
theorem not_before_logon (h : Indistinguishable step c f) (hc : Ready c) (hf : Ready f)
    (hxmt : c.mXmtState = .lcpPduStart) (hxmt' : f.mXmtState = .lcpPduStart)
    (hbuf : c.mReceiveBuf = []) (hbuf' : f.mReceiveBuf = []) (hfresh : f.mRcvState = .lcpPduLength)
    (hsize : f.mSegmentSize = 0) (hstate : c.mRcvState = .segPduLength)
    (hcode : c.mLastRcvdMessageCode = mcLogon) : False := by
  have htick : ∀ {g : Concentrator} {t}, g.mReceiveBuf = [] →
      receiver.drain g.rcv (wordPdu 0 0 0 0 0 0 0 1) = .ok t →
      ∃ g', step (.tick (wordPdu 0 0 0 0 0 0 0 1)) g = .ok (.queued t.out, g') ∧ KeepsXmt g g' ∧
        g'.mSegmentSize = t.state.mSegmentSize := by
    intro g t hg ht
    rw [step_tick, hg, List.nil_append, ht]
    exact ⟨_, rfl, ⟨rfl, rfl, rfl, rfl, rfl⟩, rfl⟩
  obtain ⟨t, ht, -, hset⟩ := drain_wordLogon (s := c.rcv) 0 0 0 0 0 0 0 1 hstate hcode
  obtain ⟨t', ht', -, hset'⟩ := drain_wordLcp (s := f.rcv) 0 0 0 0 0 0 0 1 hfresh
  obtain ⟨d, hd, hkeeps, hsize₂⟩ := htick hbuf ht
  obtain ⟨f', hf', hkeeps', hsize₂'⟩ := htick hbuf' ht'
  obtain ⟨-, hlater⟩ := h.later hd hf'
  have hzero := size_of_indistinguishable hlater
    ⟨hkeeps.accepted.trans hc.accepted, hkeeps.words.trans hc.words⟩
    ⟨hkeeps'.accepted.trans hf.accepted, hkeeps'.words.trans hf.words⟩
    (hkeeps.state.trans hxmt) (hkeeps'.state.trans hxmt') (hsize₂'.trans (hset'.trans hsize))
  rw [hsize₂, hset] at hzero
  exact absurd hzero (by decide)

theorem rcv_of_indistinguishable (h : Indistinguishable step c f) (hc : Ready c) (hf : Ready f)
    (hxmt : c.mXmtState = .lcpPduStart) (hxmt' : f.mXmtState = .lcpPduStart)
    (hbuf : c.mReceiveBuf = []) (hbuf' : f.mReceiveBuf = []) (hfresh : f.mRcvState = .lcpPduLength)
    (hsize : f.mSegmentSize = 0) : c.mRcvState = .lcpPduLength := by
  have hlength : f.rcv.mRcvState.inContent = false := by
    rw [show f.rcv.mRcvState = .lcpPduLength from hfresh]
    rfl
  have hwaits : receiver.drain f.rcv [0] = .ok ⟨f.rcv, [], [0]⟩ := drain_short_length hlength (by simp)
  cases hstate : c.mRcvState with
  | lcpPduLength => rfl
  | lcpPduContent =>
    have hlen := length_of_indistinguishable h hbuf hbuf' hfresh (by rw [hstate]; rfl)
    exact (drain_error_iff h hbuf hbuf' (drain_one_error (.inl hstate) hlen) hwaits).elim
  | segPduContent =>
    have hlen := length_of_indistinguishable h hbuf hbuf' hfresh (by rw [hstate]; rfl)
    by_cases hcode : c.mLastRcvdMessageCode = mcLogon
    · exact (drain_error_iff h hbuf hbuf' (drain_one_error (.inr ⟨hstate, hcode⟩) hlen) hwaits).elim
    · exact (not_in_segment h hc hf hxmt hxmt' hbuf hbuf' hfresh hstate hlen hcode).elim
  | segPduLength =>
    by_cases hcode : c.mLastRcvdMessageCode = mcLogon
    · exact (not_before_logon h hc hf hxmt hxmt' hbuf hbuf' hfresh hsize hstate hcode).elim
    · obtain ⟨t, ht⟩ := drain_emptyPdu (s := c.rcv) hstate hcode
      have hother : Indistinguishable step f c := fun es => (h es).symm
      exact (drain_error_iff hother hbuf' hbuf (drain_emptyLcp (s := f.rcv) hfresh) ht).elim

end connection

/-- **An accepted connection** shows what a fresh concentrator shows, whatever arrives and is sent,
    exactly if the concentrator is between messages and has no segment size. -/
theorem acceptHandler_iff (c : Concentrator) (mSubsegmentCount : BitVec 64) :
    Indistinguishable step c.acceptHandler (constructed mSubsegmentCount).acceptHandler ↔
      BetweenMessages c := by
  constructor
  · intro h
    have hready : Ready c.acceptHandler := ⟨rfl, rfl⟩
    have hfresh : Ready (constructed mSubsegmentCount).acceptHandler := ⟨rfl, rfl⟩
    have hxmt : c.acceptHandler.mXmtState = .lcpPduStart :=
      xmt_of_indistinguishable h hready hfresh rfl
    have hsize : c.acceptHandler.mSegmentSize = 0 :=
      size_of_indistinguishable h hready hfresh hxmt rfl rfl
    have hrcv : c.acceptHandler.mRcvState = .lcpPduLength :=
      rcv_of_indistinguishable h hready hfresh hxmt rfl rfl rfl rfl rfl
    exact ⟨hrcv, hxmt, hsize⟩
  · exact fun h => same_forever (sameBoth_acceptHandler h mSubsegmentCount)

/-- **Reconnection**: a connection that is cut anywhere is followed by one like the first exactly if
    the bytes that it left are parsed without a failure up to a place between messages. -/
theorem reconnected_iff (c : Concentrator) (es : List Awaiting) (mSubsegmentCount : BitVec 64) :
    (∃ d, reconnected es c = .ok d ∧
        Indistinguishable step d (constructed mSubsegmentCount).acceptHandler) ↔
      ∃ c', awaited es c = .ok c' ∧ BetweenMessages c' := by
  rw [reconnected]
  rcases awaited es c with e | c'
  · constructor
    · intro ⟨d, hd, _⟩
      cases hd
    · intro ⟨c', h, _⟩
      cases h
  · constructor
    · intro ⟨d, hd, hlike⟩
      obtain rfl := Except.ok.inj hd
      exact ⟨c', rfl, (acceptHandler_iff c' mSubsegmentCount).mp hlike⟩
    · intro ⟨c'', h, hbetween⟩
      obtain rfl := Except.ok.inj h
      exact ⟨_, rfl, (acceptHandler_iff _ mSubsegmentCount).mpr hbetween⟩

/-- A connection that is cut behind an LCP with a segment to come. -/
theorem not_clean_announced :
    ¬ ∀ (c : Concentrator) (es : List Awaiting) (mSubsegmentCount : BitVec 64),
      ∃ d, reconnected es c = .ok d ∧
        Indistinguishable step d (constructed mSubsegmentCount).acceptHandler := by
  intro h
  obtain ⟨d, hd, hlike⟩ := h announced [] 0
  obtain rfl := Except.ok.inj hd
  have hsent : (observe step [.transfer [0]] announced.closeConnSocket.acceptHandler).map Prod.fst =
      (observe step [.transfer [0]] (constructed 0).acceptHandler).map Prod.fst :=
    hlike [.transfer [0]]
  exact absurd (Except.ok.inj hsent) (by decide)

end Concentrator

end CraySim
