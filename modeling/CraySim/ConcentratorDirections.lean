/-
  Subject:   The two directions of the concentrator.

  Sending and receiving share two variables: the number of segments to come, which both write and
  read, and the segment size, which a logon message sets for the frames that are sent. Where no
  direction finishes a part of a message while the other has segments to come, the concentrator
  does what two of them do, one for each direction, of which the second is told the segment size.

  * `Receiver.Same`, `SameRcv`, `SameXmt` -- what a direction depends on,
  * `Receiver.Completes`, `EndsPart` -- the events that write the number of segments,
  * `NoOverlap` -- none of them while the other direction has segments to come,
  * `separately` -- the directions on two concentrators,
  * `independent` -- what one concentrator shows is what the two show.
-/
import CraySim.ConcentratorStream

namespace CraySim

open EventRun (exists_of_bind)
open IncrementalParser (Progress Parser)
open Observe (observe)

/-! ## 1. What receiving depends on -/

def RcvStates.inContent : RcvStates → Bool
  | .lcpPduContent | .segPduContent => true
  | .lcpPduLength | .segPduLength => false

/-- There are segments to come. -/
def RcvStates.inSegments : RcvStates → Bool
  | .segPduLength | .segPduContent => true
  | .lcpPduLength | .lcpPduContent => false

namespace Receiver

/-- The variables agree that are read before they are written again. -/
structure Same (s s' : Receiver) : Prop where
  state : s'.mRcvState = s.mRcvState
  size : s'.mSegmentSize = s.mSegmentSize
  length : s.mRcvState.inContent = true → s'.mPduLength = s.mPduLength
  count : s.mRcvState.inSegments = true → s'.mSubsegmentCount = s.mSubsegmentCount
  code : s.mRcvState.inSegments = true → s'.mLastRcvdMessageCode = s.mLastRcvdMessageCode

theorem Same.refl (s : Receiver) : Same s s := ⟨rfl, rfl, fun _ => rfl, fun _ => rfl, fun _ => rfl⟩

/-- `t` and `t'` come from `s` and `s'`: the count agrees, or both still have the one from there. -/
def Follows (s s' t t' : Receiver) : Prop :=
  Same t t' ∧ (t'.mSubsegmentCount = t.mSubsegmentCount ∨
    (t.mSubsegmentCount = s.mSubsegmentCount ∧ t'.mSubsegmentCount = s'.mSubsegmentCount))

end Receiver

open Receiver (Same Follows)

section receive

variable {s s' t t' : Receiver} {data : List (BitVec 8)}

theorem readLcp_same {R : Receiver → Receiver → Prop} (hlength : s'.mPduLength = s.mPduLength)
    (h : ∀ count code, R
      { s with
        mSubsegmentCount := count, mLastRcvdMessageCode := code, mPduLength := 0
        mRcvState := nextPdu count }
      { s' with
        mSubsegmentCount := count, mLastRcvdMessageCode := code, mPduLength := 0
        mRcvState := nextPdu count }) :
    Parser.Alike R (readLcp s data) (readLcp s' data) := by
  unfold readLcp
  rw [hlength]
  rcases byteAt data 4 with e | count
  · exact .error e
  rcases byteAt data 6 with e | code
  · exact .error e
  rcases takeWords s.mPduLength data with e | r
  · exact .error e
  · exact .ok r.1 r.2 (h _ code)

theorem logonSize_same (hsize : s'.mSegmentSize = s.mSegmentSize)
    (hcode : s'.mLastRcvdMessageCode = s.mLastRcvdMessageCode) :
    logonSize s' data = logonSize s data := by
  unfold logonSize
  rw [hsize, hcode]

theorem readSegment_same {R : Receiver → Receiver → Prop} (hlength : s'.mPduLength = s.mPduLength)
    (hsize : s'.mSegmentSize = s.mSegmentSize)
    (hcode : s'.mLastRcvdMessageCode = s.mLastRcvdMessageCode)
    (hcount : s'.mSubsegmentCount = s.mSubsegmentCount)
    (h : ∀ size, R
      { s with
        mSegmentSize := size, mPduLength := 0, mSubsegmentCount := s.mSubsegmentCount - 1
        mRcvState := nextPdu (s.mSubsegmentCount - 1) }
      { s' with
        mSegmentSize := size, mPduLength := 0, mSubsegmentCount := s.mSubsegmentCount - 1
        mRcvState := nextPdu (s.mSubsegmentCount - 1) }) :
    Parser.Alike R (readSegment s data) (readSegment s' data) := by
  unfold readSegment
  rw [logonSize_same hsize hcode, hlength, hcount]
  rcases logonSize s data with e | size
  · exact .error e
  rcases takeWords s.mPduLength data with e | r
  · exact .error e
  · exact .ok r.1 r.2 (h size)

variable {next : RcvStates}

theorem readLength_same (h : Follows s s' t t')
    (hnext : next.inSegments = t.mRcvState.inSegments) (data : List (BitVec 8)) :
    Parser.StepAlike (Follows s s') ((readLength next t data).map .ok : Option (Except Exn _))
      ((readLength next t' data).map .ok) := by
  obtain ⟨hsame, hkept⟩ := h
  unfold readLength
  split
  · refine .go (.ok [] _ ⟨⟨rfl, hsame.size, fun _ => rfl, ?_, ?_⟩, hkept⟩)
    · exact fun hseg => hsame.count (hnext ▸ hseg)
    · exact fun hseg => hsame.code (hnext ▸ hseg)
  · exact .wait

theorem receiveStep_same (h : Follows s s' t t') (data : List (BitVec 8)) :
    Parser.StepAlike (Follows s s') (receiveStep t data) (receiveStep t' data) := by
  have hfollows := h
  obtain ⟨⟨hstate, hsize, hlength, hcount, hcode⟩, -⟩ := h
  unfold receiveStep
  rw [hstate]
  cases hempty : data.isEmpty with
  | true => exact .wait
  | false =>
    simp only [Bool.false_eq_true, if_false]
    cases ht : t.mRcvState with
    | lcpPduLength => exact readLength_same hfollows (by rw [ht]; rfl) data
    | segPduLength => exact readLength_same hfollows (by rw [ht]; rfl) data
    | lcpPduContent =>
      rw [ht] at hlength
      simp only [hlength rfl]
      by_cases hshort : data.length < t.mPduLength.toNat
      · rw [if_pos hshort, if_pos hshort]
        exact .wait
      rw [if_neg hshort, if_neg hshort]
      refine .go (readLcp_same (hlength rfl) fun count code => ?_)
      exact ⟨⟨rfl, hsize, fun _ => rfl, fun _ => rfl, fun _ => rfl⟩, .inl rfl⟩
    | segPduContent =>
      rw [ht] at hlength hcount hcode
      simp only [hlength rfl]
      by_cases hshort : data.length < t.mPduLength.toNat
      · rw [if_pos hshort, if_pos hshort]
        exact .wait
      rw [if_neg hshort, if_neg hshort]
      refine .go (readSegment_same (hlength rfl) hsize (hcode rfl) (hcount rfl) fun size => ?_)
      exact ⟨⟨rfl, rfl, fun _ => rfl, fun _ => rfl, fun _ => hcode rfl⟩, .inl rfl⟩

/-- **Receiving** depends on nothing else. -/
theorem drain_same (h : Same s s') (data : List (BitVec 8)) :
    Parser.Alike (Follows s s') (receiver.drain s data) (receiver.drain s' data) :=
  Parser.drain_alike (R := Follows s s') (fun _ _ data h => receiveStep_same h data)
    ⟨h, .inr ⟨rfl, rfl⟩⟩ data

/-- The content of a PDU is complete. -/
def Receiver.Completes (s : Receiver) (data : List (BitVec 8)) : Prop :=
  match s.mRcvState, data with
  | .lcpPduContent, data | .segPduContent, data => data ≠ [] ∧ s.mPduLength.toNat ≤ data.length
  | .lcpPduLength, b0 :: b1 :: b2 :: b3 :: rest | .segPduLength, b0 :: b1 :: b2 :: b3 :: rest =>
    rest ≠ [] ∧ (pduLength b0 b1 b2 b3).toNat ≤ rest.length
  | _, _ => False

theorem drain_content (h : s.mRcvState.inContent = true) (hopen : ¬ s.Completes data) :
    receiver.drain s data = .ok ⟨s, [], data⟩ := by
  refine Parser.drain_wait ?_
  change receiveStep s data = none
  unfold receiveStep
  cases data with
  | nil => rfl
  | cons b data =>
    unfold Receiver.Completes at hopen
    cases hstate : s.mRcvState with
    | lcpPduLength => simp [hstate, RcvStates.inContent] at h
    | segPduLength => simp [hstate, RcvStates.inContent] at h
    | lcpPduContent =>
      simp only [hstate] at hopen
      exact if_pos (by_contra fun hn => hopen ⟨List.cons_ne_nil _ _, Nat.le_of_not_lt hn⟩)
    | segPduContent =>
      simp only [hstate] at hopen
      exact if_pos (by_contra fun hn => hopen ⟨List.cons_ne_nil _ _, Nat.le_of_not_lt hn⟩)

theorem readLength_cases {r : Progress Receiver (BitVec 8) CInt}
    (h : readLength next s data = some r) :
    ∃ b0 b1 b2 b3 rest, data = b0 :: b1 :: b2 :: b3 :: rest ∧
      r = ⟨{ s with mPduLength := pduLength b0 b1 b2 b3, mRcvState := next }, [], rest⟩ := by
  unfold readLength at h
  split at h
  · exact ⟨_, _, _, _, _, rfl, (Option.some.inj h).symm⟩
  · exact absurd h (by simp)

theorem receiver_step_length (hstate : (s.mRcvState = .lcpPduLength ∧ next = .lcpPduContent) ∨
      (s.mRcvState = .segPduLength ∧ next = .segPduContent)) :
    receiver.step s data = (readLength next s data).map .ok := by
  change receiveStep s data = _
  unfold receiveStep
  cases data with
  | nil => rfl
  | cons b data =>
    rcases hstate with ⟨hstate, rfl⟩ | ⟨hstate, rfl⟩
    · rw [hstate]
      rfl
    · rw [hstate]
      rfl

/-- The length of a PDU, and a content that is not complete. -/
theorem drain_length_open (hnext : next.inContent = true)
    (hstep : receiver.step s data = (readLength next s data).map .ok)
    (hopen : ∀ r, readLength next s data = some r → ¬ r.state.Completes r.rest) :
    ∃ r, receiver.drain s data = .ok r ∧ r.state.mSubsegmentCount = s.mSubsegmentCount := by
  rcases hread : readLength next s data with - | r
  · rw [hread] at hstep
    exact ⟨_, Parser.drain_wait hstep, rfl⟩
  · have hwait := hopen r hread
    obtain ⟨b0, b1, b2, b3, rest, rfl, rfl⟩ := readLength_cases hread
    rw [hread] at hstep
    rw [Parser.drain_ok hstep, drain_content hnext hwait]
    exact ⟨_, rfl, rfl⟩

/-- Where no content is complete, the count is not written. -/
theorem drain_count (hopen : ¬ s.Completes data) {r : Progress Receiver (BitVec 8) CInt}
    (hr : receiver.drain s data = .ok r) : r.state.mSubsegmentCount = s.mSubsegmentCount := by
  cases hcontent : s.mRcvState.inContent with
  | true =>
    obtain rfl := Except.ok.inj ((drain_content hcontent hopen).symm.trans hr)
    rfl
  | false =>
    obtain ⟨next, hnext, hstep, hlater⟩ : ∃ next : RcvStates, next.inContent = true ∧
        receiver.step s data = (readLength next s data).map .ok ∧
        ∀ r, readLength next s data = some r → ¬ r.state.Completes r.rest := by
      cases hstate : s.mRcvState with
      | lcpPduContent => simp [hstate, RcvStates.inContent] at hcontent
      | segPduContent => simp [hstate, RcvStates.inContent] at hcontent
      | lcpPduLength =>
        refine ⟨.lcpPduContent, rfl, ?_, fun r hread => ?_⟩
        · exact receiver_step_length (.inl ⟨hstate, rfl⟩)
        · obtain ⟨b0, b1, b2, b3, rest, rfl, rfl⟩ := readLength_cases hread
          simpa only [Receiver.Completes, hstate] using hopen
      | segPduLength =>
        refine ⟨.segPduContent, rfl, ?_, fun r hread => ?_⟩
        · exact receiver_step_length (.inr ⟨hstate, rfl⟩)
        · obtain ⟨b0, b1, b2, b3, rest, rfl, rfl⟩ := readLength_cases hread
          simpa only [Receiver.Completes, hstate] using hopen
    obtain ⟨r', hr', hcount⟩ := drain_length_open hnext hstep hlater
    obtain rfl := Except.ok.inj (hr'.symm.trans hr)
    exact hcount

end receive

/-! ## 2. What sending depends on -/

def XmtStates.inSegments : XmtStates → Bool
  | .segPduStart | .segPduContent => true
  | .lcpPduStart | .lcpPduContent => false

namespace Concentrator

/-- Sending: the variables agree that are read before they are written again. -/
structure SameXmt (c c' : Concentrator) : Prop where
  state : c'.mXmtState = c.mXmtState
  accepted : c'.mAccepted = c.mAccepted
  words : c'.mFromCrayData = c.mFromCrayData
  size : c'.mSegmentSize = c.mSegmentSize
  count : c.mXmtState.inSegments = true → c'.mSubsegmentCount = c.mSubsegmentCount
  code : c.mXmtState.inSegments = true → c'.mLastXmitMessageCode = c.mLastXmitMessageCode
  sent : c.mXmtState = .segPduContent → c'.mBytesTransmitted = c.mBytesTransmitted

/-- Receiving, and the words queued. -/
structure SameRcv (c c' : Concentrator) : Prop where
  rcv : Same c.rcv c'.rcv
  bytes : c'.mReceiveBuf = c.mReceiveBuf
  queue : c'.mToCrayData = c.mToCrayData
  idx : c'.mToCrayIdx = c.mToCrayIdx

theorem SameXmt.refl (c : Concentrator) : SameXmt c c :=
  ⟨rfl, rfl, rfl, rfl, fun _ => rfl, fun _ => rfl, fun _ => rfl⟩

theorem SameRcv.refl (c : Concentrator) : SameRcv c c := ⟨.refl _, rfl, rfl, rfl⟩

/-- An event of the receiving direction leaves the other one as it is. -/
structure KeepsXmt (c d : Concentrator) : Prop where
  state : d.mXmtState = c.mXmtState
  accepted : d.mAccepted = c.mAccepted
  words : d.mFromCrayData = c.mFromCrayData
  code : d.mLastXmitMessageCode = c.mLastXmitMessageCode
  sent : d.mBytesTransmitted = c.mBytesTransmitted

/-- An event of the sending direction leaves the other one as it is, except for the count. -/
structure KeepsRcv (c d : Concentrator) : Prop where
  rcv : d.rcv = { c.rcv with mSubsegmentCount := d.mSubsegmentCount }
  bytes : d.mReceiveBuf = c.mReceiveBuf
  queue : d.mToCrayData = c.mToCrayData
  idx : d.mToCrayIdx = c.mToCrayIdx

/-- The count agrees, or is as it was on both. -/
def CountFollows (c c' d d' : Concentrator) : Prop :=
  d'.mSubsegmentCount = d.mSubsegmentCount ∨
    (d.mSubsegmentCount = c.mSubsegmentCount ∧ d'.mSubsegmentCount = c'.mSubsegmentCount)

/-! ## 3. One event on two concentrators -/

section events

variable {c c' : Concentrator}

/-- What receiving makes of two concentrators. -/
def Received (c c' d d' : Concentrator) : Prop := SameRcv d d' ∧ CountFollows c c' d d'

theorem step_tick_same (h : SameRcv c c') (bytes : List (BitVec 8)) :
    Observe.Alike (Received c c') (step (.tick bytes) c) (step (.tick bytes) c') := by
  obtain ⟨hrcv, hbytes, hqueue, hidx⟩ := h
  rw [step_tick, step_tick, hbytes, hqueue]
  have hdrain := drain_same hrcv (c.mReceiveBuf ++ bytes)
  revert hdrain
  generalize receiver.drain c.rcv _ = x, receiver.drain c'.rcv _ = y
  rintro (⟨out, rest, hsame, hcount⟩ | e)
  · exact .ok _ ⟨⟨hsame, rfl, rfl, hidx⟩, hcount⟩
  · exact .error e

variable {r : Output × Concentrator}

theorem step_tick_keeps {bytes : List (BitVec 8)} (h : step (.tick bytes) c = .ok r) :
    KeepsXmt c r.2 ∧ (¬ c.rcv.Completes (c.mReceiveBuf ++ bytes) →
      r.2.mSubsegmentCount = c.mSubsegmentCount) := by
  rw [step_tick] at h
  rcases hdrain : receiver.drain c.rcv (c.mReceiveBuf ++ bytes) with e | t
  · rw [hdrain] at h
    cases h
  · rw [hdrain] at h
    obtain rfl := Except.ok.inj h
    exact ⟨⟨rfl, rfl, rfl, rfl, rfl⟩, fun hopen => drain_count hopen hdrain⟩

theorem step_getData_same (h : SameRcv c c') :
    Observe.Alike (Received c c') (step .getData c) (step .getData c') := by
  obtain ⟨hrcv, hbytes, hqueue, hidx⟩ := h
  change Observe.Alike _ (.ok (Output.data c.getData.1, c.getData.2))
    (.ok (Output.data c'.getData.1, c'.getData.2))
  unfold getData
  rw [hqueue, hidx]
  split
  · exact .ok _ ⟨⟨hrcv, hbytes, hqueue, hidx⟩, .inr ⟨rfl, rfl⟩⟩
  · split
    · exact .ok _ ⟨⟨hrcv, hbytes, rfl, rfl⟩, .inr ⟨rfl, rfl⟩⟩
    · exact .ok _ ⟨⟨hrcv, hbytes, rfl, rfl⟩, .inr ⟨rfl, rfl⟩⟩

theorem step_getData_keeps (h : step .getData c = .ok r) :
    KeepsXmt c r.2 ∧ r.2.mSubsegmentCount = c.mSubsegmentCount := by
  obtain rfl := Except.ok.inj h
  simp only [getData]
  split
  · exact ⟨⟨rfl, rfl, rfl, rfl, rfl⟩, rfl⟩
  · split
    · exact ⟨⟨rfl, rfl, rfl, rfl, rfl⟩, rfl⟩
    · exact ⟨⟨rfl, rfl, rfl, rfl, rfl⟩, rfl⟩

theorem foldl_setData (data : List CInt) (c : Concentrator) :
    data.foldl setData c = { c with mFromCrayData := c.mFromCrayData ++ data } := by
  induction data generalizing c with
  | nil => simp
  | cons word data ih =>
    rw [List.foldl_cons, ih, setData]
    simp

/-- What sending makes of two concentrators. -/
def Sent (c c' d d' : Concentrator) : Prop := SameXmt d d' ∧ CountFollows c c' d d'

theorem nextXmt_ne_content (n : BitVec 64) : nextXmt n ≠ .segPduContent := by
  unfold nextXmt
  split <;> exact XmtStates.noConfusion

theorem transmitLcp_same (h : SameXmt c c') (start : Bool) :
    Observe.Alike (Sent c c') (c.transmitLcp start) (c'.transmitLcp start) := by
  unfold transmitLcp
  rw [h.words]
  cases hwords : c.mFromCrayData with
  | nil => exact .error _
  | cons first words =>
    exact .ok _ ⟨⟨rfl, h.accepted, rfl, h.size, fun _ => rfl, fun _ => rfl,
      fun hseg => absurd hseg (nextXmt_ne_content _)⟩, .inl rfl⟩

theorem transmitSegment_same (h : SameXmt c c') (hseg : c.mXmtState.inSegments = true) (start : Bool)
    (hstart : start = false → c.mXmtState = .segPduContent) :
    Observe.Alike (Sent c c') (.ok (c.transmitSegment start) : Except Exn _)
      (.ok (c'.transmitSegment start)) := by
  have hsent : (if start then 0 else c'.mBytesTransmitted) =
      (if start then 0 else c.mBytesTransmitted) := by
    cases start with
    | true => rfl
    | false => exact h.sent (hstart rfl)
  unfold transmitSegment
  rw [h.words, h.size, h.code hseg, h.count hseg, hsent]
  simp only
  generalize (if start then 0 else c.mBytesTransmitted) + _ = sent
  by_cases hend : sent ≥ c.mSegmentSize ∨ c.mLastXmitMessageCode = mcStart
  · rw [if_pos hend, if_pos hend]
    exact .ok _ ⟨⟨rfl, h.accepted, rfl, rfl, fun _ => rfl, fun _ => rfl, fun _ => rfl⟩, .inl rfl⟩
  · rw [if_neg hend, if_neg hend]
    exact .ok _ ⟨⟨rfl, h.accepted, rfl, rfl, fun _ => rfl, fun _ => rfl, fun _ => rfl⟩, .inl rfl⟩

/-- The end of `StartTransmit` on both. -/
theorem Sent.cleared {x y : Except Exn (List (BitVec 8) × Concentrator)} {i i' : Nat}
    (h : Observe.Alike (Sent c c') x y) :
    Observe.Alike (Sent c c')
      (x.map fun r => (r.1, { r.2 with mFromCrayData := [], mTransmitBufIdx := i }))
      (y.map fun r => (r.1, { r.2 with mFromCrayData := [], mTransmitBufIdx := i' })) := by
  cases h with
  | error e => exact .error e
  | ok o h =>
    obtain ⟨h, hcount⟩ := h
    exact .ok o ⟨⟨h.state, h.accepted, rfl, h.size, h.count, h.code, h.sent⟩, hcount⟩

theorem processFromCrayData_same (h : SameXmt c c') :
    Observe.Alike (Sent c c') c.processFromCrayData c'.processFromCrayData := by
  unfold processFromCrayData startTransmit
  rw [h.accepted, h.state]
  cases c.mAccepted with
  | false => exact .ok [] ⟨⟨rfl, rfl, rfl, h.size, h.count, h.code, h.sent⟩, .inr ⟨rfl, rfl⟩⟩
  | true =>
    cases hstate : c.mXmtState with
    | lcpPduStart => exact Sent.cleared (transmitLcp_same h true)
    | lcpPduContent => exact Sent.cleared (transmitLcp_same h false)
    | segPduStart =>
      have hseg : c.mXmtState.inSegments = true := by rw [hstate]; rfl
      exact Sent.cleared (transmitSegment_same h hseg true (by simp))
    | segPduContent =>
      have hseg : c.mXmtState.inSegments = true := by rw [hstate]; rfl
      exact Sent.cleared (transmitSegment_same h hseg false fun _ => hstate)

theorem step_transfer_same (h : SameXmt c c') (data : List CInt) :
    Observe.Alike (Sent c c') (step (.transfer data) c) (step (.transfer data) c') := by
  have hwords : SameXmt (data.foldl setData c) (data.foldl setData c') := by
    rw [foldl_setData, foldl_setData]
    exact ⟨h.state, h.accepted, congrArg (· ++ data) h.words, h.size, h.count, h.code, h.sent⟩
  have hcounts : Sent (data.foldl setData c) (data.foldl setData c') = Sent c c' := by
    rw [foldl_setData, foldl_setData]
    rfl
  have hboth := processFromCrayData_same hwords
  rw [hcounts] at hboth
  simp only [step]
  revert hboth
  generalize processFromCrayData _ = x, processFromCrayData _ = y
  rintro (⟨o, h⟩ | e)
  · exact .ok _ h
  · exact .error e

/-- This part of a segment is its last one. -/
def EndsSegment (c : Concentrator) (mBytesTransmitted : BitVec 64) : Prop :=
  mBytesTransmitted + BitVec.ofNat 64 (8 * c.mFromCrayData.length) ≥ c.mSegmentSize ∨
    c.mLastXmitMessageCode = mcStart

/-- The words are an LCP, or the last part of a segment. -/
def EndsPart (c : Concentrator) : Prop :=
  c.mAccepted = true ∧ match c.mXmtState with
    | .lcpPduStart | .lcpPduContent => True
    | .segPduStart => c.EndsSegment 0
    | .segPduContent => c.EndsSegment c.mBytesTransmitted

theorem transmitLcp_keeps {start : Bool} {r : List (BitVec 8) × Concentrator}
    (h : c.transmitLcp start = .ok r) : KeepsRcv c r.2 := by
  unfold transmitLcp at h
  split at h
  · cases h
  · obtain rfl := Except.ok.inj h
    exact ⟨rfl, rfl, rfl, rfl⟩

theorem transmitSegment_keeps (start : Bool) :
    KeepsRcv c (c.transmitSegment start).2 ∧
      (¬ c.EndsSegment (if start then 0 else c.mBytesTransmitted) →
        (c.transmitSegment start).2.mSubsegmentCount = c.mSubsegmentCount) := by
  unfold transmitSegment EndsSegment
  simp only
  generalize (if start then 0 else c.mBytesTransmitted) + _ = sent
  by_cases hend : sent ≥ c.mSegmentSize ∨ c.mLastXmitMessageCode = mcStart
  · rw [if_pos hend]
    exact ⟨⟨rfl, rfl, rfl, rfl⟩, fun hopen => absurd hend hopen⟩
  · rw [if_neg hend]
    exact ⟨⟨rfl, rfl, rfl, rfl⟩, fun _ => rfl⟩

theorem processFromCrayData_keeps {r : List (BitVec 8) × Concentrator}
    (h : c.processFromCrayData = .ok r) :
    KeepsRcv c r.2 ∧ (¬ c.EndsPart → r.2.mSubsegmentCount = c.mSubsegmentCount) := by
  unfold processFromCrayData startTransmit at h
  unfold EndsPart
  cases haccepted : c.mAccepted with
  | false =>
    rw [haccepted] at h
    obtain rfl := Except.ok.inj h
    exact ⟨⟨rfl, rfl, rfl, rfl⟩, fun _ => rfl⟩
  | true =>
    rw [haccepted, if_pos rfl] at h
    cases hstate : c.mXmtState with
    | lcpPduStart =>
      rw [hstate] at h
      obtain ⟨t, ht, h⟩ := exists_of_bind h
      obtain rfl := Except.ok.inj h
      have hkeeps := transmitLcp_keeps ht
      exact ⟨⟨hkeeps.rcv, hkeeps.bytes, hkeeps.queue, hkeeps.idx⟩, fun hn => absurd ⟨rfl, trivial⟩ hn⟩
    | lcpPduContent =>
      rw [hstate] at h
      obtain ⟨t, ht, h⟩ := exists_of_bind h
      obtain rfl := Except.ok.inj h
      have hkeeps := transmitLcp_keeps ht
      exact ⟨⟨hkeeps.rcv, hkeeps.bytes, hkeeps.queue, hkeeps.idx⟩, fun hn => absurd ⟨rfl, trivial⟩ hn⟩
    | segPduStart =>
      rw [hstate] at h
      obtain rfl := Except.ok.inj h
      obtain ⟨hkeeps, hcount⟩ := transmitSegment_keeps (c := c) true
      exact ⟨⟨hkeeps.rcv, hkeeps.bytes, hkeeps.queue, hkeeps.idx⟩,
        fun hn => hcount fun hend => hn ⟨rfl, hend⟩⟩
    | segPduContent =>
      rw [hstate] at h
      obtain rfl := Except.ok.inj h
      obtain ⟨hkeeps, hcount⟩ := transmitSegment_keeps (c := c) false
      exact ⟨⟨hkeeps.rcv, hkeeps.bytes, hkeeps.queue, hkeeps.idx⟩,
        fun hn => hcount fun hend => hn ⟨rfl, hend⟩⟩

theorem step_transfer_keeps {data : List CInt} (h : step (.transfer data) c = .ok r) :
    KeepsRcv c r.2 ∧
      (¬ (data.foldl setData c).EndsPart → r.2.mSubsegmentCount = c.mSubsegmentCount) := by
  simp only [step] at h
  rcases ht : processFromCrayData (data.foldl setData c) with e | t
  · rw [ht] at h
    cases h
  · rw [ht] at h
    obtain rfl := Except.ok.inj h
    have hkeeps := processFromCrayData_keeps ht
    rw [foldl_setData] at hkeeps ⊢
    exact ⟨⟨hkeeps.1.rcv, hkeeps.1.bytes, hkeeps.1.queue, hkeeps.1.idx⟩, hkeeps.2⟩

end events

/-! ## 4. The directions on two concentrators -/

/-- While a direction has segments to come, the other one does not write the count. -/
def NoOverlap (c : Concentrator) : Event → Prop
  | .tick bytes => c.mXmtState.inSegments = true → ¬ c.rcv.Completes (c.mReceiveBuf ++ bytes)
  | .transfer data => c.mRcvState.inSegments = true → ¬ (data.foldl setData c).EndsPart
  | .getData => True

/-- A concentrator that only receives, and one that only sends. -/
structure Pair where
  receiving : Concentrator
  transmitting : Concentrator

/-- What the concentrator that sends is told of the other one. -/
def Pair.received (p : Pair) (c : Concentrator) : Pair :=
  ⟨c, { p.transmitting with mSegmentSize := c.mSegmentSize }⟩

/-- Each event on the concentrator of its direction. -/
def separately : Event → Pair → Except Exn (Output × Pair)
  | .tick bytes, p => (step (.tick bytes) p.receiving).map fun r => (r.1, p.received r.2)
  | .getData, p => (step .getData p.receiving).map fun r => (r.1, p.received r.2)
  | .transfer data, p =>
    (step (.transfer data) p.transmitting).map fun r => (r.1, ⟨p.receiving, r.2⟩)

/-- The directions of `c` are those of the two. -/
structure Split (c : Concentrator) (p : Pair) : Prop where
  rcv : SameRcv c p.receiving
  xmt : SameXmt c p.transmitting

section split

variable {c d : Concentrator} {p : Pair}

theorem Split.received (h : Split c p) {d' : Concentrator} (hrcv : SameRcv d d') (hkeeps : KeepsXmt c d)
    (hcount : c.mXmtState.inSegments = true → d.mSubsegmentCount = c.mSubsegmentCount) :
    Split d (p.received d') where
  rcv := hrcv
  xmt :=
    { state := h.xmt.state.trans hkeeps.state.symm
      accepted := h.xmt.accepted.trans hkeeps.accepted.symm
      words := h.xmt.words.trans hkeeps.words.symm
      size := hrcv.rcv.size
      count := by
        intro hseg
        rw [hkeeps.state] at hseg
        exact (h.xmt.count hseg).trans (hcount hseg).symm
      code := by
        intro hseg
        rw [hkeeps.state] at hseg
        exact (h.xmt.code hseg).trans hkeeps.code.symm
      sent := by
        intro hseg
        rw [hkeeps.state] at hseg
        exact (h.xmt.sent hseg).trans hkeeps.sent.symm }

theorem Split.sent (h : Split c p) {d' : Concentrator} (hxmt : SameXmt d d') (hkeeps : KeepsRcv c d)
    (hcount : c.mRcvState.inSegments = true → d.mSubsegmentCount = c.mSubsegmentCount) :
    Split d ⟨p.receiving, d'⟩ where
  rcv :=
    { rcv := by
        rw [hkeeps.rcv]
        refine ⟨h.rcv.rcv.state, h.rcv.rcv.size, h.rcv.rcv.length, fun hseg => ?_, h.rcv.rcv.code⟩
        exact (h.rcv.rcv.count hseg).trans (hcount hseg).symm
      bytes := h.rcv.bytes.trans hkeeps.bytes.symm
      queue := h.rcv.queue.trans hkeeps.queue.symm
      idx := h.rcv.idx.trans hkeeps.idx.symm }
  xmt := hxmt

/-- A reception, on the concentrator and on the one that receives. -/
theorem Split.reception (h : Split c p) {x y : Except Exn (Output × Concentrator)}
    (hsame : Observe.Alike (Received c p.receiving) x y)
    (hkeeps : ∀ r, x = .ok r → KeepsXmt c r.2 ∧
      (c.mXmtState.inSegments = true → r.2.mSubsegmentCount = c.mSubsegmentCount)) :
    Observe.Alike Split x (y.map fun r => (r.1, p.received r.2)) := by
  cases hsame with
  | error e => exact .error e
  | ok o hd =>
    obtain ⟨hkeeps, hcount⟩ := hkeeps _ rfl
    exact .ok o (h.received hd.1 hkeeps hcount)

/-- **One event**. -/
theorem Split.step (h : Split c p) {e : Event} (hno : NoOverlap c e) :
    Observe.Alike Split (Concentrator.step e c) (separately e p) := by
  cases e with
  | tick bytes =>
    refine h.reception (step_tick_same h.rcv bytes) fun r hr => ?_
    obtain ⟨hkeeps, hcount⟩ := step_tick_keeps hr
    exact ⟨hkeeps, fun hseg => hcount (hno hseg)⟩
  | getData =>
    refine h.reception (step_getData_same h.rcv) fun r hr => ?_
    obtain ⟨hkeeps, hcount⟩ := step_getData_keeps hr
    exact ⟨hkeeps, fun _ => hcount⟩
  | transfer data =>
    have hsame := step_transfer_same h.xmt data
    have hkeeps : ∀ r, Concentrator.step (.transfer data) c = .ok r → _ :=
      fun r hr => step_transfer_keeps hr
    change Observe.Alike Split _ ((Concentrator.step (.transfer data) p.transmitting).map _)
    revert hsame hkeeps
    generalize Concentrator.step _ c = x, Concentrator.step _ p.transmitting = y
    rintro (⟨o, hd⟩ | e) hkeeps
    · obtain ⟨hkeeps, hcount⟩ := hkeeps _ rfl
      exact .ok o (h.sent hd.1 hkeeps fun hseg => hcount (hno hseg))
    · exact .error e

end split

/-- **Independence**: without overlap, whatever the directions show in an interleaving they show
    on two concentrators. -/
theorem independent (c : Concentrator) (es : List Event) (h : Observe.Along step NoOverlap es c) :
    (observe step es c).map Prod.fst = (observe separately es ⟨c, c⟩).map Prod.fst := by
  have hstep : ∀ e c p, Split c p → NoOverlap c e → Observe.Alike Split (step e c) (separately e p) :=
    fun _ _ _ hsplit hno => hsplit.step hno
  exact (Observe.observe_bisim hstep ⟨SameRcv.refl c, SameXmt.refl c⟩ h).outputs_eq

/-- An LCP from the front end. -/
def frontEndLcp (count code : BitVec 8) : List (BitVec 8) :=
  [0, 0, 0, 48, 0, 0, 0, 0, count, 0, code, 0] ++ List.replicate 40 0

/-- An LCP for the front end. -/
def crayLcp (count code : BitVec 8) : List CInt :=
  (count.setWidth 64 <<< 24 ||| code.setWidth 64 <<< 8) :: List.replicate 5 0

/-- The concentrator behind the LCP of a message with one segment. -/
def announced : Concentrator :=
  { (constructed 0).acceptHandler with
    mSubsegmentCount := 1
    mTransmitBufIdx := 1
    mXmtState := .segPduStart }

/-- A message with a segment for the front end, one with a segment from there, and the first words of
    that for the processor. -/
def segmentsRun : List Event :=
  [.transfer (crayLcp 1 0), .transfer [7],
    .tick (frontEndLcp 1 0 ++ [0, 0, 0, 8, 0, 0, 0, 0, 0, 0, 0, 5]), .getData, .getData]

theorem independent_segments :
    (observe step segmentsRun (constructed 0).acceptHandler).map Prod.fst =
      (observe separately segmentsRun
        ⟨(constructed 0).acceptHandler, (constructed 0).acceptHandler⟩).map Prod.fst := by
  have hlcp : step (.transfer (crayLcp 1 0)) (constructed 0).acceptHandler =
      .ok (.transmitted ([0, 0, 0, 48] ++ (crayLcp 1 0).flatMap wordBytes), announced) := rfl
  have hsegment : step (.transfer [7]) announced =
      .ok (.transmitted ([0, 0, 0, 0] ++ wordBytes 7),
        { (constructed 0).acceptHandler with mTransmitBufIdx := 2, mBytesTransmitted := 8 }) := rfl
  have halong : Observe.Along step NoOverlap segmentsRun (constructed 0).acceptHandler := by
    refine .cons (fun hseg => nomatch hseg) hlcp (.cons (fun hseg => nomatch hseg) hsegment ?_)
    exact ⟨(fun hseg => nomatch hseg), fun _ _ _ => ⟨trivial, fun _ _ _ => ⟨trivial, fun _ _ _ => trivial⟩⟩⟩
  exact independent _ _ halong

/-! ## 5. What couples them -/

/-- The bytes sent, transfer by transfer. -/
def framing : Output → Option (List (BitVec 8))
  | .transmitted bytes => some bytes
  | _ => none

/-- What is sent is what is sent when nothing is received. -/
def SendsAsIdle (c : Concentrator) (es : List Event) : Prop :=
  (observe step es c).map (fun t => t.1.filterMap framing) =
    (observe step (es.filter fun e => !isReception e) c).map fun t => t.1.filterMap framing

/-- A logon message with a segment size of one word. -/
def logonBytes : List (BitVec 8) :=
  frontEndLcp 1 mcLogon ++ [0, 0, 0, 8, 0, 0, 0, 0, 0, 0, 0, 1]

/-- It arrives before a message with one segment is sent. -/
def logonRun : List Event := [.tick logonBytes, .transfer (crayLcp 1 0), .transfer [0]]

/-- Between the LCP of a message and its segment, an LCP without segments arrives; a second message
    follows. -/
def overlapRun : List Event :=
  [.transfer (crayLcp 1 0), .tick (frontEndLcp 0 0), .transfer [0], .transfer (crayLcp 0 0)]

/-- The prefix of the segment is the size from the logon message; and behind the LCP that arrived
    the count is no longer that of the message. -/
theorem not_sendsAsIdle :
    ¬ SendsAsIdle (constructed 0).acceptHandler logonRun ∧
      ¬ SendsAsIdle (constructed 0).acceptHandler overlapRun := by
  constructor
  · have hdrain : receiver.drain (constructed 0).acceptHandler.rcv logonBytes = _ :=
      Parser.drain_of_steps (n := 5) rfl
    have htick := step_tick (constructed 0).acceptHandler logonBytes
    change _ = (receiver.drain (constructed 0).acceptHandler.rcv logonBytes).map _ at htick
    rw [hdrain] at htick
    intro heq
    unfold SendsAsIdle logonRun at heq
    rw [Observe.observe_cons htick] at heq
    exact absurd (Except.ok.inj heq) (by decide)
  · have htransfer : step (.transfer (crayLcp 1 0)) (constructed 0).acceptHandler =
        .ok (.transmitted ([0, 0, 0, 48] ++ (crayLcp 1 0).flatMap wordBytes), announced) := rfl
    have hdrain : receiver.drain announced.rcv (frontEndLcp 0 0) = _ :=
      Parser.drain_of_steps (n := 3) rfl
    have htick := step_tick announced (frontEndLcp 0 0)
    change _ = (receiver.drain announced.rcv (frontEndLcp 0 0)).map _ at htick
    rw [hdrain] at htick
    intro heq
    unfold SendsAsIdle overlapRun at heq
    rw [Observe.observe_cons htransfer, Observe.observe_cons htick] at heq
    exact absurd (Except.ok.inj heq) (by decide)

end Concentrator

end CraySim
