/-
  Subject:   The front-end concentrator.

  Messages are an LCP and the segments it announces, each a PDU: four bytes of length and the
  content, in words. Both directions keep their place in a message with variables of one object;
  the number of segments to come is one variable for both.

  * `Receiver`, `receiveStep` -- the variables of `ProcessReceivedBytes` and its loop body,
  * `receiver` -- the loop,
  * `Concentrator` -- both directions,
  * `processReceivedBytes`, `startTransmit` -- the two directions,
  * `Event`, `step` -- what happens to a concentrator.
-/
import CraySim.Types
import CraySim.Lib.EventRun
import CraySim.Lib.IncrementalParser

namespace CraySim

open EventRun (exists_of_bind)
open IncrementalParser (Progress Parser)

/-! ## 1. Receiving -/

/-- `RcvStates_e`. -/
inductive RcvStates where
  | lcpPduLength
  | lcpPduContent
  | segPduLength
  | segPduContent
  deriving DecidableEq

def mcLogon : BitVec 8 := 0o001

def mcStart : BitVec 8 := 0o004

/-- The variables `ProcessReceivedBytes` works with. -/
structure Receiver where
  mRcvState : RcvStates
  mPduLength : BitVec 64
  mSubsegmentCount : BitVec 64
  mLastRcvdMessageCode : BitVec 8
  mSegmentSize : BitVec 64

/-- `word = (word << 8) | data[i++]`, from 0 on. -/
def bigEndian (data : List (BitVec 8)) : CInt :=
  data.foldl (fun word b => word <<< 8 ||| b.setWidth 64) 0

/-- `data[i]`; behind the received bytes nothing is defined. -/
def byteAt (data : List (BitVec 8)) (i : Nat) : Except Exn (BitVec 8) :=
  match data[i]? with
  | some b => .ok b
  | none => .error .undefinedBehaviour

/-- `while (mPduLength > 0)`: words of eight bytes, and the bytes behind them. -/
def takeWords (mPduLength : BitVec 64) :
    List (BitVec 8) → Except Exn (List CInt × List (BitVec 8))
  | b0 :: b1 :: b2 :: b3 :: b4 :: b5 :: b6 :: b7 :: rest =>
    if mPduLength = 0 then .ok ([], b0 :: b1 :: b2 :: b3 :: b4 :: b5 :: b6 :: b7 :: rest)
    else (takeWords (mPduLength - 8) rest).map fun r =>
      (bigEndian [b0, b1, b2, b3, b4, b5, b6, b7] :: r.1, r.2)
  | data => if mPduLength = 0 then .ok ([], data) else .error .undefinedBehaviour

/-- `(data[0] << 24) | (data[1] << 16) | (data[2] << 8) | data[3]`, an `int`, as a `size_t`. -/
def pduLength (b0 b1 b2 b3 : BitVec 8) : BitVec 64 := (b0 ++ b1 ++ b2 ++ b3).signExtend 64

/-- The two states for the length of a PDU. -/
def readLength (next : RcvStates) (s : Receiver) :
    List (BitVec 8) → Option (Progress Receiver (BitVec 8) CInt)
  | b0 :: b1 :: b2 :: b3 :: rest =>
    some ⟨{ s with mPduLength := pduLength b0 b1 b2 b3, mRcvState := next }, [], rest⟩
  | _ => none

/-- Where the count leads to. -/
def nextPdu (mSubsegmentCount : BitVec 64) : RcvStates :=
  if mSubsegmentCount > 0 then .segPduLength else .lcpPduLength

/-- `State_RcvLcpPduContent`. -/
def readLcp (s : Receiver) (data : List (BitVec 8)) :
    Except Exn (Progress Receiver (BitVec 8) CInt) := do
  let count ← byteAt data 4
  let code ← byteAt data 6
  let r ← takeWords s.mPduLength data
  return ⟨{ s with
    mSubsegmentCount := count.setWidth 64
    mLastRcvdMessageCode := code
    mPduLength := 0
    mRcvState := nextPdu (count.setWidth 64) }, r.1, r.2⟩

/-- `((data[6] << 8) | data[7]) * 8`. -/
def segmentSize (b6 b7 : BitVec 8) : BitVec 64 := (b6 ++ b7).setWidth 64 * 8

/-- The segment size after a segment; the one of a logon message says what it is. -/
def logonSize (s : Receiver) (data : List (BitVec 8)) : Except Exn (BitVec 64) :=
  if s.mLastRcvdMessageCode = mcLogon then do
    let b6 ← byteAt data 6
    let b7 ← byteAt data 7
    return segmentSize b6 b7
  else .ok s.mSegmentSize

/-- `State_RcvSegPduContent`. -/
def readSegment (s : Receiver) (data : List (BitVec 8)) :
    Except Exn (Progress Receiver (BitVec 8) CInt) := do
  let size ← logonSize s data
  let r ← takeWords s.mPduLength data
  return ⟨{ s with
    mSegmentSize := size
    mPduLength := 0
    mSubsegmentCount := s.mSubsegmentCount - 1
    mRcvState := nextPdu (s.mSubsegmentCount - 1) }, r.1, r.2⟩

/-- The body of the loop; it waits where the source returns, and where there are no bytes. -/
def receiveStep (s : Receiver) (data : List (BitVec 8)) :
    Option (Except Exn (Progress Receiver (BitVec 8) CInt)) :=
  if data.isEmpty then none
  else match s.mRcvState with
    | .lcpPduLength => (readLength .lcpPduContent s data).map .ok
    | .lcpPduContent => if data.length < s.mPduLength.toNat then none else some (readLcp s data)
    | .segPduLength => (readLength .segPduContent s data).map .ok
    | .segPduContent => if data.length < s.mPduLength.toNat then none else some (readSegment s data)

/-! ## 2. The loop ends, and takes its bytes from the front -/

theorem byteAt_eq_ok {data : List (BitVec 8)} {i : Nat} {b : BitVec 8} (h : byteAt data i = .ok b) :
    data[i]? = some b := by
  unfold byteAt at h
  split at h
  · rename_i b' hb
    rw [hb, Except.ok.inj h]
  · exact absurd h (by simp)

theorem byteAt_append {data : List (BitVec 8)} {i : Nat} {b : BitVec 8} (h : byteAt data i = .ok b)
    (more : List (BitVec 8)) : byteAt (data ++ more) i = .ok b := by
  have hb := byteAt_eq_ok h
  have hlt : i < data.length := (List.getElem?_eq_some_iff.mp hb).1
  rw [byteAt, List.getElem?_append_left hlt, hb]

theorem takeWords_zero (data : List (BitVec 8)) : takeWords 0 data = .ok ([], data) := by
  unfold takeWords
  split <;> exact if_pos rfl

/-- The loop uses up a front part of its bytes, and does not look behind it. -/
theorem takeWords_used {n : BitVec 64} {data : List (BitVec 8)}
    {r : List CInt × List (BitVec 8)} (h : takeWords n data = .ok r) :
    ∃ used, data = used ++ r.2 ∧ ∀ more, takeWords n (used ++ more) = .ok (r.1, more) := by
  induction n, data using takeWords.induct generalizing r with
  | case1 b0 b1 b2 b3 b4 b5 b6 b7 rest =>
    rw [takeWords_zero] at h
    obtain rfl := Except.ok.inj h
    exact ⟨[], rfl, takeWords_zero⟩
  | case2 n b0 b1 b2 b3 b4 b5 b6 b7 rest hn ih =>
    rw [takeWords, if_neg hn] at h
    rcases hrest : takeWords (n - 8) rest with e | t
    · rw [hrest] at h
      exact absurd h (by simp [Except.map])
    · rw [hrest] at h
      obtain rfl := Except.ok.inj h
      obtain ⟨used, rfl, hused⟩ := ih hrest
      refine ⟨b0 :: b1 :: b2 :: b3 :: b4 :: b5 :: b6 :: b7 :: used, rfl, fun more => ?_⟩
      simp only [List.cons_append]
      rw [takeWords, if_neg hn, hused]
      rfl
  | case3 data hshort =>
    rw [takeWords_zero] at h
    obtain rfl := Except.ok.inj h
    exact ⟨[], rfl, takeWords_zero⟩
  | case4 n data hshort hn =>
    rw [takeWords, if_neg hn] at h
    · exact absurd h (by simp)
    · exact hshort

theorem takeWords_append {n : BitVec 64} {data : List (BitVec 8)}
    {r : List CInt × List (BitVec 8)} (h : takeWords n data = .ok r) (more : List (BitVec 8)) :
    takeWords n (data ++ more) = .ok (r.1, r.2 ++ more) := by
  obtain ⟨used, rfl, hused⟩ := takeWords_used h
  rw [List.append_assoc, hused]

theorem length_takeWords {n : BitVec 64} {data : List (BitVec 8)}
    {r : List CInt × List (BitVec 8)} (h : takeWords n data = .ok r) :
    r.2.length ≤ data.length := by
  obtain ⟨used, rfl, -⟩ := takeWords_used h
  simp

/-- The states for the content come behind those for the length. -/
def isContent (s : RcvStates) : Nat :=
  match s with
  | .lcpPduContent | .segPduContent => 1
  | .lcpPduLength | .segPduLength => 0

theorem isContent_nextPdu (n : BitVec 64) : isContent (nextPdu n) = 0 := by
  unfold nextPdu
  split <;> rfl

section step

variable {s : Receiver} {data : List (BitVec 8)} {r : Progress Receiver (BitVec 8) CInt}

theorem readLength_eq_some {next : RcvStates} (h : readLength next s data = some r) :
    r.rest.length + 4 = data.length ∧ r.state.mRcvState = next ∧
      ∀ more, readLength next s (data ++ more) = some { r with rest := r.rest ++ more } := by
  unfold readLength at h
  split at h
  · obtain rfl := Option.some.inj h
    exact ⟨by simp, rfl, fun _ => rfl⟩
  · exact absurd h (by simp)

theorem readLcp_eq_ok (h : readLcp s data = .ok r) :
    r.rest.length ≤ data.length ∧ isContent r.state.mRcvState = 0 ∧
      ∀ more, readLcp s (data ++ more) = .ok { r with rest := r.rest ++ more } := by
  obtain ⟨count, hcount, h⟩ := exists_of_bind h
  obtain ⟨code, hcode, h⟩ := exists_of_bind h
  obtain ⟨t, hwords, h⟩ := exists_of_bind h
  obtain rfl := Except.ok.inj h
  refine ⟨length_takeWords hwords, isContent_nextPdu _, fun more => ?_⟩
  rw [readLcp, byteAt_append hcount, byteAt_append hcode, takeWords_append hwords]
  rfl

theorem logonSize_append {size : BitVec 64} (h : logonSize s data = .ok size)
    (more : List (BitVec 8)) : logonSize s (data ++ more) = .ok size := by
  unfold logonSize at h ⊢
  split at h
  · rename_i hlogon
    obtain ⟨b6, h6, h⟩ := exists_of_bind h
    obtain ⟨b7, h7, h⟩ := exists_of_bind h
    rw [if_pos hlogon, byteAt_append h6, byteAt_append h7]
    exact h
  · rename_i hlogon
    rw [if_neg hlogon, h]

theorem readSegment_eq_ok (h : readSegment s data = .ok r) :
    r.rest.length ≤ data.length ∧ isContent r.state.mRcvState = 0 ∧
      ∀ more, readSegment s (data ++ more) = .ok { r with rest := r.rest ++ more } := by
  obtain ⟨size, hsize, h⟩ := exists_of_bind h
  obtain ⟨t, hwords, h⟩ := exists_of_bind h
  obtain rfl := Except.ok.inj h
  refine ⟨length_takeWords hwords, isContent_nextPdu _, fun more => ?_⟩
  rw [readSegment, logonSize_append hsize, takeWords_append hwords]
  rfl

/-- What a step that succeeds does: the bytes get fewer, or the content state is left. -/
theorem receiveStep_eq_some (h : receiveStep s data = some (.ok r)) :
    2 * r.rest.length + isContent r.state.mRcvState < 2 * data.length + isContent s.mRcvState ∧
      ∀ more, receiveStep s (data ++ more) = some (.ok { r with rest := r.rest ++ more }) := by
  have hne : data.isEmpty = false := by
    cases hempty : data.isEmpty with
    | false => rfl
    | true => exact absurd h (by simp [receiveStep, hempty])
  have hmore : ∀ more, (data ++ more).isEmpty = false := by
    intro more
    cases data with
    | nil => exact absurd hne (by simp)
    | cons b data => rfl
  have hlength : ∀ more, (data ++ more).length = data.length + more.length := by simp
  have hone : ∀ (next : RcvStates), (readLength next s data).map .ok = some (.ok r : Except Exn _) →
      readLength next s data = some r := by
    intro next h
    cases hr : readLength next s data with
    | none => exact absurd h (by simp [hr])
    | some r' => simpa [hr] using h
  unfold receiveStep at h ⊢
  simp only [hne, hmore, Bool.false_eq_true, if_false, hlength] at h ⊢
  cases hstate : s.mRcvState with
  | lcpPduLength =>
    simp only [hstate] at h ⊢
    obtain ⟨hlen, hnext, happend⟩ := readLength_eq_some (hone _ h)
    refine ⟨?_, fun more => by rw [happend more]; rfl⟩
    rw [hnext]
    simp only [isContent]
    omega
  | segPduLength =>
    simp only [hstate] at h ⊢
    obtain ⟨hlen, hnext, happend⟩ := readLength_eq_some (hone _ h)
    refine ⟨?_, fun more => by rw [happend more]; rfl⟩
    rw [hnext]
    simp only [isContent]
    omega
  | lcpPduContent =>
    simp only [hstate] at h ⊢
    by_cases hfull : data.length < s.mPduLength.toNat
    · exact absurd h (by simp [hfull])
    · rw [if_neg hfull] at h
      obtain ⟨hlen, hleft, happend⟩ := readLcp_eq_ok (Option.some.inj h)
      refine ⟨?_, fun more => by rw [if_neg (by omega), happend more]⟩
      rw [hleft]
      simp only [isContent]
      omega
  | segPduContent =>
    simp only [hstate] at h ⊢
    by_cases hfull : data.length < s.mPduLength.toNat
    · exact absurd h (by simp [hfull])
    · rw [if_neg hfull] at h
      obtain ⟨hlen, hleft, happend⟩ := readSegment_eq_ok (Option.some.inj h)
      refine ⟨?_, fun more => by rw [if_neg (by omega), happend more]⟩
      rw [hleft]
      simp only [isContent]
      omega

end step

/-- The loop of `ProcessReceivedBytes`. -/
def receiver : Parser Receiver (BitVec 8) CInt Exn where
  step := receiveStep
  rank := fun s data => 2 * data.length + isContent s.mRcvState
  decreases := fun h => (receiveStep_eq_some h).1
  extended := fun h => (receiveStep_eq_some h).2

/-! ## 3. The concentrator -/

/-- `XmtStates_e`. -/
inductive XmtStates where
  | lcpPduStart
  | lcpPduContent
  | segPduStart
  | segPduContent
  deriving DecidableEq

/-- `IopConcentrator_c`, without its channels and sockets. -/
structure Concentrator where
  mAccepted : Bool
  mBytesTransmitted : BitVec 64
  mFromCrayData : List CInt
  mLastRcvdMessageCode : BitVec 8
  mLastXmitMessageCode : BitVec 8
  mPduLength : BitVec 64
  mReceiveBuf : List (BitVec 8)
  mRcvState : RcvStates
  mSegmentSize : BitVec 64
  mSubsegmentCount : BitVec 64
  mToCrayData : List CInt
  mToCrayIdx : Nat
  mTransmitBufIdx : Nat
  mXmtState : XmtStates

namespace Concentrator

variable (c : Concentrator)

def rcv : Receiver :=
  { mRcvState := c.mRcvState, mPduLength := c.mPduLength, mSubsegmentCount := c.mSubsegmentCount
    mLastRcvdMessageCode := c.mLastRcvdMessageCode, mSegmentSize := c.mSegmentSize }

def setRcv (s : Receiver) : Concentrator :=
  { c with
    mRcvState := s.mRcvState, mPduLength := s.mPduLength, mSubsegmentCount := s.mSubsegmentCount
    mLastRcvdMessageCode := s.mLastRcvdMessageCode, mSegmentSize := s.mSegmentSize }

def processReceivedBytes : Except Exn Concentrator := do
  let r ← receiver.drain c.rcv c.mReceiveBuf
  return { c.setRcv r.state with
    mReceiveBuf := r.rest
    mToCrayData := c.mToCrayData ++ r.out }

/-- The bytes of a word, from the left. -/
def wordBytes (word : CInt) : List (BitVec 8) :=
  (List.range 8).map fun b => (word >>> (56 - 8 * b)).setWidth 8

/-- The bytes of a length. -/
def lengthBytes (length : BitVec 64) : List (BitVec 8) :=
  [(length >>> 24).setWidth 8, (length >>> 16).setWidth 8, (length >>> 8).setWidth 8,
    length.setWidth 8]

def bytesPerLCP : BitVec 64 := 48

/-- The state behind a part of a message, by the number of segments to come. -/
def nextXmt (mSubsegmentCount : BitVec 64) : XmtStates :=
  if mSubsegmentCount > 0 then .segPduStart else .lcpPduStart

/-- `StartTransmit` for an LCP: what goes to the front end, and the state. -/
def transmitLcp (start : Bool) : Except Exn (List (BitVec 8) × Concentrator) :=
  match c.mFromCrayData with
  | [] => .error .undefinedBehaviour
  | first :: _ =>
    let count := (first >>> 24) &&& 0xff
    .ok ((if start then lengthBytes bytesPerLCP else []) ++ c.mFromCrayData.flatMap wordBytes,
      { c with
        mLastXmitMessageCode := (first >>> 8).setWidth 8
        mSubsegmentCount := count
        mXmtState := nextXmt count })

/-- `StartTransmit` for a part of a segment. -/
def transmitSegment (start : Bool) : List (BitVec 8) × Concentrator :=
  let byteCount := BitVec.ofNat 64 (8 * c.mFromCrayData.length)
  let lengthPart :=
    if start then
      lengthBytes (if c.mLastXmitMessageCode = mcStart then byteCount else c.mSegmentSize)
    else []
  let sent := (if start then 0 else c.mBytesTransmitted) + byteCount
  let c := { c with mBytesTransmitted := sent }
  (lengthPart ++ c.mFromCrayData.flatMap wordBytes,
    if sent ≥ c.mSegmentSize ∨ c.mLastXmitMessageCode = mcStart then
      { c with
        mSubsegmentCount := c.mSubsegmentCount - 1
        mXmtState := nextXmt (c.mSubsegmentCount - 1) }
    else { c with mXmtState := .segPduContent })

def startTransmit : Except Exn (List (BitVec 8) × Concentrator) := do
  let r ← match c.mXmtState with
    | .lcpPduStart => c.transmitLcp true
    | .lcpPduContent => c.transmitLcp false
    | .segPduStart => .ok (c.transmitSegment true)
    | .segPduContent => .ok (c.transmitSegment false)
  return (r.1, { r.2 with mFromCrayData := [], mTransmitBufIdx := (c.mTransmitBufIdx + 1) % 16 })

def processFromCrayData : Except Exn (List (BitVec 8) × Concentrator) :=
  if c.mAccepted then c.startTransmit else .ok ([], { c with mFromCrayData := [] })

def setData (aData : CInt) : Concentrator := { c with mFromCrayData := c.mFromCrayData ++ [aData] }

def getData : CInt × Concentrator :=
  match c.mToCrayData[c.mToCrayIdx]? with
  | none => (0, c)
  | some data =>
    if c.mToCrayIdx + 1 ≥ c.mToCrayData.length then
      (data, { c with mToCrayData := [], mToCrayIdx := 0 })
    else (data, { c with mToCrayIdx := c.mToCrayIdx + 1 })

def clearBuffers : Concentrator :=
  { c with mToCrayData := [], mToCrayIdx := 0, mReceiveBuf := [], mFromCrayData := []
           mTransmitBufIdx := 0 }

/-- `CloseConnSocket`; the next connection is awaited. -/
def closeConnSocket : Concentrator := { c with mAccepted := false }

/-- `AcceptHandler`, without an error. -/
def acceptHandler : Concentrator := { c with mAccepted := true }.clearBuffers

def masterClear : Concentrator :=
  { c.closeConnSocket.clearBuffers with
    mRcvState := .lcpPduLength
    mPduLength := 0
    mXmtState := .lcpPduStart
    mBytesTransmitted := 0
    mSegmentSize := 0 }

/-- The constructor; it leaves the number of segments as it finds it. -/
def constructed (mSubsegmentCount : BitVec 64) : Concentrator :=
  masterClear
    { mAccepted := false, mBytesTransmitted := 0, mFromCrayData := [], mLastRcvdMessageCode := 0
      mLastXmitMessageCode := 0, mPduLength := 0, mReceiveBuf := [], mRcvState := .lcpPduLength
      mSegmentSize := 0, mSubsegmentCount := mSubsegmentCount, mToCrayData := [], mToCrayIdx := 0
      mTransmitBufIdx := 0, mXmtState := .lcpPduStart }

/-! ## 4. Events -/

/-- Bytes that arrived and the tick behind them; an outgoing transfer; a word read by the IOP. -/
inductive Event where
  | tick (received : List (BitVec 8))
  | transfer (data : List CInt)
  | getData

/-- What an event does outside: words queued, bytes for the front end, a word for the IOP. -/
inductive Output where
  | queued (words : List CInt)
  | transmitted (bytes : List (BitVec 8))
  | data (word : CInt)
  deriving DecidableEq

def step : Event → Concentrator → Except Exn (Output × Concentrator)
  | .tick received, c =>
    (processReceivedBytes { c with mReceiveBuf := c.mReceiveBuf ++ received }).map fun c' =>
      (.queued (c'.mToCrayData.drop c.mToCrayData.length), c')
  | .transfer data, c =>
    (processFromCrayData (data.foldl setData c)).map fun r => (.transmitted r.1, r.2)
  | .getData, c => .ok (.data c.getData.1, c.getData.2)

theorem step_tick (c : Concentrator) (received : List (BitVec 8)) :
    step (.tick received) c =
      (receiver.drain c.rcv (c.mReceiveBuf ++ received)).map fun r =>
        (.queued r.out, { c.setRcv r.state with
          mReceiveBuf := r.rest
          mToCrayData := c.mToCrayData ++ r.out }) := by
  rw [step, processReceivedBytes]
  change (Except.bind (receiver.drain c.rcv (c.mReceiveBuf ++ received)) _).map _ = _
  rcases receiver.drain c.rcv (c.mReceiveBuf ++ received) with e | r
  · rfl
  · simp only [Except.bind, pure, Except.pure, Except.map, List.drop_left]
    rfl

end Concentrator

end CraySim
