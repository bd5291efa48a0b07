/-
  Subject:   What the concentrator makes of a stream of bytes.

  The stream is a sequence of PDUs. The words queued are those of the PDUs, however the bytes come
  in, as long as every length that is complete is one the receiver can handle.

  * `streamWords` -- the words of a stream,
  * `Pdu`, `next` -- which PDU comes next,
  * `Regular` -- streams whose complete PDUs have an admissible length,
  * `Parses` -- no reception fails, and the words queued are those of the bytes received,
  * `parses_iff` -- exactly the regular streams are parsed.
-/
import CraySim.Concentrator
import CraySim.Lib.Observe

namespace CraySim

open EventRun (exists_of_bind map_eq_ok_iff)
open IncrementalParser (Progress Parser)
open Observe (observe)

/-! ## 1. Streams -/

/-- The words of a content, from the left. -/
def pduWords : List (BitVec 8) → List CInt
  | b0 :: b1 :: b2 :: b3 :: b4 :: b5 :: b6 :: b7 :: rest =>
    bigEndian [b0, b1, b2, b3, b4, b5, b6, b7] :: pduWords rest
  | _ => []

/-- The length in front of a PDU. -/
def lengthField (b0 b1 b2 b3 : BitVec 8) : Nat := (b0 ++ b1 ++ b2 ++ b3).toNat

/-- The words of the PDUs that are complete. -/
def streamWords : List (BitVec 8) → List CInt
  | b0 :: b1 :: b2 :: b3 :: rest =>
    if rest.length < lengthField b0 b1 b2 b3 then []
    else pduWords (rest.take (lengthField b0 b1 b2 b3)) ++
      streamWords (rest.drop (lengthField b0 b1 b2 b3))
  | _ => []
  termination_by bs => bs.length
  decreasing_by
    simp only [List.length_cons, List.length_drop]
    omega

/-- The next PDU: an LCP, or a segment with `more` behind it. -/
inductive Pdu where
  | lcp
  | segment (more : Nat) (code : BitVec 8)

namespace Pdu

/-- What follows an LCP that announces `count` segments. -/
def behindLcp (code : BitVec 8) : Nat → Pdu
  | 0 => .lcp
  | n + 1 => .segment n code

/-- What follows a PDU with this content. -/
def next : Pdu → List (BitVec 8) → Pdu
  | .lcp, content => behindLcp (content.getD 6 0) (content.getD 4 0).toNat
  | .segment 0 _, _ => .lcp
  | .segment (n + 1) code, _ => .segment n code

/-- The lengths the receiver can handle: whole words, and where it looks at the content, some. -/
def Admissible : Pdu → Nat → Prop
  | .lcp, n => n % 8 = 0 ∧ n < 2 ^ 31 ∧ 0 < n
  | .segment _ code, n => n % 8 = 0 ∧ n < 2 ^ 31 ∧ (code = mcLogon → 0 < n)

/-- Every PDU that is complete, and not just the length of an empty one, has such a length. -/
def Regular : Pdu → List (BitVec 8) → Prop
  | p, b0 :: b1 :: b2 :: b3 :: rest =>
    rest = [] ∨ rest.length < lengthField b0 b1 b2 b3 ∨
      (p.Admissible (lengthField b0 b1 b2 b3) ∧
        Regular (p.next (rest.take (lengthField b0 b1 b2 b3)))
          (rest.drop (lengthField b0 b1 b2 b3)))
  | _, _ => True
  termination_by _ bs => bs.length
  decreasing_by
    simp only [List.length_cons, List.length_drop]
    omega

theorem admissible_mod {p : Pdu} {n : Nat} (h : p.Admissible n) : n % 8 = 0 ∧ n < 2 ^ 31 := by
  cases p with
  | lcp => exact ⟨h.1, h.2.1⟩
  | segment m code => exact ⟨h.1, h.2.1⟩

/-- What holds of the complete PDUs of a stream holds of those of a part of it. -/
theorem Regular.initial {p : Pdu} {bs q : List (BitVec 8)} (h : Regular p bs) (hq : q <+: bs) :
    Regular p q := by
  induction hn : bs.length using Nat.strongRecOn generalizing p bs q with
  | ind n ih =>
    subst hn
    obtain ⟨more, rfl⟩ := hq
    match q with
    | [] => simp [Regular]
    | [_] => simp [Regular]
    | [_, _] => simp [Regular]
    | [_, _, _] => simp [Regular]
    | b0 :: b1 :: b2 :: b3 :: rest =>
      simp only [List.cons_append] at h
      rw [Regular] at h ⊢
      by_cases hshort : rest.length < lengthField b0 b1 b2 b3
      · exact .inr (.inl hshort)
      rcases h with h | h | ⟨hadm, hnext⟩
      · exact .inl (List.append_eq_nil_iff.mp h).1
      · rw [List.length_append] at h
        omega
      · refine .inr (.inr ⟨hadm, ?_⟩)
        rw [List.take_append_of_le_length (by omega), List.drop_append_of_le_length (by omega)] at hnext
        refine ih _ ?_ hnext (List.prefix_append _ _) rfl
        simp only [List.length_cons, List.length_append, List.length_drop]
        omega

end Pdu

/-! ## 2. One PDU -/

theorem takeWords_ok {len : BitVec 64} {content : List (BitVec 8)} (hlen : len.toNat = content.length)
    (hmod : content.length % 8 = 0) (more : List (BitVec 8)) :
    takeWords len (content ++ more) = .ok (pduWords content, more) := by
  induction content using pduWords.induct generalizing len with
  | case1 b0 b1 b2 b3 b4 b5 b6 b7 rest ih =>
    have hne : ¬ len = 0 := by
      rintro rfl
      exact absurd hlen (by simp)
    have hrest : (len - 8).toNat = rest.length := by
      simp only [List.length_cons] at hlen
      have h8 : (8 : BitVec 64).toNat = 8 := rfl
      have hlt := len.isLt
      rw [BitVec.toNat_sub]
      omega
    simp only [List.cons_append]
    rw [takeWords, if_neg hne, ih hrest (by simp only [List.length_cons] at hmod; omega)]
    rfl
  | case2 content hshort =>
    have hnil : content = [] := by
      rcases content with _ | ⟨b0, _ | ⟨b1, _ | ⟨b2, _ | ⟨b3, _ | ⟨b4, _ | ⟨b5, _ | ⟨b6, _ |
        ⟨b7, rest⟩⟩⟩⟩⟩⟩⟩⟩
      · rfl
      iterate 7 · exact absurd hmod (by simp)
      · exact absurd rfl (hshort b0 b1 b2 b3 b4 b5 b6 b7 rest)
    obtain rfl := hnil
    have hzero : len = 0 := BitVec.eq_of_toNat_eq hlen
    rw [hzero, takeWords_zero]
    rfl

/-- A length that is no number of words is never used up. -/
theorem takeWords_error {len : BitVec 64} (hmod : len.toNat % 8 ≠ 0) (data : List (BitVec 8)) :
    takeWords len data = .error .undefinedBehaviour := by
  have hne : ∀ {len : BitVec 64}, len.toNat % 8 ≠ 0 → ¬ len = 0 := by
    rintro len h rfl
    exact h rfl
  induction len, data using takeWords.induct with
  | case1 => exact absurd rfl (hne hmod)
  | case2 n b0 b1 b2 b3 b4 b5 b6 b7 rest hn ih =>
    have hrest : (n - 8).toNat % 8 ≠ 0 := by
      have h8 : (8 : BitVec 64).toNat = 8 := rfl
      rw [BitVec.toNat_sub]
      omega
    rw [takeWords, if_neg hn, ih hrest]
    rfl
  | case3 => exact absurd rfl (hne hmod)
  | case4 n data hshort hn =>
    rw [takeWords, if_neg hn]
    exact hshort

theorem pduLength_toNat (b0 b1 b2 b3 : BitVec 8) :
    lengthField b0 b1 b2 b3 ≤ (pduLength b0 b1 b2 b3).toNat ∧
      (lengthField b0 b1 b2 b3 < 2 ^ 31 →
        (pduLength b0 b1 b2 b3).toNat = lengthField b0 b1 b2 b3) ∧
      (2 ^ 31 ≤ lengthField b0 b1 b2 b3 → 2 ^ 63 ≤ (pduLength b0 b1 b2 b3).toNat) := by
  unfold pduLength lengthField
  have hlt := (b0 ++ b1 ++ b2 ++ b3).isLt
  rw [BitVec.toNat_signExtend, BitVec.toNat_setWidth]
  generalize b0 ++ b1 ++ b2 ++ b3 = w at hlt ⊢
  have hmsb := BitVec.msb_eq_decide w
  by_cases h : 2 ^ 31 ≤ w.toNat
  · have hm : w.msb = true := by simpa using hmsb.trans (by simpa using h)
    simp only [hm, if_true]
    omega
  · have hm : w.msb = false := by simpa using hmsb.trans (by simpa using h)
    simp only [hm, Bool.false_eq_true, if_false]
    omega

/-- The receiver is in front of this PDU. -/
def Awaits (s : Receiver) : Pdu → Prop
  | .lcp => s.mRcvState = .lcpPduLength
  | .segment more code =>
    s.mRcvState = .segPduLength ∧ s.mSubsegmentCount.toNat = more + 1 ∧
      s.mLastRcvdMessageCode = code

def contentState : Pdu → RcvStates
  | .lcp => .lcpPduContent
  | .segment _ _ => .segPduContent

/-- The receiver behind the length of a PDU. -/
def inside (p : Pdu) (len : BitVec 64) (s : Receiver) : Receiver :=
  { s with mPduLength := len, mRcvState := contentState p }

section pdu

variable {s : Receiver} {p : Pdu}

theorem step_length (h : Awaits s p) (b0 b1 b2 b3 : BitVec 8) (rest : List (BitVec 8)) :
    receiver.step s (b0 :: b1 :: b2 :: b3 :: rest) =
      some (.ok ⟨inside p (pduLength b0 b1 b2 b3) s, [], rest⟩) := by
  change receiveStep s (b0 :: b1 :: b2 :: b3 :: rest) = _
  cases p with
  | lcp =>
    have hstate : s.mRcvState = .lcpPduLength := h
    simp only [receiveStep, hstate, List.isEmpty_cons, Bool.false_eq_true, if_false]
    rfl
  | segment more code =>
    simp only [receiveStep, h.1, List.isEmpty_cons, Bool.false_eq_true, if_false]
    rfl

variable {data : List (BitVec 8)} {len : BitVec 64} {b0 b1 b2 b3 : BitVec 8}
  {rest : List (BitVec 8)} {bs : List (BitVec 8)}

theorem step_length_short (h : Awaits s p) (hlen : data.length < 4) :
    receiver.step s data = none := by
  have hnone : ∀ next, readLength next s data = none := by
    intro next
    unfold readLength
    split
    · exact absurd hlen (by simp)
    · rfl
  change receiveStep s data = none
  unfold receiveStep
  cases data with
  | nil => rfl
  | cons b data =>
    cases p with
    | lcp =>
      have hstate : s.mRcvState = .lcpPduLength := h
      simp only [hstate, hnone, List.isEmpty_cons, Bool.false_eq_true, if_false]
      rfl
    | segment more code =>
      simp only [h.1, hnone, List.isEmpty_cons, Bool.false_eq_true, if_false]
      rfl

theorem step_inside_nil (len : BitVec 64) : receiver.step (inside p len s) [] = none := rfl

theorem step_inside_short (h : data.length < len.toNat) :
    receiver.step (inside p len s) data = none := by
  change receiveStep (inside p len s) data = none
  unfold receiveStep
  cases data with
  | nil => rfl
  | cons b data =>
    cases p with
    | lcp => exact if_pos h
    | segment more code => exact if_pos h

theorem step_inside (hne : data ≠ []) (h : ¬ data.length < len.toNat) :
    receiver.step (inside p len s) data = match p with
      | .lcp => some (readLcp (inside p len s) data)
      | .segment _ _ => some (readSegment (inside p len s) data) := by
  change receiveStep (inside p len s) data = _
  unfold receiveStep
  cases data with
  | nil => exact absurd rfl hne
  | cons b data =>
    cases p with
    | lcp => exact if_neg h
    | segment more code => exact if_neg h

theorem byteAt_content {content more : List (BitVec 8)} {i : Nat} (h : i < content.length) :
    byteAt (content ++ more) i = .ok (content.getD i 0) := by
  rw [byteAt, List.getElem?_append_left h, List.getElem?_eq_getElem h,
    List.getD_eq_getElem?_getD, List.getElem?_eq_getElem h]
  rfl

theorem nextPdu_pos {n : BitVec 64} (h : n.toNat ≠ 0) : nextPdu n = .segPduLength := by
  have hpos : n > 0 := by
    rw [gt_iff_lt, BitVec.lt_def]
    exact Nat.pos_of_ne_zero h
  exact if_pos hpos

theorem nextPdu_zero {n : BitVec 64} (h : n.toNat = 0) : nextPdu n = .lcpPduLength := by
  obtain rfl : n = 0 := BitVec.eq_of_toNat_eq h
  rfl

theorem readLcp_ok {content : List (BitVec 8)}
    (hlen : len.toNat = content.length) (hadm : Pdu.lcp.Admissible content.length) :
    ∃ s', Awaits s' (Pdu.next .lcp content) ∧ ∀ more,
      readLcp (inside .lcp len s) (content ++ more) = .ok ⟨s', pduWords content, more⟩ := by
  obtain ⟨hmod, -, hpos⟩ := hadm
  refine ⟨⟨nextPdu ((content.getD 4 0).setWidth 64), 0, (content.getD 4 0).setWidth 64,
    content.getD 6 0, s.mSegmentSize⟩, ?_, fun more => ?_⟩
  · have hcount : ((content.getD 4 0).setWidth 64).toNat = (content.getD 4 0).toNat := by
      rw [BitVec.toNat_setWidth]
      have hlt := (content.getD 4 0).isLt
      omega
    rw [Pdu.next]
    cases hn : (content.getD 4 0).toNat with
    | zero => exact nextPdu_zero (hcount.trans hn)
    | succ n => exact ⟨nextPdu_pos (by omega), hcount.trans hn, rfl⟩
  · have htake : takeWords (inside .lcp len s).mPduLength (content ++ more) =
        .ok (pduWords content, more) := takeWords_ok hlen hmod more
    rw [readLcp, byteAt_content (by omega), byteAt_content (by omega)]
    simp only [bind, Except.bind, htake]
    rfl

theorem logonSize_content (s : Receiver) (content : List (BitVec 8))
    (h : s.mLastRcvdMessageCode = mcLogon → 8 ≤ content.length) :
    ∃ size, ∀ more, logonSize s (content ++ more) = .ok size := by
  unfold logonSize
  by_cases hc : s.mLastRcvdMessageCode = mcLogon
  · have hpos := h hc
    refine ⟨segmentSize (content.getD 6 0) (content.getD 7 0), fun more => ?_⟩
    rw [if_pos hc, byteAt_content (by omega), byteAt_content (by omega)]
    rfl
  · exact ⟨s.mSegmentSize, fun more => if_neg hc⟩

theorem readSegment_ok {content : List (BitVec 8)} {count : Nat}
    {code : BitVec 8} (h : Awaits s (.segment count code)) (hlen : len.toNat = content.length)
    (hadm : (Pdu.segment count code).Admissible content.length) :
    ∃ s', Awaits s' (Pdu.next (.segment count code) content) ∧ ∀ more,
      readSegment (inside (.segment count code) len s) (content ++ more) =
        .ok ⟨s', pduWords content, more⟩ := by
  obtain ⟨hmod, -, hlogon⟩ := hadm
  obtain ⟨-, hcount, hcode⟩ := h
  obtain ⟨size, hsize⟩ := logonSize_content (inside (.segment count code) len s) content
    fun hc => by
      have hpos := hlogon (hcode.symm.trans hc)
      omega
  refine ⟨⟨nextPdu (s.mSubsegmentCount - 1), 0, s.mSubsegmentCount - 1, s.mLastRcvdMessageCode,
    size⟩, ?_, fun more => ?_⟩
  · have hless : (s.mSubsegmentCount - 1).toNat = count := by
      have h1 : (1 : BitVec 64).toNat = 1 := rfl
      have hlt := s.mSubsegmentCount.isLt
      rw [BitVec.toNat_sub]
      omega
    cases count with
    | zero => exact nextPdu_zero hless
    | succ n => exact ⟨nextPdu_pos (by omega), hless, hcode⟩
  · have htake : takeWords (inside (.segment count code) len s).mPduLength (content ++ more) =
        .ok (pduWords content, more) := takeWords_ok hlen hmod more
    rw [readSegment, hsize]
    simp only [bind, Except.bind, htake]
    rfl

/-- **One PDU**: its words come out, and the receiver is in front of the next one. -/
theorem drain_pdu (h : Awaits s p) {content : List (BitVec 8)}
    (hlen : lengthField b0 b1 b2 b3 = content.length) (hadm : p.Admissible content.length) :
    ∃ s', Awaits s' (p.next content) ∧ ∀ more, content ++ more ≠ [] →
      receiver.drain s (b0 :: b1 :: b2 :: b3 :: (content ++ more)) =
        (receiver.drain s' more).map fun t => { t with out := pduWords content ++ t.out } := by
  have hlen64 : (pduLength b0 b1 b2 b3).toNat = content.length := by
    rw [(pduLength_toNat b0 b1 b2 b3).2.1 (by rw [hlen]; exact (Pdu.admissible_mod hadm).2), hlen]
  have hfull : ∀ more : List (BitVec 8),
      ¬ (content ++ more).length < (pduLength b0 b1 b2 b3).toNat := by
    intro more
    rw [hlen64, List.length_append]
    omega
  obtain ⟨s', hs', hstep⟩ : ∃ s', Awaits s' (p.next content) ∧ ∀ more, content ++ more ≠ [] →
      receiver.step (inside p (pduLength b0 b1 b2 b3) s) (content ++ more) =
        some (.ok ⟨s', pduWords content, more⟩) := by
    cases p with
    | lcp =>
      obtain ⟨s', hs', hread⟩ := readLcp_ok (s := s) hlen64 hadm
      refine ⟨s', hs', fun more hne => ?_⟩
      rw [step_inside hne (hfull more)]
      exact congrArg some (hread more)
    | segment count code =>
      obtain ⟨s', hs', hread⟩ := readSegment_ok h hlen64 hadm
      refine ⟨s', hs', fun more hne => ?_⟩
      rw [step_inside hne (hfull more)]
      exact congrArg some (hread more)
  refine ⟨s', hs', fun more hne => ?_⟩
  rw [Parser.drain_ok (step_length h _ _ _ _ _), Parser.drain_ok (hstep more hne)]
  rcases receiver.drain s' more with e | t
  · rfl
  · rfl

/-! ## 3. The whole stream -/

theorem streamWords_pdu {content : List (BitVec 8)}
    (hlen : lengthField b0 b1 b2 b3 = content.length) (more : List (BitVec 8)) :
    streamWords (b0 :: b1 :: b2 :: b3 :: (content ++ more)) =
      pduWords content ++ streamWords more := by
  rw [streamWords, if_neg (by rw [hlen, List.length_append]; omega), hlen, List.take_left,
    List.drop_left]

theorem streamWords_short (h : rest.length < lengthField b0 b1 b2 b3) :
    streamWords (b0 :: b1 :: b2 :: b3 :: rest) = [] := by
  rw [streamWords, if_pos h]

theorem streamWords_fewer (h : bs.length < 4) : streamWords bs = [] := by
  match bs with
  | [] | [_] | [_, _] | [_, _, _] => simp [streamWords]
  | b0 :: b1 :: b2 :: b3 :: rest => exact absurd h (by simp)

theorem streamWords_empty (b0 b1 b2 b3 : BitVec 8) :
    streamWords [b0, b1, b2, b3] = [] := by
  rcases Nat.eq_zero_or_pos (lengthField b0 b1 b2 b3) with hlen | hlen
  · have hnone := @streamWords_pdu b0 b1 b2 b3 [] hlen []
    have hbehind : streamWords [] = [] := streamWords_fewer (by decide)
    rw [List.nil_append, hbehind, List.append_nil] at hnone
    exact hnone
  · exact streamWords_short hlen

theorem pduWords_ne_nil {content : List (BitVec 8)} (h : 8 ≤ content.length) :
    pduWords content ≠ [] := by
  match content with
  | b0 :: b1 :: b2 :: b3 :: b4 :: b5 :: b6 :: b7 :: rest => simp [pduWords]
  | [] | [_] | [_, _] | [_, _, _] | [_, _, _, _] | [_, _, _, _, _] | [_, _, _, _, _, _]
  | [_, _, _, _, _, _, _] => exact absurd h (by simp)

/-- Behind a length the loop waits, and nothing comes out. -/
theorem drain_length (h : Awaits s p)
    (hwait : receiver.step (inside p (pduLength b0 b1 b2 b3) s) rest = none) :
    ∃ r, receiver.drain s (b0 :: b1 :: b2 :: b3 :: rest) = .ok r ∧ r.out = [] := by
  rw [Parser.drain_ok (step_length h _ _ _ _ _), Parser.drain_wait hwait]
  exact ⟨_, rfl, rfl⟩

theorem drain_short (hlen : bs.length < 4) (h : Awaits s p) :
    ∃ r, receiver.drain s bs = .ok r ∧ r.out = streamWords bs := by
  rw [Parser.drain_wait (step_length_short h hlen), streamWords_fewer hlen]
  exact ⟨_, rfl, rfl⟩

theorem drain_regular (h : Awaits s p) (hreg : p.Regular bs) :
    ∃ r, receiver.drain s bs = .ok r ∧ r.out = streamWords bs := by
  induction hn : bs.length using Nat.strongRecOn generalizing s p bs with
  | ind n ih =>
    subst hn
    match bs with
    | [] | [_] | [_, _] | [_, _, _] => exact drain_short (by simp) h
    | b0 :: b1 :: b2 :: b3 :: rest =>
      rw [Pdu.Regular] at hreg
      by_cases hempty : rest = []
      · obtain rfl := hempty
        rw [streamWords_empty]
        exact drain_length h (step_inside_nil _)
      by_cases hshort : rest.length < lengthField b0 b1 b2 b3
      · rw [streamWords_short hshort]
        have hle := (pduLength_toNat b0 b1 b2 b3).1
        exact drain_length h (step_inside_short (by omega))
      obtain ⟨hadm, hnext⟩ := (hreg.resolve_left hempty).resolve_left hshort
      have hlen : lengthField b0 b1 b2 b3 = (rest.take (lengthField b0 b1 b2 b3)).length := by
        rw [List.length_take]
        omega
      have hsplit : rest.take (lengthField b0 b1 b2 b3) ++ rest.drop (lengthField b0 b1 b2 b3) =
          rest := List.take_append_drop _ _
      obtain ⟨s', hs', hpdu⟩ := drain_pdu h hlen (hlen ▸ hadm)
      have hdrain := hpdu (rest.drop (lengthField b0 b1 b2 b3)) (by rwa [hsplit])
      obtain ⟨r, hr, hout⟩ := ih _ (by simp only [List.length_cons, List.length_drop]; omega)
        hs' hnext rfl
      have hwords := streamWords_pdu hlen (rest.drop (lengthField b0 b1 b2 b3))
      rw [hsplit] at hdrain hwords
      rw [hdrain, hr, hwords]
      exact ⟨_, rfl, by rw [← hout]⟩

/-- A content that is no number of words is read beyond its end. -/
theorem drain_error_of_mod (h : Awaits s p)
    (hne : rest ≠ []) (hfull : ¬ rest.length < (pduLength b0 b1 b2 b3).toNat)
    (hmod : (pduLength b0 b1 b2 b3).toNat % 8 ≠ 0) :
    ∃ e, receiver.drain s (b0 :: b1 :: b2 :: b3 :: rest) = .error e := by
  have htake : ∀ p, takeWords (inside p (pduLength b0 b1 b2 b3) s).mPduLength rest =
      .error .undefinedBehaviour := fun _ => takeWords_error hmod rest
  obtain ⟨e, hstep⟩ : ∃ e, receiver.step (inside p (pduLength b0 b1 b2 b3) s) rest =
      some (.error e) := by
    rw [step_inside hne hfull]
    cases p with
    | lcp =>
      change ∃ e, some (readLcp _ rest) = _
      rw [readLcp]
      rcases byteAt rest 4 with e | count
      · exact ⟨e, rfl⟩
      rcases byteAt rest 6 with e | code
      · exact ⟨e, rfl⟩
      · exact ⟨_, by simp only [bind, Except.bind, htake]; rfl⟩
    | segment count code =>
      change ∃ e, some (readSegment _ rest) = _
      rw [readSegment]
      rcases logonSize (inside (.segment count code) (pduLength b0 b1 b2 b3) s) rest with e | size
      · exact ⟨e, rfl⟩
      · exact ⟨_, by simp only [bind, Except.bind, htake]; rfl⟩
  refine ⟨e, ?_⟩
  rw [Parser.drain_ok (step_length h _ _ _ _ _), Parser.drain_error hstep]
  rfl

/-- Where an empty content is looked at, with one byte behind it. -/
theorem drain_error_of_empty {b0 b1 b2 b3 b : BitVec 8} (h : Awaits s p)
    (hzero : (pduLength b0 b1 b2 b3).toNat = 0) (hadm : ¬ p.Admissible 0) :
    ∃ e, receiver.drain s [b0, b1, b2, b3, b] = .error e := by
  obtain ⟨e, hstep⟩ : ∃ e, receiver.step (inside p (pduLength b0 b1 b2 b3) s) [b] =
      some (.error e) := by
    rw [step_inside (List.cons_ne_nil _ _) (by omega)]
    cases p with
    | lcp => exact ⟨_, rfl⟩
    | segment count code =>
      have hlogon : code = mcLogon := by
        by_contra hc
        exact hadm ⟨rfl, by decide, fun h => absurd h hc⟩
      have hcode : (inside (.segment count code) (pduLength b0 b1 b2 b3) s).mLastRcvdMessageCode =
          mcLogon := h.2.2.trans hlogon
      refine ⟨.undefinedBehaviour, ?_⟩
      change some (readSegment _ [b]) = _
      rw [readSegment, logonSize, if_pos hcode]
      rfl
  refine ⟨e, ?_⟩
  rw [Parser.drain_ok (step_length h _ _ _ _ _), Parser.drain_error hstep]
  rfl

/-- A PDU that is complete and not admissible: a front part fails or does not come out. -/
theorem drain_inadmissible (h : Awaits s p)
    (hempty : rest ≠ []) (hshort : ¬ rest.length < lengthField b0 b1 b2 b3)
    (hadm : ¬ p.Admissible (lengthField b0 b1 b2 b3)) :
    ∃ q, q <+: b0 :: b1 :: b2 :: b3 :: rest ∧
      ∀ r, receiver.drain s q = .ok r → r.out ≠ streamWords q := by
  have hlen : lengthField b0 b1 b2 b3 = (rest.take (lengthField b0 b1 b2 b3)).length := by
    rw [List.length_take]
    omega
  obtain ⟨hle, hsmall, hlarge⟩ := pduLength_toNat b0 b1 b2 b3
  have hfront : b0 :: b1 :: b2 :: b3 :: rest.take (lengthField b0 b1 b2 b3) <+:
      b0 :: b1 :: b2 :: b3 :: rest :=
    ⟨rest.drop (lengthField b0 b1 b2 b3), by simp⟩
  by_cases hbig : 2 ^ 31 ≤ lengthField b0 b1 b2 b3
  · -- the length is taken for one that never arrives
    refine ⟨_, hfront, fun r hr => ?_⟩
    have hfield : lengthField b0 b1 b2 b3 < 2 ^ 32 := (b0 ++ b1 ++ b2 ++ b3).isLt
    have hwait := hlarge hbig
    obtain ⟨r', hr', hout⟩ : ∃ r, receiver.drain s
        (b0 :: b1 :: b2 :: b3 :: rest.take (lengthField b0 b1 b2 b3)) = .ok r ∧ r.out = [] :=
      drain_length h (step_inside_short (by omega))
    obtain rfl := Except.ok.inj (hr'.symm.trans hr)
    have hwords := streamWords_pdu hlen []
    rw [List.append_nil] at hwords
    rw [hout, hwords]
    intro hnil
    exact pduWords_ne_nil (by omega) (List.append_eq_nil_iff.mp hnil.symm).1
  have hfield := hsmall (by omega)
  by_cases hmod : lengthField b0 b1 b2 b3 % 8 = 0
  · -- an empty content is looked at
    have hzero : lengthField b0 b1 b2 b3 = 0 := by
      by_contra hpos
      refine hadm ?_
      cases p with
      | lcp => exact ⟨hmod, by omega, by omega⟩
      | segment count code => exact ⟨hmod, by omega, fun _ => by omega⟩
    rw [hzero] at hadm
    match rest with
    | [] => exact absurd rfl hempty
    | b :: rest =>
      obtain ⟨e, he⟩ := drain_error_of_empty (b := b) h (hfield.trans hzero) hadm
      refine ⟨[b0, b1, b2, b3, b], ⟨rest, rfl⟩, fun r hr => ?_⟩
      exact absurd (he.symm.trans hr) (by simp)
  · -- the words go beyond the content
    have hne : rest.take (lengthField b0 b1 b2 b3) ≠ [] := by
      intro hnil
      rw [hnil] at hlen
      simp only [List.length_nil] at hlen
      omega
    obtain ⟨e, he⟩ : ∃ e, receiver.drain s
        (b0 :: b1 :: b2 :: b3 :: rest.take (lengthField b0 b1 b2 b3)) = .error e :=
      drain_error_of_mod h hne (by omega) (by rwa [hfield])
    exact ⟨_, hfront, fun r hr => absurd (he.symm.trans hr) (by simp)⟩

/-- A stream that is not regular has a front part that fails or does not come out. -/
theorem drain_irregular (h : Awaits s p) (hreg : ¬ p.Regular bs) :
    ∃ q, q <+: bs ∧ ∀ r, receiver.drain s q = .ok r → r.out ≠ streamWords q := by
  induction hn : bs.length using Nat.strongRecOn generalizing s p bs with
  | ind n ih =>
    subst hn
    match bs with
    | [] | [_] | [_, _] | [_, _, _] => exact absurd (by simp [Pdu.Regular]) hreg
    | b0 :: b1 :: b2 :: b3 :: rest =>
      rw [Pdu.Regular] at hreg
      obtain ⟨hempty, hshort, hnext⟩ : rest ≠ [] ∧ ¬ rest.length < lengthField b0 b1 b2 b3 ∧
          (p.Admissible (lengthField b0 b1 b2 b3) →
            ¬ (p.next (rest.take (lengthField b0 b1 b2 b3))).Regular
              (rest.drop (lengthField b0 b1 b2 b3))) := by
        refine ⟨fun h => hreg (.inl h), fun h => hreg (.inr (.inl h)), fun ha hr => ?_⟩
        exact hreg (.inr (.inr ⟨ha, hr⟩))
      have hlen : lengthField b0 b1 b2 b3 = (rest.take (lengthField b0 b1 b2 b3)).length := by
        rw [List.length_take]
        omega
      by_cases hadm : p.Admissible (lengthField b0 b1 b2 b3)
      · -- the defect is in a later PDU
        obtain ⟨s', hs', hpdu⟩ := drain_pdu h hlen (hlen ▸ hadm)
        obtain ⟨q, hq, hbad⟩ := ih _ (by simp only [List.length_cons, List.length_drop]; omega)
          hs' (hnext hadm) rfl
        have hq0 : q ≠ [] := by
          rintro rfl
          obtain ⟨r, hr, hout⟩ : ∃ r, receiver.drain s' [] = .ok r ∧ r.out = streamWords [] :=
            drain_short (by simp) hs'
          exact hbad r hr hout
        refine ⟨b0 :: b1 :: b2 :: b3 :: (rest.take (lengthField b0 b1 b2 b3) ++ q), ?_, ?_⟩
        · obtain ⟨more, hmore⟩ := hq
          refine ⟨more, ?_⟩
          simp only [List.cons_append, List.append_assoc, hmore, List.take_append_drop]
        · intro r hr
          rw [hpdu q (by simp [hq0])] at hr
          rcases hdrain : receiver.drain s' q with e | t
          · rw [hdrain] at hr
            exact absurd hr (by simp [Except.map])
          · rw [hdrain] at hr
            obtain rfl := Except.ok.inj hr
            rw [streamWords_pdu hlen]
            exact fun hout => hbad t hdrain (List.append_cancel_left hout)
      · exact drain_inadmissible h hempty hshort hadm

end pdu

/-! ## 4. Receptions -/

namespace Concentrator

/-- The events of the receiving direction. -/
def isReception : Event → Bool
  | .tick _ | .getData => true
  | .transfer _ => false

/-- The receptions of a run. -/
def pieces : List Event → List (List (BitVec 8))
  | [] => []
  | .tick bytes :: es => bytes :: pieces es
  | .transfer _ :: es => pieces es
  | .getData :: es => pieces es

/-- All the bytes received in a run. -/
def received (es : List Event) : List (BitVec 8) := (pieces es).flatten

def wordsOf : Output → List CInt
  | .queued words => words
  | _ => []

/-- The words queued in a run. -/
def queuedWords (os : List Output) : List CInt := os.flatMap wordsOf

/-- A run of receptions is the parser, fed piece by piece. -/
theorem observe_receptions {es : List Event} (h : ∀ e ∈ es, isReception e = true)
    (c : Concentrator) :
    (observe step es c).map (fun t => queuedWords t.1) =
      (receiver.feed c.rcv c.mReceiveBuf (pieces es)).map Progress.out := by
  induction es generalizing c with
  | nil => rfl
  | cons e es ih =>
    have hrest := ih fun e he => h e (List.mem_cons_of_mem _ he)
    cases e with
    | transfer data => exact absurd (h _ List.mem_cons_self) (by simp [isReception])
    | getData =>
      have hsame : c.getData.2.rcv = c.rcv ∧ c.getData.2.mReceiveBuf = c.mReceiveBuf := by
        unfold getData
        split
        · exact ⟨rfl, rfl⟩
        · split <;> exact ⟨rfl, rfl⟩
      have hone := hrest c.getData.2
      rw [hsame.1, hsame.2] at hone
      have hstep : step .getData c = .ok (.data c.getData.1, c.getData.2) := rfl
      rw [Observe.observe_cons hstep, pieces, ← hone]
      rcases observe step es c.getData.2 with e | t
      · rfl
      · rfl
    | tick bytes =>
      rw [pieces]
      rcases hdrain : receiver.drain c.rcv (c.mReceiveBuf ++ bytes) with e | r
      · have hstep : step (.tick bytes) c = .error e := by rw [step_tick, hdrain]; rfl
        rw [Observe.observe_cons_error hstep, Parser.feed, hdrain]
        rfl
      · have hstep : step (.tick bytes) c = .ok (.queued r.out, { c.setRcv r.state with
            mReceiveBuf := r.rest
            mToCrayData := c.mToCrayData ++ r.out }) := by
          rw [step_tick, hdrain]
          rfl
        rw [Observe.observe_cons hstep, Parser.feed_cons hdrain]
        have hone := hrest { c.setRcv r.state with
          mReceiveBuf := r.rest
          mToCrayData := c.mToCrayData ++ r.out }
        change _ = Except.map Progress.out (receiver.feed r.state r.rest (pieces es)) at hone
        revert hone
        generalize observe step es _ = x, receiver.feed r.state r.rest (pieces es) = y
        intro hone
        rcases x with e | t
        · rcases y with e' | u
          · simpa [Except.map] using hone
          · exact absurd hone (by simp [Except.map])
        · rcases y with e' | u
          · exact absurd hone (by simp [Except.map])
          · have hwords : queuedWords t.1 = u.out := by simpa [Except.map] using hone
            simp [Except.map, queuedWords, wordsOf, ← hwords]

/-- The words that receptions queue are those the parser puts out. -/
theorem queues_iff {es : List Event} (h : ∀ e ∈ es, isReception e = true) (c : Concentrator)
    {words : List CInt} :
    (∃ os c', observe step es c = .ok (os, c') ∧ queuedWords os = words) ↔
      ∃ r, receiver.feed c.rcv c.mReceiveBuf (pieces es) = .ok r ∧ r.out = words := by
  rw [← map_eq_ok_iff (f := Progress.out), ← observe_receptions h, map_eq_ok_iff, Prod.exists]

theorem feed_regular {s : Receiver} {p : Pdu} {pieces : List (List (BitVec 8))} (h : Awaits s p)
    (hreg : p.Regular pieces.flatten) :
    ∃ r, receiver.feed s [] pieces = .ok r ∧ r.out = streamWords pieces.flatten := by
  cases pieces with
  | nil => exact ⟨_, rfl, (streamWords_fewer (by decide)).symm⟩
  | cons piece rest =>
    obtain ⟨r, hr, hdrain⟩ := @Parser.feed_ok _ _ _ _ receiver s [] piece rest fun q hq => by
      obtain ⟨r, hr, -⟩ := drain_regular h (hreg.initial hq)
      exact ⟨r, hr⟩
    obtain ⟨r', hr', hout⟩ := drain_regular h hreg
    obtain rfl := Except.ok.inj (hr'.symm.trans hdrain)
    exact ⟨r', hr, hout⟩

/-- However a part of the stream is received, no reception fails, and the words queued are those
    of the bytes received. -/
def Parses (c : Concentrator) (bs : List (BitVec 8)) : Prop :=
  ∀ es : List Event, (∀ e ∈ es, isReception e = true) → received es <+: bs →
    ∃ os c', observe step es c = .ok (os, c') ∧ queuedWords os = streamWords (received es)

/-- **The receiver**: the streams parsed are those whose complete PDUs have whole words, fewer
    than 2 GiB, and are not empty where the content is looked at. -/
theorem parses_iff (mSubsegmentCount : BitVec 64) (bs : List (BitVec 8)) :
    Parses (constructed mSubsegmentCount) bs ↔ Pdu.lcp.Regular bs := by
  have hawaits : Awaits (constructed mSubsegmentCount).rcv .lcp := rfl
  constructor
  · intro h
    by_contra hreg
    obtain ⟨q, hq, hbad⟩ := drain_irregular hawaits hreg
    have hreceived : received [.tick q] = q := by simp [received, pieces]
    have hone : ∀ e ∈ [Event.tick q], isReception e = true := by simp [isReception]
    obtain ⟨r, hfeed, hout⟩ := (queues_iff hone _).mp (h [.tick q] hone (by rwa [hreceived]))
    have hdrain : receiver.drain (constructed mSubsegmentCount).rcv q = .ok r :=
      (Parser.feed_singleton _ _ _).symm.trans hfeed
    exact hbad r hdrain (by rw [hout, hreceived])
  · intro hreg es hes hfront
    exact (queues_iff hes _).mpr (feed_regular hawaits (hreg.initial hfront))

/-- An LCP without content, and one byte behind it. -/
def emptyLcp : List (BitVec 8) := [0, 0, 0, 0, 1]

theorem step_emptyLcp : step (.tick emptyLcp) (constructed 0) = .error .undefinedBehaviour := by
  have hawaits : Awaits (constructed 0).rcv .lcp := rfl
  have hcontent : receiver.step (inside .lcp (pduLength 0 0 0 0) (constructed 0).rcv) [1] =
      some (.error .undefinedBehaviour) := rfl
  have hdrain : receiver.drain (constructed 0).rcv (0 :: 0 :: 0 :: 0 :: [1]) =
      .error .undefinedBehaviour := by
    rw [Parser.drain_ok (step_length hawaits 0 0 0 0 [1]), Parser.drain_error hcontent]
    rfl
  rw [step_tick]
  exact congrArg (Except.map _) hdrain

theorem not_parses_emptyLcp : ¬ ∀ (mSubsegmentCount : BitVec 64) (bs : List (BitVec 8)),
    Parses (constructed mSubsegmentCount) bs := by
  intro h
  obtain ⟨os, c', hrun, -⟩ := h 0 emptyLcp [.tick emptyLcp] (by simp [isReception])
    (by simp [received, pieces])
  rw [Observe.observe_cons_error step_emptyLcp] at hrun
  exact absurd hrun (by simp)

end Concentrator

end CraySim
