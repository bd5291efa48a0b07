/-
  Subject:   The packets of a terminal, as `sim_iop_con.cpp` handles them.

  A packet has a count of characters and its own length. The handler of the IOS-D asserts that the
  characters fit into the packet; that of the IOS-E does not.

  * `handleTPacket` -- `SimIopDConsole_c::HandleTPacket`,
  * `handleIosEPacket` -- `SimIopEConsole_c::HandleIosEPacket`,
  * `FirstBytes` -- so many bytes of words, most significant byte first,
  * `TWithin`, `ZWithin` -- a packet is handled within its bounds,
  * `packets_within_iff` -- that is so for every T packet, and for a Z packet exactly where its text
    is as long as it says.
-/
import CraySim.Console
import CraySim.IopEPacket
import CraySim.Lib.ByteFile
import CraySim.MkfsFields

namespace CraySim

namespace SimIopCon

open ByteFile Mkfs

/-! ## 1. Characters in words -/

/-- `n` characters from the word at `idx` on, as the host has them in memory. -/
def charsAt (words : List CInt) (idx n : Nat) : Except Exn (List (BitVec 8)) :=
  let bytes := (words.drop idx).flatMap fun w => bytesLE 8 w.toNat
  if n ≤ bytes.length then .ok (bytes.take n) else .error .undefinedBehaviour

/-- The bytes of words, most significant byte first. -/
def bytesOf (words : List CInt) : List (BitVec 8) := words.flatMap fun w => bytesBE 8 w.toNat

/-- The first `n` bytes there are in words. -/
def FirstBytes (words : List CInt) (n : Nat) (s : List (BitVec 8)) : Prop :=
  s <+: bytesOf words ∧ s.length = n

/-! ## 2. T packets -/

/-- `IosTPacket_n::FunctionCodes_e`. -/
inductive FunctionCodes where
  | putChars
  | eol
  | disconnect
  | connect
  | ioctl
  | noTty
  | logout
  deriving DecidableEq

/-- `FunctionCodes_e(...)`, where it is one of them. -/
def FunctionCodes.ofBits (w : CInt) : Option FunctionCodes :=
  match w.toNat with
  | 1 => some .putChars
  | 2 => some .eol
  | 3 => some .disconnect
  | 4 => some .connect
  | 5 => some .ioctl
  | 6 => some .noTty
  | 7 => some .logout
  | _ => none

/-- `aPacket[aIdx]`. -/
def word (aPacket : List CInt) (aIdx : Nat) : Except Exn CInt :=
  match aPacket[aIdx]? with
  | some w => .ok w
  | none => .error .undefinedBehaviour

/-- The packet goes back with `StatusCodes_e::OK` and no characters. -/
def okReply (aPacket : List CInt) : Except Exn (List CInt) := do
  let reversed := reversePacket aPacket
  let w ← word reversed 0
  return reversed.set 0 (setBits (setBits w 8 11 1) 0 7 0)

/-- The words are swapped for `SendString` and swapped back. -/
def putText (aPacket : List CInt) (ByteCnt : Nat) : Except Exn (List (BitVec 8) × List CInt) :=
  let swapped := aPacket.map swapBytes
  (charsAt swapped 1 ByteCnt).map fun text => (text, swapped.map swapBytes)

/-- **`SimIopDConsole_c::HandleTPacket`**: the strings sent to the terminal, and the packets sent to
    the mainframe. -/
def handleTPacket (aPacket : List CInt) :
    Except Exn (List (List (BitVec 8)) × List (List CInt)) :=
  (word aPacket 0).bind fun w =>
    let ByteCnt := (getBits w 0 7).toNat
    if 40 < ByteCnt then .error .assertion
    else match FunctionCodes.ofBits (getBits w 12 15) with
      | some .putChars =>
        (putText aPacket ByteCnt).bind fun r => (okReply r.2).map fun reply => ([r.1], [reply])
      | some .eol =>
        (putText aPacket ByteCnt).bind fun r =>
          (okReply r.2).map fun reply => ([r.1, [13, 10]], [reply])
      | some .connect => (okReply aPacket).map fun reply => ([], [reply])
      | some .ioctl =>
        -- the modes are read and not used
        (word aPacket 1).bind fun _ => (okReply aPacket).map fun reply => ([], [reply])
      | some .disconnect | some .noTty | some .logout | none => .error .assertion

/-! ## 3. Z packets -/

/-- `IosEZPacket_n::RequestCodes_e`. -/
inductive RequestCodes where
  | ZP_CON_RQ
  | ZP_CON_RP
  | ZP_DIS
  | ZP_DATA
  | ZP_WINCH
  deriving DecidableEq

namespace RequestCodes

def code : RequestCodes → CInt
  | .ZP_CON_RQ => 1
  | .ZP_CON_RP => 2
  | .ZP_DIS => 3
  | .ZP_DATA => 4
  | .ZP_WINCH => 5

/-- `RequestCodes_e(...)`, where it is one of them. -/
def ofBits (w : CInt) : Option RequestCodes :=
  match w.toNat with
  | 1 => some .ZP_CON_RQ
  | 2 => some .ZP_CON_RP
  | 3 => some .ZP_DIS
  | 4 => some .ZP_DATA
  | 5 => some .ZP_WINCH
  | _ => none

end RequestCodes

/-- `cFlagAck` of the Z packets. -/
def cFlagAck : CInt := 0x08

/-- A console of the IOS-E with its cluster; `devices` are the packets queued for the mainframe.
    `strings` are the strings sent to the terminal so far. -/
structure EConsole where
  mDev : BitVec 8
  mDisableAutoTerminal : Bool
  mSeqZSent : BitVec 8
  mSeqZReceived : BitVec 8
  mParent : SimIopCluster (List (List CInt))
  strings : List (List (BitVec 8))

namespace EConsole

variable (s : EConsole)

/-- `GenerateResponse`, the copy of the request resized to nothing; or a new packet. -/
def generateResponse (aRequest : IopEPacket) : IopEPacket :=
  (((aRequest.setSize 0).setAckSeq s.mParent.mSeqReceived).setSeq s.mParent.mSeqSent).setFlags
    IopEPacket.cFlagAck

def sendPacket (aPacket : IopEPacket) : EConsole :=
  let packet :=
    ((aPacket.setAckSeq s.mParent.mSeqReceived).setSeq s.mParent.mSeqSent).finalize
  { s with mParent :=
    { s.mParent with
      mSeqSent := s.mParent.mSeqSent + 1
      devices := s.mParent.devices ++ [packet.mPacket] } }

def sendString (aData : List (BitVec 8)) : EConsole := { s with strings := s.strings ++ [aData] }

/-- The fields of a response, one `SetBitsInPlace` for each. -/
def responseWord (Flags Request Dev : CInt) : CInt :=
  [(56, 63, BitVec.ofNat 64 'z'.toNat), (48, 55, Flags), (40, 47, Request), (23, 31, 0),
    (16, 22, Dev), (8, 15, s.mSeqZSent.setWidth 64 + 1), (0, 7, s.mSeqZReceived.setWidth 64)].foldl
    (fun w (f : Nat × Nat × CInt) => setBits w f.1 f.2.1 f.2.2) 0

/-- A response of one word is sent. -/
def respond (Response : IopEPacket) (Flags Request Dev : CInt) : Except Exn EConsole := do
  let r ← (Response.setSize 1).setData 0 (s.responseWord Flags Request Dev)
  return s.sendPacket r

def sendTransmitAck : Except Exn EConsole :=
  s.respond (s.generateResponse ⟨0, []⟩) cFlagAck RequestCodes.ZP_DATA.code (s.mDev.setWidth 64)

/-- `SendHandlerDetail`: a string has been written, and the queue is empty or not. -/
def sendHandlerDetail (empty : Bool) : Except Exn EConsole :=
  if s.mDisableAutoTerminal then .ok s
  else if empty then s.sendTransmitAck
  else .ok s

end EConsole

/-- The loop that swaps the words of the text. -/
def swapData : Nat → IopEPacket → Except Exn IopEPacket
  | 0, aPacket => .ok aPacket
  | i + 1, aPacket =>
    (swapData i aPacket).bind fun aPacket =>
      (aPacket.data (i + 1)).bind fun w => aPacket.setData (i + 1) (swapBytes w)

/-- The text of the packet is sent, and acknowledged if nothing else will do that. -/
def sendText (aPacket : IopEPacket) (CharCount : Nat) (s : EConsole) : Except Exn EConsole :=
  (swapData ((CharCount + 7) / 8) aPacket).bind fun aPacket =>
    -- `&aPacket.Data(1)`
    (charsAt aPacket.mPacket 2 CharCount).bind fun text =>
      if s.mDisableAutoTerminal then (s.sendString text).sendTransmitAck
      else .ok (s.sendString text)

/-- `CharCount` of the first word of a packet. -/
def charCount (w : CInt) : Nat := (getBits w 23 31).toNat

/-- `Request` of the first word of a packet. -/
def request (w : CInt) : Option RequestCodes := RequestCodes.ofBits (getBits w 40 47)

/-- The sequence numbers of a packet are taken over. -/
def EConsole.received (s : EConsole) (w : CInt) : EConsole :=
  { s with
    mSeqZReceived := (getBits w 8 15).setWidth 8
    mSeqZSent := (getBits w 0 7).setWidth 8 }

/-- **`SimIopEConsole_c::HandleIosEPacket`**. -/
def handleIosEPacket (aPacket : IopEPacket) (s : EConsole) : Except Exn EConsole :=
  (aPacket.data 0).bind fun w =>
    let CharCount := charCount w
    let Dev := getBits w 16 22
    let Flags := getBits w 48 55
    let s := s.received w
    let Response := s.generateResponse aPacket
    match request w with
    | some .ZP_DATA => sendText aPacket CharCount s
    | some .ZP_DIS => if CharCount ≠ 0 then sendText aPacket CharCount s else .ok s
    | some .ZP_CON_RQ => s.respond Response Flags RequestCodes.ZP_CON_RQ.code Dev
    | some .ZP_CON_RP => s.respond Response Flags RequestCodes.ZP_CON_RP.code Dev
    | some .ZP_WINCH | none => .error .assertion

/-! ## 4. What handling a packet is to be -/

/-- What a T packet has for the terminal. -/
def TSent (aPacket : List CInt) (w : CInt) (strings : List (List (BitVec 8))) : Prop :=
  match FunctionCodes.ofBits (getBits w 12 15) with
  | some .putChars => ∃ s, strings = [s] ∧ FirstBytes (aPacket.drop 1) (getBits w 0 7).toNat s
  | some .eol =>
    ∃ s, strings = [s, [13, 10]] ∧ FirstBytes (aPacket.drop 1) (getBits w 0 7).toNat s
  | _ => strings = []

/-- A T packet is handled within its bounds: nothing outside of it is read or written; what is sent
    is the text it has; and there is one reply at most. -/
structure TWithin (aPacket : List CInt) : Prop where
  inside : handleTPacket aPacket ≠ .error .undefinedBehaviour
  sent : ∀ strings replies, handleTPacket aPacket = .ok (strings, replies) →
    ∃ w, aPacket[0]? = some w ∧ TSent aPacket w strings ∧ replies.length ≤ 1

/-- The words of the text of a packet: those between the first word and the closing header. -/
def text (aPacket : IopEPacket) : List CInt := (aPacket.payload.drop 1).dropLast

/-- The packet has a text for the terminal. -/
def HasText (w : CInt) : Prop :=
  request w = some .ZP_DATA ∨ request w = some .ZP_DIS ∧ charCount w ≠ 0

/-- The replies a packet leads to: those sent at once, and one for each string that is written where
    the console acknowledges them (`SendHandlerDetail`). -/
def replies (s s' : EConsole) : Nat :=
  (s'.mParent.devices.length - s.mParent.devices.length) +
    if s.mDisableAutoTerminal then 0 else s'.strings.length - s.strings.length

/-- A Z packet is handled within its bounds, as a T packet. -/
structure ZWithin (aPacket : IopEPacket) (s : EConsole) : Prop where
  inside : handleIosEPacket aPacket s ≠ .error .undefinedBehaviour
  sent : ∀ s', handleIosEPacket aPacket s = .ok s' → ∃ w new, aPacket.payload[0]? = some w ∧
    s'.strings = s.strings ++ new ∧
    (HasText w → ∃ str, new = [str] ∧ FirstBytes (text aPacket) (charCount w) str) ∧
    (¬ HasText w → new = []) ∧ replies s s' ≤ 1

/-! ## 5. Characters -/

theorem bytesLE_eq_map (n x : Nat) :
    bytesLE n x = (List.range n).map fun k => BitVec.ofNat 8 (x / 256 ^ k) := by
  induction n generalizing x with
  | zero => rfl
  | succ n ih =>
    rw [bytesLE_succ, ih, List.range_succ_eq_map, List.map_cons, List.map_map, pow_zero, Nat.div_one]
    refine congrArg _ (List.map_congr_left fun k _ => ?_)
    rw [Function.comp_apply, Nat.div_div_eq_div_mul, Nat.pow_succ']

theorem bytesBE_eq_reverse (n x : Nat) : bytesBE n x = (bytesLE n x).reverse := by
  induction n generalizing x with
  | zero => rfl
  | succ n ih => rw [bytesBE_succ, bytesLE_succ, List.reverse_cons, ih]

theorem ofNat_div_pow (w : CInt) (k : Nat) :
    BitVec.ofNat 8 (w.toNat / 256 ^ k) = w.extractLsb' (8 * k) 8 := by
  apply BitVec.eq_of_toNat_eq
  have hpow : (256 : Nat) ^ k = 2 ^ (8 * k) := by rw [Nat.pow_mul]
  rw [BitVec.toNat_ofNat, BitVec.extractLsb'_toNat, Nat.shiftRight_eq_div_pow, hpow]

theorem extractLsb'_swapBytes (w : CInt) {k : Nat} (hk : k < 8) :
    (swapBytes w).extractLsb' (8 * k) 8 = w.extractLsb' (8 * (7 - k)) 8 := by
  apply BitVec.eq_of_getLsbD_eq
  intro i hi
  rw [BitVec.getLsbD_extractLsb', BitVec.getLsbD_extractLsb', getLsbD_swapBytes _ (by omega)]
  congr 2
  omega

/-- **A swapped word** has its bytes in memory in the mainframe's order. -/
theorem bytesLE_swapBytes (w : CInt) : bytesLE 8 (swapBytes w).toNat = bytesBE 8 w.toNat := by
  have hbytes : ∀ v : CInt, bytesLE 8 v.toNat = (List.range 8).map fun k => v.extractLsb' (8 * k) 8 :=
    fun v => by simp only [bytesLE_eq_map, ofNat_div_pow]
  have hswap : bytesLE 8 (swapBytes w).toNat =
      (List.range 8).map fun k => w.extractLsb' (8 * (7 - k)) 8 := by
    rw [hbytes]
    exact List.map_congr_left fun k hk => extractLsb'_swapBytes w (List.mem_range.mp hk)
  rw [hswap, bytesBE_eq_reverse, hbytes]
  rfl

theorem flatMap_swapBytes (ws : List CInt) :
    ((ws.map swapBytes).flatMap fun w => bytesLE 8 w.toNat) = bytesOf ws := by
  rw [List.flatMap_map, bytesOf]
  simp only [bytesLE_swapBytes]

theorem length_bytesOf (ws : List CInt) : (bytesOf ws).length = 8 * ws.length := by
  induction ws with
  | nil => rfl
  | cons w ws ih => rw [bytesOf, List.flatMap_cons, List.length_append, ← bytesOf, ih,
      length_bytesBE, List.length_cons, Nat.mul_succ, Nat.add_comm]

theorem bytesOf_append (ws vs : List CInt) : bytesOf (ws ++ vs) = bytesOf ws ++ bytesOf vs :=
  List.flatMap_append

theorem firstBytes_take {ws : List CInt} {n : Nat} (h : n ≤ 8 * ws.length) :
    FirstBytes ws n ((bytesOf ws).take n) := by
  refine ⟨List.take_prefix n _, ?_⟩
  rw [List.length_take, length_bytesOf, Nat.min_eq_left h]

/-! ## 6. T packets -/

theorem map_swapBytes_twice (ws : List CInt) : (ws.map swapBytes).map swapBytes = ws := by
  rw [List.map_map]
  exact (List.map_congr_left fun w _ => swapBytes_twice w).trans (List.map_id _)

variable {aPacket : List CInt} {p : IopEPacket}

theorem putText_eq {n : Nat} (h : n ≤ 8 * (aPacket.drop 1).length) :
    putText aPacket n = .ok ((bytesOf (aPacket.drop 1)).take n, aPacket) := by
  have hchars : charsAt (aPacket.map swapBytes) 1 n =
      .ok ((bytesOf (aPacket.drop 1)).take n) := by
    rw [charsAt, ← List.map_drop]
    simp only [flatMap_swapBytes, length_bytesOf, if_pos h]
  simp only [putText, hchars, map_swapBytes_twice]
  rfl

theorem okReply_ok (h : aPacket ≠ []) : ∃ r, okReply aPacket = .ok r := by
  obtain ⟨w, ws, rfl⟩ := List.exists_cons_of_ne_nil h
  exact ⟨_, rfl⟩

theorem tWithin_of_assertion (h : handleTPacket aPacket = .error .assertion) :
    TWithin aPacket where
  inside := by
    rw [h]
    simp
  sent strings replies hok := absurd (h.symm.trans hok) (by simp)

theorem tWithin_of_ok {aPacket r : List CInt} {strings : List (List (BitVec 8))} {w : CInt}
    (h : handleTPacket aPacket = .ok (strings, [r])) (hw : aPacket[0]? = some w)
    (hsent : TSent aPacket w strings) : TWithin aPacket where
  inside := by
    rw [h]
    simp
  sent strings' replies hok := by
    obtain ⟨rfl, rfl⟩ := Prod.mk.inj (Except.ok.inj (h.symm.trans hok))
    exact ⟨w, hw, hsent, Nat.le_refl 1⟩

/-- **Every T packet** is handled within its bounds. -/
theorem tWithin (h : aPacket.length = 6) : TWithin aPacket := by
  obtain ⟨w, w₁, rest, rfl⟩ : ∃ w w₁ rest, aPacket = w :: w₁ :: rest := by
    match aPacket, h with
    | w :: w₁ :: rest, _ => exact ⟨w, w₁, rest, rfl⟩
  rw [List.length_cons] at h
  obtain ⟨r, hr⟩ := okReply_ok (List.cons_ne_nil w (w₁ :: rest))
  have hsecond : word (w :: w₁ :: rest) 1 = .ok w₁ := rfl
  have hstart : handleTPacket (w :: w₁ :: rest) =
      if 40 < (getBits w 0 7).toNat then _ else _ := rfl
  by_cases hmany : 40 < (getBits w 0 7).toNat
  · exact tWithin_of_assertion (hstart.trans (if_pos hmany))
  · rw [if_neg hmany] at hstart
    have hroom : (getBits w 0 7).toNat ≤ 8 * (w₁ :: rest).length := by omega
    have htext : putText (w :: w₁ :: rest) (getBits w 0 7).toNat = _ := putText_eq hroom
    have hfirst := firstBytes_take hroom
    cases hcode : FunctionCodes.ofBits (getBits w 12 15) with
    | none => exact tWithin_of_assertion (by simp only [hstart, hcode])
    | some code =>
      cases code with
      | putChars =>
        refine tWithin_of_ok (by simp only [hstart, hcode, htext, hr, Except.bind, Except.map]; rfl)
          rfl ?_
        rw [TSent, hcode]
        exact ⟨_, rfl, hfirst⟩
      | eol =>
        refine tWithin_of_ok (by simp only [hstart, hcode, htext, hr, Except.bind, Except.map]; rfl)
          rfl ?_
        rw [TSent, hcode]
        exact ⟨_, rfl, hfirst⟩
      | connect =>
        refine tWithin_of_ok (by simp only [hstart, hcode, hr, Except.map]; rfl) rfl ?_
        rw [TSent, hcode]
      | ioctl =>
        refine tWithin_of_ok (by simp only [hstart, hcode, hsecond, hr, Except.bind, Except.map]; rfl)
          rfl ?_
        rw [TSent, hcode]
      | disconnect | noTty | logout => exact tWithin_of_assertion (by simp only [hstart, hcode])

/-! ## 7. Z packets -/

/-- The packet with the first words behind the first one swapped. -/
def swapped (h z : CInt) (rest : List CInt) (n : Nat) : IopEPacket :=
  ⟨h, z :: ((rest.take n).map swapBytes ++ rest.drop n)⟩

theorem swap_next {h z : CInt} {rest : List CInt} {n : Nat} (hn : n < rest.length) :
    ((swapped h z rest n).data (n + 1)).bind
        (fun w => (swapped h z rest n).setData (n + 1) (swapBytes w)) =
      .ok (swapped h z rest (n + 1)) := by
  have hlen : ((rest.take n).map swapBytes).length = n := by
    rw [List.length_map, List.length_take, Nat.min_eq_left (Nat.le_of_lt hn)]
  have hdrop : rest.drop n = rest[n] :: rest.drop (n + 1) := List.drop_eq_getElem_cons hn
  have hget : (swapped h z rest n).payload[n + 1]? = some rest[n] := by
    rw [swapped, List.getElem?_cons_succ, List.getElem?_append_right (Nat.le_of_eq hlen), hlen,
      Nat.sub_self, hdrop]
    rfl
  have hin : n + 1 < (swapped h z rest n).payload.length := by
    rw [swapped, List.length_cons, List.length_append, hlen, List.length_drop]
    omega
  have hset : (swapped h z rest n).payload.set (n + 1) (swapBytes rest[n]) =
      (swapped h z rest (n + 1)).payload := by
    rw [swapped, swapped, List.set_cons_succ, List.set_append_right _ _ (Nat.le_of_eq hlen), hlen,
      Nat.sub_self, hdrop, List.set_cons_zero, List.take_add_one, List.getElem?_eq_getElem hn,
      List.map_append, Option.toList_some, List.map_singleton, List.append_assoc]
    rfl
  rw [IopEPacket.data, hget]
  simp only [Except.bind, IopEPacket.setData, if_pos hin, hset]
  rfl

/-- The loop swaps as many words as it is asked to, or leaves the packet. -/
theorem swapData_eq (h z : CInt) (rest : List CInt) (n : Nat) :
    swapData n ⟨h, z :: rest⟩ =
      if n ≤ rest.length then .ok (swapped h z rest n) else .error .undefinedBehaviour := by
  induction n with
  | zero =>
    rw [if_pos (Nat.zero_le _)]
    rfl
  | succ n ih =>
    rw [swapData, ih]
    by_cases hn : n + 1 ≤ rest.length
    · rw [if_pos (Nat.le_of_succ_le hn), if_pos hn]
      exact swap_next hn
    · rw [if_neg hn]
      split
      · next hle =>
        have hend : (swapped h z rest n).payload[n + 1]? = none := by
          apply List.getElem?_eq_none
          rw [swapped, List.length_cons, List.length_append, List.length_map, List.length_take,
            List.length_drop]
          omega
        simp only [Except.bind, IopEPacket.data, hend]
      · rfl

/-- The text that is sent is the first bytes of what stands behind the first word, if there are as
    many words as it takes. -/
theorem sendText_eq (h z : CInt) (rest : List CInt) (CharCount : Nat) (s : EConsole) :
    sendText ⟨h, z :: rest⟩ CharCount s =
      if (CharCount + 7) / 8 ≤ rest.length then
        if s.mDisableAutoTerminal then
          (s.sendString ((bytesOf rest).take CharCount)).sendTransmitAck
        else .ok (s.sendString ((bytesOf rest).take CharCount))
      else .error .undefinedBehaviour := by
  rw [sendText, swapData_eq]
  by_cases hn : (CharCount + 7) / 8 ≤ rest.length
  · rw [if_pos hn, if_pos hn]
    generalize hwords : (CharCount + 7) / 8 = n at hn
    have hbytes : ((swapped h z rest n).mPacket.drop 2).flatMap (fun w => bytesLE 8 w.toNat) =
        bytesOf (rest.take n) ++ (rest.drop n).flatMap fun w => bytesLE 8 w.toNat := by
      rw [swapped, IopEPacket.mPacket, List.drop_succ_cons, List.drop_succ_cons, List.drop_zero,
        List.flatMap_append, flatMap_swapBytes]
    have hlen : (bytesOf (rest.take n)).length = 8 * n := by
      rw [length_bytesOf, List.length_take, Nat.min_eq_left hn]
    have htake : (bytesOf (rest.take n) ++
          (rest.drop n).flatMap fun w => bytesLE 8 w.toNat).take CharCount =
        (bytesOf rest).take CharCount := by
      have hsplit : bytesOf rest = bytesOf (rest.take n) ++ bytesOf (rest.drop n) := by
        rw [← bytesOf_append, List.take_append_drop]
      rw [hsplit, List.take_append_of_le_length (by omega),
        List.take_append_of_le_length (by omega)]
    have hchars : charsAt (swapped h z rest n).mPacket 2 CharCount =
        .ok ((bytesOf rest).take CharCount) := by
      rw [charsAt]
      simp only [hbytes, htake, List.length_append, hlen]
      exact if_pos (by omega)
    simp only [Except.bind, hchars]
  · rw [if_neg hn, if_neg hn]
    rfl

/-- A response goes out, and nothing to the terminal. -/
theorem respond_ok (s : EConsole) (Response : IopEPacket) (Flags Request Dev : CInt) :
    ∃ s', s.respond Response Flags Request Dev = .ok s' ∧ s'.strings = s.strings ∧
      s'.mParent.devices.length = s.mParent.devices.length + 1 := by
  have hlen : 0 < (Response.setSize 1).payload.length := by
    have hsize : (Response.setSize 1).payload.length =
        (Response.payload.take 1 ++ List.replicate (1 - Response.payload.length) 0).length := rfl
    rw [hsize, List.length_append, List.length_take, List.length_replicate]
    omega
  obtain ⟨r, hr⟩ : ∃ r, (Response.setSize 1).setData 0 (s.responseWord Flags Request Dev) =
      .ok r := by
    rw [IopEPacket.setData, if_pos hlen]
    exact ⟨_, rfl⟩
  refine ⟨s.sendPacket r, ?_, rfl, List.length_append⟩
  rw [EConsole.respond, hr]
  rfl

/-- A string is sent, and acknowledged once, at once or when it is written. -/
theorem acknowledged (s : EConsole) (z : CInt) (str : List (BitVec 8)) :
    ∃ s', (if (s.received z).mDisableAutoTerminal then
        ((s.received z).sendString str).sendTransmitAck
      else .ok ((s.received z).sendString str)) = .ok s' ∧
      s'.strings = s.strings ++ [str] ∧ replies s s' ≤ 1 := by
  cases hauto : s.mDisableAutoTerminal with
  | true =>
    have hcond : (s.received z).mDisableAutoTerminal = true := hauto
    obtain ⟨s', hs', hstr, hlen⟩ := respond_ok ((s.received z).sendString str)
      (((s.received z).sendString str).generateResponse ⟨0, []⟩) cFlagAck
      RequestCodes.ZP_DATA.code (s.mDev.setWidth 64)
    have hlen' : s'.mParent.devices.length = s.mParent.devices.length + 1 := hlen
    refine ⟨s', (if_pos hcond).trans hs', hstr, ?_⟩
    rw [replies, hauto, if_pos rfl, hlen']
    omega
  | false =>
    have hcond : ¬ (s.received z).mDisableAutoTerminal = true := by
      rw [EConsole.received, hauto]
      exact Bool.false_ne_true
    have hparent : ((s.received z).sendString str).mParent = s.mParent := rfl
    have hstr : ((s.received z).sendString str).strings = s.strings ++ [str] := rfl
    refine ⟨_, if_neg hcond, hstr, ?_⟩
    rw [replies, hauto, if_neg Bool.false_ne_true, hstr, hparent, List.length_append,
      List.length_singleton]
    omega

/-- A packet the cluster gives to a handler: a first word, a text, and the header again. -/
theorem payload_of_isValid (hvalid : p.isValid = true) (hlen : 1 < p.getLength.toNat) :
    ∃ z, p.payload = z :: (text p ++ [p.header]) := by
  rw [IopEPacket.isValid] at hvalid
  split at hvalid
  · cases hvalid
  · next hlast =>
    split at hvalid
    · cases hvalid
    · split at hvalid
      · cases hvalid
      · next hlength =>
        rw [not_ne_iff] at hlast hlength
        rw [hlength, IopEPacket.mPacket, List.length_cons, Nat.add_sub_cancel] at hlen
        obtain ⟨z, rest, hpayload⟩ := List.exists_cons_of_ne_nil
          (List.ne_nil_of_length_pos (Nat.zero_lt_of_lt hlen))
        rw [hpayload, List.length_cons] at hlen
        have hrest : rest ≠ [] := List.ne_nil_of_length_pos (by omega)
        refine ⟨z, ?_⟩
        have hend : rest.getLast hrest = p.header := by
          simp only [IopEPacket.mPacket, hpayload] at hlast
          rw [hlast, List.getLast_cons (List.cons_ne_nil _ _), List.getLast_cons hrest]
        rw [text, hpayload, List.drop_one, List.tail_cons, ← hend, List.dropLast_concat_getLast]

/-- What `sendText` does with a packet, where it has the text it counts. -/
theorem zWithin_of_sendText {s : EConsole} {z : CInt}
    (hpayload : p.payload = z :: (text p ++ [p.header])) (hhas : HasText z)
    (hhandle : handleIosEPacket p s = sendText p (charCount z) (s.received z)) :
    ZWithin p s ↔ charCount z ≤ 8 * (text p).length := by
  have hfirst : p.payload[0]? = some z := by
    rw [hpayload]
    rfl
  have hpacket : p = ⟨p.header, z :: (text p ++ [p.header])⟩ := by rw [← hpayload]
  have hsend := hhandle
  rw [hpacket, sendText_eq, ← hpacket] at hsend
  rw [List.length_append, List.length_singleton] at hsend
  by_cases hroom : (charCount z + 7) / 8 ≤ (text p).length + 1
  · obtain ⟨s', hack, hstrings, hreplies⟩ :=
      acknowledged s z ((bytesOf (text p ++ [p.header])).take (charCount z))
    rw [if_pos hroom, hack] at hsend
    constructor
    · intro h
      obtain ⟨w, new, hw, -, htext, -, -⟩ := h.sent s' hsend
      obtain rfl := Option.some.inj (hfirst.symm.trans hw)
      obtain ⟨str, -, hprefix, hstr⟩ := htext hhas
      rw [← hstr, ← length_bytesOf]
      exact hprefix.length_le
    · intro hcount
      refine ⟨by rw [hsend]; simp, fun s'' hs'' => ?_⟩
      obtain rfl := Except.ok.inj (hsend.symm.trans hs'')
      refine ⟨z, _, hfirst, hstrings, fun _ => ⟨_, rfl, ?_⟩, fun hnot => absurd hhas hnot, hreplies⟩
      rw [bytesOf_append, List.take_append_of_le_length (by rw [length_bytesOf]; exact hcount)]
      exact firstBytes_take hcount
  · rw [if_neg hroom] at hsend
    exact iff_of_false (fun h => h.inside hsend) (by omega)

theorem zWithin_of_assertion {s : EConsole}
    (h : handleIosEPacket p s = .error .assertion) : ZWithin p s where
  inside := by
    rw [h]
    simp
  sent s' hs' := absurd (h.symm.trans hs') (by simp)

/-- A packet without a text: nothing goes to the terminal. -/
theorem zWithin_of_quiet {s s' : EConsole} {z : CInt}
    (hfirst : p.payload[0]? = some z) (hnot : ¬ HasText z)
    (hhandle : handleIosEPacket p s = .ok s') (hstrings : s'.strings = s.strings)
    (hlen : s'.mParent.devices.length ≤ s.mParent.devices.length + 1) : ZWithin p s where
  inside := by
    rw [hhandle]
    simp
  sent s'' hs'' := by
    obtain rfl := Except.ok.inj (hhandle.symm.trans hs'')
    refine ⟨z, [], hfirst, by rw [hstrings, List.append_nil], fun hhas => absurd hhas hnot,
      fun _ => rfl, ?_⟩
    rw [replies, hstrings, Nat.sub_self, ite_self]
    omega

/-- **A Z packet** is handled within its bounds exactly where it has the text it counts. -/
theorem zWithin_iff (hvalid : p.isValid = true) (hlen : 1 < p.getLength.toNat) (s : EConsole) :
    ZWithin p s ↔ ∀ w, p.payload[0]? = some w → HasText w → charCount w ≤ 8 * (text p).length := by
  obtain ⟨z, hpayload⟩ := payload_of_isValid hvalid hlen
  have hfirst : p.payload[0]? = some z := by
    rw [hpayload]
    rfl
  have hall : (∀ w, p.payload[0]? = some w → HasText w → charCount w ≤ 8 * (text p).length) ↔
      (HasText z → charCount z ≤ 8 * (text p).length) := by
    rw [hfirst]
    exact ⟨fun h => h z rfl, fun h w hw => Option.some.inj hw ▸ h⟩
  have hhandle : handleIosEPacket p s =
      match request z with
      | some .ZP_DATA => sendText p (charCount z) (s.received z)
      | some .ZP_DIS =>
        if charCount z ≠ 0 then sendText p (charCount z) (s.received z) else .ok (s.received z)
      | some .ZP_CON_RQ => (s.received z).respond ((s.received z).generateResponse p)
          (getBits z 48 55) RequestCodes.ZP_CON_RQ.code (getBits z 16 22)
      | some .ZP_CON_RP => (s.received z).respond ((s.received z).generateResponse p)
          (getBits z 48 55) RequestCodes.ZP_CON_RP.code (getBits z 16 22)
      | some .ZP_WINCH | none => .error .assertion := by
    rw [handleIosEPacket, IopEPacket.data, hfirst]
    rfl
  rw [hall]
  by_cases hhas : HasText z
  · rw [forall_prop_of_true hhas]
    refine zWithin_of_sendText hpayload hhas ?_
    rcases hhas with hreq | ⟨hreq, hcount⟩
    · rw [hhandle, hreq]
    · rw [hhandle, hreq]
      exact if_pos hcount
  · refine iff_of_true ?_ fun h => absurd h hhas
    cases hreq : request z with
    | none =>
      rw [hreq] at hhandle
      exact zWithin_of_assertion hhandle
    | some code =>
      rw [hreq] at hhandle
      cases code with
      | ZP_DATA => exact absurd (Or.inl hreq) hhas
      | ZP_DIS =>
        have hzero : ¬ charCount z ≠ 0 := fun hcount => hhas (Or.inr ⟨hreq, hcount⟩)
        exact zWithin_of_quiet hfirst hhas (hhandle.trans (if_neg hzero)) rfl (Nat.le_succ _)
      | ZP_CON_RQ | ZP_CON_RP =>
        obtain ⟨s', hs', hstrings, hdevices⟩ := respond_ok (s.received z) _ _ _ _
        exact zWithin_of_quiet hfirst hhas (hhandle.trans hs') hstrings (Nat.le_of_eq hdevices)
      | ZP_WINCH => exact zWithin_of_assertion hhandle

/-- **Every T packet is handled within its bounds, and a Z packet exactly where** it has the text it
    counts. -/
theorem packets_within_iff (aPacket : List CInt) (p : IopEPacket) (s : EConsole) :
    (aPacket.length = 6 → TWithin aPacket) ∧
      (p.isValid = true → 1 < p.getLength.toNat →
        (ZWithin p s ↔
          ∀ w, p.payload[0]? = some w → HasText w → charCount w ≤ 8 * (text p).length)) :=
  ⟨fun h => tWithin h, fun hvalid hlen => zWithin_iff hvalid hlen s⟩

/-- A header of a packet of so many words behind it. -/
def header (n : CInt) : CInt := setBits (setBits 0 58 63 45) 48 57 n

/-- The first word of a Z packet with text. -/
def dataWord (n : CInt) : CInt := setBits (setBits (setBits 0 56 63 90) 40 47 4) 23 31 n

/-- A console at rest. -/
def aConsole : EConsole := ⟨0, false, 0, 0, ⟨0, 0, 0, []⟩, []⟩

/-- A T packet whose function is a line of so many characters. -/
def linePacket (n : CInt) : List CInt :=
  [setBits (setBits 0 12 15 2) 0 7 n, 0x4142434445464748, 0x494a000000000000, 0, 0, 0]

/-- A line of ten characters, which is sent with its end, and two characters in a word. -/
theorem packets_within_line :
    TWithin (linePacket 10) ∧
      (handleTPacket (linePacket 10)).map Prod.fst =
        .ok [[0x41, 0x42, 0x43, 0x44, 0x45, 0x46, 0x47, 0x48, 0x49, 0x4a], [13, 10]] ∧
      ZWithin ⟨header 3, [dataWord 2, 0x4142000000000000, header 3]⟩ aConsole := by
  obtain ⟨htPacket, hzPacket⟩ := packets_within_iff (linePacket 10)
    ⟨header 3, [dataWord 2, 0x4142000000000000, header 3]⟩ aConsole
  refine ⟨htPacket rfl, rfl, (hzPacket (by decide) (by decide)).mpr ?_⟩
  intro w hw _
  obtain rfl : dataWord 2 = w := Option.some.inj hw
  decide

/-- Sixteen characters in a packet that has no word for them. -/
theorem not_packets_within :
    ¬ ∀ (p : IopEPacket) (s : EConsole), p.isValid = true → 1 < p.getLength.toNat → ZWithin p s := by
  intro h
  have hin := h ⟨header 2, [dataWord 16, header 2]⟩ aConsole (by decide) (by decide)
  have htext : HasText (dataWord 16) := Or.inl (by decide)
  have hcount := (zWithin_iff (by decide) (by decide) aConsole).mp hin (dataWord 16) rfl htext
  exact absurd hcount (by decide)

/-! ## 8. Acknowledgements -/

open Console in
/-- The strings whose writing calls `SendHandlerDetail`: it was called for them, is about to be, or
    they wait in the queue. -/
def NotifiesOnce (s : Console) : Prop :=
  s.notified + s.todo.count .notify + s.mTransmitQueue.countP TransmitQueueEntry.mDoNotify =
    s.queued.countP TransmitQueueEntry.mDoNotify

section notifies
open Console
variable {c : ConsoleConfig} {s s' : Console}

theorem notifiesOnce_push {actions : List Action} (h : NotifiesOnce s)
    (hactions : .notify ∉ actions) : NotifiesOnce (s.push actions) := by
  rw [NotifiesOnce, push, List.count_append, List.count_eq_zero.mpr hactions, Nat.zero_add]
  exact h

theorem notifiesOnce_acceptIfNeeded (h : NotifiesOnce s) : NotifiesOnce s.acceptIfNeeded := by
  rw [acceptIfNeeded]
  split
  · exact h
  · rw [NotifiesOnce, List.count_cons_of_ne (by decide)]
    exact h

theorem notifiesOnce_closeSocket (h : NotifiesOnce s) (hstep : s.closeSocket = .ok s') :
    NotifiesOnce s' := by
  rw [closeSocket] at hstep
  split at hstep
  · cases hstep
  · exact Except.ok.inj hstep ▸ notifiesOnce_acceptIfNeeded h

theorem notifiesOnce_primeForReceive (h : NotifiesOnce s) (hstep : s.primeForReceive = .ok s') :
    NotifiesOnce s' := by
  obtain ⟨_, _, rfl⟩ := primeForReceive_eq_ok hstep
  exact h

theorem notifiesOnce_sendStringInternal (h : NotifiesOnce s) (aData : List (BitVec 8))
    (aDoNotify : Bool) : NotifiesOnce (s.sendStringInternal aData aDoNotify) := by
  have hcount : (if s.mTransmitQueue.isEmpty then [Action.sendFromQueue false] else []).count
      .notify = 0 := by
    split <;> rfl
  rw [NotifiesOnce, sendStringInternal]
  simp only [List.count_append, hcount, Nat.zero_add, List.countP_append]
  rw [NotifiesOnce] at h
  omega

theorem notifiesOnce_startWrite (h : NotifiesOnce s) (hstep : s.startWrite = .ok s') :
    NotifiesOnce s' := by
  rw [startWrite] at hstep
  split at hstep
  · exact Except.ok.inj hstep ▸ h
  · split at hstep
    · split at hstep
      · cases hstep
      · exact Except.ok.inj hstep ▸ notifiesOnce_push h (by decide)
    · exact Except.ok.inj hstep ▸ h

/-- What runs on, other than the call of `SendHandlerDetail` itself. -/
theorem notifiesOnce_act {action : Action} (h : NotifiesOnce s) (hne : action ≠ .notify)
    (hstep : act s action = .ok s') : NotifiesOnce s' := by
  cases action with
  | detail | poll => cases hstep
  | polls rounds =>
    cases rounds with
    | zero => exact Except.ok.inj hstep ▸ h
    | succ rounds =>
      rw [act] at hstep
      split at hstep
      · exact Except.ok.inj hstep ▸ notifiesOnce_push h (by simp)
      · exact Except.ok.inj hstep ▸ notifiesOnce_push h (by simp)
  | leave => exact Except.ok.inj hstep ▸ h
  | sendFromQueue accepting =>
    rw [act] at hstep
    split at hstep
    · exact Except.ok.inj hstep ▸ h
    · exact Except.ok.inj hstep ▸ notifiesOnce_acceptIfNeeded (notifiesOnce_push h (by simp))
  | startWrite accepting => exact notifiesOnce_startWrite h hstep
  | sendOption aAction aOption aRequest =>
    exact Except.ok.inj hstep ▸
      notifiesOnce_sendStringInternal (notifiesOnce_push h (by simp)) _ false
  | setOption aAction aOption aRequest => exact Except.ok.inj hstep ▸ h
  | notify => exact absurd rfl hne
  | settle aAction aOption => exact notifiesOnce_primeForReceive (by exact h) hstep

theorem notifiesOnce_endReadHandler {ReceiveFull : Bool} (h : NotifiesOnce s)
    (hstep : s.endReadHandler ReceiveFull = .ok s') : NotifiesOnce s' := by
  cases ReceiveFull with
  | true => exact Except.ok.inj hstep ▸ h
  | false => exact notifiesOnce_primeForReceive (by exact h) hstep

theorem notifiesOnce_readHandler (h : NotifiesOnce s) (hstep : s.readHandler c = .ok s') :
    NotifiesOnce s' := by
  rw [readHandler] at hstep
  split at hstep
  · cases hstep
  · split at hstep
    · split at hstep
      · exact notifiesOnce_endReadHandler (by exact h) hstep
      · exact notifiesOnce_endReadHandler (by exact h) hstep
    · simp only at hstep
      split at hstep
      · exact notifiesOnce_endReadHandler (by exact h) hstep
      · exact notifiesOnce_endReadHandler (by exact h) hstep
    · split at hstep
      · cases hstep
      · refine Except.ok.inj hstep ▸ notifiesOnce_push h ?_
        split <;> simp

/-- A string that is written leaves the queue, and its call is the next one. -/
theorem notifiesOnce_writeHandler (h : NotifiesOnce s) : NotifiesOnce s.writeHandler := by
  rw [writeHandler]
  split
  · exact h
  · next Head rest hqueue =>
    rw [NotifiesOnce, hqueue, List.countP_cons] at h
    rw [NotifiesOnce, push, List.count_append, List.count_cons_of_ne (by decide)]
    cases hnotify : Head.mDoNotify with
    | true =>
      rw [if_pos hnotify] at h
      simp only [if_true, List.count_singleton_self]
      omega
    | false =>
      rw [hnotify, if_neg Bool.false_ne_true] at h
      simp only [Bool.false_eq_true, if_false, List.count_nil]
      omega

theorem notifiesOnce_complete {what : Completion} (h : NotifiesOnce s)
    (hstep : s.complete c what = .ok s') : NotifiesOnce s' := by
  cases what with
  | accepted =>
    rw [complete] at hstep
    split at hstep
    · cases hstep
    · split at hstep
      · rw [acceptHandler] at hstep
        exact notifiesOnce_primeForReceive (notifiesOnce_push (by exact h) (by simp)) hstep
      · cases hstep
  | acceptFailed =>
    rw [complete] at hstep
    split at hstep
    · cases hstep
    · exact notifiesOnce_closeSocket (by exact h) hstep
  | keepAliveFailed =>
    rw [complete] at hstep
    split at hstep
    · cases hstep
    · split at hstep
      · exact notifiesOnce_closeSocket (by exact h) hstep
      · cases hstep
  | read n b =>
    rw [complete] at hstep
    split at hstep
    · exact notifiesOnce_readHandler (by exact h) hstep
    · cases hstep
  | readFailed n =>
    rw [complete] at hstep
    split at hstep
    · exact notifiesOnce_closeSocket (by exact h) hstep
    · cases hstep
  | written k =>
    rw [complete] at hstep
    split at hstep
    · cases hstep
    · exact Except.ok.inj hstep ▸ notifiesOnce_writeHandler (by exact h)
  | writeFailed k =>
    rw [complete] at hstep
    split at hstep
    · exact notifiesOnce_closeSocket (by exact h) hstep
    · cases hstep

/-- A state without the action that is about to run. -/
theorem notifiesOnce_rest {action : Action} {rest : List Action} (h : NotifiesOnce s)
    (htodo : s.todo = action :: rest) (hne : action ≠ .notify) :
    NotifiesOnce { s with todo := rest } := by
  rw [NotifiesOnce, htodo, List.count_cons_of_ne hne] at h
  exact h

theorem notifiesOnce_step {event : Event} (h : NotifiesOnce s)
    (hstep : Console.step c event s = .ok s') : NotifiesOnce s' := by
  obtain ⟨action, rest, htodo, hcase⟩ := step_eq_ok hstep
  rcases hcase with ⟨rfl, hcalled⟩ | ⟨rfl, hpolled⟩ | ⟨rfl, hact⟩
  · cases event with
    | sendString aData =>
      exact Except.ok.inj hcalled ▸ notifiesOnce_sendStringInternal h aData true
    | sendChar aData =>
      exact Except.ok.inj hcalled ▸ notifiesOnce_sendStringInternal h _ true
    | getChar =>
      rw [called] at hcalled
      split at hcalled
      · rw [getChar] at hcalled
        split at hcalled
        · exact notifiesOnce_primeForReceive (by exact h) hcalled
        · cases hcalled
      · exact Except.ok.inj hcalled ▸ h
    | polls => exact Except.ok.inj hcalled ▸ notifiesOnce_push h (by simp)
    | returns => exact Except.ok.inj hcalled ▸ notifiesOnce_rest h htodo (by simp)
    | runs | completes | others | pollEnds => cases hcalled
  · cases event with
    | completes what => exact notifiesOnce_complete h hpolled
    | others => exact Except.ok.inj hpolled ▸ notifiesOnce_push h (by simp)
    | pollEnds => exact Except.ok.inj hpolled ▸ notifiesOnce_rest h htodo (by simp)
    | runs | sendString | sendChar | getChar | polls | returns => cases hpolled
  · by_cases hnotify : action = .notify
    · subst hnotify
      obtain rfl := Except.ok.inj hact
      rw [NotifiesOnce, htodo, List.count_cons_self] at h
      have hdetail : (Action.detail :: rest).count .notify = rest.count .notify :=
        List.count_cons_of_ne (by decide)
      show s.notified + 1 + (Action.detail :: rest).count .notify +
        s.mTransmitQueue.countP TransmitQueueEntry.mDoNotify =
          s.queued.countP TransmitQueueEntry.mDoNotify
      omega
    · exact notifiesOnce_act (notifiesOnce_rest h htodo hnotify) hnotify hact

/-- **`SendHandlerDetail` is called at most once for each string**, in every run of a console. -/
theorem notified_le {events : List Event}
    (hrun : EventRun.run (Console.step c) events constructed = .ok s) :
    s.notified ≤ s.queued.countP TransmitQueueEntry.mDoNotify := by
  have hstart : NotifiesOnce constructed := rfl
  have h := EventRun.run_keeps (I := NotifiesOnce) (fun _ _ _ h _ => notifiesOnce_step h) hstart
    (EventRun.along_true _ _) hrun
  rw [NotifiesOnce] at h
  omega

end notifies

/-- Each call gives one reply at most, and none where the handler has given it. -/
theorem sendHandlerDetail_replies {s s' : EConsole} {empty : Bool}
    (h : s.sendHandlerDetail empty = .ok s') :
    s'.mParent.devices.length ≤
      s.mParent.devices.length + if s.mDisableAutoTerminal then 0 else 1 := by
  rw [EConsole.sendHandlerDetail] at h
  split at h
  · exact Except.ok.inj h ▸ Nat.le_add_right _ _
  · next hauto =>
    rw [if_neg hauto]
    split at h
    · obtain ⟨s'', hs'', -, hlen⟩ := respond_ok s (s.generateResponse ⟨0, []⟩) cFlagAck
        RequestCodes.ZP_DATA.code (s.mDev.setWidth 64)
      obtain rfl := Except.ok.inj (hs''.symm.trans h)
      exact Nat.le_of_eq hlen
    · exact Except.ok.inj h ▸ Nat.le_succ _

end SimIopCon

end CraySim
