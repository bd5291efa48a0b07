/-
  Subject:   The packets of the IOS-E and the stream they come in.

  A cluster receives all the packets of one channel transfer in one buffer. `Tick` takes it apart
  by looking for the next word that repeats the header, not by the length field.

  * `IopEPacket` -- a header word and what follows it, with the fields of the header,
  * `finalize` -- seals a packet: magic number, length, flags, copy of the header behind,
  * `forEachPacket` -- the loop that takes a buffer apart,
  * `recovers_iff` -- the packets come back as they were sent if and only if none of them carries
    its own header as a payload word.
-/
import CraySim.Types

namespace CraySim

/-! ## 1. Packets -/

/-- `IopEPacket_c`; `mPacket` is never empty where the source reads it. -/
structure IopEPacket where
  header : CInt
  payload : List CInt
  deriving DecidableEq

namespace IopEPacket

def cMagic : BitVec 8 := 45

/-- `cFlagAck`: acknowledge packet. -/
def cFlagAck : BitVec 8 := 0o100

variable (p : IopEPacket)

/-- `GetRawData`. -/
def mPacket : List CInt := p.header :: p.payload

def getMagic : BitVec 8 := (getBits p.header 58 63).setWidth 8

def getLength : BitVec 16 := (getBits p.header 48 57).setWidth 16

def getProcess : BitVec 8 := (getBits p.header 32 36).setWidth 8

def setMagic (aValue : BitVec 8) : IopEPacket :=
  { p with header := setBits p.header 58 63 (aValue.setWidth 64) }

def setLength (aValue : BitVec 16) : IopEPacket :=
  { p with header := setBits p.header 48 57 (aValue.setWidth 64) }

def setFlags (aValue : BitVec 8) : IopEPacket :=
  { p with header := setBits p.header 24 31 (aValue.setWidth 64) }

def setSeq (aValue : BitVec 8) : IopEPacket :=
  { p with header := setBits p.header 8 15 (aValue.setWidth 64) }

def setAckSeq (aValue : BitVec 8) : IopEPacket :=
  { p with header := setBits p.header 0 7 (aValue.setWidth 64) }

/-- `SetSize`: `resize`, new words are 0. -/
def setSize (aSize : Nat) : IopEPacket :=
  { p with payload := p.payload.take aSize ++ List.replicate (aSize - p.payload.length) 0 }.setLength
    (BitVec.ofNat 16 (aSize + 1))

/-- `Data(aIdx)`; behind the end nothing is defined. -/
def data (aIdx : Nat) : Except Exn CInt :=
  match p.payload[aIdx]? with
  | some w => .ok w
  | none => .error .undefinedBehaviour

/-- `Data(aIdx) = aValue`. -/
def setData (aIdx : Nat) (aValue : CInt) : Except Exn IopEPacket :=
  if aIdx < p.payload.length then .ok { p with payload := p.payload.set aIdx aValue }
  else .error .undefinedBehaviour

def isValid : Bool :=
  if p.header ≠ p.mPacket.getLast (List.cons_ne_nil _ _) then false
  else if p.getMagic ≠ cMagic then false
  else if p.getLength.toNat ≠ p.mPacket.length - 1 then false
  else true

def finalize : IopEPacket :=
  let sealedPacket :=
    ((p.setMagic cMagic).setLength (BitVec.ofNat 16 p.mPacket.length)).setFlags cFlagAck
  { sealedPacket with payload := sealedPacket.payload ++ [sealedPacket.header] }

end IopEPacket

/-- `ReversePacket`: the packet goes back where it came from. -/
def reversePacket : List CInt → List CInt
  | [] => []
  | w :: ws =>
    let did := getBitsReverse w 0 15
    let sid := getBitsReverse w 16 31
    setBitsReverse (setBitsReverse w 0 15 sid) 16 31 did :: ws

/-! ## 2. The loop of `Tick` -/

/-- `std::find`: what stands before the first `x`, and what behind it. -/
def find (x : CInt) : List CInt → Option (List CInt × List CInt)
  | [] => none
  | w :: ws => if w = x then some ([], ws) else (find x ws).map fun r => (w :: r.1, r.2)

theorem find_eq_some {x : CInt} {ws before after : List CInt}
    (h : find x ws = some (before, after)) : ws = before ++ x :: after ∧ x ∉ before := by
  induction ws generalizing before with
  | nil => exact absurd h (by simp [find])
  | cons w ws ih =>
    unfold find at h
    split at h
    · rename_i hw
      obtain ⟨rfl, rfl⟩ : [] = before ∧ ws = after := by simpa using h
      exact ⟨by rw [hw]; rfl, List.not_mem_nil⟩
    · rename_i hw
      rcases hr : find x ws with - | ⟨b, a⟩
      · rw [hr] at h
        exact absurd h (by simp)
      · rw [hr] at h
        obtain ⟨rfl, rfl⟩ : w :: b = before ∧ a = after := by simpa using h
        obtain ⟨rfl, hb⟩ := ih hr
        exact ⟨rfl, by simpa [hb] using fun h => hw h.symm⟩

/-- The first place that holds `x` is found. -/
theorem find_append {x : CInt} {before : List CInt} (after : List CInt) (h : x ∉ before) :
    find x (before ++ x :: after) = some (before, after) := by
  induction before with
  | nil => simp [find]
  | cons w ws ih =>
    obtain ⟨hw, hws⟩ : ¬ x = w ∧ x ∉ ws := by simpa using h
    have hwx : ¬ w = x := fun h => hw h.symm
    rw [List.cons_append, find, if_neg hwx, ih hws]
    rfl

/-- The loop over the packets of a buffer; a header that is not repeated ends it. -/
def forEachPacket {σ : Type} (body : IopEPacket → σ → Except Exn σ) :
    List CInt → σ → Except Exn σ
  | [], s => .ok s
  | packetBegin :: rest, s =>
    match _h : find packetBegin rest with
    | none => .ok s
    | some (words, after) =>
      let packet : IopEPacket := ⟨packetBegin, words ++ [packetBegin]⟩
      if packet.isValid then (body packet s).bind (forEachPacket body after)
      else .error .assertion
  termination_by raw => raw.length
  decreasing_by
    have hrest := congrArg List.length (find_eq_some _h).1
    simp at hrest ⊢
    omega

/-- What a cluster counts about its packets, beside its devices. -/
structure SimIopCluster (σ : Type) where
  mSeqSent : BitVec 8
  mSeqReceived : BitVec 8
  mPacketsReceived : BitVec 64
  devices : σ

/-! ## 3. What a sealed packet looks like -/

namespace IopEPacket

variable (p : IopEPacket)

/-- The header a packet is sent with: magic number 45, its size, the acknowledge flag. -/
def sealedHeader : CInt :=
  setBits (setBits (setBits p.header 58 63 45) 48 57
    ((BitVec.ofNat 16 (p.payload.length + 1)).setWidth 64)) 24 31 0o100

theorem finalize_eq : p.finalize = ⟨p.sealedHeader, p.payload ++ [p.sealedHeader]⟩ := rfl

theorem mPacket_finalize :
    p.finalize.mPacket = p.sealedHeader :: (p.payload ++ [p.sealedHeader]) := rfl

theorem magic_sealedHeader : (getBits p.sealedHeader 58 63).setWidth 8 = cMagic := by
  have hget : getBits p.sealedHeader 58 63 = 45 := by
    rw [sealedHeader, getBits_eq_get, setBits_eq_put, setBits_eq_put, setBits_eq_put,
      WordField.get_put_of_disjoint _ _ _ _ _ _ (by decide),
      WordField.get_put_of_disjoint _ _ _ _ _ _ (by decide), WordField.get_put _ _ _ _ (by decide)]
    rfl
  rw [hget]
  rfl

/-- The length field of the sealed header is the size of the packet, cut to ten bits. -/
theorem length_sealedHeader :
    ((getBits p.sealedHeader 48 57).setWidth 16).toNat = (p.payload.length + 1) % 1024 := by
  have hget : (getBits p.sealedHeader 48 57).toNat = (p.payload.length + 1) % 1024 := by
    rw [sealedHeader, getBits_eq_get, setBits_eq_put, setBits_eq_put,
      WordField.get_put_of_disjoint _ _ _ _ _ _ (by decide), WordField.get_put _ _ _ _ (by decide),
      WordField.toNat_and_mask]
    have hten : max 48 57 - min 48 57 + 1 = 10 := rfl
    simp only [BitVec.toNat_setWidth, BitVec.toNat_ofNat, hten]
    omega
  rw [BitVec.toNat_setWidth, hget]
  omega

variable {p}

/-- A packet that starts with the sealed header of `p` and ends with it is valid if and only if it
    is as long as `p` says. -/
theorem isValid_sealed (hp : p.mPacket.length < 1024) (words : List CInt) :
    (⟨p.sealedHeader, words ++ [p.sealedHeader]⟩ : IopEPacket).isValid =
      decide (words.length = p.payload.length) := by
  have hlen : p.payload.length + 1 < 1024 := by simpa [mPacket] using hp
  have hlength := p.length_sealedHeader
  rw [Nat.mod_eq_of_lt hlen] at hlength
  have hlast : ∀ hne, (p.sealedHeader :: (words ++ [p.sealedHeader])).getLast hne =
      p.sealedHeader := fun hne => by simp [List.getLast_cons]
  simp only [isValid, mPacket, getMagic, getLength, magic_sealedHeader, hlength, hlast]
  by_cases h : words.length = p.payload.length
  · simp [h]
  · have hne : ¬ p.payload.length = words.length := fun he => h he.symm
    simp [h, hne]

theorem isValid_finalize (hp : p.mPacket.length < 1024) : p.finalize.isValid := by
  rw [finalize_eq, isValid_sealed hp]
  exact decide_eq_true rfl

end IopEPacket

/-! ## 4. One packet of the stream -/

section stream

variable {σ : Type} {body : IopEPacket → σ → Except Exn σ} {p : IopEPacket}

/-- A packet without its header among the payload is taken whole. -/
theorem forEachPacket_recovered (hp : p.mPacket.length < 1024) (h : p.sealedHeader ∉ p.payload)
    (rest : List CInt) (s : σ) :
    forEachPacket body (p.finalize.mPacket ++ rest) s =
      (body p.finalize s).bind (forEachPacket body rest) := by
  have hraw : p.finalize.mPacket ++ rest =
      p.sealedHeader :: (p.payload ++ p.sealedHeader :: rest) := by
    simp [IopEPacket.mPacket_finalize]
  rw [hraw, forEachPacket]
  split
  · rename_i hfind
    rw [find_append rest h] at hfind
    exact absurd hfind (by simp)
  · rename_i words after hfind
    rw [find_append rest h] at hfind
    obtain ⟨rfl, rfl⟩ : p.payload = words ∧ rest = after := by simpa using hfind
    rw [if_pos (p.finalize_eq ▸ IopEPacket.isValid_finalize hp), ← p.finalize_eq]

/-- A packet with its header among the payload is cut there, and the assertion fails. -/
theorem forEachPacket_cut (hp : p.mPacket.length < 1024) (h : p.sealedHeader ∈ p.payload)
    (rest : List CInt) (s : σ) :
    forEachPacket body (p.finalize.mPacket ++ rest) s = .error .assertion := by
  obtain ⟨before, after, hpayload, hbefore⟩ := List.eq_append_cons_of_mem h
  have hraw : p.finalize.mPacket ++ rest =
      p.sealedHeader :: (before ++ p.sealedHeader :: (after ++ p.sealedHeader :: rest)) := by
    rw [IopEPacket.mPacket_finalize, hpayload]
    simp
  have hshort : ¬ before.length = p.payload.length := by
    rw [hpayload]
    simp
  rw [hraw, forEachPacket]
  split
  · rename_i hfind
    rw [find_append _ hbefore] at hfind
    exact absurd hfind (by simp)
  · rename_i words tail hfind
    rw [find_append _ hbefore] at hfind
    obtain ⟨rfl, -⟩ : before = words ∧ _ := by simpa using hfind
    rw [if_neg]
    rw [IopEPacket.isValid_sealed hp]
    simpa using hshort

/-! ## 5. The stream -/

/-- The channel buffer that holds the sealed packets one after the other. -/
def packetBuffer (ps : List IopEPacket) : List CInt := ps.flatMap fun p => p.finalize.mPacket

/-- Taking the buffer apart gives the sealed packets, all valid, in order, and nothing else: the
    loop does what its body does on them, whatever the body is. -/
def Recovers (ps : List IopEPacket) : Prop :=
  (∀ p ∈ ps, p.finalize.isValid) ∧
    ∀ (σ : Type) (body : IopEPacket → σ → Except Exn σ) (s : σ),
      forEachPacket body (packetBuffer ps) s =
        (ps.map IopEPacket.finalize).foldlM (fun s p => body p s) s

theorem packetBuffer_cons (p : IopEPacket) (ps : List IopEPacket) :
    packetBuffer (p :: ps) = p.finalize.mPacket ++ packetBuffer ps := rfl

theorem forEachPacket_packetBuffer {ps : List IopEPacket}
    (hps : ∀ p ∈ ps, p.mPacket.length < 1024) (h : ∀ p ∈ ps, p.sealedHeader ∉ p.payload) (s : σ) :
    forEachPacket body (packetBuffer ps) s =
      (ps.map IopEPacket.finalize).foldlM (fun s p => body p s) s := by
  induction ps generalizing s with
  | nil =>
    rw [packetBuffer, List.flatMap_nil, forEachPacket]
    rfl
  | cons p ps ih =>
    rw [packetBuffer_cons, forEachPacket_recovered (hps p List.mem_cons_self)
      (h p List.mem_cons_self), List.map_cons, List.foldlM_cons]
    rcases body p.finalize s with e | s'
    · rfl
    · exact ih (fun q hq => hps q (List.mem_cons_of_mem _ hq))
        (fun q hq => h q (List.mem_cons_of_mem _ hq)) s'

/-- The body that keeps the packets it is given. -/
def keepPackets (p : IopEPacket) (seen : List IopEPacket) : Except Exn (List IopEPacket) :=
  .ok (seen ++ [p])

theorem foldlM_keepPackets (ps seen : List IopEPacket) :
    ps.foldlM (fun s p => keepPackets p s) seen = .ok (seen ++ ps) := by
  induction ps generalizing seen with
  | nil => simp [pure, Except.pure]
  | cons p ps ih =>
    have htail := ih (seen ++ [p])
    rw [List.append_assoc, List.singleton_append] at htail
    exact htail

theorem forEachPacket_packetBuffer_cut {ps : List IopEPacket}
    (hps : ∀ p ∈ ps, p.mPacket.length < 1024) (h : ∃ p ∈ ps, p.sealedHeader ∈ p.payload)
    (seen : List IopEPacket) :
    forEachPacket keepPackets (packetBuffer ps) seen = .error .assertion := by
  induction ps generalizing seen with
  | nil =>
    obtain ⟨p, hp, -⟩ := h
    exact absurd hp List.not_mem_nil
  | cons p ps ih =>
    rw [packetBuffer_cons]
    by_cases hcut : p.sealedHeader ∈ p.payload
    · exact forEachPacket_cut (hps p List.mem_cons_self) hcut _ _
    · rw [forEachPacket_recovered (hps p List.mem_cons_self) hcut]
      obtain ⟨q, hq, hqcut⟩ := h
      rcases List.mem_cons.mp hq with rfl | hq
      · exact absurd hqcut hcut
      · exact ih (fun q hq => hps q (List.mem_cons_of_mem _ hq)) ⟨q, hq, hqcut⟩ _

/-- **The packet stream**: the packets come back as they were sent if and only if no packet has
    its own sealed header among its payload. -/
theorem recovers_iff (ps : List IopEPacket) (hps : ∀ p ∈ ps, p.mPacket.length < 1024) :
    Recovers ps ↔ ∀ p ∈ ps, p.sealedHeader ∉ p.payload := by
  constructor
  · intro h p hp hcut
    have hrun := h.2 (List IopEPacket) keepPackets []
    rw [forEachPacket_packetBuffer_cut hps ⟨p, hp, hcut⟩, foldlM_keepPackets] at hrun
    exact absurd hrun (by simp)
  · exact fun h => ⟨fun p hp => IopEPacket.isValid_finalize (hps p hp),
      fun _ _ s => forEachPacket_packetBuffer hps h s⟩

/-- Three packets, none of which has its sealed header among its payload. -/
theorem recovers_three : Recovers [⟨0, [0]⟩, ⟨1, [5, 6]⟩, ⟨0, []⟩] :=
  (recovers_iff [⟨0, [0]⟩, ⟨1, [5, 6]⟩, ⟨0, []⟩] (by decide)).mpr (by decide)

/-- A packet of two words whose second one repeats its sealed header. -/
theorem not_recovers_repeated :
    ¬ ∀ ps : List IopEPacket, (∀ p ∈ ps, p.mPacket.length < 1024) → Recovers ps := by
  intro h
  have hrun := (h [⟨0, [setBits (setBits (setBits 0 58 63 45) 48 57 2) 24 31 0o100]⟩]
    (by decide)).2 (List IopEPacket) keepPackets []
  rw [forEachPacket_packetBuffer_cut (by decide) ⟨_, List.mem_singleton_self _, by decide⟩,
    foldlM_keepPackets] at hrun
  exact absurd hrun (by simp)

end stream

end CraySim
