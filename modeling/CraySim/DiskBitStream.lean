/-
  Subject:   The bits of a scan as a queue.

  `BitStream_c` of `disk_decode.cpp` keeps bits in bytes, the first one on the left. The end is
  where the place of the next bit to be read meets the place of the next one to be written; the
  latter is 7 where the last byte is full as well as where there is none.

  * `BitStream`, `popBit`, `pushBit`, `clear`, `read` -- the class,
  * `Op`, `BitStream.run`, `queueRun` -- calls, on a stream and on a queue,
  * `Holds`, `Holds.push`, `Holds.pop` -- what a stream stands for,
  * `AtEnd`, `Holds.pop_end` -- the end of the stream, as it is found,
  * `ClearOfEnd`, `run_eq_iff` -- a stream is a queue exactly where no bit of a last, full byte is
    read.
-/
import CraySim.DiskDecodeMfm
import Mathlib.Data.List.GetD

namespace CraySim

namespace DiskDecode

/-! ## 1. The class -/

/-- `BitStream_c`. -/
structure BitStream where
  mData : List (BitVec 8)
  mPos : Nat
  mSubPos : Nat
  mCurPushBitPos : Nat
  deriving DecidableEq, Repr

namespace BitStream

def rewind (strm : BitStream) : BitStream := { strm with mPos := 0, mSubPos := 7 }

/-- `Clear`; a new stream is the same. -/
def clear : BitStream where
  mData := []
  mPos := 0
  mSubPos := 7
  mCurPushBitPos := 7

/-- `Read` of a file, and whether it succeeds. -/
def read (file : List (BitVec 8)) : BitStream × Bool :=
  if file.length = 0 then (clear, false) else ({ clear with mData := file }, true)

/-- `Bit_e((mData[mPos] >> mSubPos) & 1)`. -/
def current (strm : BitStream) : Bit :=
  if (strm.mData.getD strm.mPos 0 >>> strm.mSubPos) &&& 1 = 0 then .Zero else .One

def popBit (strm : BitStream) : Bit × BitStream :=
  if strm.mPos = strm.mData.length then (.Undef, strm)
  else if strm.mPos = strm.mData.length - 1 ∧ strm.mSubPos ≤ strm.mCurPushBitPos then
    (.Undef, strm)
  else if strm.mSubPos ≠ 0 then (strm.current, { strm with mSubPos := strm.mSubPos - 1 })
  else (strm.current, { strm with mSubPos := 7, mPos := strm.mPos + 1 })

/-- `CurByte |= 1 << mCurPushBitPos` for the last byte, if the bit is a one. -/
def setLast (aBit : Bit) (pos : Nat) (mData : List (BitVec 8)) : List (BitVec 8) :=
  if aBit = .One then mData.modify (mData.length - 1) (· ||| (1 : BitVec 8) <<< pos) else mData

def pushBit (strm : BitStream) (aBit : Bit) : BitStream :=
  let mData := if strm.mCurPushBitPos = 7 then strm.mData ++ [0] else strm.mData
  { strm with
    mData := setLast aBit strm.mCurPushBitPos mData
    mCurPushBitPos := if strm.mCurPushBitPos = 0 then 7 else strm.mCurPushBitPos - 1 }

end BitStream

/-! ## 2. Runs -/

/-- A call. -/
inductive Op where
  | push (aBit : Bit)
  | pop
  deriving DecidableEq, Repr

/-- What the calls of `PopBit` return. -/
def BitStream.run (strm : BitStream) : List Op → List Bit
  | [] => []
  | .push aBit :: ops => (strm.pushBit aBit).run ops
  | .pop :: ops => strm.popBit.1 :: strm.popBit.2.run ops

/-- What is pushed: `Bit_Undef` is stored as a zero. -/
def Bit.stored (aBit : Bit) : Bool := decide (aBit = .One)

/-- What a queue of bits returns. -/
def queueRun : List Bool → List Op → List Bit
  | _, [] => []
  | q, .push aBit :: ops => queueRun (q ++ [aBit.stored]) ops
  | [], .pop :: ops => .Undef :: queueRun [] ops
  | b :: q, .pop :: ops => Bit.ofBool b :: queueRun q ops

/-- The bits of a file, the most significant one of each byte first. -/
def fileBits (file : List (BitVec 8)) : List Bool :=
  file.flatMap fun byte => (List.range 8).map fun k => byte.getLsbD (7 - k)

/-! ## 3. What a stream stands for -/

/-- The bit at a place of the data; behind them there are zeros. -/
def bitAt (mData : List (BitVec 8)) (i : Nat) : Bool := (mData.getD (i / 8) 0).getLsbD (7 - i % 8)

/-- A stream that has been given some bits, and of which some have been read. -/
structure Holds (strm : BitStream) (bits : List Bool) (cnt : Nat) : Prop where
  length : strm.mData.length = (bits.length + 7) / 8
  bit : ∀ i, bitAt strm.mData i = bits.getD i false
  pos : strm.mPos = cnt / 8
  subPos : strm.mSubPos = 7 - cnt % 8
  pushPos : strm.mCurPushBitPos = 7 - bits.length % 8
  le : cnt ≤ bits.length

theorem length_fileBits (file : List (BitVec 8)) : (fileBits file).length = 8 * file.length := by
  induction file with
  | nil => rfl
  | cons byte file ih =>
    rw [fileBits, List.flatMap_cons, List.length_append, List.length_map, List.length_range,
      List.length_cons, ← fileBits, ih]
    omega

theorem getD_fileBits (file : List (BitVec 8)) (i : Nat) :
    (fileBits file).getD i false = bitAt file i := by
  induction file generalizing i with
  | nil => simp [fileBits, bitAt]
  | cons byte file ih =>
    rw [fileBits, List.flatMap_cons, ← fileBits]
    by_cases hi : i < 8
    · rw [List.getD_append _ _ _ _ (by simpa using hi), bitAt, Nat.div_eq_of_lt hi,
        Nat.mod_eq_of_lt hi]
      simp [hi]
    · obtain ⟨k, rfl⟩ := Nat.exists_eq_add_of_le (Nat.le_of_not_lt hi)
      have hdiv : (8 + k) / 8 = k / 8 + 1 := by omega
      have hmod : (8 + k) % 8 = k % 8 := by omega
      rw [List.getD_append_right _ _ _ _ (by simp), List.length_map, List.length_range,
        Nat.add_sub_cancel_left, ih, bitAt, bitAt, hdiv, hmod, List.getD_cons_succ]

/-- A file that was read. The data of an empty one are those of a new stream. -/
theorem holds_read (file : List (BitVec 8)) :
    Holds (BitStream.read file).1 (fileBits file) 0 := by
  have hstrm : (BitStream.read file).1 = { BitStream.clear with mData := file } := by
    rw [BitStream.read]
    split
    · rename_i h
      rw [List.length_eq_zero_iff.mp h]
      rfl
    · rfl
  rw [hstrm]
  refine ⟨?_, fun i => (getD_fileBits file i).symm, rfl, rfl, ?_, Nat.zero_le _⟩
  · show file.length = _
    rw [length_fileBits]
    omega
  · rw [length_fileBits, Nat.mul_mod_right]
    rfl

theorem getLsbD_or_one {k : Nat} (hk : k < 8) (byte : BitVec 8) (j : Nat) :
    (byte ||| (1 : BitVec 8) <<< k).getLsbD j = (byte.getLsbD j || decide (j = k)) := by
  have hone : (1 : BitVec 8).getLsbD (j - k) = decide (j - k = 0) := by
    rw [show (1 : BitVec 8) = 1#8 from rfl, BitVec.getLsbD_one]
    rfl
  have hmask : ((1 : BitVec 8) <<< k).getLsbD j = decide (j = k) := by
    rw [BitVec.getLsbD_shiftLeft, hone, Bool.eq_iff_iff]
    simp only [Bool.and_eq_true, Bool.not_eq_true', decide_eq_true_eq, decide_eq_false_iff_not]
    omega
  rw [BitVec.getLsbD_or, hmask]

theorem bitAt_append_zero (mData : List (BitVec 8)) (i : Nat) :
    bitAt (mData ++ [0]) i = bitAt mData i := by
  rw [bitAt, bitAt]
  by_cases hi : i / 8 < mData.length
  · rw [List.getD_append _ _ _ _ hi]
  · rw [List.getD_append_right _ _ _ _ (Nat.le_of_not_lt hi),
      List.getD_eq_default _ _ (Nat.le_of_not_lt hi)]
    cases i / 8 - mData.length <;> rfl

theorem bitAt_setLast {mData : List (BitVec 8)} {n : Nat} (hn : mData.length = n / 8 + 1)
    (aBit : Bit) (i : Nat) :
    bitAt (BitStream.setLast aBit (7 - n % 8) mData) i =
      (bitAt mData i || (aBit.stored && decide (i = n))) := by
  rw [BitStream.setLast, Bit.stored]
  by_cases hbit : aBit = .One
  · rw [if_pos hbit, bitAt, bitAt, List.getD_eq_getElem?_getD, List.getElem?_modify]
    have hlast : mData.length - 1 = n / 8 := by omega
    rw [hlast]
    by_cases hi : n / 8 = i / 8
    · have hlt : i / 8 < mData.length := by omega
      have hsame : (7 - i % 8 = 7 - n % 8) = (i = n) := propext (by omega)
      rw [List.getElem?_eq_getElem hlt, List.getD_eq_getElem _ _ hlt]
      simp only [hi, if_true, Option.map_eq_map, Option.map_some, Option.getD_some, hbit,
        decide_true, Bool.true_and]
      rw [getLsbD_or_one (by omega), decide_eq_decide.mpr (iff_of_eq hsame)]
    · have hne : i ≠ n := fun h => hi (h ▸ rfl)
      simp [hi, hne]
  · rw [if_neg hbit]
    simp [hbit]

variable {bits : List Bool} {strm : BitStream}

/-- **A bit that is pushed comes last.** -/
theorem Holds.push {cnt : Nat} (h : Holds strm bits cnt)
    (aBit : Bit) : Holds (strm.pushBit aBit) (bits ++ [aBit.stored]) cnt := by
  have hgrown : ∀ mData,
      mData = (if strm.mCurPushBitPos = 7 then strm.mData ++ [0] else strm.mData) →
      mData.length = bits.length / 8 + 1 ∧ ∀ i, bitAt mData i = bits.getD i false := by
    rintro mData rfl
    have hlength := h.length
    have hpush := h.pushPos
    by_cases hfull : strm.mCurPushBitPos = 7
    · rw [if_pos hfull, List.length_append, List.length_singleton]
      exact ⟨by omega, fun i => (bitAt_append_zero _ i).trans (h.bit i)⟩
    · rw [if_neg hfull]
      exact ⟨by omega, h.bit⟩
  obtain ⟨hlength, hbit⟩ := hgrown _ rfl
  have hle := h.le
  have hpush := h.pushPos
  refine ⟨?_, fun i => ?_, h.pos, h.subPos, ?_, ?_⟩
  · have hlast : (strm.pushBit aBit).mData.length = bits.length / 8 + 1 := by
      rw [BitStream.pushBit, ← hlength, BitStream.setLast]
      split
      · exact List.length_modify _ _ _
      · rfl
    rw [hlast, List.length_append, List.length_singleton]
    omega
  · have hpushed : bitAt (strm.pushBit aBit).mData i =
        (bits.getD i false || (aBit.stored && decide (i = bits.length))) := by
      rw [BitStream.pushBit, hpush, bitAt_setLast (hpush ▸ hlength), ← hpush, hbit]
    rw [hpushed]
    rcases Nat.lt_trichotomy i bits.length with hlt | rfl | hlt
    · rw [List.getD_append _ _ _ _ hlt]
      simp [hlt.ne]
    · rw [List.getD_eq_default _ _ (Nat.le_refl _)]
      simp
    · rw [List.getD_eq_default _ _ hlt.le, List.getD_eq_default _ _ (by simp; omega)]
      simp [hlt.ne']
  · rw [BitStream.pushBit, List.length_append, List.length_singleton]
    show (if strm.mCurPushBitPos = 0 then 7 else strm.mCurPushBitPos - 1) = _
    split <;> omega
  · rw [List.length_append]
    omega

/-! ## 4. Reading -/

/-- Pushes some bits. -/
def BitStream.pushAll (strm : BitStream) (bits : List Bool) : BitStream :=
  bits.foldl (fun strm b => strm.pushBit (Bit.ofBool b)) strm

theorem Holds.pushAll {cnt : Nat} (h : Holds strm bits cnt)
    (more : List Bool) : Holds (strm.pushAll more) (bits ++ more) cnt := by
  induction more generalizing strm bits with
  | nil => exact (List.append_nil bits).symm ▸ h
  | cons b more ih =>
    have hpush := h.push (Bit.ofBool b)
    have hstored : (Bit.ofBool b).stored = b := by cases b <;> rfl
    rw [hstored] at hpush
    have hrest := ih hpush
    rw [List.append_assoc] at hrest
    exact hrest

theorem Holds.current {cnt : Nat} (h : Holds strm bits cnt) :
    strm.current = Bit.ofBool (bits.getD cnt false) := by
  have hbit := h.bit cnt
  rw [bitAt, ← h.pos, ← h.subPos] at hbit
  rw [← hbit, BitStream.current]
  generalize strm.mData.getD strm.mPos 0 = byte
  generalize strm.mSubPos = k
  have hbit : (byte >>> k) &&& 1 = (BitVec.ofBool (byte.getLsbD k)).setWidth 8 := by
    rw [show (1 : BitVec 8) = 1#8 from rfl, BitVec.and_one_eq_setWidth_ofBool_getLsbD,
      BitVec.getLsbD_ushiftRight, Nat.add_zero]
  rw [hbit]
  cases byte.getLsbD k <;> rfl

/-- The places at which `PopBit` finds the end: behind the last bit, and within the last byte where
    that is full. -/
def AtEnd (n cnt : Nat) : Prop := cnt = n ∨ 8 ∣ n ∧ n ≤ cnt + 8

theorem Holds.pop_end {cnt : Nat} (h : Holds strm bits cnt)
    (hend : AtEnd bits.length cnt) : strm.popBit = (.Undef, strm) := by
  have hlength := h.length
  have hpos := h.pos
  have hsub := h.subPos
  have hpush := h.pushPos
  have hle := h.le
  rw [BitStream.popBit]
  split
  · rfl
  · rename_i hbehind
    refine if_pos ?_
    rw [AtEnd] at hend
    omega

/-- **Elsewhere it returns the oldest bit.** -/
theorem Holds.pop {cnt : Nat} (h : Holds strm bits cnt) (hend : ¬ AtEnd bits.length cnt) :
    strm.popBit.1 = Bit.ofBool (bits.getD cnt false) ∧ Holds strm.popBit.2 bits (cnt + 1) := by
  have hlength := h.length
  have hpos := h.pos
  have hsub := h.subPos
  have hpush := h.pushPos
  have hle := h.le
  rw [AtEnd] at hend
  rw [BitStream.popBit, if_neg (by omega), if_neg (by omega), ← h.current]
  split
  · exact ⟨rfl, ⟨h.length, h.bit, by simp only; omega, by simp only; omega, h.pushPos, by omega⟩⟩
  · exact ⟨rfl, ⟨h.length, h.bit, by simp only; omega, by simp only; omega, h.pushPos, by omega⟩⟩

/-! ## 5. Runs -/

/-- No bit is asked for while all bits that wait are those of a full byte. The numbers are those of
    the bits given so far and of the bits that wait. -/
def ClearOfEnd : Nat → Nat → List Op → Prop
  | _, _, [] => True
  | n, waiting, .push _ :: ops => ClearOfEnd (n + 1) (waiting + 1) ops
  | n, waiting, .pop :: ops =>
    ¬ (8 ∣ n ∧ 1 ≤ waiting ∧ waiting ≤ 8) ∧ ClearOfEnd n (waiting - 1) ops

/-- **From any state on, a stream is a queue exactly where no bit of a last, full byte is read.** -/
theorem Holds.run_right_iff (ops : List Op) : ∀ {strm : BitStream} {bits : List Bool} {cnt : Nat},
    Holds strm bits cnt →
      (strm.run ops = queueRun (bits.drop cnt) ops ↔
        ClearOfEnd bits.length (bits.length - cnt) ops) := by
  induction ops with
  | nil => exact fun _ => iff_of_true rfl trivial
  | cons op ops ih =>
    intro strm bits cnt h
    have hle := h.le
    cases op with
    | push aBit =>
      have hrest := ih (h.push aBit)
      rw [List.length_append, List.length_singleton, List.drop_append_of_le_length hle,
        show bits.length + 1 - cnt = bits.length - cnt + 1 by omega] at hrest
      exact hrest
    | pop =>
      rw [BitStream.run, ClearOfEnd]
      by_cases hnone : cnt = bits.length
      · have hpop := h.pop_end (.inl hnone)
        have hrest := ih h
        rw [hnone, List.drop_length, Nat.sub_self] at hrest
        rw [hpop, hnone, List.drop_length, Nat.sub_self, queueRun, List.cons_eq_cons, hrest]
        simp
      · have hlt : cnt < bits.length := by omega
        rw [List.drop_eq_getElem_cons hlt, queueRun, List.cons_eq_cons]
        by_cases hend : AtEnd bits.length cnt
        · -- the stream has ended too early
          rw [h.pop_end hend]
          rw [AtEnd] at hend
          refine iff_of_false (fun heq => ?_) fun hclear => hclear.1 (by omega)
          have := heq.1
          cases hb : bits[cnt] <;> simp [hb, Bit.ofBool] at this
        · obtain ⟨hbit, hnext⟩ := h.pop hend
          have hrest := ih hnext
          rw [hbit, List.getD_eq_getElem _ _ hlt, hrest, Nat.sub_sub]
          rw [AtEnd] at hend
          have hclear : ¬ (8 ∣ bits.length ∧ 1 ≤ bits.length - cnt ∧ bits.length - cnt ≤ 8) := by
            omega
          simp only [hclear, not_false_iff, true_and]

/-- **A stream that starts empty or as a file is a queue of bits exactly where no bit of a last,
    full byte is read.** -/
theorem run_eq_iff (file : List (BitVec 8)) (ops : List Op) :
    (BitStream.read file).1.run ops = queueRun (fileBits file) ops ↔
      ClearOfEnd (8 * file.length) (8 * file.length) ops := by
  have hrun := (holds_read file).run_right_iff ops
  rwa [length_fileBits] at hrun

/-- Eight bits are pushed, and one is asked for. -/
theorem not_run_eq :
    ¬ ∀ file ops, (BitStream.read file).1.run ops = queueRun (fileBits file) ops := by
  intro h
  exact absurd (h [] (List.replicate 8 (.push .One) ++ [.pop])) (by decide)

end DiskDecode

end CraySim
