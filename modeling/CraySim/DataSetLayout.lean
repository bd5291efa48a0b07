/-
  Subject:   The layout of a dataset while it is written.

  The bytes a dataset has so far are a sequence of segments, a control word and the data words
  behind it; the last control word waits for its forward index.

  * `Segment`, `Fits` -- a segment, and what its control word promises at its position,
  * `Layout` -- what holds of the writer between two segments,
  * `Layout.add` -- putting a segment into the block keeps it,
  * `Layout.nextBlock` -- and so does writing a full block.
-/
import CraySim.DataSet
import CraySim.Lib.Framed

namespace CraySim

open ByteFile Framed

/-! ## 1. Segments -/

/-- A control word and the data behind it. -/
structure Segment where
  ctrlWord : DsCtrlWord
  data : List (BitVec 8)

def Segment.bytes (g : Segment) : List (BitVec 8) := g.ctrlWord.bytes ++ g.data

@[simp] theorem Segment.length_bytes (g : Segment) : g.bytes.length = 8 + g.data.length := by
  rw [bytes, List.length_append, DsCtrlWord.bytes, length_bytesBE]

theorem length_le_image (gs : List Segment) : gs.length ≤ (image Segment.bytes gs).length :=
  length_le_length_image (fun g => by simp) gs

/-- What a segment at `pos` has to satisfy: its forward index leads to its end, it does not leave
    its block, and it starts with a block control word, with the number of the block, where a
    block starts and nowhere else. -/
structure Segment.Fits (pos : Nat) (g : Segment) : Prop where
  forward : g.data.length = 8 * g.ctrlWord.getForwardWordIdx.toNat
  inBlock : pos % 4096 + g.bytes.length ≤ 4096
  blockStart : pos % 4096 = 0 →
    g.ctrlWord.getType = .BCW ∧ g.ctrlWord.getBlockNumber.toNat = pos / 4096 % 2 ^ 24
  bcw : g.ctrlWord.getType = .BCW → pos % 4096 = 0
  unused : g.ctrlWord.getUnusedBitCnt.toNat ≤ 56

/-- Data with its padding to whole words. -/
def padded (n : Nat) (bs : List (BitVec 8)) : List (BitVec 8) :=
  bs ++ List.replicate (8 * n - bs.length) 0

@[simp] theorem padded_nil : padded 0 [] = [] := rfl

theorem padded_append {m n : Nat} {xs ys : List (BitVec 8)} (h : xs.length = 8 * m) :
    padded (m + n) (xs ++ ys) = xs ++ padded n ys := by
  have hpad : 8 * (m + n) - (xs ++ ys).length = 8 * n - ys.length := by
    rw [List.length_append, h]
    omega
  rw [padded, hpad, padded, List.append_assoc]

theorem length_padded {n : Nat} {bs : List (BitVec 8)} (h : bs.length ≤ 8 * n) :
    (padded n bs).length = 8 * n := by
  rw [padded, List.length_append, List.length_replicate]
  omega

/-- The words a record takes. -/
def wordCnt (bs : List (BitVec 8)) : Nat := (bs.length + 7) / 8

theorem wordCnt_append {m : Nat} {xs ys : List (BitVec 8)} (h : xs.length = 8 * m) :
    wordCnt (xs ++ ys) = m + wordCnt ys := by
  rw [wordCnt, wordCnt, List.length_append, h]
  omega

namespace DataSet

/-! ## 2. The state between two segments -/

/-- The writer, when `gs` is what it wrote up to its offset. -/
structure Layout (s : DataSet) (gs : List Segment) : Prop where
  block : s.mBlock.length = 4096
  aligned : s.mBlockOfs % 8 = 0
  inBlock : s.mBlockOfs ≤ 4096
  zeros : s.mBlock.drop s.mBlockOfs = List.replicate (4096 - s.mBlockOfs) 0
  bytes : s.file ++ s.mBlock.take s.mBlockOfs = image Segment.bytes gs
  blocks : s.file.length = 4096 * s.mBlockCnt
  fits : ∀ m ∈ marks Segment.bytes 0 gs, m.2.Fits m.1
  log : s.written = (marks Segment.bytes 0 gs).map fun m => (m.1, m.2.ctrlWord)

section Layout
variable {s s' : DataSet} {gs : List Segment}

/-- The layout does not depend on the other fields. -/
theorem Layout.transfer (h : Layout s gs) (hblock : s'.mBlock = s.mBlock)
    (hofs : s'.mBlockOfs = s.mBlockOfs) (hcnt : s'.mBlockCnt = s.mBlockCnt)
    (hfile : s'.file = s.file) (hwritten : s'.written = s.written) : Layout s' gs := by
  refine ⟨?_, ?_, ?_, ?_, ?_, ?_, h.fits, ?_⟩
  · rw [hblock, h.block]
  · rw [hofs, h.aligned]
  · rw [hofs]
    exact h.inBlock
  · rw [hblock, hofs, h.zeros]
  · rw [hfile, hblock, hofs, h.bytes]
  · rw [hfile, hcnt, h.blocks]
  · rw [hwritten, h.log]

theorem Layout.length_image (h : Layout s gs) :
    (image Segment.bytes gs).length = 4096 * s.mBlockCnt + s.mBlockOfs := by
  rw [← h.bytes, List.length_append, List.length_take, h.blocks, h.block,
    Nat.min_eq_left h.inBlock]

theorem layout_init : Layout init [] where
  block := List.length_replicate
  aligned := rfl
  inBlock := by decide
  zeros := List.drop_zero
  bytes := rfl
  blocks := rfl
  fits := fun _ hm => absurd hm List.not_mem_nil
  log := rfl

/-- The state behind a segment: a word and the data of `n` words in the block. -/
def addSegment (aWord : DsCtrlWord) (n : Nat) (aBytes : List (BitVec 8)) (s : DataSet) : DataSet :=
  { s with
    mBlock := splice (splice s.mBlock s.mBlockOfs aWord.bytes) (s.mBlockOfs + 8) aBytes
    mBlockOfs := s.mBlockOfs + 8 + 8 * n
    written := s.written ++ [(mBlockSize * s.mBlockCnt + s.mBlockOfs, aWord)] }

@[simp] theorem addSegment_mBlockOfs (w : DsCtrlWord) (n : Nat) (bs : List (BitVec 8)) :
    (addSegment w n bs s).mBlockOfs = s.mBlockOfs + 8 + 8 * n := rfl

/-- **A segment more.** -/
theorem Layout.add (h : Layout s gs) {w : DsCtrlWord} {n : Nat} {d : List (BitVec 8)}
    (hroom : s.mBlockOfs + 8 + 8 * n ≤ 4096) (hd : d.length ≤ 8 * n)
    (hforward : w.getForwardWordIdx.toNat = n) (hunused : w.getUnusedBitCnt.toNat ≤ 56)
    (hstart : s.mBlockOfs = 0 →
      w.getType = .BCW ∧ w.getBlockNumber.toNat = s.mBlockCnt % 2 ^ 24)
    (hbcw : w.getType = .BCW → s.mBlockOfs = 0) :
    Layout (addSegment w n d s) (gs ++ [⟨w, padded n d⟩]) := by
  have hlen : w.bytes.length = 8 := length_bytesBE 8 _
  have hblock : (splice s.mBlock s.mBlockOfs w.bytes).length = 4096 := by
    rw [length_splice (by rw [h.block]; omega), h.block]
  have hpos := h.length_image
  have hin : s.mBlockOfs ≤ s.mBlock.length := by rw [h.block]; omega
  -- the block up to the end of the data
  have htake : (addSegment w n d s).mBlock.take (s.mBlockOfs + 8 + d.length) =
      s.mBlock.take s.mBlockOfs ++ w.bytes ++ d := by
    have hw := take_splice (y := w.bytes) hin
    rw [hlen] at hw
    rw [addSegment, take_splice (by rw [hblock]; omega), hw]
  -- and behind it
  have hdrop : (addSegment w n d s).mBlock.drop (s.mBlockOfs + 8 + d.length) =
      List.replicate (4096 - (s.mBlockOfs + 8 + d.length)) 0 := by
    have hw := drop_splice (y := w.bytes) hin
    rw [hlen] at hw
    have hz : s.mBlock.drop (s.mBlockOfs + 8) = List.replicate (4096 - (s.mBlockOfs + 8)) 0 := by
      rw [← List.drop_drop, h.zeros, List.drop_replicate, Nat.sub_sub]
    rw [addSegment, drop_splice (by rw [hblock]; omega), ← List.drop_drop, hw, hz,
      List.drop_replicate, Nat.sub_sub]
  have hfits : Segment.Fits (4096 * s.mBlockCnt + s.mBlockOfs) ⟨w, padded n d⟩ := by
    refine ⟨by rw [length_padded hd, hforward], ?_, fun hz => ?_, fun ht => ?_, hunused⟩
    · have := length_padded hd
      rw [Segment.length_bytes, this]
      omega
    · have hzero : s.mBlockOfs = 0 := by
        have := h.aligned
        omega
      rw [hzero, Nat.add_zero, Nat.mul_div_cancel_left _ (by decide)]
      exact hstart hzero
    · rw [hbcw ht, Nat.add_zero, Nat.mul_mod_right]
  refine ⟨?_, ?_, hroom, ?_, ?_, h.blocks, ?_, ?_⟩
  · rw [addSegment, length_splice (by rw [hblock]; omega), hblock]
  · have := h.aligned
    rw [addSegment_mBlockOfs]
    omega
  · have hend : (addSegment w n d s).mBlockOfs = s.mBlockOfs + 8 + d.length + (8 * n - d.length) := by
      rw [addSegment_mBlockOfs]
      omega
    rw [hend, ← List.drop_drop, hdrop, List.drop_replicate, Nat.sub_sub]
  · have hend : (addSegment w n d s).mBlockOfs = s.mBlockOfs + 8 + d.length + (8 * n - d.length) := by
      rw [addSegment_mBlockOfs]
      omega
    rw [hend, List.take_add, htake, hdrop, List.take_replicate, Nat.min_eq_left (by omega),
      image_append, ← h.bytes, image_cons, image_nil, List.append_nil, Segment.bytes, padded]
    simp only [List.append_assoc]
    rfl
  · intro m hm
    rw [marks_append, hpos, Nat.zero_add] at hm
    rcases List.mem_append.1 hm with hold | hnew
    · exact h.fits m hold
    · rw [List.mem_singleton.1 hnew]
      exact hfits
  · rw [marks_append, hpos, Nat.zero_add, List.map_append, ← h.log]
    rfl

/-- **A block more.** -/
theorem Layout.nextBlock (h : Layout s gs) (hfull : s.mBlockOfs = 4096) :
    Layout (writeBlock true s) gs := by
  have hz : (s.mBlock.take s.mBlockOfs) = s.mBlock := List.take_of_length_le (by rw [h.block]; omega)
  have hbytes := h.bytes
  rw [hz] at hbytes
  refine ⟨?_, rfl, Nat.zero_le _, ?_, ?_, ?_, h.fits, h.log⟩
  · exact List.length_replicate.trans h.block
  · rw [writeBlock, h.block]
    rfl
  · rw [writeBlock, List.take_zero, List.append_nil]
    exact hbytes
  · rw [writeBlock, if_pos rfl, List.length_append, h.blocks, h.block]
    rfl

end Layout

/-! ## 3. The pieces of an operation -/

/-- What an operation expects of the last control word: room for it, and the start of a block
    when nothing is in the block yet. -/
structure Ready (s : DataSet) : Prop where
  room : s.mBlockOfs ≤ 4088
  unused : s.mLastCtrlWord.getUnusedBitCnt.toNat ≤ 56
  blockStart : s.mBlockOfs = 0 → s.mLastCtrlWord.getType = .BCW ∧
    s.mLastCtrlWord.getBlockNumber.toNat = s.mBlockCnt % 2 ^ 24
  bcw : s.mLastCtrlWord.getType = .BCW → s.mBlockOfs = 0

/-- The words behind the last control word, up to it and the block control words not counted. -/
def wordIdx (s : DataSet) : Nat := 511 * s.mBlockCnt + s.mBlockOfs / 8

section pieces
variable {s : DataSet} {gs : List Segment}

theorem ready_init : Ready init := ⟨by decide, by decide, fun _ => by decide, fun _ => rfl⟩

theorem bind_ok {α β : Type} {x : Except DsExn α} {a : α} {f : α → Except DsExn β}
    (h : x = .ok a) : (x >>= f) = f a := by
  rw [h]
  rfl

/-- The state behind a control word. -/
def withCtrlWord (w : DsCtrlWord) (s : DataSet) : DataSet :=
  { s with
    mBlock := splice s.mBlock s.mBlockOfs w.bytes
    mBlockOfs := s.mBlockOfs + 8
    written := s.written ++ [(mBlockSize * s.mBlockCnt + s.mBlockOfs, w)] }

theorem putCtrlWord_eq (w : DsCtrlWord) (hblock : s.mBlock.length = 4096)
    (hroom : s.mBlockOfs ≤ 4088) : putCtrlWord w s = .ok (withCtrlWord w s) := by
  rw [putCtrlWord, dsAssert, if_pos (by omega)]
  rfl

@[simp] theorem writeBlock_mBlockOfs (b : Bool) : (writeBlock b s).mBlockOfs = 0 := rfl

@[simp] theorem writeBlock_mBlockCnt (b : Bool) : (writeBlock b s).mBlockCnt = s.mBlockCnt + 1 := rfl

/-- The last control word with its forward index. -/
def patched (n : Nat) (s : DataSet) : DsCtrlWord :=
  s.mLastCtrlWord.setForwardWordIdx (BitVec.ofNat 32 n)

theorem getForwardWordIdx_patched {n : Nat} (hn : n < 512) :
    (patched n s).getForwardWordIdx.toNat = n := by
  rw [patched, DsCtrlWord.toNat_getForwardWordIdx_setForwardWordIdx, BitVec.toNat_ofNat]
  omega

/-- The last control word and the bytes behind it are a segment more. -/
theorem Layout.putLast (h : Layout s gs) (hr : Ready s) {n : Nat} {d : List (BitVec 8)}
    (hroom : s.mBlockOfs + 8 + 8 * n ≤ 4096) (hd : d.length ≤ 8 * n) :
    ∃ s1, putLastCtrlWord n s = .ok s1 ∧ s1.mLastCtrlWord = DsCtrlWord.clear ∧
      s1.mBlockOfs = s.mBlockOfs + 8 ∧ s1.mBlockCnt = s.mBlockCnt ∧
      Layout { copyToBlock d s1 with mBlockOfs := s1.mBlockOfs + 8 * n }
        (gs ++ [⟨patched n s, padded n d⟩]) := by
  have hput : putLastCtrlWord n s =
      .ok { withCtrlWord (patched n s) s with mLastCtrlWord := DsCtrlWord.clear } := by
    rw [putLastCtrlWord, putCtrlWord_eq _ h.block hr.room]
    rfl
  refine ⟨_, hput, rfl, rfl, rfl, ?_⟩
  have hadd := h.add (w := patched n s) hroom hd (getForwardWordIdx_patched (by omega))
    (by rw [patched, DsCtrlWord.getUnusedBitCnt_setForwardWordIdx]; exact hr.unused)
    (by
      rw [patched, DsCtrlWord.getType_setForwardWordIdx,
        DsCtrlWord.getBlockNumber_setForwardWordIdx]
      exact hr.blockStart)
    (by
      rw [patched, DsCtrlWord.getType_setForwardWordIdx]
      exact hr.bcw)
  exact hadd.transfer rfl rfl rfl rfl rfl

/-- The block control word of a new block, when the old one is full. -/
def newBlock (s : DataSet) : List Segment :=
  if s.mBlockOfs = 4096 then [⟨DsCtrlWord.bcw (s.mBlockCnt + 1), []⟩] else []

theorem Layout.startBlock (h : Layout s gs) (hofs : 8 ≤ s.mBlockOfs) :
    ∃ s', startBlockIfFull s = .ok s' ∧ Layout s' (gs ++ newBlock s) ∧ 8 ≤ s'.mBlockOfs ∧
      s'.mBlockOfs ≤ 4088 ∧ wordIdx s' = wordIdx s ∧ s'.mLastCtrlWord = s.mLastCtrlWord := by
  by_cases hfull : s.mBlockOfs = 4096
  · have hnext := h.nextBlock hfull
    have hput : startBlockIfFull s =
        .ok (withCtrlWord (DsCtrlWord.bcw (s.mBlockCnt + 1)) (writeBlock true s)) := by
      rw [startBlockIfFull, if_pos (by rw [hfull, h.block])]
      exact putCtrlWord_eq _ hnext.block (Nat.zero_le _)
    have hadd := hnext.add (w := DsCtrlWord.bcw (s.mBlockCnt + 1)) (n := 0) (d := [])
      (by simp) (Nat.le_refl _) (DsCtrlWord.getForwardWordIdx_bcw _)
      (by rw [DsCtrlWord.getUnusedBitCnt_bcw]; decide)
      (fun _ => ⟨DsCtrlWord.getType_bcw _, DsCtrlWord.toNat_getBlockNumber_bcw _⟩) (fun _ => rfl)
    refine ⟨_, hput, ?_, by simp [withCtrlWord], by simp [withCtrlWord], ?_, rfl⟩
    · rw [newBlock, if_pos hfull]
      refine hadd.transfer ?_ rfl rfl rfl rfl
      rw [addSegment, splice_nil]
      rfl
    · simp only [wordIdx, withCtrlWord, writeBlock_mBlockOfs, writeBlock_mBlockCnt]
      omega
  · have hstay : startBlockIfFull s = .ok s := by
      rw [startBlockIfFull, if_neg (by rw [h.block]; exact hfull)]
      rfl
    refine ⟨s, hstay, ?_, hofs, ?_, rfl, rfl⟩
    · rw [newBlock, if_neg hfull, List.append_nil]
      exact h
    · have := h.inBlock
      have := h.aligned
      omega

end pieces

/-! ## 4. What an operation writes -/

/-- The segments of an operation: the last control word with the first part of the data, then a
    block control word with a further part for every block that is started. -/
structure Group (aType : CtrlWordType) (unusedBitCnt ofs : Nat) (d : List (BitVec 8))
    (g : Segment) (tail : List Segment) : Prop where
  type : g.ctrlWord.getType = aType
  unused : g.ctrlWord.getUnusedBitCnt.toNat = unusedBitCnt
  bcws : ∀ t ∈ tail, t.ctrlWord.getType = .BCW
  data : g.data ++ tail.flatMap Segment.data = padded (wordCnt d) d
  /-- Behind the last word of a block there is a block control word. -/
  blockEnd : ofs = 4088 → g.data = [] ∧ tail ≠ []
  /-- Behind any other one there is the first word of the data. -/
  inBlock : ofs < 4088 →
    g.data.take 8 = (padded (wordCnt d) d).take 8 ∧ (d = [] → tail = [])

/-- A first part of the data fills the block; the rest is a group of its own. -/
theorem Group.cons {t t' : CtrlWordType} {u u' ofs ofs' : Nat} {d first rest : List (BitVec 8)}
    {w : DsCtrlWord} {g : Segment} {tail : List Segment} (hsplit : d = first ++ rest) (hd : d ≠ [])
    (hfirst : first.length = 4088 - ofs) (hofs : ofs ≤ 4088) (haligned : ofs % 8 = 0)
    (hw : w.getType = t) (hu : w.getUnusedBitCnt.toNat = u)
    (hgroup : Group t' u' ofs' rest g tail) (ht' : t' = .BCW) :
    Group t u ofs d ⟨w, first⟩ (g :: tail) := by
  have hall : padded (wordCnt d) d = first ++ padded (wordCnt rest) rest := by
    have hlen : first.length = 8 * ((4088 - ofs) / 8) := by omega
    rw [hsplit, wordCnt_append hlen, padded_append hlen]
  refine ⟨hw, hu, fun s hs => ?_, ?_, fun hend => ⟨?_, List.cons_ne_nil _ _⟩,
    fun hin => ⟨?_, fun hnil => absurd hnil hd⟩⟩
  · rcases List.mem_cons.1 hs with rfl | hmem
    · exact hgroup.type.trans ht'
    · exact hgroup.bcws s hmem
  · rw [List.flatMap_cons, hgroup.data, hall]
  · exact List.length_eq_zero_iff.1 (show first.length = 0 by omega)
  · rw [hall, List.take_append_of_le_length (by omega)]

/-- The state after an operation of `n` words. -/
structure After (s s' : DataSet) (n : Nat) : Prop where
  ready : Ready s'
  ofs_pos : 8 ≤ s'.mBlockOfs
  wordIdx_eq : wordIdx s' = wordIdx s + n + 1

section operations
variable {s : DataSet} {gs : List Segment}

theorem wordCnt_bound (d : List (BitVec 8)) :
    d.length ≤ 8 * wordCnt d ∧ 8 * wordCnt d < d.length + 8 := by
  rw [wordCnt]
  omega

/-- The data fits into the block: one segment, and the block control word of the next block
    when this one is full. -/
theorem Layout.last (h : Layout s gs) (hr : Ready s) {d : List (BitVec 8)}
    (hfit : s.mBlockOfs + 8 + 8 * wordCnt d ≤ 4096) :
    ∃ s1 s2 g tail, putLastCtrlWord (wordCnt d) s = .ok s1 ∧
      startBlockIfFull { copyToBlock d s1 with mBlockOfs := s1.mBlockOfs + 8 * wordCnt d } =
        .ok s2 ∧
      Layout s2 (gs ++ g :: tail) ∧ s2.mLastCtrlWord = DsCtrlWord.clear ∧
      8 ≤ s2.mBlockOfs ∧ s2.mBlockOfs ≤ 4088 ∧ wordIdx s2 = wordIdx s + wordCnt d + 1 ∧
      tail.length ≤ 1 ∧
      Group s.mLastCtrlWord.getType s.mLastCtrlWord.getUnusedBitCnt.toNat s.mBlockOfs d g tail := by
  have hbound := wordCnt_bound d
  obtain ⟨s1, hput, hclear, hofs1, hcnt1, hlayout⟩ := h.putLast hr hfit hbound.1
  have hofs : 8 ≤ s1.mBlockOfs + 8 * wordCnt d := by omega
  obtain ⟨s2, hstart, hlayout2, hpos, hroom, hidx, hlast⟩ := hlayout.startBlock hofs
  rw [List.append_assoc, List.singleton_append] at hlayout2
  refine ⟨s1, s2, _, _, hput, hstart, hlayout2, hlast.trans hclear, hpos, hroom, ?_, ?_, ?_⟩
  · calc wordIdx s2 = 511 * s1.mBlockCnt + (s1.mBlockOfs + 8 * wordCnt d) / 8 := hidx
      _ = wordIdx s + wordCnt d + 1 := by
        rw [hcnt1, hofs1, wordIdx]
        omega
  · rw [newBlock]
    split
    · exact Nat.le_refl _
    · exact Nat.zero_le _
  · have hnew : ∀ t ∈ newBlock { copyToBlock d s1 with mBlockOfs := s1.mBlockOfs + 8 * wordCnt d },
        t.ctrlWord.getType = .BCW ∧ t.data = [] := by
      rintro t ht
      rw [newBlock] at ht
      split at ht
      · rw [List.mem_singleton.1 ht]
        exact ⟨DsCtrlWord.getType_bcw _, rfl⟩
      · exact absurd ht List.not_mem_nil
    refine ⟨DsCtrlWord.getType_setForwardWordIdx _ _, by
      rw [patched, DsCtrlWord.getUnusedBitCnt_setForwardWordIdx], fun t ht => (hnew t ht).1, ?_,
      fun hend => ?_, fun hin => ⟨rfl, ?_⟩⟩
    · rw [List.flatMap_eq_nil_iff.2 fun t ht => (hnew t ht).2, List.append_nil]
    · have hzero : wordCnt d = 0 := by omega
      have hnil : d = [] := List.length_eq_zero_iff.1 (by omega)
      subst hnil
      refine ⟨rfl, ?_⟩
      rw [newBlock, if_pos (by rw [hzero, hofs1, hend])]
      exact List.cons_ne_nil _ _
    · rintro rfl
      refine if_neg ?_
      rw [hofs1]
      show ¬ s.mBlockOfs + 8 + 8 * 0 = 4096
      omega

/-- The same without data, as `WriteEof` and `Flush` do it. -/
theorem Layout.last_empty (h : Layout s gs) (hr : Ready s) :
    ∃ s1 s2 g tail, putLastCtrlWord 0 s = .ok s1 ∧ startBlockIfFull s1 = .ok s2 ∧
      Layout s2 (gs ++ g :: tail) ∧ s2.mLastCtrlWord = DsCtrlWord.clear ∧
      8 ≤ s2.mBlockOfs ∧ s2.mBlockOfs ≤ 4088 ∧ wordIdx s2 = wordIdx s + 0 + 1 ∧
      tail.length ≤ 1 ∧
      Group s.mLastCtrlWord.getType s.mLastCtrlWord.getUnusedBitCnt.toNat s.mBlockOfs [] g tail := by
  have hroom := hr.room
  have hfit : s.mBlockOfs + 8 + 8 * wordCnt [] ≤ 4096 := by
    show s.mBlockOfs + 8 + 8 * 0 ≤ 4096
    omega
  obtain ⟨s1, s2, g, tail, hput, hstart, hrest⟩ := h.last hr hfit
  have hcopy : copyToBlock [] s1 = s1 := by rw [copyToBlock, splice_nil]
  rw [hcopy] at hstart
  exact ⟨s1, s2, g, tail, hput, hstart, hrest⟩

/-- The state behind a full segment: a block more, and its block control word waiting. -/
def startBlockLater (d : List (BitVec 8)) (n : Nat) (s : DataSet) : DataSet :=
  { writeBlock true (copyToBlock d s) with mLastCtrlWord := DsCtrlWord.bcw n }

/-- The data does not fit: a full segment, and the block control word waiting. -/
theorem Layout.full (h : Layout s gs) (hr : Ready s) {d : List (BitVec 8)}
    (hd : d.length = 4088 - s.mBlockOfs) :
    ∃ s1, putLastCtrlWord ((4096 - s.mBlockOfs) / 8 - 1) s = .ok s1 ∧
      s1.mLastCtrlWord = DsCtrlWord.clear ∧ s1.mBlockCnt = s.mBlockCnt ∧
      Layout (startBlockLater d (s.mBlockCnt + 1) s1)
        (gs ++ [⟨patched ((4096 - s.mBlockOfs) / 8 - 1) s, d⟩]) ∧
      Ready (startBlockLater d (s.mBlockCnt + 1) s1) := by
  have hroom := hr.room
  have haligned := h.aligned
  have hwords : 8 * ((4096 - s.mBlockOfs) / 8 - 1) = d.length := by omega
  obtain ⟨s1, hput, hclear, hofs1, hcnt1, hlayout⟩ := h.putLast hr (d := d) (by omega)
    (Nat.le_of_eq hwords.symm)
  rw [padded, hwords, Nat.sub_self, List.replicate_zero, List.append_nil] at hlayout
  refine ⟨s1, hput, hclear, hcnt1, ?_, ?_⟩
  · refine (hlayout.nextBlock ?_).transfer rfl rfl rfl rfl rfl
    show s1.mBlockOfs + d.length = 4096
    omega
  · refine ⟨Nat.zero_le _, ?_, fun _ => ⟨DsCtrlWord.getType_bcw _, ?_⟩, fun _ => rfl⟩
    · rw [startBlockLater, DsCtrlWord.getUnusedBitCnt_bcw]
      decide
    · rw [startBlockLater, DsCtrlWord.toNat_getBlockNumber_bcw, ← hcnt1]
      rfl

theorem writeRecordLoop_last {r : List (BitVec 8)} (rounds : Nat) {k : Nat} {s1 s2 : DataSet}
    (h : Layout s gs) (hfit : 8 * wordCnt (r.drop k) ≤ 4096 - s.mBlockOfs - 8)
    (hput : putLastCtrlWord (wordCnt (r.drop k)) s = .ok s1)
    (hstart : startBlockIfFull { copyToBlock (r.drop k) s1 with
      mBlockOfs := s1.mBlockOfs + 8 * wordCnt (r.drop k) } = .ok s2) :
    writeRecordLoop r (rounds + 1) k s = .ok { s2 with
      mLastCtrlWord := eor (8 * wordCnt (r.drop k) - (r.drop k).length) s2 } := by
  have hrounded : (r.length - k + 7) / 8 * 8 = 8 * wordCnt (r.drop k) := by
    rw [wordCnt, List.length_drop, Nat.mul_comm]
  have hwords : 8 * wordCnt (r.drop k) / 8 = wordCnt (r.drop k) :=
    Nat.mul_div_cancel_left _ (by decide)
  simp only [writeRecordLoop, hrounded, h.block, if_pos hfit, hwords, List.length_drop]
  exact (bind_ok hput).trans (bind_ok hstart)

theorem writeRecordLoop_more {r : List (BitVec 8)} (rounds : Nat) {k : Nat} {s1 : DataSet}
    (h : Layout s gs) (hfit : ¬ 8 * wordCnt (r.drop k) ≤ 4096 - s.mBlockOfs - 8)
    (hput : putLastCtrlWord ((4096 - s.mBlockOfs) / 8 - 1) s = .ok s1)
    (hclear : s1.mLastCtrlWord = DsCtrlWord.clear) (hcnt : s1.mBlockCnt = s.mBlockCnt) :
    writeRecordLoop r (rounds + 1) k s =
      writeRecordLoop r rounds (k + (4096 - s.mBlockOfs - 8))
        (startBlockLater (window r k (4096 - s.mBlockOfs - 8)) (s.mBlockCnt + 1) s1) := by
  have hrounded : (r.length - k + 7) / 8 * 8 = 8 * wordCnt (r.drop k) := by
    rw [wordCnt, List.length_drop, Nat.mul_comm]
  have halign : (4096 - s.mBlockOfs) % 8 = 0 := by
    have := h.aligned
    have := h.inBlock
    omega
  rw [writeRecordLoop]
  simp only [hrounded, h.block, if_neg hfit, dsAssert, if_pos halign, hput]
  show writeRecordLoop r rounds _ _ = _
  rw [startBlockLater, DsCtrlWord.bcw, ← hclear, ← hcnt]
  rfl

/-- **The loop of `WriteRecord`**, by induction on its rounds: what it writes of the record from
    `k` on. -/
theorem writeRecordLoop_spec (r : List (BitVec 8)) (rounds k : Nat) {s : DataSet}
    {gs : List Segment} (h : Layout s gs) (hr : Ready s) (hk : k ≤ r.length)
    (hrounds : r.length - k + (if s.mBlockOfs = 0 then 1 else 2) ≤ rounds) :
    ∃ s' g tail, writeRecordLoop r rounds k s = .ok s' ∧ Layout s' (gs ++ g :: tail) ∧
      After s s' (wordCnt (r.drop k)) ∧ s'.mLastCtrlWord.getType = .EOR ∧
      s'.mLastCtrlWord.getUnusedBitCnt.toNat = 8 * (8 * wordCnt (r.drop k) - (r.drop k).length) ∧
      Group s.mLastCtrlWord.getType s.mLastCtrlWord.getUnusedBitCnt.toNat s.mBlockOfs (r.drop k)
        g tail := by
  induction rounds generalizing k s gs with
  | zero => split at hrounds <;> omega
  | succ rounds ih =>
    have hroom := hr.room
    have haligned := h.aligned
    have hbound := wordCnt_bound (r.drop k)
    have hleft : (r.drop k).length = r.length - k := List.length_drop
    by_cases hfit : 8 * wordCnt (r.drop k) ≤ 4096 - s.mBlockOfs - 8
    · obtain ⟨s1, s2, g, tail, hput, hstart, hlayout, hclear, hpos, hroom2, hidx, hone, hgroup⟩ :=
        h.last hr (d := r.drop k) (by omega)
      have hunused := getUnusedBitCnt_eor (8 * wordCnt (r.drop k) - (r.drop k).length) s2 (by omega)
      refine ⟨_, g, tail, writeRecordLoop_last rounds h hfit hput hstart,
        hlayout.transfer rfl rfl rfl rfl rfl, ⟨⟨hroom2, ?_, fun hz => ?_, fun ht => ?_⟩, hpos, hidx⟩,
        getType_eor _ _, hunused, hgroup⟩
      · rw [hunused]
        omega
      · exact absurd (show s2.mBlockOfs = 0 from hz) (by omega)
      · exact absurd ((getType_eor _ s2).symm.trans ht) (by decide)
    · -- the data of the round fills the block
      have hdata : (window r k (4096 - s.mBlockOfs - 8)).length = 4088 - s.mBlockOfs := by
        rw [length_window]
        omega
      obtain ⟨s1, hput, hclear, hcnt, hlayout, hready⟩ := h.full hr hdata
      obtain ⟨s', g, tail, hloop, hlayout', hafter, htype, hunused, hgroup⟩ :=
        ih (k + (4096 - s.mBlockOfs - 8)) hlayout hready (by omega) (by
          rw [if_pos (by rfl)]
          split at hrounds <;> omega)
      have hsplit : r.drop k = window r k (4096 - s.mBlockOfs - 8) ++
          r.drop (k + (4096 - s.mBlockOfs - 8)) := by
        rw [window, ← List.drop_drop, List.take_append_drop]
      have hwords : wordCnt (r.drop k) =
          (4088 - s.mBlockOfs) / 8 + wordCnt (r.drop (k + (4096 - s.mBlockOfs - 8))) :=
        (congrArg wordCnt hsplit).trans (wordCnt_append (by omega))
      have hrest : (r.drop k).length =
          4088 - s.mBlockOfs + (r.drop (k + (4096 - s.mBlockOfs - 8))).length := by
        rw [hsplit, List.length_append, hdata]
      rw [List.append_assoc, List.singleton_append] at hlayout'
      refine ⟨s', _, g :: tail, (writeRecordLoop_more rounds h hfit hput hclear hcnt).trans hloop,
        hlayout', ⟨hafter.ready, hafter.ofs_pos, ?_⟩, htype, ?_, ?_⟩
      · calc wordIdx s' = 511 * (s1.mBlockCnt + 1) + 0 / 8 +
              wordCnt (r.drop (k + (4096 - s.mBlockOfs - 8))) + 1 := hafter.wordIdx_eq
          _ = wordIdx s + wordCnt (r.drop k) + 1 := by
            rw [hwords, hcnt, wordIdx]
            omega
      · rw [hunused, hrest, hwords]
        omega
      · have hne : r.drop k ≠ [] := by
          rintro hnil
          rw [hnil] at hfit
          exact hfit (Nat.zero_le _)
        refine Group.cons hsplit hne hdata (by omega) (by omega)
          (DsCtrlWord.getType_setForwardWordIdx _ _) ?_ hgroup (DsCtrlWord.getType_bcw _)
        rw [patched, DsCtrlWord.getUnusedBitCnt_setForwardWordIdx]

/-- **`WriteRecord`.** -/
theorem writeRecord_spec (r : List (BitVec 8)) (h : Layout s gs) (hr : Ready s) :
    ∃ s' g tail, writeRecord r s = .ok s' ∧ Layout s' (gs ++ g :: tail) ∧
      After s s' (wordCnt r) ∧ s'.mLastCtrlWord.getType = .EOR ∧
      s'.mLastCtrlWord.getUnusedBitCnt.toNat = 8 * (8 * wordCnt r - r.length) ∧
      Group s.mLastCtrlWord.getType s.mLastCtrlWord.getUnusedBitCnt.toNat s.mBlockOfs r g tail := by
  have hstart : Layout { s with mCurrentRecordStart := s.mBlockCnt } gs :=
    h.transfer rfl rfl rfl rfl rfl
  obtain ⟨s', g, tail, hloop, hlayout, hafter, htype, hunused, hgroup⟩ :=
    writeRecordLoop_spec r (r.length + 2) 0 hstart ⟨hr.room, hr.unused, hr.blockStart, hr.bcw⟩
      (Nat.zero_le _) (by split <;> omega)
  exact ⟨s', g, tail, hloop, hlayout, ⟨hafter.ready, hafter.ofs_pos, hafter.wordIdx_eq⟩, htype,
    hunused, hgroup⟩

/-- **`WriteEof`** writes what an empty record writes, with another control word to follow. -/
theorem writeEof_spec (h : Layout s gs) (hr : Ready s) :
    ∃ s' g tail, writeEof s = .ok s' ∧ Layout s' (gs ++ g :: tail) ∧ After s s' 0 ∧
      s'.mLastCtrlWord.getType = .EOF ∧ s'.mLastCtrlWord.getUnusedBitCnt.toNat = 0 ∧
      Group s.mLastCtrlWord.getType s.mLastCtrlWord.getUnusedBitCnt.toNat s.mBlockOfs [] g tail := by
  have hroom := hr.room
  have haligned := h.aligned
  obtain ⟨s1, s2, g, tail, hput, hstart, hlayout, hclear, hpos, hroom2, hidx, hone, hgroup⟩ :=
    h.last_empty hr
  have heof : writeEof s = .ok { s2 with mLastCtrlWord := eof s2, mCurrentFileStart := s2.mBlockCnt } := by
    rw [writeEof, h.block, dsAssert, dsAssert, if_pos (by omega), if_pos (by omega)]
    exact (bind_ok hput).trans (bind_ok hstart)
  have hunused := getUnusedBitCnt_eof s2
  refine ⟨_, g, tail, heof, hlayout.transfer rfl rfl rfl rfl rfl,
    ⟨⟨hroom2, ?_, fun hz => ?_, fun ht => ?_⟩, hpos, hidx⟩, getType_eof _, hunused, hgroup⟩
  · rw [hunused]
    decide
  · exact absurd (show s2.mBlockOfs = 0 from hz) (by omega)
  · exact absurd ((getType_eof s2).symm.trans ht) (by decide)

/-- **`Flush`** does the same and ends the file with `EOD`. -/
theorem flush_spec (h : Layout s gs) (hr : Ready s) :
    ∃ s' g tail last, flush s = .ok s' ∧ s'.file = image Segment.bytes (gs ++ g :: tail ++ [last]) ∧
      (∀ m ∈ marks Segment.bytes 0 (gs ++ g :: tail ++ [last]), m.2.Fits m.1) ∧
      s'.written = (marks Segment.bytes 0 (gs ++ g :: tail ++ [last])).map
        (fun m => (m.1, m.2.ctrlWord)) ∧
      last.ctrlWord.getType = .EOD ∧ last.data = [] ∧ tail.length ≤ 1 ∧
      Group s.mLastCtrlWord.getType s.mLastCtrlWord.getUnusedBitCnt.toNat s.mBlockOfs [] g tail := by
  have hroom := hr.room
  have haligned := h.aligned
  obtain ⟨s1, s2, g, tail, hput, hstart, hlayout, hclear, hpos, hroom2, hidx, hone, hgroup⟩ :=
    h.last_empty hr
  have hflush : flush s =
      .ok (writeBlock false { withCtrlWord (eod s2) s2 with mLastCtrlWord := DsCtrlWord.clear }) := by
    rw [flush, h.block, dsAssert, dsAssert, if_pos (by omega), if_pos (by omega)]
    exact (bind_ok hput).trans ((bind_ok hstart).trans (bind_ok (putCtrlWord_eq _ hlayout.block hroom2)))
  have hadd := hlayout.add (w := eod s2) (n := 0) (d := []) (by omega) (Nat.le_refl _)
    (getForwardWordIdx_eod s2 hclear) (by rw [getUnusedBitCnt_eod]; decide)
    (fun hz => absurd hz (by omega)) (fun ht => absurd ((getType_eod s2).symm.trans ht) (by decide))
  refine ⟨_, g, tail, _, hflush, ?_, hadd.fits, hadd.log, getType_eod _, rfl, hone, hgroup⟩
  rw [← hadd.bytes, addSegment, splice_nil]
  rfl

end operations

end DataSet

end CraySim
