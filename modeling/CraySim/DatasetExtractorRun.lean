/-
  Subject:   What the extraction of a dataset writes.

  The tool goes from segment to segment. It takes the unused bytes of a record off the data behind
  the last control word in front of the `EOR`; if that is the block control word of a block that has
  just been started, there is no data to take them off.

  * `Held` -- the segments of a file from a position on, with their places,
  * `reading` -- the variables of the loop in front of a segment,
  * `Step`, `Finishes` -- rounds, and the end of the loop,
  * `round_…` -- a round, by the control word behind the segment,
  * `steps_last` -- over the blocks of an operation,
  * `extractable` -- the operations that the tool reads back,
  * `extracts_dataset_iff` -- these and no others.
-/
import CraySim.DatasetExtractor
import CraySim.DataSetReadBack

namespace CraySim

open ByteFile Framed DataSet

namespace DatasetExtractor

/-! ## 1. The segments of a file -/

/-- The segments from `pos` on, each at its place. -/
structure Held (aFile : List (BitVec 8)) (pos : Nat) (gs : List Segment) : Prop where
  rest : Rest aFile pos gs
  fits : ∀ m ∈ marks Segment.bytes pos gs, m.2.Fits m.1

section held
variable {file : List (BitVec 8)} {pos : Nat} {g x : Segment} {gs : List Segment}

theorem Held.tail (h : Held file pos (g :: gs)) : Held file (pos + g.bytes.length) gs :=
  ⟨h.rest.tail, fun m hm => h.fits m (List.mem_cons_of_mem _ hm)⟩

theorem Held.head (h : Held file pos (g :: gs)) : g.Fits pos := h.fits (pos, g) List.mem_cons_self

theorem Held.lt_length (h : Held file pos (g :: gs)) : pos + g.bytes.length ≤ file.length := by
  have hlen := h.rest.length
  rw [image_cons, List.length_append] at hlen
  omega

theorem Held.wordAt_eq (h : Held file pos (g :: gs)) (s : DatasetExtractor) :
    wordAt file pos s = (.ok g.ctrlWord.mData, s) := by
  have hread := h.rest.readCtrlWord_eq
  have hlen := h.lt_length
  rw [Segment.length_bytes] at hlen
  rw [readCtrlWord, if_pos (by omega)] at hread
  have hword := congrArg DsCtrlWord.mData (Prod.mk.inj (Except.ok.inj hread)).1
  rw [wordAt, if_pos (by omega)]
  exact Prod.ext (congrArg Except.ok hword) rfl

/-- The length of the data, as the tool computes it. -/
theorem Held.recordSize (h : Held file pos (g :: gs)) :
    (getForwardWordIdx g.ctrlWord.mData * 8).toNat = g.data.length := by
  obtain ⟨hforward, hbound⟩ := h.rest.forward g List.mem_cons_self
  rw [getForwardWordIdx_eq, BitVec.toNat_mul, show (8 : BitVec 32).toNat = 8 from rfl,
    Nat.mod_eq_of_lt (by omega), hforward, Nat.mul_comm]

/-- The words up to a position, block control words not counted, with the one at it. -/
def wordsAt (pos : Nat) : Nat := 511 * (pos / 4096) + pos % 4096 / 8

/-- From a segment to a block control word, and to another control word. -/
theorem Held.wordsAt_next (h : Held file pos (g :: x :: gs)) :
    8 * wordsAt (pos + g.bytes.length) + (if x.ctrlWord.getType = .BCW then 8 else 0) =
      8 * wordsAt pos + g.bytes.length := by
  have hin := h.head.inBlock
  have hforward := h.head.forward
  rw [Segment.length_bytes] at hin ⊢
  rw [wordsAt, wordsAt]
  have hx := h.tail.head
  rw [Segment.length_bytes] at hx
  split
  · have hstart := hx.bcw ‹_›
    omega
  · have hnot : (pos + (8 + g.data.length)) % 4096 ≠ 0 := fun hz => ‹¬ _› (hx.blockStart hz).1
    omega

end held

/-! ## 2. The variables -/

/-- What the loop has written. -/
structure Output where
  fileCnt : Nat
  outFile : Bool
  outputs : List ((Nat × Nat) × List (BitVec 8))

namespace Output

def opened (o : Output) : Output :=
  if o.outFile then o
  else { o with outFile := true, outputs := ((0, o.fileCnt), []) :: o.outputs }

def appended (bytes : List (BitVec 8)) (o : Output) : Output :=
  { o with
    outputs := match o.outputs with
      | [] => []
      | (name, content) :: outputs => (name, content ++ bytes) :: outputs }

/-- Data opens a file of the host if there is none, and goes behind what it holds. -/
def save (bytes : List (BitVec 8)) (o : Output) : Output :=
  if bytes = [] then o else o.opened.appended bytes

def ended (o : Output) : Output := { o with fileCnt := o.fileCnt + 1, outFile := false }

theorem appended_append (bs cs : List (BitVec 8)) (o : Output) :
    (o.appended bs).appended cs = o.appended (bs ++ cs) := by
  obtain ⟨fileCnt, outFile, _ | ⟨⟨name, content⟩, outputs⟩⟩ := o
  · rfl
  · simp [appended]

theorem opened_open {o : Output} (h : o.outFile = true) : o.opened = o := if_pos h

theorem outFile_opened (o : Output) : o.opened.outFile = true := by
  rw [opened]
  split
  · assumption
  · rfl

theorem outFile_save (bs : List (BitVec 8)) (o : Output) :
    (o.save bs).outFile = (decide (bs ≠ []) || o.outFile) := by
  rw [save]
  split
  · simp [*]
  · simp [*, appended, outFile_opened]

theorem save_append (bs cs : List (BitVec 8)) (o : Output) :
    (o.save bs).save cs = o.save (bs ++ cs) := by
  by_cases hbs : bs = []
  · subst hbs
    rfl
  · by_cases hcs : cs = []
    · rw [hcs, List.append_nil, save, if_pos rfl]
    · have hopen : (o.opened.appended bs).outFile = true := o.outFile_opened
      rw [save, if_neg hcs, save, if_neg hbs, opened_open hopen, appended_append, save,
        if_neg (by simp [hbs])]

end Output

/-- In front of a segment. -/
def reading (pos : Nat) (o : Output) : DatasetExtractor where
  offset := pos
  inDataSet := pos ≠ 0
  dataSetCnt := 0
  fileCnt := o.fileCnt
  lastSeqCnt := ((pos + 4095) / 4096 : Nat) - 1
  outFile := o.outFile
  outputs := o.outputs
  messages := []

/-- Behind the bookkeeping for a block control word, if it is one. -/
def entered (pos : Nat) (o : Output) : DatasetExtractor where
  offset := pos
  inDataSet := true
  dataSetCnt := 0
  fileCnt := o.fileCnt
  lastSeqCnt := (pos / 4096 : Nat)
  outFile := o.outFile
  outputs := o.outputs
  messages := []

section states
variable {file : List (BitVec 8)} {pos : Nat} {g x : Segment} {gs : List Segment} {o : Output}

theorem openOutFile_entered : openOutFile (entered pos o) = entered pos o.opened := by
  obtain ⟨fileCnt, _ | _, outputs⟩ := o <;> rfl

theorem append_entered (bs : List (BitVec 8)) :
    append bs (entered pos o) = entered pos (o.appended bs) := rfl

theorem atBcw_reading (hstart : pos % 4096 = 0) (hcnt : pos = 0 → o.fileCnt = 0) :
    atBcw (pos / 4096) (reading pos o) = entered pos o := by
  obtain ⟨k, rfl⟩ := Nat.dvd_of_mod_eq_zero hstart
  have hk : 4096 * k / 4096 = k := Nat.mul_div_cancel_left k (by decide)
  have hlast : (4096 * k + 4095) / 4096 = k := by omega
  rcases Nat.eq_zero_or_pos k with rfl | hpos
  · obtain ⟨fileCnt, outFile, outputs⟩ := o
    obtain rfl : fileCnt = 0 := hcnt rfl
    rfl
  · have hne : 4096 * k ≠ 0 := by omega
    simp only [atBcw, reading, entered, hk, hlast, hne, ne_eq, not_false_eq_true, decide_true]
    simp [Nat.ne_of_gt hpos]

theorem reading_eq (hin : pos % 4096 ≠ 0) : reading pos o = entered pos o := by
  have hlast : ((pos + 4095) / 4096 : Nat) = pos / 4096 + 1 := by omega
  have hne : pos ≠ 0 := by
    rintro rfl
    exact hin rfl
  simp [reading, entered, hlast, hne]

theorem advance_entered (h : Held file pos (g :: gs)) (htype : g.ctrlWord.getType ≠ .EOD) :
    advance g.ctrlWord.getType (getForwardWordIdx g.ctrlWord.mData * 8) (entered pos o) =
      reading (pos + g.bytes.length) o := by
  have hin := h.head.inBlock
  rw [Segment.length_bytes] at hin
  have hlast : ((pos + (8 + g.data.length) + 4095) / 4096 : Nat) = pos / 4096 + 1 := by omega
  rw [advance, h.recordSize, if_neg htype, Segment.length_bytes]
  simp [reading, entered, hlast]

/-- The data behind the control word, but for the last `k` bytes. -/
theorem saveData_entered (h : Held file pos (g :: gs)) {size : BitVec 32} {k : Nat}
    (hsize : size.toNat = g.data.length - k) (hk : k ≤ g.data.length) :
    saveData file size (entered pos o) =
      (.ok (), entered pos (o.save (g.data.take (g.data.length - k)))) := by
  have hlen : (g.data.take (g.data.length - k)).length = g.data.length - k :=
    List.length_take_of_le (Nat.sub_le _ _)
  rw [saveData, Output.save]
  by_cases hzero : g.data.length - k = 0
  · have hnil : g.data.take (g.data.length - k) = [] := List.length_eq_zero_iff.1 (hlen.trans hzero)
    have hsizeZero : size = 0 := BitVec.eq_of_toNat_eq (hsize.trans hzero)
    rw [if_pos hsizeZero, if_pos hnil]
    rfl
  · have hne : size ≠ 0 := fun hz => hzero (by rw [← hsize, hz]; rfl)
    have hnil : g.data.take (g.data.length - k) ≠ [] := fun hz => hzero (by rw [← hlen, hz]; rfl)
    have hroom : (entered pos o.opened).offset + 8 + size.toNat ≤ file.length := by
      have hin := h.lt_length
      rw [Segment.length_bytes] at hin
      show pos + 8 + size.toNat ≤ file.length
      omega
    have hwindow : window file (pos + 8) size.toNat = g.data.take (g.data.length - k) := by
      rw [hsize, ← h.rest.window_data, window, window, List.length_take, List.length_drop,
        List.take_take]
      have hin := h.lt_length
      rw [Segment.length_bytes] at hin
      congr 1
      omega
    rw [if_neg hne, if_neg hnil, Run.bind_apply_ok (Run.modify_apply _ _), openOutFile_entered,
      Run.bind_apply_ok (Run.get_apply _), if_pos hroom]
    show (_, append (window file (pos + 8) size.toNat) (entered pos o.opened)) = _
    rw [hwindow, append_entered]

theorem saveData_short (hfile : file.length ≤ 2 ^ 28) {size : BitVec 32}
    (hsize : 2 ^ 31 ≤ size.toNat) :
    ∃ s, saveData file size (entered pos o) = (.error .outside, s) := by
  have hne : size ≠ 0 := by
    rintro rfl
    exact absurd hsize (by decide)
  have hroom : ¬ (entered pos o.opened).offset + 8 + size.toNat ≤ file.length := by omega
  rw [saveData, if_neg hne, Run.bind_apply_ok (Run.modify_apply _ _), openOutFile_entered,
    Run.bind_apply_ok (Run.get_apply _), if_neg hroom]
  exact ⟨_, rfl⟩

end states

/-! ## 3. Rounds -/

section rounds
variable {file : List (BitVec 8)} {pos : Nat} {g x : Segment} {gs : List Segment} {o : Output}

/-- The loop goes on from `s` to `s'`. -/
def Step (aFile : List (BitVec 8)) (s s' : DatasetExtractor) : Prop :=
  s.offset < aFile.length ∧ round aFile s = (.ok true, s')

/-- The loop ends, some number of rounds being enough. -/
def Finishes (aFile : List (BitVec 8)) (s r : DatasetExtractor) : Prop :=
  ∃ rounds, extractLoop aFile rounds s = (.ok (), r)

theorem extractLoop_round {s : DatasetExtractor} (hoffset : s.offset < file.length) (rounds : Nat) :
    extractLoop file (rounds + 1) s =
      (do if ← round file then extractLoop file rounds else pure () : DsExtractor Unit) s := by
  rw [extractLoop, Run.bind_apply_ok (Run.get_apply _), if_pos hoffset]

theorem Step.finishes_iff {s s' r : DatasetExtractor} (h : Step file s s') :
    Finishes file s r ↔ Finishes file s' r := by
  have hround : ∀ rounds, extractLoop file (rounds + 1) s = extractLoop file rounds s' := by
    intro rounds
    rw [extractLoop_round h.1, Run.bind_apply_ok h.2]
    rfl
  constructor
  · intro ⟨rounds, hr⟩
    cases rounds with
    | zero => cases hr
    | succ rounds => exact ⟨rounds, (hround rounds).symm.trans hr⟩
  · intro ⟨rounds, hr⟩
    exact ⟨rounds + 1, (hround rounds).trans hr⟩

abbrev Steps (aFile : List (BitVec 8)) : DatasetExtractor → DatasetExtractor → Prop :=
  Relation.ReflTransGen (Step aFile)

theorem Steps.finishes_iff {s s' r : DatasetExtractor} (h : Steps file s s') :
    Finishes file s r ↔ Finishes file s' r := by
  induction h with
  | refl => exact Iff.rfl
  | tail _ hstep ih => exact ih.trans hstep.finishes_iff

theorem not_finishes {s r s' : DatasetExtractor} {e : DatasetExtractorExn}
    (hoffset : s.offset < file.length) (hround : round file s = (.error e, s')) :
    ¬ Finishes file s r := by
  intro ⟨rounds, hr⟩
  cases rounds with
  | zero => cases hr
  | succ rounds =>
    rw [extractLoop_round hoffset, Run.bind_apply_error hround] at hr
    cases hr

theorem Held.offset_lt (h : Held file pos (g :: gs)) : (reading pos o).offset < file.length := by
  have hlen := h.lt_length
  rw [Segment.length_bytes] at hlen
  show pos < file.length
  omega

/-- The unused bits that the control word behind a segment tells. -/
def unusedBits (x : Segment) : BitVec 32 :=
  if x.ctrlWord.getType = .EOR then x.ctrlWord.getUnusedBitCnt else 0

theorem Held.nextWord_entered (h : Held file pos (g :: x :: gs)) (heod : g.ctrlWord.getType ≠ .EOD) :
    nextWord file g.ctrlWord.getType (getForwardWordIdx g.ctrlWord.mData * 8) (entered pos o) =
      (.ok (x.ctrlWord.getType, unusedBits x), entered pos o) := by
  have hnext : wordAt file (pos + 8 + g.data.length) (entered pos o) =
      (.ok x.ctrlWord.mData, entered pos o) := by
    have hword := h.tail.wordAt_eq (entered pos o)
    rwa [Segment.length_bytes, ← Nat.add_assoc] at hword
  rw [nextWord, if_neg heod, Run.bind_apply_ok (Run.get_apply _), h.recordSize]
  refine (Run.bind_apply_ok hnext).trans ?_
  rw [getType_eq, getUnusedBitCnt_eq]
  rfl

theorem Held.entered_eq (h : Held file pos (g :: gs)) (hfile : file.length ≤ 2 ^ 28)
    (hcnt : pos = 0 → o.fileCnt = 0) :
    (if g.ctrlWord.getType = .BCW then
        atBcw (getBlockNumber g.ctrlWord.mData).toNat (reading pos o)
      else reading pos o) = entered pos o := by
  split
  · have hstart := h.head.bcw ‹_›
    have hlen := h.lt_length
    have hblock := (h.head.blockStart hstart).2
    have hnumber : (getBlockNumber g.ctrlWord.mData).toNat = pos / 4096 := by
      rw [toNat_getBlockNumber]
      omega
    rw [hnumber, atBcw_reading hstart hcnt]
  · exact reading_eq fun hz => ‹¬ _› (h.head.blockStart hz).1

/-- **A round** in front of a segment that does not end the dataset. -/
theorem round_eq (h : Held file pos (g :: x :: gs)) (hfile : file.length ≤ 2 ^ 28)
    (hcnt : pos = 0 → o.fileCnt = 0) (hg : InRecord g.ctrlWord.getType) :
    round file (reading pos o) =
      endRound file g.ctrlWord.getType (getForwardWordIdx g.ctrlWord.mData * 8)
        (x.ctrlWord.getType, unusedBits x) (entered pos o) := by
  rw [round, Run.bind_apply_ok (Run.get_apply _)]
  refine (Run.bind_apply_ok (h.wordAt_eq _)).trans ?_
  rw [getType_eq, if_neg hg.ne_unk, Run.bind_apply_ok (Run.modify_apply _ _),
    h.entered_eq hfile hcnt, Run.bind_apply_ok (h.nextWord_entered hg.ne_eod)]

theorem toNat_unusedBytes (hx : x.Fits pos) : (unusedBits x / 8).toNat ≤ 7 := by
  have hunused := hx.unused
  rw [BitVec.toNat_udiv, unusedBits]
  split
  · show x.ctrlWord.getUnusedBitCnt.toNat / 8 ≤ 7
    omega
  · exact Nat.zero_le _

theorem Held.data_lt (h : Held file pos (g :: gs)) : g.data.length < 4096 := by
  have hin := h.head.inBlock
  rw [Segment.length_bytes] at hin
  omega

theorem Held.toNat_dataSize (h : Held file pos (g :: gs)) {unused : BitVec 32}
    (hunused : unused.toNat ≤ g.data.length) :
    (getForwardWordIdx g.ctrlWord.mData * 8 - unused).toNat = g.data.length - unused.toNat := by
  have hdata := h.data_lt
  rw [BitVec.toNat_sub, h.recordSize]
  omega

/-- With fewer bytes there than are unused the number wraps around. -/
theorem Held.toNat_dataSize_wraps (h : Held file pos (g :: gs)) {unused : BitVec 32}
    (hunused : g.data.length < unused.toNat) (hseven : unused.toNat ≤ 7) :
    2 ^ 31 ≤ (getForwardWordIdx g.ctrlWord.mData * 8 - unused).toNat := by
  rw [BitVec.toNat_sub, h.recordSize]
  omega

/-- What the next control word does to the output. -/
def behind : CtrlWordType → Output → Output
  | .EOR, o => o.appended [0x0a]
  | .EOF, o => o.ended
  | _, o => o

theorem atNext_entered {t : CtrlWordType} (hnext : InRecord t)
    (hopen : t = .EOR → o.outFile = true) (type : CtrlWordType) :
    atNext type t (entered pos o) = (.ok (), entered pos (behind t o)) := by
  rcases hnext with rfl | rfl | rfl
  · rfl
  · have hfile : (entered pos o).outFile = true := hopen rfl
    rw [atNext, Run.bind_apply_ok (Run.get_apply _), if_pos hfile]
    rfl
  · rfl

/-- The data of a segment, but for what the next control word says to be unused. -/
def used (g x : Segment) : List (BitVec 8) :=
  g.data.take (g.data.length - (unusedBits x / 8).toNat)

/-- Only an `EOR` tells of unused bits. -/
theorem unusedBits_eq (hx : x.ctrlWord.getType ≠ .EOR) : unusedBits x = 0 := if_neg hx

theorem used_eq (hx : unusedBits x = 0) : used g x = g.data := by
  rw [used, hx]
  exact List.take_length

/-- Behind the last segment of the data. -/
def done (pos : Nat) (o : Output) : DatasetExtractor where
  offset := pos
  inDataSet := false
  dataSetCnt := 1
  fileCnt := o.fileCnt
  lastSeqCnt := -1
  outFile := false
  outputs := o.outputs
  messages := []

section rounds
variable (h : Held file pos (g :: x :: gs)) (hfile : file.length ≤ 2 ^ 28)
  (hcnt : pos = 0 → o.fileCnt = 0) (hg : InRecord g.ctrlWord.getType)
include h hfile hcnt hg

/-- **To the next segment.** -/
theorem step_next (hx : InRecord x.ctrlWord.getType) (hunused : (unusedBits x / 8).toNat ≤ g.data.length)
    (hopen : x.ctrlWord.getType = .EOR → (o.save (used g x)).outFile = true) :
    Step file (reading pos o)
      (reading (pos + g.bytes.length) (behind x.ctrlWord.getType (o.save (used g x)))) := by
  refine ⟨h.offset_lt, ?_⟩
  rw [round_eq h hfile hcnt hg, endRound,
    Run.bind_apply_ok (saveData_entered h (h.toNat_dataSize hunused) hunused)]
  refine (Run.bind_apply_ok (atNext_entered hx hopen _)).trans ?_
  rw [Run.bind_apply_ok (Run.modify_apply _ _), advance_entered h hg.ne_eod]
  rfl

/-- An `EOR` for which there is no file of the host. -/
theorem round_noFile (hx : x.ctrlWord.getType = .EOR) (hunused : (unusedBits x / 8).toNat ≤ g.data.length)
    (hopen : (o.save (used g x)).outFile ≠ true) :
    ∃ s, round file (reading pos o) =
      (.error (.exit "EOR encountered with no file at offset"), s) := by
  have hclosed : ¬ (entered pos (o.save (used g x))).outFile = true := hopen
  have hthrow : atNext g.ctrlWord.getType .EOR (entered pos (o.save (used g x))) =
      (.error (.exit "EOR encountered with no file at offset"),
        entered pos (o.save (used g x))) := by
    rw [atNext, Run.bind_apply_ok (Run.get_apply _), if_neg hclosed]
    rfl
  rw [round_eq h hfile hcnt hg, endRound,
    Run.bind_apply_ok (saveData_entered h (h.toNat_dataSize hunused) hunused), hx]
  exact ⟨_, Run.bind_apply_error hthrow⟩

theorem round_short (hunused : g.data.length < (unusedBits x / 8).toNat) :
    ∃ s, round file (reading pos o) = (.error .outside, s) := by
  have hwraps := h.toNat_dataSize_wraps hunused (toNat_unusedBytes h.tail.head)
  have hshort : ∃ s, saveData file (getForwardWordIdx g.ctrlWord.mData * 8 - unusedBits x / 8)
      (entered pos o) = (.error .outside, s) := saveData_short hfile hwraps
  obtain ⟨s, hsave⟩ := hshort
  exact ⟨s, (round_eq h hfile hcnt hg).trans (Run.bind_apply_error hsave)⟩

theorem step_eod (hx : x.ctrlWord.getType = .EOD) :
    Step file (reading pos o) (done (pos + g.bytes.length) (o.save g.data)) := by
  have hzero := unusedBits_eq (x := x) (by rw [hx]; decide)
  have hsize : (getForwardWordIdx g.ctrlWord.mData * 8 - 0 / 8).toNat = g.data.length - 0 :=
    h.toNat_dataSize (Nat.zero_le _)
  have hsave := saveData_entered (o := o) h hsize (Nat.zero_le _)
  rw [Nat.sub_zero, List.take_length] at hsave
  refine ⟨h.offset_lt, ?_⟩
  rw [round_eq h hfile hcnt hg, endRound, hzero, Run.bind_apply_ok hsave, hx]
  refine (Run.bind_apply_ok (Run.modify_apply _ _)).trans ?_
  rw [Run.bind_apply_ok (Run.modify_apply _ _), advance, h.recordSize, if_neg hg.ne_eod,
    Segment.length_bytes]
  rfl

end rounds

theorem step_done (h : Held file pos [x]) (hx : x.ctrlWord.getType = .EOD) (hdata : x.data = []) :
    Step file (done pos o) (done ((pos + 8 &&& 0xfffff000) + 0x1000) o) := by
  have hsize : getForwardWordIdx x.ctrlWord.mData * 8 = 0 := by
    have hrecord := h.recordSize
    rw [hdata] at hrecord
    exact BitVec.eq_of_toNat_eq hrecord
  refine ⟨h.offset_lt (o := o), ?_⟩
  rw [round, Run.bind_apply_ok (Run.get_apply _)]
  refine (Run.bind_apply_ok (h.wordAt_eq _)).trans ?_
  rw [getType_eq, hx, hsize]
  rfl

theorem and_blockMask (p : Nat) : p &&& 0xfffff000 = p / 2 ^ 12 % 2 ^ 20 * 2 ^ 12 := by
  have hmask : 0xfffff000 = (2 ^ 20 - 1) * 2 ^ 12 := rfl
  refine Nat.eq_of_testBit_eq fun i => ?_
  rw [hmask, Nat.testBit_and, Nat.testBit_mul_two_pow, Nat.testBit_mul_two_pow,
    Nat.testBit_two_pow_sub_one, Nat.testBit_mod_two_pow, Nat.testBit_div_two_pow]
  by_cases hi : 12 ≤ i
  · have hback : i - 12 + 12 = i := by omega
    simp [hi, hback, Bool.and_comm]
  · simp [hi]

theorem block_le {p n : Nat} (hp : p < 2 ^ 32) (hn : n ≤ p) : n ≤ (p &&& 0xfffff000) + 0x1000 := by
  rw [and_blockMask]
  omega

/-- **The end of the dataset.** -/
theorem finishes_eod (h : Held file pos [g, x]) (hfile : file.length ≤ 2 ^ 28)
    (hcnt : pos = 0 → o.fileCnt = 0) (hg : InRecord g.ctrlWord.getType)
    (hx : x.ctrlWord.getType = .EOD) (hdata : x.data = []) :
    ∃ r, Finishes file (reading pos o) r ∧ r.outputs = (o.save g.data).outputs ∧
      r.messages = [] := by
  have hlen : file.length = pos + g.bytes.length + 8 := by
    have hrest := h.tail.rest.length
    rwa [image_cons, image_nil, List.append_nil, Segment.length_bytes x, hdata] at hrest
  have hend : file.length ≤ (pos + g.bytes.length + 8 &&& 0xfffff000) + 0x1000 :=
    block_le (by omega) (by omega)
  have hlast : Finishes file
      (done ((pos + g.bytes.length + 8 &&& 0xfffff000) + 0x1000) (o.save g.data))
      (done ((pos + g.bytes.length + 8 &&& 0xfffff000) + 0x1000) (o.save g.data)) := by
    refine ⟨1, ?_⟩
    rw [extractLoop, Run.bind_apply_ok (Run.get_apply _)]
    exact congrFun (if_neg (Nat.not_lt.2 hend)) _
  exact ⟨_, (step_eod h hfile hcnt hg hx).finishes_iff.2
    ((step_done h.tail hx hdata).finishes_iff.2 hlast), rfl, rfl⟩

end rounds

/-! ## 4. Operations -/

/-- The files of the host, when nothing goes wrong. -/
def runOps : List Op → Output → Output
  | [], o => o
  | .record aRecord :: ops, o => runOps ops ((o.save aRecord).appended [0x0a])
  | .eof :: ops, o => runOps ops o.ended

/-- The records that the tool reads back, when `n` words precede, block control words not counted:
    there is a file of the host open, or data to open one; and if the last word of the record is
    not full, it is not the last word of its block. -/
def recordExtractable (n : Nat) (outFile : Bool) (aRecord : List (BitVec 8)) : Bool :=
  (aRecord ≠ [] || outFile) && (aRecord.length % 8 = 0 || (n + wordCnt aRecord) % 511 ≠ 0)

/-- The same of operations. -/
def extractable : Nat → Bool → List Op → Bool
  | _, _, [] => true
  | n, outFile, .record aRecord :: ops =>
    recordExtractable n outFile aRecord && extractable (n + wordCnt aRecord + 1) true ops
  | n, _, .eof :: ops => extractable (n + 1) false ops

section operations
variable {file : List (BitVec 8)} {pos u n : Nat} {t : CtrlWordType} {g x : Segment}
  {tail gs : List Segment} {ops : List Op} {o : Output}
  {r before : List (BitVec 8)}

theorem next_ne (pos : Nat) (g : Segment) : pos + g.bytes.length ≠ 0 := by
  rw [Segment.length_bytes]
  omega

/-- **Over the blocks of an operation**, by induction on the block control words. -/
theorem steps_last (h : Held file pos (g :: tail ++ gs)) (hfile : file.length ≤ 2 ^ 28)
    (hcnt : pos = 0 → o.fileCnt = 0) (hg : InRecord g.ctrlWord.getType)
    (htail : ∀ b ∈ tail, b.ctrlWord.getType = .BCW) :
    ∃ pos' last before, Held file pos' (last :: gs) ∧
      Steps file (reading pos o) (reading pos' (o.save before)) ∧
      before ++ last.data = g.data ++ tail.flatMap Segment.data ∧
      InRecord last.ctrlWord.getType ∧ (pos' = 0 → (o.save before).fileCnt = 0) ∧
      8 * wordsAt pos' = 8 * wordsAt pos + before.length ∧
      (last.ctrlWord.getType = .BCW ∨ before = [] ∧ last = g) := by
  induction tail generalizing g pos o with
  | nil =>
    refine ⟨pos, g, [], h, .refl, ?_, hg, hcnt, (Nat.add_zero _).symm, .inr ⟨rfl, rfl⟩⟩
    rw [List.nil_append, List.flatMap_nil, List.append_nil]
  | cons b tail ih =>
    have hb : b.ctrlWord.getType = .BCW := htail b List.mem_cons_self
    have hzero := unusedBits_eq (x := b) (by rw [hb]; decide)
    have hstep := step_next h hfile hcnt hg (.inl hb) (by rw [hzero]; exact Nat.zero_le _)
      (fun heor => absurd (hb.symm.trans heor) (by decide))
    rw [used_eq hzero, hb] at hstep
    have hwords := h.wordsAt_next
    rw [if_pos hb, Segment.length_bytes] at hwords
    obtain ⟨pos', last, before, hheld, hsteps, hdata, htype, hcnt', hwords', hlast⟩ :=
      ih h.tail (o := o.save g.data) (fun hz => absurd hz (next_ne pos g)) (.inl hb)
        (fun c hc => htail c (List.mem_cons_of_mem _ hc))
    refine ⟨pos', last, g.data ++ before, hheld, ?_, ?_, htype, ?_, ?_, .inl ?_⟩
    · rw [← Output.save_append]
      exact hsteps.head hstep
    · rw [List.append_assoc, hdata, List.flatMap_cons]
    · rw [← Output.save_append]
      exact hcnt'
    · rw [hwords', List.length_append, Segment.length_bytes]
      omega
    · rcases hlast with hlast | ⟨-, rfl⟩
      · exact hlast
      · exact hb

/-- Behind a block control word without data the next word is the first one of its block, -/
theorem Held.wordsAt_start (h : Held file pos (g :: gs)) (hg : g.ctrlWord.getType = .BCW)
    (hdata : g.data = []) : wordsAt (pos + g.bytes.length) % 511 = 1 := by
  have hstart := h.head.bcw hg
  rw [Segment.length_bytes, hdata, wordsAt, List.length_nil]
  omega

/-- and nowhere else. -/
theorem Held.data_of_start (h : Held file pos (g :: x :: gs)) (hx : x.ctrlWord.getType ≠ .BCW)
    (hwords : wordsAt (pos + g.bytes.length) % 511 = 1) : g.data = [] := by
  have hin := h.head.inBlock
  have hforward := h.head.forward
  have hnot : (pos + g.bytes.length) % 4096 ≠ 0 := fun hz => hx (h.tail.head.blockStart hz).1
  rw [wordsAt] at hwords
  rw [Segment.length_bytes] at hin hwords hnot
  exact List.length_eq_zero_iff.1 (by omega)

/-- **The last segment of an operation**, with the control word of the next one behind it. -/
structure Last (aFile : List (BitVec 8)) (n : Nat) (d before : List (BitVec 8)) (pos : Nat)
    (last : Segment) (gs : List Segment) (o : Output) : Prop where
  held : Held aFile pos (last :: gs)
  data : before ++ last.data = padded (wordCnt d) d
  type : InRecord last.ctrlWord.getType
  fileCnt : pos = 0 → o.fileCnt = 0
  words : 8 * wordsAt pos + last.data.length = 8 * n + 8 * wordCnt d
  /-- It is the first one, or that of the last block. -/
  first : last.ctrlWord.getType = .BCW ∨ before = []

theorem steps_group (hgroup : Group t u (ofsAt n) r g tail) (h : Held file pos (g :: tail ++ gs))
    (hfile : file.length ≤ 2 ^ 28) (hcnt : pos = 0 → o.fileCnt = 0) (ht : InRecord t)
    (hwords : wordsAt pos = n) :
    ∃ pos' last before, Last file n r before pos' last gs (o.save before) ∧
      Steps file (reading pos o) (reading pos' (o.save before)) := by
  obtain ⟨pos', last, before, hheld, hsteps, hdata, htype, hcnt', hwords', hlast⟩ :=
    steps_last h hfile hcnt (hgroup.type.symm ▸ ht) hgroup.bcws
  refine ⟨pos', last, before, ⟨hheld, hdata.trans hgroup.data, htype, hcnt', ?_, ?_⟩, hsteps⟩
  · have hlen := congrArg List.length (hdata.trans hgroup.data)
    rw [List.length_append, length_padded (wordCnt_bound r).1] at hlen
    omega
  · exact hlast.imp id And.left

theorem Last.wordsAt_eq (h : Last file n r before pos g (x :: gs) o)
    (hx : x.ctrlWord.getType ≠ .BCW) : wordsAt (pos + g.bytes.length) = n + wordCnt r + 1 := by
  have hnext := h.held.wordsAt_next
  have hwords := h.words
  have hlen := g.length_bytes
  rw [if_neg hx] at hnext
  omega

/-- **The rare layout**: the data of a record ends with its block. -/
theorem Last.data_eq_nil (h : Last file n r before pos g (x :: gs) o)
    (hx : x.ctrlWord.getType ≠ .BCW) (hr : r ≠ []) :
    g.data = [] ↔ (n + wordCnt r) % 511 = 0 := by
  have hwords := h.wordsAt_eq hx
  constructor
  · intro hdata
    rcases h.first with hbcw | hbefore
    · have hstart := h.held.wordsAt_start hbcw hdata
      omega
    · have hnil := congrArg List.length h.data
      rw [hbefore, hdata, length_padded (wordCnt_bound r).1, wordCnt] at hnil
      have hpos := List.length_pos_iff.2 hr
      simp only [List.append_nil, List.length_nil] at hnil
      omega
  · intro hend
    exact h.held.data_of_start hx (by omega)

theorem Last.nil (h : Last file n [] before pos g gs o) : before = [] ∧ g.data = [] :=
  List.append_eq_nil_iff.1 h.data

/-- What is used of the data, when the `EOR` tells how much the record was padded. -/
theorem Last.used_eq (h : Last file n r before pos g (x :: gs) o)
    (hunused : (unusedBits x / 8).toNat = 8 * wordCnt r - r.length)
    (hle : (unusedBits x / 8).toNat ≤ g.data.length) : before ++ used g x = r := by
  have hbound := (wordCnt_bound r).1
  have hlen := congrArg List.length h.data
  rw [List.length_append, length_padded hbound] at hlen
  have htake := congrArg (List.take r.length) h.data
  rw [padded, List.take_left, List.take_append, List.take_of_length_le (by omega)] at htake
  rw [used, show g.data.length - (unusedBits x / 8).toNat = r.length - before.length by omega]
  exact htake

/-- Whether there is as much data behind the last control word as is unused. -/
theorem Last.unused_le (h : Last file n r before pos g (x :: gs) o) (hx : x.ctrlWord.getType = .EOR)
    (hunused : (unusedBits x / 8).toNat = 8 * wordCnt r - r.length) :
    (unusedBits x / 8).toNat ≤ g.data.length ↔
      r.length % 8 = 0 ∨ (n + wordCnt r) % 511 ≠ 0 := by
  have hbcw : x.ctrlWord.getType ≠ .BCW := by
    rw [hx]
    decide
  by_cases hfull : r.length % 8 = 0
  · have hzero : 8 * wordCnt r - r.length = 0 := by
      rw [wordCnt]
      omega
    rw [hunused, hzero]
    exact ⟨fun _ => .inl hfull, fun _ => Nat.zero_le _⟩
  · have hr : r ≠ [] := fun hnil => hfull (by rw [hnil]; rfl)
    have hforward := h.held.head.forward
    have hpos : 0 < 8 * wordCnt r - r.length ∧ 8 * wordCnt r - r.length < 8 := by
      rw [wordCnt]
      omega
    rw [hunused, ← not_iff_not, not_or, not_not, ← h.data_eq_nil hbcw hr, ← List.length_eq_zero_iff]
    omega

theorem recordExtractable_iff : recordExtractable n o.outFile r = true ↔
    (o.save r).outFile = true ∧ (r.length % 8 = 0 ∨ (n + wordCnt r) % 511 ≠ 0) := by
  rw [recordExtractable, Bool.and_eq_true, Output.outFile_save]
  exact and_congr_right fun _ => by rw [Bool.or_eq_true, decide_eq_true_iff, decide_eq_true_iff]

/-- **A record that is read back.** -/
theorem step_record (h : Last file n r before pos g (x :: gs) (o.save before))
    (hfile : file.length ≤ 2 ^ 28) (hx : x.ctrlWord.getType = .EOR)
    (hunused : (unusedBits x / 8).toNat = 8 * wordCnt r - r.length)
    (hok : recordExtractable n o.outFile r = true) :
    Step file (reading pos (o.save before))
      (reading (pos + g.bytes.length) ((o.save r).appended [0x0a])) := by
  obtain ⟨hopen, hroom⟩ := recordExtractable_iff.1 hok
  have hle := (h.unused_le hx hunused).2 hroom
  have hsave : (o.save before).save (used g x) = o.save r := by
    rw [Output.save_append, h.used_eq hunused hle]
  have hstep := step_next h.held hfile h.fileCnt h.type (.inr (.inl hx)) hle
    (fun _ => by rw [hsave]; exact hopen)
  rwa [hsave, hx] at hstep

/-- **A record that is not.** -/
theorem not_finishes_record (h : Last file n r before pos g (x :: gs) (o.save before))
    (hfile : file.length ≤ 2 ^ 28) (hx : x.ctrlWord.getType = .EOR)
    (hunused : (unusedBits x / 8).toNat = 8 * wordCnt r - r.length)
    (hok : recordExtractable n o.outFile r = false) (s : DatasetExtractor) :
    ¬ Finishes file (reading pos (o.save before)) s := by
  by_cases hle : (unusedBits x / 8).toNat ≤ g.data.length
  · have hroom := (h.unused_le hx hunused).1 hle
    have hsave : (o.save before).save (used g x) = o.save r := by
      rw [Output.save_append, h.used_eq hunused hle]
    have hclosed : (o.save r).outFile ≠ true := fun hopen =>
      absurd (recordExtractable_iff.2 ⟨hopen, hroom⟩) (by rw [hok]; decide)
    obtain ⟨s', hround⟩ := round_noFile h.held hfile h.fileCnt h.type hx hle
      (by rw [hsave]; exact hclosed)
    exact not_finishes h.held.offset_lt hround
  · obtain ⟨s', hround⟩ := round_short h.held hfile h.fileCnt h.type (Nat.lt_of_not_le hle)
    exact not_finishes h.held.offset_lt hround

/-- **An end of file.** -/
theorem step_eof (h : Last file n [] before pos g (x :: gs) (o.save before))
    (hfile : file.length ≤ 2 ^ 28) (hx : x.ctrlWord.getType = .EOF) :
    Step file (reading pos (o.save before)) (reading (pos + g.bytes.length) o.ended) := by
  obtain ⟨rfl, hdata⟩ := h.nil
  have hzero := unusedBits_eq (x := x) (by rw [hx]; decide)
  have hstep := step_next h.held hfile h.fileCnt h.type (.inr (.inr hx))
    (by rw [hzero]; exact Nat.zero_le _) (fun heor => absurd (hx.symm.trans heor) (by decide))
  rwa [used_eq hzero, hdata, hx] at hstep

/-- The bytes that the `EOR` of a record declares unused. -/
theorem unusedBits_record (hx : x.ctrlWord.getType = .EOR)
    (hunused : x.ctrlWord.getUnusedBitCnt.toNat = 8 * (8 * wordCnt r - r.length)) :
    (unusedBits x / 8).toNat = 8 * wordCnt r - r.length := by
  rw [unusedBits, if_pos hx, BitVec.toNat_udiv, hunused]
  exact Nat.mul_div_cancel_left _ (by decide)

theorem ctrlType_ne (op : Op) : op.ctrlType ≠ .BCW := by
  cases op <;> exact nofun

/-- **All operations**, by induction on them: those that can be read back, -/
theorem finishes_spells (hs : Spells t u n ops gs) (h : Held file pos gs)
    (hfile : file.length ≤ 2 ^ 28) (hcnt : pos = 0 → o.fileCnt = 0) (ht : InRecord t)
    (hwords : wordsAt pos = n) (hok : extractable n o.outFile ops = true) :
    ∃ r, Finishes file (reading pos o) r ∧ r.outputs = (runOps ops o).outputs ∧
      r.messages = [] := by
  induction hs generalizing pos o with
  | @flush t u n g tail last hgroup hone htype hdata =>
    obtain ⟨pos', g', before, hlast, hsteps⟩ := steps_group hgroup h hfile hcnt ht hwords
    obtain ⟨rfl, hg'⟩ := hlast.nil
    obtain ⟨r, hr, hout, hmsgs⟩ :=
      finishes_eod hlast.held hfile hlast.fileCnt hlast.type htype hdata
    rw [hg'] at hout
    exact ⟨r, hsteps.finishes_iff.2 hr, hout, hmsgs⟩
  | @step t u n op ops g tail gs hgroup hrest ih =>
    obtain ⟨x, more, rfl, hx, hunused⟩ := hrest.head
    obtain ⟨pos', g', before, hlast, hsteps⟩ := steps_group hgroup h hfile hcnt ht hwords
    cases op with
    | record r =>
      rw [extractable, Bool.and_eq_true] at hok
      have hstep := step_record hlast hfile hx (unusedBits_record hx hunused) hok.1
      have hopen : ((o.save r).appended [0x0a]).outFile = true := (recordExtractable_iff.1 hok.1).1
      obtain ⟨s, hs, hout, hmsgs⟩ := ih (o := (o.save r).appended [0x0a]) hlast.held.tail
        (fun hz => absurd hz (next_ne _ _)) (.inr (.inl rfl))
        (hlast.wordsAt_eq (hx ▸ ctrlType_ne _)) (hopen.symm ▸ hok.2)
      exact ⟨s, hsteps.finishes_iff.2 (hstep.finishes_iff.2 hs), hout, hmsgs⟩
    | eof =>
      have hstep := step_eof hlast hfile hx
      obtain ⟨s, hs, hout, hmsgs⟩ := ih (o := o.ended) hlast.held.tail
        (fun hz => absurd hz (next_ne _ _)) (.inr (.inr rfl))
        (hlast.wordsAt_eq (hx ▸ ctrlType_ne _)) hok
      exact ⟨s, hsteps.finishes_iff.2 (hstep.finishes_iff.2 hs), hout, hmsgs⟩

/-- and no others. -/
theorem not_finishes_spells (hs : Spells t u n ops gs) (h : Held file pos gs)
    (hfile : file.length ≤ 2 ^ 28) (hcnt : pos = 0 → o.fileCnt = 0) (ht : InRecord t)
    (hwords : wordsAt pos = n) (hok : extractable n o.outFile ops = false)
    (s : DatasetExtractor) : ¬ Finishes file (reading pos o) s := by
  induction hs generalizing pos o with
  | flush hgroup hone htype hdata => cases hok
  | @step t u n op ops g tail gs hgroup hrest ih =>
    obtain ⟨x, more, rfl, hx, hunused⟩ := hrest.head
    obtain ⟨pos', g', before, hlast, hsteps⟩ := steps_group hgroup h hfile hcnt ht hwords
    rw [hsteps.finishes_iff]
    cases op with
    | record r =>
      have hbytes := unusedBits_record hx hunused
      cases hrecord : recordExtractable n o.outFile r with
      | false => exact not_finishes_record hlast hfile hx hbytes hrecord s
      | true =>
        rw [extractable, hrecord, Bool.true_and] at hok
        have hopen : ((o.save r).appended [0x0a]).outFile = true :=
          (recordExtractable_iff.1 hrecord).1
        rw [(step_record hlast hfile hx hbytes hrecord).finishes_iff]
        exact ih hlast.held.tail (fun hz => absurd hz (next_ne _ _)) (.inr (.inl rfl))
          (hlast.wordsAt_eq (hx ▸ ctrlType_ne _)) (hopen.symm ▸ hok)
    | eof =>
      rw [(step_eof hlast hfile hx).finishes_iff]
      exact ih hlast.held.tail (fun hz => absurd hz (next_ne _ _)) (.inr (.inr rfl))
        (hlast.wordsAt_eq (hx ▸ ctrlType_ne _)) hok

end operations

/-! ## 5. Datasets -/

/-- The files of the host, the first one at index `i`: one for every file that has a record, with
    its records and a newline behind every one. -/
def hostFiles : Nat → List (List (List (BitVec 8))) → List ((Nat × Nat) × List (BitVec 8))
  | _, [] => []
  | i, f :: fs =>
    (if f = [] then [] else [((0, i), f.flatMap (· ++ [0x0a]))]) ++ hostFiles (i + 1) fs

section output
variable {o : Output} {n : Nat} {ops : List Op}

theorem Output.appended_nil (o : Output) : o.appended [] = o := by
  obtain ⟨fileCnt, outFile, _ | ⟨⟨name, content⟩, outputs⟩⟩ := o
  · rfl
  · simp [appended]

theorem Output.save_newline (o : Output) {r : List (BitVec 8)} (h : r ≠ [] ∨ o.outFile = true) :
    (o.save r).appended [0x0a] = o.opened.appended (r ++ [0x0a]) := by
  by_cases hr : r = []
  · have hopen := h.resolve_left (fun hne => hne hr)
    rw [save, if_pos hr, hr, opened_open hopen, List.nil_append]
  · rw [save, if_neg hr, appended_append]

theorem runOps_records (rs : List (List (BitVec 8))) (ho : o.outFile = true)
    (hok : extractable n true (rs.map .record ++ ops) = true) :
    runOps (rs.map .record ++ ops) o = runOps ops (o.appended (rs.flatMap (· ++ [0x0a]))) ∧
      ∃ n', extractable n' true ops = true := by
  induction rs generalizing o n with
  | nil => exact ⟨by rw [List.flatMap_nil, Output.appended_nil]; rfl, n, hok⟩
  | cons r rs ih =>
    rw [List.map_cons, List.cons_append, extractable, Bool.and_eq_true] at hok
    obtain ⟨hrun, hrest⟩ := ih (o := o.appended (r ++ [0x0a])) ho hok.2
    refine ⟨?_, hrest⟩
    rw [List.map_cons, List.cons_append, runOps, o.save_newline (.inr ho), Output.opened_open ho,
      hrun, Output.appended_append, List.flatMap_cons]

theorem runOps_file (f : List (List (BitVec 8))) (ho : o.outFile = false)
    (hok : extractable n false (opsOfFile f ++ ops) = true) :
    (∃ n', extractable n' false ops = true) ∧
      runOps (opsOfFile f ++ ops) o = runOps ops
        { fileCnt := o.fileCnt + 1
          outFile := false
          outputs := (if f = [] then [] else [((0, o.fileCnt), f.flatMap (· ++ [0x0a]))]) ++
            o.outputs } := by
  cases f with
  | nil => exact ⟨⟨_, hok⟩, rfl⟩
  | cons r rs =>
    rw [opsOfFile, List.append_assoc, List.map_cons, List.cons_append, extractable,
      Bool.and_eq_true] at hok
    have hr : r ≠ [] ∨ o.outFile = true := by
      rw [← ho] at hok
      have hopen := (recordExtractable_iff.1 hok.1).1
      rwa [Output.outFile_save, Bool.or_eq_true, decide_eq_true_iff] at hopen
    obtain ⟨hrun, n', hrest⟩ :=
      runOps_records (o := o.opened.appended (r ++ [0x0a])) rs o.outFile_opened hok.2
    refine ⟨⟨n' + 1, hrest⟩, ?_⟩
    rw [opsOfFile, List.append_assoc, List.map_cons, List.cons_append, runOps, o.save_newline hr,
      hrun, Output.appended_append, Output.opened, ho]
    rfl

/-- **The files of the host**, by induction on the files. -/
theorem outputs_runOps (fs : List (List (List (BitVec 8)))) (ho : o.outFile = false)
    (hok : extractable n false (fs.flatMap opsOfFile) = true) :
    (runOps (fs.flatMap opsOfFile) o).outputs = (hostFiles o.fileCnt fs).reverse ++ o.outputs := by
  induction fs generalizing o n with
  | nil => rfl
  | cons f fs ih =>
    rw [List.flatMap_cons] at hok ⊢
    obtain ⟨⟨n', hrest⟩, hrun⟩ := runOps_file f ho hok
    rw [hrun, ih rfl hrest, hostFiles, List.reverse_append, List.append_assoc]
    congr 2
    split <;> rfl

end output

/-- The tool ends at the end of the file, without a message, and leaves the files of the host that
    the dataset was made of. -/
def Extracts (aFiles : List (List (List (BitVec 8)))) (aFile : List (BitVec 8)) : Prop :=
  ∃ rounds s, extract rounds aFile = (.ok (), s) ∧ s.messages = [] ∧
    s.outputs.reverse = hostFiles 0 aFiles

theorem extracts_iff_finishes {aFiles : List (List (List (BitVec 8)))} {aFile : List (BitVec 8)} :
    Extracts aFiles aFile ↔ aFile.length ≤ 2 ^ 28 ∧
      ∃ s, Finishes aFile (reading 0 ⟨0, false, []⟩) s ∧ s.messages = [] ∧
        s.outputs.reverse = hostFiles 0 aFiles := by
  by_cases hlarge : 256 * 1024 * 1024 < aFile.length
  · constructor
    · intro ⟨rounds, s, hextract, _⟩
      rw [extract, if_pos hlarge] at hextract
      cases hextract
    · intro ⟨hsmall, _⟩
      omega
  · have hextract : ∀ rounds, extract rounds aFile = extractLoop aFile rounds start :=
      fun rounds => if_neg hlarge
    constructor
    · intro ⟨rounds, s, hs, hmessages, houtputs⟩
      exact ⟨by omega, s, ⟨rounds, (hextract rounds).symm.trans hs⟩, hmessages, houtputs⟩
    · intro ⟨_, s, ⟨rounds, hs⟩, hmessages, houtputs⟩
      exact ⟨rounds, s, (hextract rounds).trans hs, hmessages, houtputs⟩

/-- **The extractor and the editor.** Every list of files gives a dataset; the tool writes the
    files exactly when the dataset is not larger than 256 MB, the first record of every file has
    data, and no record that is not whole words ends where its block ends. -/
theorem extracts_dataset_iff (aFiles : List (List (List (BitVec 8)))) :
    ∃ image, create aFiles = .ok image ∧
      (Extracts aFiles image ↔ image.length ≤ 2 ^ 28 ∧
        extractable 0 false (aFiles.flatMap opsOfFile) = true) := by
  obtain ⟨image, gs, hcreate, hrest, hfits, hspells⟩ := create_spells aFiles
  have hheld : Held image 0 gs := ⟨hrest, hfits⟩
  refine ⟨image, hcreate, extracts_iff_finishes.trans (and_congr_right fun hsmall => ?_)⟩
  constructor
  · intro ⟨s, hs, _⟩
    cases hok : extractable 0 false (aFiles.flatMap opsOfFile) with
    | true => rfl
    | false =>
      exact absurd hs
        (not_finishes_spells hspells hheld hsmall (fun _ => rfl) (.inl rfl) rfl hok s)
  · intro hok
    obtain ⟨s, hs, houtputs, hmessages⟩ := finishes_spells (o := ⟨0, false, []⟩) hspells hheld
      hsmall (fun _ => rfl) (.inl rfl) rfl hok
    refine ⟨s, hs, hmessages, ?_⟩
    rw [houtputs, outputs_runOps aFiles rfl hok, List.append_nil, List.reverse_reverse]

/-- A record of 4081 bytes, the last word of which is the last one of its block. -/
theorem extracts_loses :
    ¬ ∀ aFiles, ∃ image, create aFiles = .ok image ∧ Extracts aFiles image := by
  intro h
  obtain ⟨image, hcreate, hextract⟩ := h [[List.replicate 4081 1]]
  obtain ⟨image', gs, hcreate', hrest, hfits, hspells⟩ := create_spells [[List.replicate 4081 1]]
  obtain rfl := Except.ok.inj (hcreate.symm.trans hcreate')
  obtain ⟨hsmall, s, hs, _⟩ := extracts_iff_finishes.1 hextract
  have hrecord : recordExtractable 0 false (List.replicate 4081 1) = false := by
    rw [recordExtractable, wordCnt, List.length_replicate]
    exact Bool.and_false _
  have hok : extractable 0 false ([[List.replicate 4081 1]].flatMap opsOfFile) = false := by
    show (recordExtractable 0 false (List.replicate 4081 1) && _) = false
    rw [hrecord, Bool.false_and]
  exact not_finishes_spells hspells ⟨hrest, hfits⟩ hsmall (fun _ => rfl) (.inl rfl) rfl hok s hs

end DatasetExtractor

end CraySim
