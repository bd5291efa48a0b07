/-
  Subject:   What reading a dataset back gives.

  `ReadRecord` follows the forward indices and finds the records; `IsEof` and `IsEod` look at the
  word behind a control word, whatever it is: the block control word of the next block, or data.

  * `Rest` -- the segments from a position of the file on,
  * `readRecord_rest` -- a record is read as it was written,
  * `nextType`, `isAt_rest` -- what `IsEof` and `IsEod` see behind a control word,
  * `filesReadable` -- the files for which that is the right word every time,
  * `dataset_roundTrip` -- these are read back, and no others,
  * `extract_terminates` -- the bound on the rounds of the loops is never reached.
-/
import CraySim.DataSetRun
import CraySim.Lib.EventRun

namespace CraySim

open ByteFile Framed
open EventRun (exists_of_bind)

namespace DataSet

/-! ## 1. Reading at a segment -/

/-- The segments that the file holds from `pos` on. -/
structure Rest (aFile : List (BitVec 8)) (pos : Nat) (gs : List Segment) : Prop where
  bytes : aFile.drop pos = image Segment.bytes gs
  inFile : pos ≤ aFile.length
  forward : ∀ g ∈ gs, g.data.length = 8 * g.ctrlWord.getForwardWordIdx.toNat ∧
    g.ctrlWord.getForwardWordIdx.toNat ≤ 511

section Rest
variable {file : List (BitVec 8)} {pos : Nat} {g : Segment} {gs : List Segment}

theorem Rest.length (h : Rest file pos gs) :
    file.length = pos + (image Segment.bytes gs).length := by
  have hlen := congrArg List.length h.bytes
  have hin := h.inFile
  rw [List.length_drop] at hlen
  omega

theorem Rest.tail (h : Rest file pos (g :: gs)) : Rest file (pos + g.bytes.length) gs := by
  have hlen := h.length
  rw [image_cons, List.length_append] at hlen
  refine ⟨?_, by omega, fun x hx => h.forward x (List.mem_cons_of_mem _ hx)⟩
  rw [← List.drop_drop, h.bytes, image_cons, List.drop_left]

theorem Rest.append {xs : List Segment} (h : Rest file pos (xs ++ gs)) :
    Rest file (pos + (image Segment.bytes xs).length) gs := by
  induction xs generalizing pos with
  | nil => exact h
  | cons x xs ih =>
    have htail := ih h.tail
    rwa [Nat.add_assoc, ← List.length_append, ← image_cons] at htail

theorem Rest.readCtrlWord_eq (h : Rest file pos (g :: gs)) :
    readCtrlWord file pos = .ok (g.ctrlWord, pos + 8) := by
  have hlen := h.length
  rw [image_cons, List.length_append, Segment.length_bytes] at hlen
  have hwindow : window file pos 8 = g.ctrlWord.bytes := by
    rw [window, h.bytes, image_cons, Segment.bytes, List.append_assoc]
    exact List.take_left' (DsCtrlWord.length_bytes _)
  rw [readCtrlWord, if_pos (by omega), hwindow, DsCtrlWord.ofBytes_bytes]

theorem Rest.window_data (h : Rest file pos (g :: gs)) :
    window file (pos + 8) g.data.length = g.data := by
  have hdrop : file.drop (pos + 8) = g.data ++ image Segment.bytes gs := by
    rw [← List.drop_drop, h.bytes, image_cons, Segment.bytes, List.append_assoc]
    exact List.drop_left' (DsCtrlWord.length_bytes _)
  rw [window, hdrop, List.take_left]

/-- The word behind a control word that has data is the first word of the data. -/
theorem Rest.readCtrlWord_data (h : Rest file pos (g :: gs)) (hdata : g.data ≠ []) :
    readCtrlWord file (pos + 8) = .ok (DsCtrlWord.ofBytes (g.data.take 8), pos + 8 + 8) := by
  have hpos : 0 < g.data.length := List.length_pos_iff.2 hdata
  have hforward := (h.forward g List.mem_cons_self).1
  have hlen := h.length
  rw [image_cons, List.length_append, Segment.length_bytes] at hlen
  have hwindow : window file (pos + 8) 8 = g.data.take 8 := by
    rw [← h.window_data, window, window, List.take_take, Nat.min_eq_left (by omega)]
  rw [readCtrlWord, if_pos (by omega), hwindow]

end Rest

/-! ## 2. Records -/

section records
variable {file : List (BitVec 8)}

/-- What `ReadRecord` makes of the words of a record. -/
theorem trimmed_padded (r : List (BitVec 8)) {u : BitVec 32}
    (hu : u.toNat = 8 * (8 * wordCnt r - r.length)) : trimmed (padded (wordCnt r) r) u = r := by
  have hbound := wordCnt_bound r
  have hlen := length_padded hbound.1
  have hcut : (u / 8).toNat = 8 * wordCnt r - r.length := by
    rw [BitVec.toNat_udiv, hu]
    exact Nat.mul_div_cancel_left _ (by decide)
  rw [trimmed, hcut, hlen]
  split
  · rw [show 8 * wordCnt r - (8 * wordCnt r - r.length) = r.length by omega, padded, List.take_left]
  · have hnil : r = [] := List.length_eq_zero_iff.1 (by omega)
    subst hnil
    rfl

/-- The types of control word behind which a record can go on. -/
def InRecord (t : CtrlWordType) : Prop := t = .BCW ∨ t = .EOR ∨ t = .EOF

theorem InRecord.ne_unk {t : CtrlWordType} (h : InRecord t) : t ≠ .UNK := by
  rcases h with rfl | rfl | rfl <;> decide

theorem InRecord.ne_eod {t : CtrlWordType} (h : InRecord t) : t ≠ .EOD := by
  rcases h with rfl | rfl | rfl <;> decide

/-- A round of the loop of `ReadRecord`. -/
theorem readRecordLoop_round {g x : Segment} {rest : List Segment} {pos : Nat} (rounds : Nat)
    (record : List (BitVec 8)) (h : Rest file pos (g :: x :: rest))
    (htype : InRecord g.ctrlWord.getType) :
    readRecordLoop file (rounds + 1) record g.ctrlWord (pos + 8) =
      if x.ctrlWord.getType ≠ .EOR then
        readRecordLoop file rounds (record ++ g.data) x.ctrlWord (pos + g.bytes.length + 8)
      else do
        dsAssert ((record ++ g.data).length % 8 = 0)
        return (trimmed (record ++ g.data) x.ctrlWord.getUnusedBitCnt, pos + g.bytes.length) := by
  obtain ⟨hforward, hbound⟩ := h.forward g List.mem_cons_self
  have hsize : (g.ctrlWord.getForwardWordIdx * 8).toNat = g.data.length := by
    have hsmall : g.ctrlWord.getForwardWordIdx.toNat * 8 < 2 ^ 32 := by omega
    have height : (8 : BitVec 32).toNat = 8 := rfl
    rw [BitVec.toNat_mul, height, Nat.mod_eq_of_lt hsmall, hforward, Nat.mul_comm]
  have hnext : pos + 8 + g.data.length = pos + g.bytes.length := by
    rw [Segment.length_bytes, Nat.add_assoc]
  have hcheck : checkType g.ctrlWord.getType = .ok () := by
    rcases htype with ht | ht | ht <;> rw [ht] <;> rfl
  have hdata : readData file (pos + 8) g.data.length = .ok g.data := by
    rw [readData, h.window_data, if_neg (fun hn => hn rfl)]
  have hread : readCtrlWord file (pos + 8 + g.data.length) =
      .ok (x.ctrlWord, pos + g.bytes.length + 8) := by
    rw [hnext, h.tail.readCtrlWord_eq]
  rw [readRecordLoop, hcheck]
  refine (bind_ok rfl).trans ?_
  rw [hsize]
  refine (bind_ok hdata).trans ((bind_ok hread).trans ?_)
  simp only [Nat.add_sub_cancel]

/-- **The loop of `ReadRecord`**, by induction on the blocks the record goes through. -/
theorem readRecordLoop_rest {g e : Segment} {tail rest : List Segment} {pos rounds : Nat}
    (record : List (BitVec 8)) (h : Rest file pos (g :: tail ++ e :: rest))
    (htype : InRecord g.ctrlWord.getType) (hbcws : ∀ t ∈ tail, t.ctrlWord.getType = .BCW)
    (heor : e.ctrlWord.getType = .EOR) (hrounds : tail.length < rounds)
    (hrecord : record.length % 8 = 0) :
    readRecordLoop file rounds record g.ctrlWord (pos + 8) =
      .ok (trimmed (record ++ (g.data ++ tail.flatMap Segment.data)) e.ctrlWord.getUnusedBitCnt,
        pos + (image Segment.bytes (g :: tail)).length) := by
  induction tail generalizing g pos rounds record with
  | nil =>
    obtain ⟨rounds, rfl⟩ := Nat.exists_eq_add_one.mpr hrounds
    have hforward := (h.forward g List.mem_cons_self).1
    have hwords : (record ++ g.data).length % 8 = 0 := by
      rw [List.length_append]
      omega
    rw [readRecordLoop_round rounds record h htype, if_neg (fun hn => hn heor), dsAssert,
      if_pos hwords, List.flatMap_nil, List.append_nil, image_cons, image_nil, List.append_nil]
    rfl
  | cons b tail ih =>
    obtain ⟨rounds, rfl⟩ := Nat.exists_eq_add_one.mpr (Nat.zero_lt_of_lt hrounds)
    have hbcw := hbcws b List.mem_cons_self
    have hforward := (h.forward g List.mem_cons_self).1
    have hwords : (record ++ g.data).length % 8 = 0 := by
      rw [List.length_append]
      omega
    rw [readRecordLoop_round rounds record h htype, if_pos (by rw [hbcw]; decide),
      ih (record ++ g.data) h.tail (.inl hbcw) (fun t ht => hbcws t (List.mem_cons_of_mem _ ht))
        (Nat.lt_of_succ_lt_succ hrounds) hwords,
      List.flatMap_cons, List.append_assoc, Nat.add_assoc, ← List.length_append, ← image_cons]

/-- **A record is read as it was written.** -/
theorem readRecord_rest {g e : Segment} {tail rest : List Segment} {pos : Nat} {t : CtrlWordType}
    {u ofs : Nat} {r : List (BitVec 8)} (h : Rest file pos (g :: tail ++ e :: rest))
    (hgroup : Group t u ofs r g tail) (ht : InRecord t) (heor : e.ctrlWord.getType = .EOR)
    (hunused : e.ctrlWord.getUnusedBitCnt.toNat = 8 * (8 * wordCnt r - r.length)) :
    readRecord file pos = .ok (r, pos + (image Segment.bytes (g :: tail)).length) := by
  have hrounds : tail.length < file.length := by
    have hlen := h.length
    have hsegs := length_le_image
      (g :: tail ++ e :: rest)
    rw [List.length_append, List.length_cons, List.length_cons] at hsegs
    omega
  have hloop := readRecordLoop_rest [] h (by rw [hgroup.type]; exact ht) hgroup.bcws heor hrounds rfl
  rw [List.nil_append, hgroup.data, trimmed_padded r hunused] at hloop
  exact (bind_ok h.readCtrlWord_eq).trans hloop

end records

/-! ## 3. The word behind a control word -/

/-- A data word read as a control word: its first byte holds the type. -/
theorem getType_ofBytes (b : BitVec 8) {bs : List (BitVec 8)} (h : bs.length = 7) :
    (DsCtrlWord.ofBytes (b :: bs)).getType = DsCtrlWord.typeOfCode (b.toNat / 16) := by
  have hrest : valueBE bs < 256 ^ 7 := h ▸ valueBE_lt bs
  have hvalue : valueBE (b :: bs) = b.toNat * 256 ^ 7 + valueBE bs := h ▸ valueBE_cons b bs
  have hb : b.toNat < 256 := b.isLt
  have hfield : ((DsCtrlWord.ofBytes (b :: bs)).getField 0 3).toNat = b.toNat / 16 := by
    rw [DsCtrlWord.getField, getBitsReverse_eq_get _ (by decide), BitVec.toNat_setWidth,
      WordField.toNat_get, DsCtrlWord.ofBytes, BitVec.toNat_ofNat, hvalue]
    omega
  rw [DsCtrlWord.getType, hfield]

/-- The type of the word with which the operations go on: the next control word, or the first
    word of the next record. -/
def firstType : List Op → CtrlWordType
  | [] => .EOD
  | .eof :: _ => .EOF
  | .record [] :: _ => .EOR
  | .record (b :: _) :: _ => DsCtrlWord.typeOfCode (b.toNat / 16)

/-- The type of the word behind a control word that `n` words precede, with `ops` to follow:
    behind the last word of a block it is the block control word of the next one. -/
def nextType (n : Nat) (ops : List Op) : CtrlWordType :=
  if n % 511 = 0 then .BCW else firstType ops

section next
variable {file : List (BitVec 8)} {pos u n ofs : Nat} {t : CtrlWordType} {ops : List Op}
  {g : Segment} {gs tail : List Segment}

theorem Spells.head (h : Spells t u n ops gs) :
    ∃ g more, gs = g :: more ∧ g.ctrlWord.getType = t ∧ g.ctrlWord.getUnusedBitCnt.toNat = u := by
  cases h with
  | flush hgroup hone htype hdata => exact ⟨_, _, rfl, hgroup.type, hgroup.unused⟩
  | step hgroup hrest => exact ⟨_, _, rfl, hgroup.type, hgroup.unused⟩

theorem ofsAt_eq (hn : 0 < n) : ofsAt n = 4088 ↔ n % 511 = 0 := by
  rw [ofsAt, if_neg (by omega)]
  omega

theorem ofsAt_lt (hn : n % 511 ≠ 0) : ofsAt n < 4088 := by
  rw [ofsAt]
  split <;> omega

theorem Rest.readCtrlWord_next {x : Segment} (h : Rest file pos (g :: x :: gs))
    (hdata : g.data = []) : readCtrlWord file (pos + 8) = .ok (x.ctrlWord, pos + 8 + 8) := by
  have hnext := h.tail.readCtrlWord_eq
  rwa [Segment.length_bytes, hdata] at hnext

theorem Rest.readCtrlWord_blockEnd (h : Rest file pos (g :: tail ++ gs)) {d : List (BitVec 8)}
    (hgroup : Group t u (ofsAt n) d g tail) (hn : 0 < n) (hend : n % 511 = 0) :
    ∃ w, readCtrlWord file (pos + 8) = .ok (w, pos + 8 + 8) ∧ w.getType = .BCW := by
  obtain ⟨hdata, htail⟩ := hgroup.blockEnd ((ofsAt_eq hn).2 hend)
  obtain ⟨b, tail, rfl⟩ := List.exists_cons_of_ne_nil htail
  exact ⟨b.ctrlWord, h.readCtrlWord_next hdata, hgroup.bcws b List.mem_cons_self⟩

/-- Without data, the next segments follow at once. -/
theorem Group.eq_nil (hgroup : Group t u (ofsAt n) [] g tail) (hn : n % 511 ≠ 0) :
    g.data = [] ∧ tail = [] := by
  have hnil := hgroup.data
  rw [show padded (wordCnt []) [] = [] from rfl, List.append_eq_nil_iff] at hnil
  exact ⟨hnil.1, (hgroup.inBlock (ofsAt_lt hn)).2 rfl⟩

/-- **The word behind a control word.** -/
theorem Rest.readCtrlWord_spells (h : Rest file pos gs) (hs : Spells t u n ops gs) (hn : 0 < n) :
    ∃ w, readCtrlWord file (pos + 8) = .ok (w, pos + 8 + 8) ∧ w.getType = nextType n ops := by
  rw [nextType]
  by_cases hend : n % 511 = 0
  · rw [if_pos hend]
    cases hs with
    | flush hgroup hone htype hdata => exact h.readCtrlWord_blockEnd hgroup hn hend
    | step hgroup hrest => exact h.readCtrlWord_blockEnd hgroup hn hend
  · rw [if_neg hend]
    cases hs with
    | flush hgroup hone htype hdata =>
      obtain ⟨hg, rfl⟩ := hgroup.eq_nil hend
      exact ⟨_, h.readCtrlWord_next hg, htype⟩
    | @step _ _ _ op ops g tail gs hgroup hrest =>
      obtain ⟨x, more, rfl, hx, -⟩ := hrest.head
      rcases op with (_ | ⟨b, r⟩) | _
      · obtain ⟨hg, rfl⟩ := hgroup.eq_nil hend
        exact ⟨_, h.readCtrlWord_next hg, hx⟩
      · -- the first word of the record, read as a control word
        have htake := (hgroup.inBlock (ofsAt_lt hend)).1
        have hlen := length_padded (wordCnt_bound (b :: r)).1
        have hpos : 0 < wordCnt (b :: r) := by
          rw [wordCnt, List.length_cons]
          omega
        have hpadded : padded (wordCnt (b :: r)) (b :: r) =
            b :: (padded (wordCnt (b :: r)) (b :: r)).tail := rfl
        rw [Op.bytes, hpadded, List.take_succ_cons] at htake
        have hne : g.data ≠ [] := by
          rintro hnil
          rw [hnil] at htake
          exact absurd htake (by simp)
        have hseven : ((padded (wordCnt (b :: r)) (b :: r)).tail.take 7).length = 7 := by
          rw [List.length_take, List.length_tail]
          omega
        refine ⟨_, h.readCtrlWord_data hne, ?_⟩
        rw [htake, getType_ofBytes b hseven, firstType]
      · obtain ⟨hg, rfl⟩ := hgroup.eq_nil hend
        exact ⟨_, h.readCtrlWord_next hg, hx⟩

/-- **`IsEof` and `IsEod`** at a control word of the type that they look behind. -/
theorem isAt_rest {aType : CtrlWordType} (h : Rest file pos gs) (hs : Spells t u n ops gs)
    (hn : 0 < n) (hne : t ≠ aType) :
    isAt t aType file pos =
      .ok (decide (nextType n ops = aType), if nextType n ops = aType then pos + 8 else pos) := by
  obtain ⟨g, more, rfl, hg, -⟩ := hs.head
  obtain ⟨w, hread, hw⟩ := h.readCtrlWord_spells hs hn
  have hsame : isAt t aType file pos = if nextType n ops = aType then .ok (true, pos + 8)
      else .ok (decide (t = aType), pos) := by
    refine (bind_ok h.readCtrlWord_eq).trans ?_
    dsimp only
    rw [hg, if_pos rfl]
    refine (bind_ok hread).trans ?_
    dsimp only
    rw [hw]
    rfl
  rw [hsame]
  split
  · rename_i heq
    rw [decide_eq_true heq]
  · rename_i hneq
    rw [decide_eq_false hneq, decide_eq_false hne]

end next

/-! ## 4. Files -/

/-- The first byte of a record, read as the start of a control word of a type. -/
def startsLike (t : CtrlWordType) : List (BitVec 8) → Bool
  | [] => false
  | b :: _ => DsCtrlWord.typeOfCode (b.toNat / 16) = t

/-- The first record of a file. -/
def fileStartsLike (t : CtrlWordType) : List (List (BitVec 8)) → Bool
  | [] => false
  | r :: _ => startsLike t r

/-- The words of a file, block control words not counted. -/
def fileWords (aFile : List (List (BitVec 8))) : Nat :=
  (aFile.map fun r => wordCnt r + 1).sum + 1

/-- The files that can be read back from a dataset, when `n` words precede: there is a record;
    the control word of the last one is not the last word of its block; and no other one is
    followed, in the same block, by data that starts like an `EOF`. -/
def fileReadable : Nat → List (List (BitVec 8)) → Bool
  | _, [] => false
  | n, [r] => (n + wordCnt r + 1) % 511 != 0
  | n, r :: r' :: rs =>
    ((n + wordCnt r + 1) % 511 == 0 || !startsLike .EOF r') &&
      fileReadable (n + wordCnt r + 1) (r' :: rs)

/-- The same of a list of files: the last `EOF` is not the last word of its block, and no other one
    is followed, in the same block, by data that starts like an `EOD`. -/
def filesReadable : Nat → List (List (List (BitVec 8))) → Bool
  | _, [] => false
  | n, [f] => fileReadable n f && (n + fileWords f) % 511 != 0
  | n, f :: f' :: fs =>
    fileReadable n f && ((n + fileWords f) % 511 == 0 || !fileStartsLike .EOD f') &&
      filesReadable (n + fileWords f) (f' :: fs)

section files
variable {file : List (BitVec 8)} {pos u n : Nat} {t : CtrlWordType} {ops : List Op}
  {gs : List Segment}

theorem nextType_record {aType : CtrlWordType} (r : List (BitVec 8)) (hbcw : aType ≠ .BCW)
    (heor : aType ≠ .EOR) :
    nextType n (.record r :: ops) = aType ↔ n % 511 ≠ 0 ∧ startsLike aType r = true := by
  rw [nextType]
  by_cases hend : n % 511 = 0
  · rw [if_pos hend]
    exact ⟨fun h => absurd h.symm hbcw, fun h => absurd hend h.1⟩
  · rw [if_neg hend]
    cases r with
    | nil => exact ⟨fun h => absurd h.symm heor, fun h => absurd h.2 (by simp [startsLike])⟩
    | cons b r => simp [firstType, startsLike, hend]

/-- **A record of a file**: `ReadRecord` gives it, `IsEof` looks at the word behind its `EOR`. -/
theorem extract_record {r : List (BitVec 8)} {op : Op} (h : Rest file pos gs)
    (hs : Spells t u n (.record r :: op :: ops) gs) (ht : InRecord t) :
    ∃ pos' gs', Rest file pos' gs' ∧
      Spells .EOR (8 * (8 * wordCnt r - r.length)) (n + wordCnt r + 1) (op :: ops) gs' ∧
      readRecord file pos = .ok (r, pos') ∧
      isEof file pos' = .ok (decide (nextType (n + wordCnt r + 1) (op :: ops) = .EOF),
        if nextType (n + wordCnt r + 1) (op :: ops) = .EOF then pos' + 8 else pos') := by
  cases hs with
  | step hgroup hrest =>
    obtain ⟨e, more, rfl, htype, hunused⟩ := hrest.head
    exact ⟨_, _, h.append, hrest, readRecord_rest h hgroup ht htype hunused,
      isAt_rest h.append hrest (Nat.succ_pos _) (by decide)⟩

variable {out : List (List (BitVec 8))} {f : List (List (BitVec 8))} {rounds : Nat}

theorem extractFile_eq_ok {rounds p : Nat} (h : extractFile file (rounds + 1) pos = .ok (out, p)) :
    ∃ r p1 eof p2, readRecord file pos = .ok (r, p1) ∧ isEof file p1 = .ok (eof, p2) ∧
      (eof = true ∧ out = [r] ∧ p = p2 ∨
        eof = false ∧ ∃ out', extractFile file rounds p2 = .ok (out', p) ∧ out = r :: out') := by
  obtain ⟨⟨r, p1⟩, hread, h⟩ := exists_of_bind h
  obtain ⟨⟨eof, p2⟩, heof, h⟩ := exists_of_bind h
  refine ⟨r, p1, eof, p2, hread, heof, ?_⟩
  cases eof with
  | true =>
    obtain ⟨hout, hp⟩ := Prod.mk.inj (Except.ok.inj h)
    exact .inl ⟨rfl, hout.symm, hp.symm⟩
  | false =>
    obtain ⟨⟨out', p'⟩, hrest, h⟩ := exists_of_bind h
    obtain ⟨hout, rfl⟩ := Prod.mk.inj (Except.ok.inj h)
    exact .inr ⟨rfl, out', hrest, hout.symm⟩

theorem extractFile_ne_nil {rounds p : Nat}
    (h : extractFile file rounds pos = .ok (out, p)) : out ≠ [] := by
  cases rounds with
  | zero => exact nomatch h
  | succ rounds =>
    obtain ⟨r, p1, eof, p2, -, -, ⟨-, rfl, -⟩ | ⟨-, out', -, rfl⟩⟩ := extractFile_eq_ok h
    · exact List.cons_ne_nil _ _
    · exact List.cons_ne_nil _ _

/-- **A readable file is read**, by induction on its records; the position is then the one of
    its `EOF`. -/
theorem extractFile_readable (h : Rest file pos gs)
    (hs : Spells t u n (opsOfFile f ++ ops) gs) (ht : InRecord t) (hf : fileReadable n f = true)
    (hrounds : f.length ≤ rounds) :
    ∃ pos' gs', extractFile file rounds pos = .ok (f, pos') ∧ Rest file pos' gs' ∧
      Spells .EOF 0 (n + fileWords f) ops gs' := by
  induction f generalizing t u n pos gs rounds with
  | nil => exact absurd hf (by simp [fileReadable])
  | cons r rs ih =>
    obtain ⟨rounds, rfl⟩ := Nat.exists_eq_add_one.mpr (Nat.zero_lt_of_lt hrounds)
    cases rs with
    | nil =>
      have hs' : Spells t u n (.record r :: .eof :: ops) gs := hs
      obtain ⟨pos', gs', hrest, hspells, hread, heof⟩ := extract_record h hs' ht
      have hinner : (n + wordCnt r + 1) % 511 ≠ 0 := by simpa [fileReadable] using hf
      have hnext : nextType (n + wordCnt r + 1) (.eof :: ops) = .EOF := if_neg hinner
      rw [hnext, if_pos rfl] at heof
      cases hspells with
      | @step _ _ _ _ _ g tail gs hgroup hspells =>
        obtain ⟨hg, rfl⟩ := hgroup.eq_nil hinner
        have htail := hrest.tail
        rw [Segment.length_bytes, hg] at htail
        exact ⟨_, _, (bind_ok hread).trans (bind_ok heof), htail, hspells⟩
    | cons r' rs =>
      have hs' : Spells t u n (.record r :: .record r' :: (opsOfFile rs ++ ops)) gs := hs
      obtain ⟨pos', gs', hrest, hspells, hread, heof⟩ := extract_record h hs' ht
      obtain ⟨hinner, hrs⟩ : ((n + wordCnt r + 1) % 511 = 0 ∨ startsLike .EOF r' = false) ∧
          fileReadable (n + wordCnt r + 1) (r' :: rs) = true := by
        simpa [fileReadable] using hf
      have hnext : nextType (n + wordCnt r + 1) (.record r' :: (opsOfFile rs ++ ops)) ≠ .EOF := by
        rw [ne_eq, nextType_record r' (by decide) (by decide)]
        rintro ⟨hn, hlike⟩
        rcases hinner with hend | hno
        · exact hn hend
        · exact absurd (hno.symm.trans hlike) (by decide)
      obtain ⟨pos'', gs'', hfile, hrest', hspells'⟩ :=
        ih hrest hspells (.inr (.inl rfl)) hrs (Nat.le_of_succ_le_succ hrounds)
      rw [decide_eq_false hnext, if_neg hnext] at heof
      refine ⟨pos'', gs'', (bind_ok hread).trans ((bind_ok heof).trans (bind_ok hfile)), hrest', ?_⟩
      have hwords : n + fileWords (r :: r' :: rs) =
          n + wordCnt r + 1 + fileWords (r' :: rs) := by
        simp only [fileWords, List.map_cons, List.sum_cons]
        omega
      rw [hwords]
      exact hspells'

/-- **Another file is not**: `IsEof` is true too early, or not when it should be. -/
theorem extractFile_unreadable {rounds p : Nat} (h : Rest file pos gs)
    (hs : Spells t u n (opsOfFile f ++ ops) gs) (ht : InRecord t) (hf : fileReadable n f = false)
    (hout : extractFile file rounds pos = .ok (out, p)) : out ≠ f := by
  induction f generalizing t u n pos gs rounds p out with
  | nil => exact extractFile_ne_nil hout
  | cons r rs ih =>
    cases rounds with
    | zero => exact nomatch hout
    | succ rounds =>
      cases rs with
      | nil =>
        have hs' : Spells t u n (.record r :: .eof :: ops) gs := hs
        obtain ⟨pos', gs', hrest, hspells, hread, heof⟩ := extract_record h hs' ht
        have hend : (n + wordCnt r + 1) % 511 = 0 := by simpa [fileReadable] using hf
        have hnext : nextType (n + wordCnt r + 1) (.eof :: ops) ≠ .EOF := by
          rw [nextType, if_pos hend]
          decide
        rw [decide_eq_false hnext] at heof
        obtain ⟨r1, p1, eof, p2, hread', heof', hcases⟩ := extractFile_eq_ok hout
        obtain ⟨rfl, rfl⟩ := Prod.mk.inj (Except.ok.inj (hread'.symm.trans hread))
        obtain ⟨rfl, -⟩ := Prod.mk.inj (Except.ok.inj (heof'.symm.trans heof))
        rcases hcases with ⟨hf, -⟩ | ⟨-, out', hmore, rfl⟩
        · exact absurd hf (by decide)
        · rintro heq
          exact extractFile_ne_nil hmore (List.cons.inj heq).2
      | cons r' rs =>
        have hs' : Spells t u n (.record r :: .record r' :: (opsOfFile rs ++ ops)) gs := hs
        obtain ⟨pos', gs', hrest, hspells, hread, heof⟩ := extract_record h hs' ht
        obtain ⟨r1, p1, eof, p2, hread', heof', hcases⟩ := extractFile_eq_ok hout
        obtain ⟨rfl, rfl⟩ := Prod.mk.inj (Except.ok.inj (hread'.symm.trans hread))
        obtain ⟨rfl, rfl⟩ := Prod.mk.inj (Except.ok.inj (heof'.symm.trans heof))
        rcases hcases with ⟨-, rfl, -⟩ | ⟨hfalse, out', hmore, rfl⟩
        · rintro heq
          exact absurd (List.cons.inj heq).2 (by simp)
        · have hnext := of_decide_eq_false hfalse
          rw [if_neg hnext] at hmore
          have hrs : fileReadable (n + wordCnt r1 + 1) (r' :: rs) = false := by
            rw [nextType_record r' (by decide) (by decide)] at hnext
            rw [fileReadable, Bool.and_eq_false_iff] at hf
            rcases hf with hinner | hrs
            · simp at hinner
              exact absurd hinner hnext
            · exact hrs
          rintro heq
          exact ih hrest hspells (.inr (.inl rfl)) hrs hmore (List.cons.inj heq).2

/-- **The files**: `IsEod` looks at the word behind the `EOF`. -/
theorem isEod_rest (h : Rest file pos gs) (hs : Spells .EOF 0 n ops gs) (hn : 0 < n) :
    isEod file pos = .ok (decide (nextType n ops = .EOD),
      if nextType n ops = .EOD then pos + 8 else pos) :=
  isAt_rest h hs hn (by decide)

theorem nextType_opsOfFile (f : List (List (BitVec 8))) :
    nextType n (opsOfFile f ++ ops) = .EOD ↔ n % 511 ≠ 0 ∧ fileStartsLike .EOD f = true := by
  cases f with
  | nil =>
    have hnever : nextType n (.eof :: ops) ≠ .EOD := by
      rw [nextType, firstType]
      split <;> decide
    exact ⟨fun h => absurd h hnever, fun h => absurd h.2 (by decide)⟩
  | cons r rs => exact nextType_record r (by decide) (by decide)

theorem extractFiles_eq_ok {out : List (List (List (BitVec 8)))}
    (h : extractFiles file (rounds + 1) pos = .ok out) :
    ∃ f p1 eod p2, extractFile file (file.length + 1) pos = .ok (f, p1) ∧
      isEod file p1 = .ok (eod, p2) ∧
      (eod = true ∧ out = [f] ∨
        eod = false ∧ ∃ out', extractFiles file rounds p2 = .ok out' ∧ out = f :: out') := by
  obtain ⟨⟨f, p1⟩, hfile, h⟩ := exists_of_bind h
  obtain ⟨⟨eod, p2⟩, heod, h⟩ := exists_of_bind h
  refine ⟨f, p1, eod, p2, hfile, heod, ?_⟩
  cases eod with
  | true => exact .inl ⟨rfl, (Except.ok.inj h).symm⟩
  | false =>
    obtain ⟨out', hrest, h⟩ := exists_of_bind h
    exact .inr ⟨rfl, out', hrest, (Except.ok.inj h).symm⟩

theorem extractFiles_ne_nil {out : List (List (List (BitVec 8)))}
    (h : extractFiles file rounds pos = .ok out) : out ≠ [] := by
  cases rounds with
  | zero => exact nomatch h
  | succ rounds =>
    obtain ⟨f, p1, eod, p2, -, -, ⟨-, rfl⟩ | ⟨-, out', -, rfl⟩⟩ := extractFiles_eq_ok h
    · exact List.cons_ne_nil _ _
    · exact List.cons_ne_nil _ _

/-- There are rounds enough for the records of a file. -/
theorem length_le_of_spells (h : Rest file pos gs)
    (hs : Spells t u n (opsOfFile f ++ ops) gs) : f.length ≤ file.length + 1 := by
  have hops := hs.length_le
  have hsegs := length_le_image gs
  have hlen := h.length
  rw [opsOfFile, List.length_append, List.length_append, List.length_map] at hops
  omega

/-- **Readable files are read**, by induction on the files. -/
theorem extractFiles_readable {fs : List (List (List (BitVec 8)))}
    (h : Rest file pos gs) (hs : Spells t u n (fs.flatMap opsOfFile) gs) (ht : InRecord t)
    (hfs : filesReadable n fs = true) (hrounds : fs.length ≤ rounds) :
    extractFiles file rounds pos = .ok fs := by
  induction fs generalizing t u n pos gs rounds with
  | nil => exact absurd hfs (by simp [filesReadable])
  | cons f fs ih =>
    obtain ⟨rounds, rfl⟩ := Nat.exists_eq_add_one.mpr (Nat.zero_lt_of_lt hrounds)
    have hwords : 0 < n + fileWords f := by
      rw [fileWords]
      omega
    rw [List.flatMap_cons] at hs
    cases fs with
    | nil =>
      obtain ⟨hf, hend⟩ : fileReadable n f = true ∧ (n + fileWords f) % 511 ≠ 0 := by
        simpa [filesReadable] using hfs
      obtain ⟨pos', gs', hfile, hrest, hspells⟩ :=
        extractFile_readable h hs ht hf (length_le_of_spells h hs)
      have heod := isEod_rest hrest hspells hwords
      have hnext : nextType (n + fileWords f) [] = .EOD := if_neg hend
      rw [List.flatMap_nil, hnext] at heod
      exact (bind_ok hfile).trans (bind_ok heod)
    | cons f' fs =>
      obtain ⟨⟨hf, hinner⟩, hfs'⟩ : (fileReadable n f = true ∧
          ((n + fileWords f) % 511 = 0 ∨ fileStartsLike .EOD f' = false)) ∧
          filesReadable (n + fileWords f) (f' :: fs) = true := by
        simpa [filesReadable] using hfs
      obtain ⟨pos', gs', hfile, hrest, hspells⟩ :=
        extractFile_readable h hs ht hf (length_le_of_spells h hs)
      have heod := isEod_rest hrest hspells hwords
      have hnext : nextType (n + fileWords f) (opsOfFile f' ++ fs.flatMap opsOfFile) ≠ .EOD := by
        rw [ne_eq, nextType_opsOfFile]
        rintro ⟨hn, hlike⟩
        rcases hinner with hend | hno
        · exact hn hend
        · exact absurd (hno.symm.trans hlike) (by decide)
      have hmore := ih hrest hspells (.inr (.inr rfl)) hfs' (Nat.le_of_succ_le_succ hrounds)
      rw [List.flatMap_cons, decide_eq_false hnext, if_neg hnext] at heod
      exact (bind_ok hfile).trans ((bind_ok heod).trans (bind_ok hmore))

/-- **Other files are not.** -/
theorem extractFiles_unreadable {fs out : List (List (List (BitVec 8)))}
    (h : Rest file pos gs) (hs : Spells t u n (fs.flatMap opsOfFile) gs) (ht : InRecord t)
    (hfs : filesReadable n fs = false) (hout : extractFiles file rounds pos = .ok out) :
    out ≠ fs := by
  induction fs generalizing t u n pos gs rounds out with
  | nil => exact extractFiles_ne_nil hout
  | cons f fs ih =>
    cases rounds with
    | zero => exact nomatch hout
    | succ rounds =>
      rw [List.flatMap_cons] at hs
      obtain ⟨f1, p1, eod, p2, hfile, heod, hcases⟩ := extractFiles_eq_ok hout
      have hfirst : ∃ rest, out = f1 :: rest := by
        rcases hcases with ⟨-, rfl⟩ | ⟨-, out', -, rfl⟩ <;> exact ⟨_, rfl⟩
      obtain ⟨rest, hfirst⟩ := hfirst
      cases hf : fileReadable n f with
      | false =>
        have hne := extractFile_unreadable h hs ht hf hfile
        rintro rfl
        exact hne (List.cons.inj hfirst).1.symm
      | true =>
        obtain ⟨pos', gs', hfile', hrest, hspells⟩ :=
          extractFile_readable h hs ht hf (length_le_of_spells h hs)
        obtain ⟨rfl, rfl⟩ := Prod.mk.inj (Except.ok.inj (hfile.symm.trans hfile'))
        have hwords : 0 < n + fileWords f1 := by
          rw [fileWords]
          omega
        have heod' := isEod_rest hrest hspells hwords
        obtain ⟨rfl, rfl⟩ := Prod.mk.inj (Except.ok.inj (heod.symm.trans heod'))
        cases fs with
        | nil =>
          have hend : (n + fileWords f1) % 511 = 0 := by
            simpa [filesReadable, hf] using hfs
          rcases hcases with ⟨htrue, -⟩ | ⟨-, out', hmore, rfl⟩
          · have hbcw : nextType (n + fileWords f1) [] = .BCW := if_pos hend
            rw [List.flatMap_nil, hbcw] at htrue
            exact absurd htrue (by decide)
          · rintro heq
            exact extractFiles_ne_nil hmore (List.cons.inj heq).2
        | cons f' fs =>
          rcases hcases with ⟨-, rfl⟩ | ⟨hfalse, out', hmore, rfl⟩
          · rintro heq
            exact absurd (List.cons.inj heq).2 (by simp)
          · have hnext := of_decide_eq_false hfalse
            rw [if_neg hnext] at hmore
            have hfs' : filesReadable (n + fileWords f1) (f' :: fs) = false := by
              rw [List.flatMap_cons, nextType_opsOfFile] at hnext
              rw [filesReadable, hf, Bool.true_and, Bool.and_eq_false_iff] at hfs
              rcases hfs with hinner | hfs'
              · simp at hinner
                exact absurd hinner hnext
              · exact hfs'
            rintro heq
            exact ih hrest hspells (.inr (.inr rfl)) hfs' hmore (List.cons.inj heq).2

end files

/-! ## 5. Datasets -/

/-- The bytes of a dataset are the segments its operations spell. -/
theorem create_spells (aFiles : List (List (List (BitVec 8)))) :
    ∃ image gs, create aFiles = .ok image ∧ Rest image 0 gs ∧
      (∀ m ∈ marks Segment.bytes 0 gs, m.2.Fits m.1) ∧
      Spells .BCW 0 0 (aFiles.flatMap opsOfFile) gs := by
  obtain ⟨t, gs, hrun, hfile, hfits, -, hspells⟩ := flushed (aFiles.flatMap opsOfFile)
  obtain ⟨s, hops, hflush⟩ := exists_of_bind hrun
  refine ⟨t.file, gs, (bind_ok hops).trans (bind_ok hflush), ⟨hfile, Nat.zero_le _, ?_⟩, hfits,
    hspells⟩
  intro g hg
  rw [← map_snd_marks Segment.bytes 0 gs] at hg
  obtain ⟨⟨p, x⟩, hm, rfl⟩ := List.mem_map.1 hg
  have hfit : Segment.Fits p x := hfits _ hm
  have hforward := hfit.forward
  have hin := hfit.inBlock
  rw [Segment.length_bytes] at hin
  refine ⟨hforward, ?_⟩
  show x.ctrlWord.getForwardWordIdx.toNat ≤ 511
  omega

/-- **Round trip.** Every list of files gives a dataset; reading it back gives the same files and
    the end of the data exactly when the files are readable. -/
theorem dataset_roundTrip (aFiles : List (List (List (BitVec 8)))) :
    ∃ image, create aFiles = .ok image ∧
      (extract image = .ok aFiles ↔ filesReadable 0 aFiles = true) := by
  obtain ⟨image, gs, hcreate, hrest, -, hspells⟩ := create_spells aFiles
  refine ⟨image, hcreate, fun hextract => ?_, fun hreadable => ?_⟩
  · cases hreadable : filesReadable 0 aFiles with
    | true => rfl
    | false =>
      exact absurd rfl (extractFiles_unreadable hrest hspells (.inl rfl) hreadable hextract)
  · have hrounds : aFiles.length ≤ image.length + 1 := by
      have hops := hspells.length_le
      have hsegs := length_le_image gs
      have hlen := hrest.length
      have hfiles : aFiles.length ≤ (Framed.image opsOfFile aFiles).length :=
        length_le_length_image (fun f => by simp [opsOfFile]) aFiles
      rw [Framed.image] at hfiles
      omega
    exact extractFiles_readable hrest hspells (.inl rfl) hreadable hrounds

/-- A second record that starts with the code of an `EOF` ends the file for the reader. -/
theorem dataset_roundTrip_eofByte :
    ¬ ∀ aFiles, ∃ image, create aFiles = .ok image ∧ extract image = .ok aFiles := by
  rintro h
  obtain ⟨image, hcreate, hextract⟩ := h [[[1], [0xE5]]]
  obtain ⟨image', gs, hcreate', hrest, -, hspells⟩ := create_spells [[[1], [0xE5]]]
  obtain rfl := Except.ok.inj (hcreate.symm.trans hcreate')
  exact extractFiles_unreadable hrest hspells (.inl rfl) (by decide) hextract rfl

/-! ## 6. The rounds of the loops -/

section termination
variable {file : List (BitVec 8)}

theorem bind_ne_diverges {α β : Type} {x : Except DsExn α} {f : α → Except DsExn β}
    (hx : x ≠ .error .diverges) (hf : ∀ a, x = .ok a → f a ≠ .error .diverges) :
    (x >>= f) ≠ .error .diverges := by
  cases x with
  | error e => exact fun h => hx (congrArg _ (Except.error.inj h))
  | ok a => exact hf a rfl

theorem checkType_ne_diverges (t : CtrlWordType) : checkType t ≠ .error .diverges := by
  cases t <;> simp [checkType]

theorem readData_ne_diverges (pos aSize : Nat) : readData file pos aSize ≠ .error .diverges := by
  rw [readData]
  split <;> simp

theorem dsAssert_ne_diverges (p : Prop) [Decidable p] : dsAssert p ≠ .error .diverges := by
  rw [dsAssert]
  split <;> simp

/-- A loop does not reach its bound, and where it ends the position has moved by `n` at least. -/
def Ends (file : List (BitVec 8)) {α : Type} (pos n : Nat) (x : Except DsExn (α × Nat)) : Prop :=
  x ≠ .error .diverges ∧ ∀ a p, x = .ok (a, p) → pos + n ≤ p ∧ p ≤ file.length

theorem Ends.mono {α : Type} {pos pos' n n' : Nat} {x : Except DsExn (α × Nat)}
    (h : Ends file pos n x) (hle : pos' + n' ≤ pos + n) : Ends file pos' n' x := by
  refine ⟨h.1, fun a p hx => ?_⟩
  have hp := h.2 a p hx
  omega

theorem Ends.bind {α β : Type} {pos pos' n n' : Nat} {x : Except DsExn (α × Nat)}
    {f : α × Nat → Except DsExn (β × Nat)} (hx : Ends file pos n x)
    (hf : ∀ a p, pos + n ≤ p → p ≤ file.length → Ends file pos' n' (f (a, p))) :
    Ends file pos' n' (x >>= f) := by
  refine ⟨bind_ne_diverges hx.1 fun ⟨a, p⟩ ha => ?_, fun b q hb => ?_⟩
  · obtain ⟨hp, hlen⟩ := hx.2 a p ha
    exact (hf a p hp hlen).1
  · obtain ⟨⟨a, p⟩, ha, hfa⟩ := exists_of_bind hb
    obtain ⟨hp, hlen⟩ := hx.2 a p ha
    exact (hf a p hp hlen).2 b q hfa

theorem ends_pure {α : Type} {pos n p : Nat} (a : α) (hp : pos + n ≤ p) (hlen : p ≤ file.length) :
    Ends file pos n (.ok (a, p)) := by
  refine ⟨fun h => ?_, fun b q h => ?_⟩
  · cases h
  · obtain ⟨-, rfl⟩ := Prod.mk.inj (Except.ok.inj h)
    exact ⟨hp, hlen⟩

theorem ends_generic {α : Type} (pos n : Nat) (aText : String) :
    Ends file pos n (.error (.generic aText) : Except DsExn (α × Nat)) := by
  refine ⟨fun h => ?_, fun a p h => ?_⟩
  · cases Except.error.inj h
  · cases h

theorem ends_bind {α β : Type} {pos n : Nat} {x : Except DsExn α} {f : α → Except DsExn (β × Nat)}
    (hx : x ≠ .error .diverges) (hf : ∀ a, Ends file pos n (f a)) : Ends file pos n (x >>= f) := by
  refine ⟨bind_ne_diverges hx fun a _ => (hf a).1, fun b q hb => ?_⟩
  obtain ⟨a, -, hfa⟩ := exists_of_bind hb
  exact (hf a).2 b q hfa

theorem readCtrlWord_ends (pos : Nat) : Ends file pos 8 (readCtrlWord file pos) := by
  rw [readCtrlWord]
  split
  · exact ends_pure _ (Nat.le_refl _) ‹_›
  · exact ends_generic pos 8 _

/-- Every round of the loop of `ReadRecord` reads a control word, so it ends within the file. -/
theorem readRecordLoop_ends {rounds pos : Nat} (record : List (BitVec 8)) (w : DsCtrlWord)
    (hpos : pos ≤ file.length) (hrounds : file.length < pos + 8 * rounds) :
    Ends file pos 0 (readRecordLoop file rounds record w pos) := by
  induction rounds generalizing record w pos with
  | zero => omega
  | succ rounds ih =>
    refine ends_bind (checkType_ne_diverges _) fun _ => ?_
    refine ends_bind (readData_ne_diverges _ _) fun bytes => ?_
    refine (readCtrlWord_ends _).bind fun x p hp hlen => ?_
    dsimp only
    split
    · exact (ih _ x hlen (by omega)).mono (by omega)
    · exact ends_bind (dsAssert_ne_diverges _) fun _ => ends_pure _ (by omega) (by omega)

theorem readRecord_ends (pos : Nat) : Ends file pos 8 (readRecord file pos) := by
  refine (readCtrlWord_ends pos).bind fun w p hp hlen => ?_
  exact (readRecordLoop_ends [] w hlen (by omega)).mono hp

theorem isAt_ends (aBefore aType : CtrlWordType) (pos : Nat) :
    Ends file pos 0 (isAt aBefore aType file pos) := by
  refine (readCtrlWord_ends pos).bind fun w p hp hlen => ?_
  dsimp only
  split
  · refine (readCtrlWord_ends p).bind fun x q hq hlen' => ?_
    dsimp only
    split <;> exact ends_pure _ (by omega) (by omega)
  · exact ends_pure _ (by omega) (by omega)

/-- Every round of the loop over the records reads a control word. -/
theorem extractFile_ends {rounds pos : Nat} (hpos : pos ≤ file.length)
    (hrounds : file.length < pos + 8 * rounds) : Ends file pos 8 (extractFile file rounds pos) := by
  induction rounds generalizing pos with
  | zero => omega
  | succ rounds ih =>
    refine (readRecord_ends pos).bind fun r p hp hlen => ?_
    refine (isAt_ends .EOR .EOF p).bind fun eof q hq hlen' => ?_
    dsimp only
    split
    · exact ends_pure _ (by omega) hlen'
    · refine (ih hlen' (by omega)).bind fun rs z hz hlen'' => ?_
      exact ends_pure _ (by omega) hlen''

theorem extractFiles_terminates {rounds pos : Nat} (hpos : pos ≤ file.length)
    (hrounds : file.length < pos + 8 * rounds) :
    extractFiles file rounds pos ≠ .error .diverges := by
  induction rounds generalizing pos with
  | zero => omega
  | succ rounds ih =>
    have hfile : Ends file pos 8 (extractFile file (file.length + 1) pos) :=
      extractFile_ends hpos (by omega)
    refine bind_ne_diverges hfile.1 fun ⟨f, p⟩ hf => ?_
    obtain ⟨hp, hlen⟩ := hfile.2 f p hf
    have heod : Ends file p 0 (isEod file p) := isAt_ends .EOF .EOD p
    refine bind_ne_diverges heod.1 fun ⟨eod, q⟩ hq => ?_
    obtain ⟨hq, hlen'⟩ := heod.2 eod q hq
    dsimp only
    split
    · exact nofun
    · exact bind_ne_diverges (ih hlen' (by omega)) fun _ _ => nofun

/-- **The bound on the rounds is never reached**, whatever the file holds. -/
theorem extract_terminates (aFile : List (BitVec 8)) : extract aFile ≠ .error .diverges :=
  extractFiles_terminates (Nat.zero_le _) (by omega)

end termination

end DataSet

end CraySim
