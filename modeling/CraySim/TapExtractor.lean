/-
  Subject:   Extracting the files of a tape image.

  `tap_extractor.cpp`. The records of a file go into a file of the host, one behind the other. Two
  bytes are left off every record of a length of two more than a power of two, and every record
  behind the first one if the parity of the first one is even in all bits.

  * `readRecord`, `TapExtractor` -- `ReadRecord`, and the streams of `main`,
  * `extractRecords_file` -- the loop over the records of a file,
  * `extracted_eq_iff` -- when a file of the host has all the bytes of its records,
  * `extract_files` -- what is written for a tape image.

  The loops end with the image; here they are given a number of rounds. The records of a file are
  counted without a bound. What is printed is left out, but for the number of marks in a row.
-/
import CraySim.TapEdit

namespace CraySim

open ByteFile

/-- How the tool ends that does not reach the end of the image. -/
inductive ExtractorExn where
  /-- `Generic_x`. -/
  | generic (aText : String)
  /-- `std::length_error`: a vector is to have fewer than no elements. -/
  | length
  /-- A variable without a value is looked at. -/
  | undefinedBehaviour
  /-- No exception of the source: the rounds were not enough. -/
  | outOfRounds
  deriving DecidableEq, Repr

namespace TapExtractor

/-! ## 1. `ReadRecord` -/

def isPowerOf2 (aVal : CAddr) : Bool :=
  if aVal = 0 then false else aVal &&& (aVal - 1) = 0

/-- An operation on the image. -/
def onImage {α : Type} (f : FileStream → α × FileStream) : Run ExtractorExn FileStream α := fun s =>
  (.ok (f s).1, (f s).2)

/-- A word of four bytes; where the read fails the variable has no value. -/
def readWord : Run ExtractorExn FileStream CAddr := do
  let bytes ← onImage (FileStream.read 4)
  if (← Run.get).good then return BitVec.ofNat 32 (valueLE bytes)
  else Run.throw .undefinedBehaviour

/-- `RecordSize`, if the image does not end before it. -/
def readSize : Run ExtractorExn FileStream (Option CAddr) := do
  if (← Run.get).eofbit then return none
  else
    let bytes ← onImage (FileStream.read 4)
    let s ← Run.get
    if s.eofbit then return none
    else if s.good then return some (BitVec.ofNat 32 (valueLE bytes))
    else Run.throw .undefinedBehaviour

/-- `aData.resize`. -/
def resize (n : Nat) (aData : List (BitVec 8)) : List (BitVec 8) :=
  aData.take n ++ List.replicate (n - aData.length) 0

/-- What is returned, and what is left in the reference parameters. -/
structure Record where
  recordSize : CAddr
  aData : List (BitVec 8)
  aHasChecksum : Bool
  deriving DecidableEq, Repr

/-- The look at the record behind one whose length is not the expected one. -/
def correctRecord (aCorrectRecordSize : Bool) (aExpectedRecordSize : Nat) (r : Record) :
    Run ExtractorExn FileStream Record := do
  let nextRecordSize ← readWord
  onImage fun s => ((), FileStream.seekBy (-4) s)
  if nextRecordSize ≠ 0 && aCorrectRecordSize then
    return { r with aData := resize aExpectedRecordSize r.aData }
  else return r

/-- The data of a record, and the length behind it. -/
def readData (aCorrectRecordSize : Bool) (aExpectedRecordSize : Nat) (aHasChecksum : Bool)
    (aRecordIdx : Nat) (recordSize : CAddr) : Run ExtractorExn FileStream Record := do
  let likelyHasChecksum := isPowerOf2 (recordSize - 2)
  let likelyCorruptedRecord := 0 < aRecordIdx &&
    if likelyHasChecksum || aHasChecksum then (recordSize - 2).toNat ≠ aExpectedRecordSize
    else recordSize.toNat ≠ aExpectedRecordSize
  let got ← onImage (FileStream.read recordSize.toNat)
  let aData := resize recordSize.toNat got
  let lrc := aData.foldl (· ^^^ ·) 0
  if (likelyHasChecksum || aHasChecksum) && aData.length < 2 then Run.throw .length
  else
    -- the checksum of the first record is looked at after it has been decided whether it has one
    let aData' := if likelyHasChecksum || aHasChecksum then resize (aData.length - 2) aData else aData
    let r : Record := ⟨recordSize, aData', aHasChecksum || lrc = 0 && aRecordIdx = 0⟩
    let endRecordSize ← readWord
    if endRecordSize ≠ recordSize then Run.throw (.generic "Record size mismatch at end")
    else if likelyCorruptedRecord then correctRecord aCorrectRecordSize aExpectedRecordSize r
    else return r

def readRecord (aCorrectRecordSize : Bool) (aExpectedRecordSize : Nat) (aHasChecksum : Bool)
    (aRecordIdx : Nat) : Run ExtractorExn FileStream Record := do
  match ← readSize with
  | none => return ⟨0, [], aHasChecksum⟩
  | some recordSize =>
    if 0x00100000 < recordSize.toNat then
      Run.throw (.generic "Record size is suspicicously large. Aborting...")
    else if recordSize = 0 then return ⟨0, [], aHasChecksum⟩
    else readData aCorrectRecordSize aExpectedRecordSize aHasChecksum aRecordIdx recordSize

end TapExtractor

/-! ## 2. `main` -/

/-- The image, the files of the host by the number in their names, the last one first, and
    `EOTCount`. -/
structure TapExtractor where
  inStrm : FileStream
  outputs : List (Nat × List (BitVec 8))
  eotCount : Nat
  deriving DecidableEq, Repr

abbrev Extractor := Run ExtractorExn TapExtractor

namespace TapExtractor

def onInStrm {α : Type} (m : Run ExtractorExn FileStream α) : Extractor α := fun s =>
  ((m s.inStrm).1, { s with inStrm := (m s.inStrm).2 })

/-- `OutStrm.open`. -/
def openOutput (fileIdx : Nat) : Extractor Unit :=
  Run.modify fun s => { s with outputs := (fileIdx, []) :: s.outputs }

/-- `OutStrm.write`. -/
def writeOutput (record : List (BitVec 8)) : Extractor Unit :=
  Run.modify fun s => { s with
    outputs := match s.outputs with
      | [] => []
      | (fileIdx, bytes) :: outputs => (fileIdx, bytes ++ record) :: outputs }

/-- The records of a file up to its mark, and how many there are. -/
def extractRecords (correctRecordSize : Bool) (fileIdx : Nat) :
    Nat → Nat → Nat → Bool → Extractor Nat
  | 0, _, _, _ => Run.throw .outOfRounds
  | rounds + 1, recordIdx, expectedRecordSize, hasChecksum => do
    let r ← onInStrm (readRecord correctRecordSize expectedRecordSize hasChecksum recordIdx)
    if r.recordSize = 0 then return recordIdx
    else
      let expectedRecordSize := if expectedRecordSize = 0 then r.aData.length else expectedRecordSize
      if recordIdx = 0 then openOutput fileIdx
      writeOutput r.aData
      extractRecords correctRecordSize fileIdx rounds (recordIdx + 1) expectedRecordSize r.aHasChecksum

/-- The files of the image. -/
def extractFiles (correctRecordSize : Bool) : Nat → Nat → Extractor Unit
  | 0, _ => Run.throw .outOfRounds
  | rounds + 1, fileIdx => do
    if (← Run.get).inStrm.eofbit then pure ()
    else
      let recordIdx ← extractRecords correctRecordSize fileIdx rounds 0 0 false
      if recordIdx = 0 ∧ (← Run.get).inStrm.eofbit = false then
        Run.modify fun s => { s with eotCount := s.eotCount + 1 }
      extractFiles correctRecordSize rounds (if 0 < recordIdx then fileIdx + 1 else fileIdx)

/-- The tool on an image. -/
def extract (rounds : Nat) (correctRecordSize : Bool) (image : List (BitVec 8)) :
    Except ExtractorExn Unit × TapExtractor :=
  extractFiles correctRecordSize rounds 1 ⟨.ready image 0, [], 0⟩

end TapExtractor

open Framed Tape TapFile

namespace TapExtractor

/-! ## 3. What is written for a file -/

/-- The longitudinal parity of bytes. -/
def parity (r : List (BitVec 8)) : BitVec 8 := r.foldl (· ^^^ ·) 0

/-- A record as it is written; `marked` is what the first record of its file has said. -/
def stripped (marked : Bool) (r : List (BitVec 8)) : List (BitVec 8) :=
  if (r.length - 2).isPowerOfTwo ∨ marked = true then r.take (r.length - 2) else r

/-- The bytes that are written for a file. -/
def extracted : TapeFile → List (BitVec 8)
  | [] => []
  | r :: recs => stripped false r ++ recs.flatMap (stripped (parity r = 0))

/-- The files of the host, with the numbers in their names. -/
def outputsFrom (fileIdx : Nat) (files : List TapeFile) : List (Nat × List (BitVec 8)) :=
  ((Editor.kept files).zipIdx fileIdx).map fun x => (x.2, extracted x.1)

/-- `IsPowerOf2` of what is left of a length without a checksum. -/
theorem isPowerOf2_size {n : Nat} (hpos : 0 < n) (hn : n ≤ 2 ^ 20) :
    isPowerOf2 (BitVec.ofNat 32 n - 2) = true ↔ (n - 2).isPowerOfTwo := by
  by_cases hone : n = 1
  · subst hone
    decide
  · have hval : (BitVec.ofNat 32 n - 2).toNat = n - 2 := by
      rw [BitVec.toNat_sub, BitVec.toNat_ofNat, show (2 : CAddr).toNat = 2 from rfl]
      omega
    rw [isPowerOf2]
    generalize BitVec.ofNat 32 n - 2 = v at hval
    rw [← hval]
    by_cases hzero : v = 0
    · subst hzero
      simp [Nat.not_isPowerOfTwo_zero]
    · have hne : v.toNat ≠ 0 := fun h => hzero (BitVec.eq_of_toNat_eq h)
      have hpred : (v - 1).toNat = v.toNat - 1 := by
        rw [BitVec.toNat_sub, show (1 : CAddr).toNat = 1 from rfl]
        omega
      rw [if_neg hzero, decide_eq_true_iff, ← BitVec.toNat_inj, BitVec.toNat_and, hpred,
        ← Nat.and_sub_one_eq_zero_iff_isPowerOfTwo hne]
      rfl

/-! ## 4. `ReadRecord` -/

section reading
variable {img : List (BitVec 8)} {p : Nat} {n : CAddr}

theorem onImage_apply {α : Type} (f : FileStream → α × FileStream) (s : FileStream) :
    onImage f s = (.ok (f s).1, (f s).2) := rfl

theorem valueLE_lengthBytes (n : CAddr) : BitVec.ofNat 32 (valueLE (lengthBytes n)) = n := by
  have hn : n.toNat < 256 ^ 4 := n.isLt
  rw [lengthBytes, valueLE_bytesLE, Nat.mod_eq_of_lt hn, BitVec.ofNat_toNat, BitVec.setWidth_eq]

/-- A length that stands in front of the position. -/
theorem readWord_stands (h : Stands img p (lengthBytes n)) :
    readWord (.ready img p) = (.ok n, .ready img (p + 4)) := by
  have hread := FileStream.read_stands h (length_lengthBytes n)
  simp [readWord, Run.bind_apply, onImage_apply, hread, Run.get_apply, valueLE_lengthBytes,
    Run.pure_apply]

theorem readSize_stands (h : Stands img p (lengthBytes n)) :
    readSize (.ready img p) = (.ok (some n), .ready img (p + 4)) := by
  have hread := FileStream.read_stands h (length_lengthBytes n)
  simp [readSize, Run.bind_apply, onImage_apply, hread, Run.get_apply, valueLE_lengthBytes,
    Run.pure_apply]

theorem readSize_end : readSize (.ready img img.length) = (.ok none, .ended img) := by
  have hread : FileStream.read 4 (.ready img img.length) = ([], .ended img) :=
    FileStream.read_end (by decide)
  simp [readSize, Run.bind_apply, onImage_apply, hread, Run.get_apply, Run.pure_apply]

variable {correct marked : Bool} {expected idx : Nat} {r : List (BitVec 8)}

theorem readRecord_mark (h : Stands img p (itemBytes .mark)) :
    readRecord correct expected marked idx (.ready img p) =
      (.ok ⟨0, [], marked⟩, .ready img (p + 4)) := by
  rw [readRecord, Run.bind_apply_ok (readSize_stands h)]
  rfl

theorem readRecord_end :
    readRecord correct expected marked idx (.ready img img.length) =
      (.ok ⟨0, [], marked⟩, .ended img) := by
  rw [readRecord, Run.bind_apply_ok readSize_end]
  rfl

theorem resize_self (r : List (BitVec 8)) : resize r.length r = r := by
  rw [resize, List.take_length, Nat.sub_self, List.replicate_zero, List.append_nil]

theorem resize_less {k : Nat} (hk : k ≤ r.length) : resize k r = r.take k := by
  rw [resize, Nat.sub_eq_zero_of_le hk, List.replicate_zero, List.append_nil]

/-- The look at the next length changes nothing if lengths are not to be corrected. -/
theorem correctRecord_looks (h : Stands img p (lengthBytes n)) (e : Record) :
    correctRecord false expected e (.ready img p) = (.ok e, .ready img p) := by
  have hback : FileStream.seekBy (-4) (.ready img (p + 4)) = .ready img p := seekBy_back 4
  simp [correctRecord, Run.bind_apply, readWord_stands h, onImage_apply, hback, Run.pure_apply]

/-- The data of a record, with the length behind it and the one of the next item. -/
theorem readData_record (h : Stands img p (r ++ (lengthBytes (itemSize (.record r)) ++ lengthBytes n)))
    (hpos : 0 < r.length) (hlen : r.length ≤ 2 ^ 20) (hstub : marked = true → 2 ≤ r.length) :
    readData false expected marked idx (itemSize (.record r)) (.ready img p) =
      (.ok ⟨itemSize (.record r), stripped marked r, marked || parity r = 0 && idx = 0⟩,
        .ready img (p + r.length + 4)) := by
  have hsize : (itemSize (.record r)).toNat = r.length :=
    toNat_itemSize (x := .record r) ⟨hpos, by omega⟩
  have hdata : FileStream.read r.length (.ready img p) = (r, .ready img (p + r.length)) :=
    FileStream.read_stands h.left rfl
  have hnext : Stands img (p + r.length + 4) (lengthBytes n) := by
    have hbehind := h.right.right
    rwa [length_lengthBytes] at hbehind
  have htest : isPowerOf2 (itemSize (.record r) - 2) = true ↔ (r.length - 2).isPowerOfTwo :=
    isPowerOf2_size hpos hlen
  have hlong : (isPowerOf2 (itemSize (.record r) - 2) || marked) = true → 2 ≤ r.length := by
    intro hcheck
    rcases Bool.or_eq_true _ _ ▸ hcheck with hpow | hmarked
    · obtain ⟨k, hk⟩ := htest.1 hpow
      have htwo := Nat.two_pow_pos k
      omega
    · exact hstub hmarked
  have hstripped : (if (isPowerOf2 (itemSize (.record r) - 2) || marked) = true
      then resize (r.length - 2) r else r) = stripped marked r := by
    simp only [stripped, resize_less (Nat.sub_le _ _), Bool.or_eq_true, htest]
  have hnot : ¬ ((isPowerOf2 (itemSize (.record r) - 2) || marked) && decide (r.length < 2)) = true := by
    intro hboth
    rw [Bool.and_eq_true, decide_eq_true_iff] at hboth
    exact absurd (hlong hboth.1) (Nat.not_le.mpr hboth.2)
  have hlook : ∀ (c : Bool) (e : Record),
      (if c = true then correctRecord false expected e else pure e) (.ready img (p + r.length + 4)) =
        (.ok e, .ready img (p + r.length + 4)) := by
    intro c e
    cases c with
    | true => exact correctRecord_looks hnext e
    | false => rfl
  rw [readData, Run.bind_apply_ok (onImage_apply ..), hsize, hdata]
  dsimp only
  rw [resize_self, if_neg hnot, Run.bind_apply_ok (readWord_stands h.right.left), hstripped,
    if_neg (fun hne => hne rfl)]
  exact hlook _ _

/-- **In front of a record** that something follows. -/
theorem readRecord_record (h : Stands img p (itemBytes (.record r) ++ lengthBytes n))
    (hpos : 0 < r.length) (hlen : r.length ≤ 2 ^ 20) (hstub : marked = true → 2 ≤ r.length) :
    readRecord false expected marked idx (.ready img p) =
      (.ok ⟨itemSize (.record r), stripped marked r, marked || parity r = 0 && idx = 0⟩,
        .ready img (p + (itemBytes (.record r)).length)) := by
  have hfits : ItemFits (.record r) := ⟨hpos, by omega⟩
  have hsize : (itemSize (.record r)).toNat = r.length := toNat_itemSize hfits
  have hbehind : Stands img (p + 4) (r ++ (lengthBytes (itemSize (.record r)) ++ lengthBytes n)) := by
    rw [itemBytes, List.append_assoc, List.append_assoc] at h
    have hdata := h.right
    rwa [length_lengthBytes] at hdata
  rw [readRecord, Run.bind_apply_ok (readSize_stands (stands_size h.left)), length_itemBytes_record,
    show p + (4 + r.length + 4) = p + 4 + r.length + 4 by omega]
  dsimp only
  rw [if_neg (by omega),
    if_neg (show itemSize (.record r) ≠ 0 from itemSize_ne_zero hfits)]
  exact readData_record hbehind hpos hlen hstub

end reading

/-! ## 5. The loops -/

section loops
variable {img : List (BitVec 8)} {p i c : Nat} {outs : List (Nat × List (BitVec 8))}
  {recs : TapeFile} {files : List TapeFile}

/-- The records that the tool takes, behind a first record that has said `marked`. -/
def Taken (marked : Bool) (recs : TapeFile) : Prop :=
  ∀ r ∈ recs, (0 < r.length ∧ r.length ≤ 2 ^ 20) ∧ (marked = true → 2 ≤ r.length)

/-- The files that the tool takes: no record of one byte is behind a first record with an even
    parity. -/
def FileTaken : TapeFile → Prop
  | [] => True
  | r :: recs => (0 < r.length ∧ r.length ≤ 2 ^ 20) ∧ Taken (parity r = 0) recs

theorem onInStrm_ok {α : Type} {m : Run ExtractorExn FileStream α} {a : α} {s s' : FileStream}
    (hm : m s = (.ok a, s')) :
    onInStrm m ⟨s, outs, c⟩ = (.ok a, ⟨s', outs, c⟩) := by
  simp only [onInStrm, hm]

theorem image_fileItems (recs : TapeFile) :
    ∃ n rest, image itemBytes (fileItems recs) = lengthBytes n ++ rest := by
  cases recs with
  | nil => exact ⟨0, [], rfl⟩
  | cons r recs =>
    exact ⟨itemSize (.record r), r ++ lengthBytes (itemSize (.record r)) ++
      image itemBytes (fileItems recs), List.append_assoc ..⟩

/-- A record of a file, and the length of the item behind it. -/
theorem stands_record {r : List (BitVec 8)}
    (h : Stands img p (image itemBytes (fileItems (r :: recs)))) :
    ∃ n, Stands img p (itemBytes (.record r) ++ lengthBytes n) ∧
      Stands img (p + (itemBytes (.record r)).length) (image itemBytes (fileItems recs)) := by
  have hsplit : image itemBytes (fileItems (r :: recs)) =
      itemBytes (.record r) ++ image itemBytes (fileItems recs) := rfl
  obtain ⟨n, rest, hnext⟩ := image_fileItems recs
  rw [hsplit] at h
  refine ⟨n, ?_, h.right⟩
  rw [hnext, ← List.append_assoc] at h
  exact h.left

theorem itemSize_taken {r : List (BitVec 8)} (h : 0 < r.length ∧ r.length ≤ 2 ^ 20) :
    itemSize (.record r) ≠ 0 :=
  itemSize_ne_zero ⟨h.1, by omega⟩

theorem length_image_fileItems (r : List (BitVec 8)) (recs : TapeFile) :
    (itemBytes (.record r)).length + (image itemBytes (fileItems recs)).length =
      (image itemBytes (fileItems (r :: recs))).length := by
  rw [← List.length_append]
  rfl

theorem openOutput_apply (s : FileStream) (outs : List (Nat × List (BitVec 8))) (i c : Nat) :
    openOutput i ⟨s, outs, c⟩ = (.ok (), ⟨s, (i, []) :: outs, c⟩) := rfl

theorem writeOutput_apply (s : FileStream) (outs : List (Nat × List (BitVec 8))) (i c : Nat)
    (bytes record : List (BitVec 8)) :
    writeOutput record ⟨s, (i, bytes) :: outs, c⟩ =
      (.ok (), ⟨s, (i, bytes ++ record) :: outs, c⟩) := rfl

theorem extractRecords_rest {marked : Bool} {rounds idx expected : Nat} {bytes : List (BitVec 8)}
    (hidx : 0 < idx) (htaken : Taken marked recs) (hrounds : recs.length < rounds)
    (h : Stands img p (image itemBytes (fileItems recs))) :
    extractRecords false i rounds idx expected marked ⟨.ready img p, (i, bytes) :: outs, c⟩ =
      (.ok (idx + recs.length), ⟨.ready img (p + (image itemBytes (fileItems recs)).length),
        (i, bytes ++ recs.flatMap (stripped marked)) :: outs, c⟩) := by
  induction recs generalizing p rounds idx expected bytes with
  | nil =>
    obtain ⟨rounds, rfl⟩ := Nat.exists_eq_add_one.mpr hrounds
    have hmark : Stands img p (itemBytes .mark) := by
      rwa [show image itemBytes (fileItems []) = itemBytes .mark from List.append_nil _] at h
    rw [extractRecords, Run.bind_apply_ok (onInStrm_ok (readRecord_mark hmark)),
      List.flatMap_nil, List.append_nil]
    rfl
  | cons r recs ih =>
    obtain ⟨rounds, rfl⟩ := Nat.exists_eq_add_one.mpr (Nat.zero_lt_of_lt hrounds)
    obtain ⟨n, hitem, hrest⟩ := stands_record h
    obtain ⟨hr, hstub⟩ := htaken r List.mem_cons_self
    have hkeeps : (marked || parity r = 0 && idx = 0) = marked := by
      rw [decide_eq_false (Nat.ne_of_gt hidx), Bool.and_false, Bool.or_false]
    have hread : readRecord false expected marked idx (.ready img p) = _ :=
      readRecord_record hitem hr.1 hr.2 hstub
    rw [hkeeps] at hread
    rw [extractRecords, Run.bind_apply_ok (onInStrm_ok hread)]
    dsimp only
    rw [if_neg (itemSize_taken hr), if_neg (Nat.ne_of_gt hidx)]
    rw [Run.bind_apply_ok (writeOutput_apply ..), ih (Nat.succ_pos idx)
      (fun x hx => htaken x (List.mem_cons_of_mem r hx)) (Nat.lt_of_succ_lt_succ hrounds) hrest,
      List.flatMap_cons, List.append_assoc, List.length_cons, Nat.add_assoc p, length_image_fileItems,
      Nat.succ_add_eq_add_succ]

/-- **The records of a file**: if there is one, they make the next file of the host. -/
theorem extractRecords_file {rounds : Nat} (htaken : FileTaken recs) (hrounds : recs.length < rounds)
    (h : Stands img p (image itemBytes (fileItems recs))) :
    extractRecords false i rounds 0 0 false ⟨.ready img p, outs, c⟩ =
      (.ok recs.length, ⟨.ready img (p + (image itemBytes (fileItems recs)).length),
        if recs = [] then outs else (i, extracted recs) :: outs, c⟩) := by
  obtain ⟨rounds, rfl⟩ := Nat.exists_eq_add_one.mpr (Nat.zero_lt_of_lt hrounds)
  cases recs with
  | nil =>
    have hmark : Stands img p (itemBytes .mark) := by
      rwa [show image itemBytes (fileItems []) = itemBytes .mark from List.append_nil _] at h
    rw [extractRecords, Run.bind_apply_ok (onInStrm_ok (readRecord_mark hmark))]
    rfl
  | cons r recs =>
    obtain ⟨n, hitem, hrest⟩ := stands_record h
    obtain ⟨hr, hothers⟩ := htaken
    have hread : readRecord false 0 false 0 (.ready img p) = _ :=
      readRecord_record hitem hr.1 hr.2 nofun
    rw [Bool.false_or, decide_eq_true rfl, Bool.and_true] at hread
    rw [extractRecords, Run.bind_apply_ok (onInStrm_ok hread)]
    dsimp only
    rw [if_neg (itemSize_taken hr), if_pos rfl, if_pos rfl, Run.bind_apply_ok (openOutput_apply ..),
      Run.bind_apply_ok (writeOutput_apply ..),
      extractRecords_rest Nat.one_pos hothers (Nat.lt_of_succ_lt_succ hrounds) hrest,
      if_neg (List.cons_ne_nil r recs), List.length_cons, Nat.add_comm 1, Nat.add_assoc,
      length_image_fileItems]
    rfl

theorem outputsFrom_nil (i : Nat) (files : List TapeFile) :
    outputsFrom i ([] :: files) = outputsFrom i files := rfl

theorem outputsFrom_cons (i : Nat) (r : List (BitVec 8)) (recs : TapeFile) (files : List TapeFile) :
    outputsFrom i ((r :: recs) :: files) =
      (i, extracted (r :: recs)) :: outputsFrom (i + 1) files := rfl

/-- A round of the loop over the files, in front of a file. -/
theorem extractFiles_round {rounds : Nat} (htaken : FileTaken recs) (hrounds : recs.length < rounds)
    (h : Stands img p (image itemBytes (fileItems recs))) :
    extractFiles false (rounds + 1) i ⟨.ready img p, outs, c⟩ =
      extractFiles false rounds (if recs = [] then i else i + 1)
        ⟨.ready img (p + (image itemBytes (fileItems recs)).length),
          if recs = [] then outs else (i, extracted recs) :: outs, if recs = [] then c + 1 else c⟩ := by
  have hfile : extractRecords false i rounds 0 0 false ⟨.ready img p, outs, c⟩ = _ :=
    extractRecords_file htaken hrounds h
  rw [extractFiles, Run.bind_apply_ok (Run.get_apply _)]
  dsimp only
  rw [FileStream.eofbit_ready, if_neg Bool.false_ne_true, Run.bind_apply_ok hfile]
  cases recs with
  | nil => rfl
  | cons r recs => rfl

/-- **The files**, up to the end of the image. -/
theorem extractFiles_files {rounds : Nat} (htaken : ∀ recs ∈ files, FileTaken recs)
    (hrounds : (ofFiles files).length + 1 < rounds)
    (h : Stands img p (image itemBytes (ofFiles files)))
    (hend : p + (image itemBytes (ofFiles files)).length = img.length) :
    extractFiles false rounds i ⟨.ready img p, outs, c⟩ =
      (.ok (), ⟨.ended img, (outputsFrom i files).reverse ++ outs, c + files.countP List.isEmpty⟩) := by
  induction files generalizing p rounds i outs c with
  | nil =>
    obtain ⟨k, rfl⟩ : ∃ k, rounds = k + 2 := ⟨rounds - 2, (Nat.sub_add_cancel hrounds).symm⟩
    have hp : p = img.length := hend
    have hread : extractRecords false i (k + 1) 0 0 false ⟨.ready img p, outs, c⟩ =
        (.ok 0, ⟨.ended img, outs, c⟩) := by
      rw [hp, extractRecords, Run.bind_apply_ok (onInStrm_ok readRecord_end)]
      rfl
    rw [extractFiles, Run.bind_apply_ok (Run.get_apply _)]
    dsimp only
    rw [FileStream.eofbit_ready, if_neg Bool.false_ne_true, Run.bind_apply_ok hread]
    rfl
  | cons recs files ih =>
    obtain ⟨rounds, rfl⟩ := Nat.exists_eq_add_one.mpr (Nat.zero_lt_of_lt hrounds)
    obtain ⟨hrecs, hfiles⟩ := Editor.rounds_tail hrounds
    rw [ofFiles_cons, image_append] at h hend
    rw [List.length_append, ← Nat.add_assoc] at hend
    rw [extractFiles_round (htaken recs List.mem_cons_self) hrecs h.left,
      ih (fun x hx => htaken x (List.mem_cons_of_mem recs hx)) hfiles h.right hend]
    cases recs with
    | nil =>
      rw [if_pos rfl, if_pos rfl, if_pos rfl, outputsFrom_nil, List.countP_cons_of_pos rfl,
        Nat.add_assoc, Nat.add_comm 1]
    | cons r recs =>
      rw [if_neg (List.cons_ne_nil r recs), if_neg (List.cons_ne_nil r recs),
        if_neg (List.cons_ne_nil r recs), outputsFrom_cons, List.reverse_cons, List.append_assoc,
        List.countP_cons_of_neg (by simp)]
      rfl

/-! ## 6. The tool -/

/-- No record of the file loses anything. -/
def Whole : TapeFile → Prop
  | [] => True
  | r :: recs => ¬ (r.length - 2).isPowerOfTwo ∧
      ∀ x ∈ recs, ¬ (x.length - 2).isPowerOfTwo ∧ parity r ≠ 0

theorem stripped_eq_iff {marked : Bool} {r : List (BitVec 8)} (hpos : 0 < r.length) :
    stripped marked r = r ↔ ¬ ((r.length - 2).isPowerOfTwo ∨ marked = true) := by
  rw [stripped]
  split
  · rename_i hcheck
    refine iff_of_false (fun heq => ?_) (not_not_intro hcheck)
    have hlen := congrArg List.length heq
    rw [List.length_take] at hlen
    omega
  · rename_i hcheck
    exact iff_of_true rfl hcheck

theorem length_stripped_le (marked : Bool) (r : List (BitVec 8)) :
    (stripped marked r).length ≤ r.length := by
  rw [stripped]
  split
  · exact List.length_take_le' _ _
  · exact Nat.le_refl _

theorem length_flatMap_stripped_le (marked : Bool) (recs : TapeFile) :
    (recs.flatMap (stripped marked)).length ≤ recs.flatten.length := by
  induction recs with
  | nil => exact Nat.le_refl _
  | cons r recs ih =>
    have hr := length_stripped_le marked r
    rw [List.flatMap_cons, List.flatten_cons, List.length_append, List.length_append]
    omega

/-- Parts that are not longer make the same whole only if they are the same. -/
theorem append_eq_iff {as as' bs bs' : List (BitVec 8)} (ha : as.length ≤ as'.length)
    (hb : bs.length ≤ bs'.length) : as ++ bs = as' ++ bs' ↔ as = as' ∧ bs = bs' := by
  constructor
  · intro heq
    have hlen := congrArg List.length heq
    rw [List.length_append, List.length_append] at hlen
    exact List.append_inj heq (by omega)
  · intro ⟨hfirst, hsecond⟩
    rw [hfirst, hsecond]

theorem flatMap_stripped_iff (marked : Bool) (recs : TapeFile) :
    recs.flatMap (stripped marked) = recs.flatten ↔ ∀ x ∈ recs, stripped marked x = x := by
  induction recs with
  | nil => simp
  | cons r recs ih =>
    rw [List.flatMap_cons, List.flatten_cons, append_eq_iff (length_stripped_le marked r)
      (length_flatMap_stripped_le marked recs), ih, List.forall_mem_cons]

/-- The bytes of a file are those of its records exactly if no record loses anything. -/
theorem extracted_eq_iff (htaken : FileTaken recs) : extracted recs = recs.flatten ↔ Whole recs := by
  cases recs with
  | nil => exact iff_of_true rfl trivial
  | cons r recs =>
    obtain ⟨hr, hothers⟩ := htaken
    rw [extracted, List.flatten_cons, append_eq_iff (length_stripped_le false r)
      (length_flatMap_stripped_le _ recs), flatMap_stripped_iff, stripped_eq_iff hr.1, Whole]
    refine and_congr (by simp) (forall₂_congr fun x hx => ?_)
    rw [stripped_eq_iff (hothers x hx).1.1, not_or, decide_eq_true_iff]

/-- The records that the tool takes fit in an image. -/
theorem itemFits_of_taken (htaken : ∀ recs ∈ files, FileTaken recs) :
    ∀ x ∈ ofFiles files, ItemFits x := by
  intro x hx
  obtain ⟨recs, hrecs, hitem⟩ := List.mem_flatMap.1 hx
  rcases List.mem_append.1 hitem with hrecord | hmark
  · obtain ⟨r, hr, rfl⟩ := List.mem_map.1 hrecord
    have hsize : 0 < r.length ∧ r.length ≤ 2 ^ 20 := by
      have hfile := htaken recs hrecs
      cases recs with
      | nil => cases hr
      | cons r₁ recs =>
        rcases List.mem_cons.1 hr with rfl | hr
        · exact hfile.1
        · exact (hfile.2 r hr).1
    exact ⟨hsize.1, by omega⟩
  · rw [List.mem_singleton.1 hmark]
    trivial

/-- The image that the items of the files make on a new tape. -/
theorem writeItems_files {disk : Option (List (BitVec 8))} (hfresh : disk = none ∨ disk = some [])
    (aMemory : Bool) (hfiles : files ≠ [] ∨ disk = some []) (hfits : ∀ x ∈ ofFiles files, ItemFits x) :
    ∃ s, writeItems (ofFiles files) (ofDisk disk aMemory) = (.ok (), s) ∧
      s.stream.disk = some (image itemBytes (ofFiles files)) := by
  have hstored : (ofFiles files).map stored = ofFiles files :=
    (List.map_congr_left fun x hx => Editor.stored_eq (hfits x hx)).trans (List.map_id _)
  rcases writeItems_fresh hfresh aMemory fun x hx => Editor.ne_nil_of_itemFits (hfits x hx) with
    ⟨hnil, hnone⟩ | ⟨s, hwrite, hd⟩
  · rcases hfiles with hne | hdisk
    · exact absurd hnil (ofFiles_ne_nil hne)
    · rw [hnone] at hdisk
      cases hdisk
  · have hdisk := disk_eq hd
    rw [hstored, tapeImage, Head.items, List.reverse_reverse, List.append_nil] at hdisk
    exact ⟨s, hwrite, hdisk⟩

theorem extract_image (htaken : ∀ recs ∈ files, FileTaken recs) {rounds : Nat}
    (hrounds : (ofFiles files).length + 1 < rounds) :
    extract rounds false (image itemBytes (ofFiles files)) =
      (.ok (), ⟨.ended (image itemBytes (ofFiles files)), (outputsFrom 1 files).reverse,
        files.countP List.isEmpty⟩) := by
  have hall : extractFiles false rounds 1 ⟨.ready (image itemBytes (ofFiles files)) 0, [], 0⟩ = _ :=
    extractFiles_files htaken hrounds ⟨[], [], by simp⟩ (Nat.zero_add _)
  rwa [List.append_nil, Nat.zero_add] at hall

/-- **The tool on a tape image** that `TapFile_c` has written on a new tape, without the option that
    corrects lengths: for each file that has a record, in order, a file of the host with the records
    one behind the other, without the two bytes that are taken for a checksum. -/
theorem extract_files {disk : Option (List (BitVec 8))} (hfresh : disk = none ∨ disk = some [])
    (aMemory : Bool) (hfiles : files ≠ [] ∨ disk = some [])
    (htaken : ∀ recs ∈ files, FileTaken recs) :
    (∃ s img, writeItems (ofFiles files) (ofDisk disk aMemory) = (.ok (), s) ∧
      s.stream.disk = some img ∧ ∀ rounds, (ofFiles files).length + 1 < rounds →
        extract rounds false img = (.ok (), ⟨.ended img, (outputsFrom 1 files).reverse,
          files.countP List.isEmpty⟩)) ∧
      ∀ recs ∈ files, (extracted recs = recs.flatten ↔ Whole recs) := by
  refine ⟨?_, fun recs hrecs => extracted_eq_iff (htaken recs hrecs)⟩
  obtain ⟨s, hwrite, hdisk⟩ := writeItems_files hfresh aMemory hfiles (itemFits_of_taken htaken)
  exact ⟨s, _, hwrite, hdisk, fun rounds hrounds => extract_image htaken hrounds⟩

end loops

/-- Two files with records, and an empty one between them. -/
theorem extract_files_two : ∃ s img, writeItems (ofFiles [[[7], [8, 9]], [], [[1, 2, 3, 4, 5]]])
    (ofDisk none false) = (.ok (), s) ∧ s.stream.disk = some img ∧
      extract 9 false img = (.ok (), ⟨.ended img, [(2, [1, 2, 3, 4, 5]), (1, [7, 8, 9])], 1⟩) := by
  have hfresh : @none (List (BitVec 8)) = none ∨ @none (List (BitVec 8)) = some [] := .inl rfl
  have htaken : ∀ recs ∈ [[[7], [8, 9]], [], [[1, 2, 3, 4, 5]]], FileTaken recs := by
    simp [FileTaken, Taken, parity]
  obtain ⟨⟨s, img, hwrite, hdisk, hall⟩, -⟩ :=
    extract_files hfresh false (.inl (List.cons_ne_nil _ _)) htaken
  exact ⟨s, img, hwrite, hdisk, hall 9 (by decide)⟩

/-- A record of three bytes loses two. -/
theorem extract_loses : ¬ ∀ files : List TapeFile,
    (∀ recs ∈ files, ∀ r ∈ recs, 0 < r.length ∧ r.length ≤ 2 ^ 20) →
      ∀ s img, writeItems (ofFiles files) (ofDisk none false) = (.ok (), s) →
        s.stream.disk = some img → ∀ rounds, (ofFiles files).length + 1 < rounds →
          (extract rounds false img).2.outputs.reverse =
            ((Editor.kept files).zipIdx 1).map fun x => (x.2, x.1.flatten) := by
  intro hall
  have htaken : ∀ recs ∈ ([[[1, 2, 3]]] : List TapeFile), FileTaken recs := by
    simp [FileTaken, Taken]
  obtain ⟨s, hwrite, hdisk⟩ := writeItems_files (.inl rfl) false (.inl (by simp))
    (itemFits_of_taken htaken)
  have houts := hall _ (by simp) s _ hwrite hdisk 4 (by decide)
  rw [extract_image htaken (by decide)] at houts
  exact absurd houts (by decide)

end TapExtractor

end CraySim
