/-
  Subject:   A tape image as a tape of records and marks.

  The image is the bytes of the items, one behind the other; the reader's state says where among
  them the head is. Every operation of the tape then is the operation of the head.

  * `itemBytes`, `ItemFits` -- an item in the image, and which items an image can hold,
  * `Describes` -- the state of the reader describes a head,
  * `passItem_record` and others -- what the parts of the operations do, at every item.
-/
import CraySim.TapFile
import CraySim.Lib.Tape
import CraySim.Lib.Framed

namespace CraySim

open ByteFile Framed Tape

abbrev TapItem := Item (BitVec 8)

abbrev TapHead := Head (BitVec 8)

/-! ## 1. Images -/

/-- The length word of an item. -/
def itemSize (x : TapItem) : CAddr := BitVec.ofNat 32 x.length

/-- An item in the image. -/
def itemBytes : TapItem → List (BitVec 8)
  | .record data => TapFile.lengthBytes (itemSize (.record data)) ++
      (data ++ TapFile.lengthBytes (itemSize (.record data)))
  | .mark => TapFile.lengthBytes 0

/-- The items whose length words say what they are. -/
def ItemFits : TapItem → Prop
  | .record data => 0 < data.length ∧ data.length < 2 ^ 32
  | .mark => True

/-- The position between `behind` and what follows, the nearest item first. -/
def position (behind : List TapItem) : Nat := (image itemBytes behind.reverse).length

@[simp] theorem length_lengthBytes (n : CAddr) : (TapFile.lengthBytes n).length = 4 :=
  length_bytesLE 4 _

theorem length_itemBytes_record (data : List (BitVec 8)) :
    (itemBytes (.record data)).length = 4 + data.length + 4 := by
  rw [itemBytes, List.length_append, List.length_append, length_lengthBytes]
  omega

@[simp] theorem length_itemBytes_mark : (itemBytes .mark).length = 4 := length_lengthBytes 0

theorem toNat_itemSize {x : TapItem} (h : ItemFits x) : (itemSize x).toNat = x.length := by
  cases x with
  | record data => exact Nat.mod_eq_of_lt h.2
  | mark => rfl

theorem itemSize_ne_zero {data : List (BitVec 8)} (h : ItemFits (.record data)) :
    itemSize (.record data) ≠ 0#32 := by
  intro hz
  have hsize := toNat_itemSize h
  rw [hz] at hsize
  exact absurd hsize (Nat.ne_of_lt h.1)

theorem position_cons (x : TapItem) (behind : List TapItem) :
    position (x :: behind) = position behind + (itemBytes x).length := by
  rw [position, List.reverse_cons, image_append, List.length_append, image_cons, image_nil,
    List.append_nil, position]

theorem stands_front (behind : List TapItem) (x : TapItem) (front : List TapItem) :
    Stands (image itemBytes (behind.reverse ++ x :: front)) (position behind) (itemBytes x) := by
  rw [image_append, image_cons]
  exact stands_append _ _ _

theorem length_image_front (behind front : List TapItem) :
    (image itemBytes (behind.reverse ++ front)).length =
      position behind + (image itemBytes front).length := by
  rw [image_append, List.length_append, position]

/-! ## 2. The state of the reader -/

/-- The reader's state describes where the head is. Between two items the flags may say that the
    head is in front of a mark, or that it has just passed one; at the beginning of the tape the
    flag for marks is not looked at, and a new tape has not set it. -/
inductive Describes : TapFile → TapHead → Prop
  | between {s behind front}
      (stream : s.stream = .ready (image itemBytes (behind.reverse ++ front)) (position behind) ∨
        front = [] ∧ s.stream = .ended (image itemBytes behind.reverse))
      (flags : s.mCurRecordValid = false ∧
          (s.mCurRecordEof = true → behind = [] ∨ front.head? = some .mark) ∨
        s.mCurRecordValid = true ∧ s.mCurRecordEof = true ∧ s.mCurRecordLeft = 0 ∧
          s.mCurRecordStart = ((position behind : Nat) : Int) ∧ behind.head? = some .mark) :
      Describes s (.between behind front)
  | inside {s behind done todo front}
      (stream : s.stream =
        .ready (image itemBytes (behind.reverse ++ .record (done ++ todo) :: front))
          (position behind + 4 + done.length))
      (valid : s.mCurRecordValid = true) (eof : s.mCurRecordEof = false)
      (left : s.mCurRecordLeft.toNat = todo.length)
      (start : s.mCurRecordStart = ((position behind + 4 : Nat) : Int))
      (hdone : done ≠ []) (htodo : todo ≠ []) :
      Describes s (.inside behind done todo front)

namespace TapFile

/-! ## 3. Single steps -/

section steps
variable {img bs : List (BitVec 8)} {p : Nat} {dir : Direction} {left : CAddr} {start : Int}
  {valid mark : Bool}

theorem onStream_apply {α : Type} (f : FileStream → α × FileStream) (s : TapFile) :
    onStream f s = (.ok (f s.stream).1, { s with stream := (f s.stream).2 }) := rfl

theorem modifyStream_apply (f : FileStream → FileStream) (s : TapFile) :
    modifyStream f s = (.ok (), { s with stream := f s.stream }) := rfl

theorem eof_apply (s : TapFile) : eof s = (.ok s.stream.eofbit, s) := rfl

theorem setDirection_apply (d : Direction) (s : TapFile) :
    setDirection d s = (.ok (), { s with mLastCmdDirection := d }) := rfl

theorem throwIfFail_ready (aText : String) :
    throwIfFail aText ⟨.ready img p, dir, left, start, valid, mark⟩ =
      (.ok (), ⟨.ready img p, dir, left, start, valid, mark⟩) := rfl

theorem readLength_stands {n : CAddr} (h : Stands img p (lengthBytes n)) :
    readLength ⟨.ready img p, dir, left, start, valid, mark⟩ =
      (.ok n, ⟨.ready img (p + 4), dir, left, start, valid, mark⟩) := by
  have hread := FileStream.read_stands h (length_bytesLE 4 _)
  have hvalue : BitVec.ofNat 32 (valueLE (lengthBytes n)) = n := by
    have hn : n.toNat < 256 ^ 4 := n.isLt
    rw [lengthBytes, valueLE_bytesLE, Nat.mod_eq_of_lt hn, BitVec.ofNat_toNat, BitVec.setWidth_eq]
  simp only [readLength, Run.bind_apply, onStream_apply, hread, hvalue, Run.pure_apply]

theorem stands_size {x : TapItem} (h : Stands img p (itemBytes x)) :
    Stands img p (lengthBytes (itemSize x)) := by
  cases x with
  | record data => exact h.left
  | mark => exact h

theorem readHeader_item {x : TapItem} (h : Stands img p (itemBytes x)) :
    readHeader ⟨.ready img p, dir, left, start, valid, mark⟩ =
      (.ok (some (itemSize x)), ⟨.ready img (p + 4), dir, left, start, valid, mark⟩) := by
  simp [readHeader, Run.bind_apply, readLength_stands (stands_size h), eof_apply, throwIfFail_ready,
    Run.pure_apply]

theorem readHeader_end :
    readHeader ⟨.ready img img.length, dir, left, start, valid, mark⟩ =
      (.ok none, ⟨.ended img, dir, left, start, valid, mark⟩) := by
  have hread : FileStream.read 4 (.ready img img.length) = ([], .ended img) :=
    FileStream.read_end (by decide)
  simp [readHeader, readLength, Run.bind_apply, onStream_apply, hread, eof_apply, Run.pure_apply]

variable {data : List (BitVec 8)} {aMaxSize : CAddr} {aData : List (BitVec 8)}

theorem stands_trailer (h : Stands img p (itemBytes (.record data))) :
    Stands img (p + 4 + data.length) (lengthBytes (itemSize (.record data))) := by
  have hbehind := h.right
  rw [length_lengthBytes] at hbehind
  exact hbehind.right

theorem seekBy_data (hfits : ItemFits (.record data)) (img : List (BitVec 8)) :
    FileStream.seekBy (itemSize (.record data)).toNat (.ready img (p + 4)) =
      .ready img (p + 4 + data.length) := by
  refine FileStream.seekBy_ready ?_
  rw [toNat_itemSize hfits]
  rfl

/-- Over the data of a record and the length behind it. -/
theorem skipRecord_record (hfits : ItemFits (.record data))
    (h : Stands img p (itemBytes (.record data))) :
    skipRecord (itemSize (.record data)) ⟨.ready img (p + 4), dir, left, start, valid, mark⟩ =
      (.ok (), ⟨.ready img (p + 4 + data.length + 4), dir, left, start, valid, mark⟩) := by
  have htrailer := stands_trailer h
  have hskip := seekBy_data (p := p) hfits img
  simp [skipRecord, Run.bind_apply, modifyStream_apply, hskip, throwIfFail_ready,
    readLength_stands htrailer, eof_apply, Run.pure_apply]

/-- `SeekToNextRecord` in front of a record. -/
theorem passItem_record (hfits : ItemFits (.record data))
    (h : Stands img p (itemBytes (.record data))) :
    passItem ⟨.ready img p, dir, left, start, valid, mark⟩ =
      (.ok (), ⟨.ready img (p + (itemBytes (.record data)).length), dir, left, start, false,
        false⟩) := by
  rw [length_itemBytes_record, show p + (4 + data.length + 4) = p + 4 + data.length + 4 by omega]
  simp [passItem, Run.bind_apply, readHeader_item h, itemSize_ne_zero hfits,
    skipRecord_record hfits h, Run.modify_apply]

/-- `SeekToNextRecord` in front of a mark. -/
theorem passItem_mark (h : Stands img p (itemBytes .mark)) :
    passItem ⟨.ready img p, dir, left, start, valid, mark⟩ =
      (.ok (), ⟨.ready img (p + 4), dir, 0, (p + 4 : Nat), true, true⟩) := by
  have hsize : itemSize .mark = 0 := rfl
  simp [passItem, Run.bind_apply, readHeader_item h, hsize, onStream_apply, Run.modify_apply]

theorem passItem_end :
    passItem ⟨.ready img img.length, dir, left, start, valid, mark⟩ =
      (.ok (), ⟨.ended img, dir, left, start, valid, mark⟩) := by
  simp [passItem, Run.bind_apply, readHeader_end, Run.pure_apply]

/-- `Read` in front of a record. -/
theorem openItem_record (hfits : ItemFits (.record data))
    (h : Stands img p (itemBytes (.record data))) :
    openItem ⟨.ready img p, dir, left, start, valid, mark⟩ =
      (.ok true, ⟨.ready img (p + 4), dir, itemSize (.record data), (p + 4 : Nat), true, false⟩) := by
  have hne := itemSize_ne_zero hfits
  have hback : FileStream.seekTo ((p : Int) + 4) (.ready img (p + 4 + data.length + 4)) =
      .ready img (p + 4) := FileStream.seekTo_ready (p + 4)
  simp [openItem, Run.bind_apply, readHeader_item h, hne, onStream_apply, skipRecord_record hfits h,
    modifyStream_apply, hback, throwIfFail_ready, Run.modify_apply, Run.pure_apply]

/-- `Read` in front of a mark. -/
theorem openItem_mark (h : Stands img p (itemBytes .mark)) :
    openItem ⟨.ready img p, dir, left, start, valid, mark⟩ =
      (.ok false, ⟨.ready img (p + 4), dir, 0, (p + 4 : Nat), true, true⟩) := by
  have hsize : itemSize .mark = 0 := rfl
  simp [openItem, Run.bind_apply, readHeader_item h, hsize, onStream_apply, Run.modify_apply,
    Run.pure_apply]

theorem openItem_end :
    openItem ⟨.ready img img.length, dir, left, start, valid, mark⟩ =
      (.ok false, ⟨.ended img, dir, left, start, valid, mark⟩) := by
  simp [openItem, Run.bind_apply, readHeader_end, Run.pure_apply]

/-! ## 4. In a record -/

/-- What is left of a record stands in front of the head, and the length behind it. -/
theorem readInRecord_all {todo : List (BitVec 8)} {size aMaxSize : CAddr}
    (h : Stands img p (todo ++ lengthBytes size)) (hleft : left.toNat = todo.length)
    (htodo : todo ≠ []) (hmax : todo.length ≤ aMaxSize.toNat) :
    readInRecord aMaxSize ⟨.ready img p, dir, left, start, true, false⟩ =
      (.ok todo, ⟨.ready img (p + todo.length + 4), dir, 0, start, false, false⟩) := by
  have hsize : min aMaxSize.toNat left.toNat = todo.length := by omega
  have hzero : left - BitVec.ofNat 32 todo.length = 0#32 := by
    rw [← hleft, BitVec.ofNat_toNat, BitVec.setWidth_eq, BitVec.sub_self]
  have hdata : FileStream.read todo.length (.ready img p) = (todo, .ready img (p + todo.length)) :=
    FileStream.read_stands h.left rfl
  have hend : aMaxSize.toNat ≥ left.toNat := by omega
  simp only [readInRecord, Run.bind_apply, Run.get_apply, hsize]
  simp [tapAssert, Run.bind_apply, Run.pure_apply, htodo, hdata, onStream_apply, throwIfFail_ready,
    hend, readLength_stands h.right, Run.modify_apply, hzero]

theorem readInRecord_part {todo bs : List (BitVec 8)}
    (h : Stands img p (todo ++ bs)) (hleft : left.toNat = todo.length) (hpos : 0 < aMaxSize.toNat)
    (hmax : aMaxSize.toNat < todo.length) :
    readInRecord aMaxSize ⟨.ready img p, dir, left, start, true, false⟩ =
      (.ok (todo.take aMaxSize.toNat),
        ⟨.ready img (p + aMaxSize.toNat), dir, left - aMaxSize, start, true, false⟩) := by
  have hsize : min aMaxSize.toNat left.toNat = aMaxSize.toNat := by omega
  have hne : aMaxSize.toNat ≠ 0 := Nat.ne_of_gt hpos
  have hsplit : Stands img p (todo.take aMaxSize.toNat ++ (todo.drop aMaxSize.toNat ++ bs)) := by
    rwa [← List.append_assoc, List.take_append_drop]
  have hhead := hsplit.left
  have hdata : FileStream.read aMaxSize.toNat (.ready img p) =
      (todo.take aMaxSize.toNat, .ready img (p + aMaxSize.toNat)) :=
    FileStream.read_stands hhead (List.length_take_of_le (by omega))
  have hend : ¬ aMaxSize.toNat ≥ left.toNat := by omega
  have hcut : BitVec.ofNat 32 aMaxSize.toNat = aMaxSize := by
    rw [BitVec.ofNat_toNat, BitVec.setWidth_eq]
  simp only [readInRecord, Run.bind_apply, Run.get_apply, hsize]
  simp [tapAssert, Run.bind_apply, Run.pure_apply, hne, hdata, onStream_apply, throwIfFail_ready,
    hend, Run.modify_apply, hcut]

/-! ## 5. Backwards -/

theorem seekBy_back (n : Nat) :
    FileStream.seekBy (-(n : Int)) (.ready img (p + n)) = .ready img p := by
  refine FileStream.seekBy_ready ?_
  omega

/-- `SeekToPrevRecord` behind a mark it has passed. -/
theorem backToStart_mark (h : Stands img p (itemBytes .mark)) :
    backToStart ⟨.ready img (p + 4), dir, 0, (p + 4 : Nat), true, true⟩ =
      (.ok (), ⟨.ready img p, dir, 0, 0, false, true⟩) := by
  have hlength : readLength ⟨.ready img p, dir, 0#32, 0, false, true⟩ =
      (.ok 0, ⟨.ready img (p + 4), dir, 0#32, 0, false, true⟩) := readLength_stands h
  have hback : FileStream.seekBy (-4) (.ready img (p + 4)) = .ready img p := seekBy_back 4
  simp [backToStart, Run.bind_apply, Run.get_apply, modifyStream_apply, throwIfFail_ready,
    Run.modify_apply, reset, hlength, tapAssert, Run.pure_apply, hback]

/-- `SeekToPrevRecord` in a record. -/
theorem backToStart_record {q : Nat} :
    backToStart ⟨.ready img q, dir, left, (p + 4 : Nat), true, false⟩ =
      (.ok (), ⟨.ready img p, dir, 0, 0, false, false⟩) := by
  simp [backToStart, Run.bind_apply, Run.get_apply, modifyStream_apply, throwIfFail_ready,
    Run.modify_apply, reset, Run.pure_apply]

theorem backOverItem_mark (h : Stands img p (itemBytes .mark)) :
    backOverItem ⟨.ready img (p + 4), dir, left, start, valid, mark⟩ =
      (.ok (), ⟨.ready img p, dir, left, start, false, true⟩) := by
  have hback : FileStream.seekBy (-4) (.ready img (p + 4)) = .ready img p := seekBy_back 4
  have hlength : readLength ⟨.ready img p, dir, left, start, valid, false⟩ =
      (.ok 0, ⟨.ready img (p + 4), dir, left, start, valid, false⟩) := readLength_stands h
  simp [backOverItem, Run.bind_apply, Run.modify_apply, modifyStream_apply, hback, throwIfFail_ready,
    hlength]

theorem seekBy_trailer (img : List (BitVec 8)) (p : Nat) (data : List (BitVec 8)) :
    FileStream.seekBy (-4) (.ready img (p + (itemBytes (.record data)).length)) =
      .ready img (p + 4 + data.length) := by
  refine FileStream.seekBy_ready ?_
  rw [length_itemBytes_record]
  omega

/-- Back over a record, as far as the two lengths around it fit in a word together with it. -/
theorem backOverItem_record (hfits : ItemFits (.record data))
    (hlen : data.length + 8 < 2 ^ 32) (h : Stands img p (itemBytes (.record data))) :
    backOverItem ⟨.ready img (p + (itemBytes (.record data)).length), dir, left, start, valid, mark⟩ =
      (.ok (), ⟨.ready img p, dir, 0, 0, false, false⟩) := by
  have hne := itemSize_ne_zero hfits
  have hsize := toNat_itemSize hfits
  have htrailer := stands_trailer h
  have hheader := stands_size h
  have hback := seekBy_trailer img p data
  have hwhole : FileStream.seekBy (-((itemSize (.record data) + 8#32).toNat : Int))
      (.ready img (p + 4 + data.length + 4)) = .ready img p := by
    refine FileStream.seekBy_ready ?_
    rw [BitVec.toNat_add, hsize, Item.length, show (8#32).toNat = 8 from rfl,
      Nat.mod_eq_of_lt hlen]
    omega
  have hfour : FileStream.seekBy (-4) (.ready img (p + 4)) = .ready img p := seekBy_back 4
  simp [-BitVec.toNat_add, backOverItem, Run.bind_apply, Run.modify_apply, modifyStream_apply,
    hback, throwIfFail_ready, readLength_stands htrailer, hne, hwhole, readLength_stands hheader,
    hfour, reset]

/-! ## 6. Writing -/

theorem opened_ready :
    opened ⟨.ready img p, dir, left, start, valid, mark⟩ =
      ⟨.ready img 0, .None, 0, 0, false, mark⟩ := by
  simp [opened, reset]

theorem truncate_ready (h : p ≤ img.length) :
    truncate ⟨.ready img p, dir, left, start, valid, mark⟩ =
      (.ok (), ⟨.ready (img.take p) p, dir, 0, 0, false, mark⟩) := by
  by_cases hp : p = 0
  · subst hp
    have hnew : FileStream.openFile (FileStream.close (FileStream.write []
        (FileStream.seekTo 0 (FileStream.seekPut 0
          (FileStream.create (FileStream.close (.ready img 0))))))) = .ready [] 0 := rfl
    simp [truncate, recreate, createTape, closeTape, openTape, Run.bind_apply, Run.get_apply,
      onStream_apply, Run.modify_apply, modifyStream_apply, setDirection_apply, opened, reset, hnew]
  · have hcut := @FileStream.openFile_resize img p p h
    have hnonneg : ¬ (p : Int) < 0 := by omega
    simp [truncate, closeTape, openTape, Run.bind_apply, Run.get_apply, onStream_apply,
      Run.modify_apply, modifyStream_apply, setDirection_apply, opened, reset, hp, hnonneg, hcut]

/-- The data of an item. -/
def itemData : TapItem → List (BitVec 8)
  | .record data => data
  | .mark => []

/-- In front of an item that is not longer than a word can tell together with its length: the tape
    ends here unless the item to be written is as long. -/
theorem truncateUnlessSame_item {x : TapItem} {aRecordSize : CAddr} (hfits : ItemFits x)
    (hshort : x.length + 4 < 2 ^ 32) (h : Stands img p (itemBytes x)) :
    truncateUnlessSame aRecordSize ⟨.ready img p, dir, left, start, valid, mark⟩ =
      if itemSize x = aRecordSize then (.ok (), ⟨.ready img p, dir, left, start, valid, mark⟩)
      else (.ok (), ⟨.ready (img.take p) p, dir, 0, 0, false, mark⟩) := by
  have hfour : FileStream.seekBy (-4) (.ready img (p + 4)) = .ready img p := seekBy_back 4
  have hp : p ≤ img.length := le_trans (Nat.le_add_right _ _) h.le_length
  cases x with
  | mark =>
    have hzero : itemSize .mark = 0#32 := rfl
    by_cases hsame : 0#32 = aRecordSize
    · subst hsame
      simp [truncateUnlessSame, Run.bind_apply, readHeader_item h, hzero, modifyStream_apply, hfour,
        throwIfFail_ready, Run.pure_apply]
    · simp [truncateUnlessSame, Run.bind_apply, readHeader_item h, hzero, hsame,
        modifyStream_apply, hfour, throwIfFail_ready, truncate_ready hp]
  | record data =>
    have hne := itemSize_ne_zero hfits
    have htrailer := stands_trailer h
    have hskip := seekBy_data (p := p) hfits img
    have hback : FileStream.seekBy (-((itemSize (.record data) + 4#32).toNat : Int))
        (.ready img (p + 4 + data.length + 4)) = .ready img (p + 4) := by
      refine FileStream.seekBy_ready ?_
      rw [BitVec.toNat_add, toNat_itemSize hfits, show (4#32).toNat = 4 from rfl,
        Nat.mod_eq_of_lt hshort, Item.length]
      omega
    by_cases hsame : itemSize (.record data) = aRecordSize
    · subst hsame
      simp [-BitVec.toNat_add, truncateUnlessSame, Run.bind_apply, readHeader_item h, hne, hskip,
        readLength_stands htrailer, hback, modifyStream_apply, hfour, throwIfFail_ready,
        Run.pure_apply]
    · simp [-BitVec.toNat_add, truncateUnlessSame, Run.bind_apply, readHeader_item h, hne, hskip,
        readLength_stands htrailer, hback, hsame, modifyStream_apply, hfour, throwIfFail_ready,
        truncate_ready hp]

theorem truncateUnlessSame_end {aRecordSize : CAddr} :
    truncateUnlessSame aRecordSize ⟨.ready img img.length, dir, left, start, valid, mark⟩ =
      (.ok (), ⟨.ended img, dir, left, start, valid, mark⟩) := by
  simp [truncateUnlessSame, Run.bind_apply, readHeader_end, Run.pure_apply]

theorem putItem_mark (h : p ≤ img.length) :
    putItem 0 [] ⟨.ready img p, dir, left, start, valid, mark⟩ =
      (.ok (), ⟨.ready (splice img p (itemBytes .mark)) (p + 4), dir, 0, (p + 4 : Nat), true,
        true⟩) := by
  have hheader : FileStream.write (lengthBytes 0#32) (.ready img p) =
      .ready (splice img p (lengthBytes 0#32)) (p + 4) := FileStream.write_ready h
  have hend := @FileStream.seekPut_seekTo_ready (splice img p (lengthBytes 0#32)) (p + 4)
    ((p : Int) + 4) (p + 4) rfl
  simp [putItem, Run.bind_apply, eof_apply, onStream_apply, modifyStream_apply, Run.modify_apply,
    throwIfFail_ready, Run.get_apply, hheader, hend, itemBytes]

theorem putItem_record (hfits : ItemFits (.record data)) (h : p ≤ img.length) :
    putItem (itemSize (.record data)) data ⟨.ready img p, dir, left, start, valid, mark⟩ =
      (.ok (), ⟨.ready (splice img p (itemBytes (.record data)))
        (p + (itemBytes (.record data)).length), dir, 0, (p + 4 : Nat), false, false⟩) := by
  have hne := itemSize_ne_zero hfits
  have hdata : data.take (itemSize (.record data)).toNat = data := by
    rw [toNat_itemSize hfits]
    exact List.take_length
  have hfour : (lengthBytes (itemSize (.record data))).length = 4 := length_lengthBytes _
  -- the three writes, and that they are one
  have hfile : splice (splice (splice img p (lengthBytes (itemSize (.record data)))) (p + 4) data)
      (p + 4 + data.length) (lengthBytes (itemSize (.record data))) =
        splice img p (itemBytes (.record data)) := by
    have hmiddle := splice_splice (z := data ++ lengthBytes (itemSize (.record data)))
      (y := lengthBytes (itemSize (.record data))) h
    rw [hfour] at hmiddle
    rw [itemBytes, ← hmiddle]
    exact splice_splice (hfour ▸ le_length_splice h)
  have hheader : FileStream.write (lengthBytes (itemSize (.record data))) (.ready img p) =
      .ready (splice img p (lengthBytes (itemSize (.record data)))) (p + 4) :=
    FileStream.write_ready h
  have hput : FileStream.write data
      (.ready (splice img p (lengthBytes (itemSize (.record data)))) (p + 4)) =
        .ready (splice (splice img p (lengthBytes (itemSize (.record data)))) (p + 4) data)
          (p + 4 + data.length) := FileStream.write_ready (hfour ▸ le_length_splice h)
  have htrailer : FileStream.write (lengthBytes (itemSize (.record data)))
      (.ready (splice (splice img p (lengthBytes (itemSize (.record data)))) (p + 4) data)
        (p + 4 + data.length)) =
          .ready (splice img p (itemBytes (.record data))) (p + 4 + data.length + 4) := by
    rw [FileStream.write_ready (le_length_splice (hfour ▸ le_length_splice h)), hfile, hfour]
  have hend := @FileStream.seekPut_seekTo_ready (splice img p (itemBytes (.record data)))
    (p + 4 + data.length + 4) ((p : Int) + 4 + data.length + 4) (p + 4 + data.length + 4) rfl
  have hlen : p + (itemBytes (.record data)).length = p + 4 + data.length + 4 := by
    rw [length_itemBytes_record]
    omega
  rw [hlen]
  simp [putItem, Run.bind_apply, eof_apply, onStream_apply, modifyStream_apply, Run.modify_apply,
    throwIfFail_ready, Run.get_apply, hne, hdata, hheader, hput, htrailer, hend]

/-! ## 7. Operations outside of a record -/

theorem seekToNextRecord_ready (hout : (valid && !mark) = false) :
    seekToNextRecord ⟨.ready img p, dir, left, start, valid, mark⟩ =
      passItem ⟨.ready img p, .Forward, left, start, valid, mark⟩ := by
  simp only [seekToNextRecord, Run.bind_apply, setDirection_apply, Run.get_apply, fileExists,
    inRecord, hout]
  simp

theorem seekToNextRecord_ended (hout : (valid && !mark) = false) :
    seekToNextRecord ⟨.ended img, dir, left, start, valid, mark⟩ =
      (.ok (), ⟨.ended img, .Forward, left, start, valid, mark⟩) := by
  simp only [seekToNextRecord, Run.bind_apply, setDirection_apply, Run.get_apply, fileExists,
    inRecord, hout]
  simp [Run.pure_apply]

/-- In a record, if what is left of it fits in a word together with the length behind it. -/
theorem seekToNextRecord_inside {n : Nat} (hleft : left.toNat = n) (hn : n + 4 < 2 ^ 32) :
    seekToNextRecord ⟨.ready img p, dir, left, start, true, false⟩ =
      (.ok (), ⟨.ready img (p + n + 4), .Forward, left, start, false, false⟩) := by
  have hseek : FileStream.seekBy ((left + 4#32).toNat : Int) (.ready img p) =
      .ready img (p + n + 4) := by
    refine FileStream.seekBy_ready ?_
    rw [BitVec.toNat_add, hleft, show (4#32).toNat = 4 from rfl, Nat.mod_eq_of_lt hn]
    omega
  simp [-BitVec.toNat_add, seekToNextRecord, Run.bind_apply, setDirection_apply, Run.get_apply,
    fileExists, inRecord, modifyStream_apply, hseek, throwIfFail_ready, Run.modify_apply]

theorem read_ready (hout : (valid && !mark) = false) (hpos : 0 < aMaxSize.toNat) :
    read aMaxSize ⟨.ready img p, dir, left, start, valid, mark⟩ =
      (openItem >>= fun isRecord => if isRecord then readInRecord aMaxSize else pure [])
        ⟨.ready img p, .Forward, left, start, valid, mark⟩ := by
  have hne : aMaxSize ≠ 0#32 := fun h => absurd hpos (by rw [h]; decide)
  simp only [read, Run.bind_apply, setDirection_apply, Run.get_apply, fileExists, inRecord, hout]
  simp [tapAssert, hne, Run.pure_apply, Run.bind_apply]

theorem read_ended (hout : (valid && !mark) = false) (hpos : 0 < aMaxSize.toNat) :
    read aMaxSize ⟨.ended img, dir, left, start, valid, mark⟩ =
      (.ok [], ⟨.ended img, .Forward, left, start, valid, mark⟩) := by
  have hne : aMaxSize ≠ 0#32 := fun h => absurd hpos (by rw [h]; decide)
  simp only [read, Run.bind_apply, setDirection_apply, Run.get_apply, fileExists, inRecord, hout]
  simp [tapAssert, hne, Run.bind_apply, Run.pure_apply]

theorem read_inside (hpos : 0 < aMaxSize.toNat) :
    read aMaxSize ⟨.ready img p, dir, left, start, true, false⟩ =
      readInRecord aMaxSize ⟨.ready img p, .Forward, left, start, true, false⟩ := by
  have hne : aMaxSize ≠ 0#32 := fun h => absurd hpos (by rw [h]; decide)
  simp [read, Run.bind_apply, setDirection_apply, Run.get_apply, fileExists, inRecord, tapAssert, hne,
    Run.pure_apply]

theorem seekToPrevRecord_start :
    seekToPrevRecord ⟨.ready img 0, dir, left, start, valid, mark⟩ =
      (.ok (), ⟨.ready img 0, .Backward, 0, 0, false, false⟩) := by
  simp [seekToPrevRecord, Run.bind_apply, setDirection_apply, Run.get_apply, fileExists,
    onStream_apply, Run.modify_apply, reset]

theorem seekToPrevRecord_ready (hp : 0 < p) :
    seekToPrevRecord ⟨.ready img p, dir, left, start, valid, mark⟩ =
      (if valid then backToStart else backOverItem)
        ⟨.ready img p, .Backward, left, start, valid, mark⟩ := by
  have hne : p ≠ 0 := Nat.ne_of_gt hp
  simp [seekToPrevRecord, Run.bind_apply, setDirection_apply, Run.get_apply, fileExists,
    onStream_apply, hne]

/-- Behind the end the flags are taken back first. -/
theorem seekToPrevRecord_ended :
    seekToPrevRecord ⟨.ended img, dir, left, start, valid, mark⟩ =
      seekToPrevRecord ⟨.ready img img.length, dir, left, start, valid, mark⟩ := by
  simp [seekToPrevRecord, Run.bind_apply, setDirection_apply, Run.get_apply, fileExists,
    onStream_apply, modifyStream_apply]

theorem seekToBeginningOfTape_ready :
    seekToBeginningOfTape ⟨.ready img p, dir, left, start, valid, mark⟩ =
      (.ok (), ⟨.ready img 0, .Backward, 0, 0, false, false⟩) := by
  simp [seekToBeginningOfTape, Run.bind_apply, setDirection_apply, eof_apply, Run.modify_apply, reset,
    modifyStream_apply]

theorem seekToBeginningOfTape_ended :
    seekToBeginningOfTape ⟨.ended img, dir, left, start, valid, mark⟩ =
      (.ok (), ⟨.ready img 0, .Backward, 0, 0, false, false⟩) := by
  simp [seekToBeginningOfTape, Run.bind_apply, setDirection_apply, eof_apply, Run.modify_apply, reset,
    modifyStream_apply]

/-- An item written over the one in front of the head, or behind the end. -/
theorem writeRecordInternal_ready (hout : (valid && !mark) = false) :
    writeRecordInternal aData ⟨.ready img p, dir, left, start, valid, mark⟩ =
      (truncateUnlessSame (BitVec.ofNat 32 aData.length) >>= fun _ =>
        putItem (BitVec.ofNat 32 aData.length) aData)
          ⟨.ready img p, dir, left, start, valid, mark⟩ := by
  have hnot : ¬ (valid = true ∧ mark = false) := by
    rintro ⟨rfl, rfl⟩
    exact absurd hout (by decide)
  simp [writeRecordInternal, Run.bind_apply, Run.get_apply, fileExists, inRecord, hnot]

theorem writeRecordInternal_ended :
    writeRecordInternal aData ⟨.ended img, dir, left, start, valid, mark⟩ =
      putItem (BitVec.ofNat 32 aData.length) aData ⟨.ended img, dir, left, start, valid, mark⟩ := by
  simp [writeRecordInternal, Run.bind_apply, Run.get_apply, fileExists]

theorem putItem_ended {aRecordSize : CAddr} :
    putItem aRecordSize aData ⟨.ended img, dir, left, start, valid, mark⟩ =
      putItem aRecordSize aData ⟨.ready img img.length, dir, left, start, valid, mark⟩ := by
  simp [putItem, Run.bind_apply, eof_apply, modifyStream_apply]

theorem writeRecordInternal_inside {q : Nat} (hp : p ≤ img.length) :
    writeRecordInternal aData ⟨.ready img q, dir, left, (p + 4 : Nat), true, false⟩ =
      putItem (BitVec.ofNat 32 aData.length) aData
        ⟨.ready (img.take p) p, dir, 0, 0, false, false⟩ := by
  have hcut : truncate ⟨.ready img p, dir, left, (p : Int) + 4, true, false⟩ =
      (.ok (), ⟨.ready (img.take p) p, dir, 0#32, 0, false, false⟩) := truncate_ready hp
  simp [writeRecordInternal, Run.bind_apply, Run.get_apply, fileExists, inRecord, modifyStream_apply,
    throwIfFail_ready, hcut]

end steps

end TapFile

end CraySim
