/-
  Subject:   Only the methods of a tape that write change its file.

  * `TapFile.Contents img` -- the file of the tape is `img`,
  * `TapFile.read_contents`, … -- moving the head, reading, opening and closing keep it,
  * `PokedTapFile.Contents img` -- the same where bytes are replaced on reading.
-/
import CraySim.PokedTapFile

namespace CraySim

/-! ## 1. Tapes -/

namespace TapFile

/-- The file of the tape, if there is one. -/
def Contents (img : Option (List (BitVec 8))) (s : TapFile) : Prop := s.stream.disk = img

variable {img : Option (List (BitVec 8))}

theorem onStream_contents {α : Type} {f : FileStream → α × FileStream}
    (hf : ∀ s, (f s).2.disk = s.disk) : (onStream f).Keeps (Contents img) :=
  fun s hs => (hf s.stream).trans hs

theorem modifyStream_contents {f : FileStream → FileStream} (hf : ∀ s, (f s).disk = s.disk) :
    (modifyStream f).Keeps (Contents img) :=
  fun s hs => (hf s.stream).trans hs

theorem seekTo_contents (i : Int) : (modifyStream (FileStream.seekTo i)).Keeps (Contents img) :=
  modifyStream_contents fun s => FileStream.seekTo_disk s i

theorem seekBy_contents (i : Int) : (modifyStream (FileStream.seekBy i)).Keeps (Contents img) :=
  modifyStream_contents fun s => FileStream.seekBy_disk s i

theorem clearFlags_contents : (modifyStream FileStream.clearFlags).Keeps (Contents img) :=
  modifyStream_contents fun _ => rfl

theorem tell_contents : (onStream FileStream.tell).Keeps (Contents img) :=
  onStream_contents FileStream.tell_disk

theorem eof_contents : eof.Keeps (Contents img) := fun _ hs => hs

theorem throwIfFail_contents (aText : String) : (throwIfFail aText).Keeps (Contents img) := by
  intro s hs
  rw [throwIfFail]
  split <;> exact hs

theorem tapAssert_contents (c : Bool) : (tapAssert c).Keeps (Contents img) :=
  .ite (fun _ => Run.keeps_pure ()) fun _ => Run.keeps_throw _

theorem readLength_contents : readLength.Keeps (Contents img) :=
  (onStream_contents fun s => FileStream.read_disk s 4).bind fun _ => Run.keeps_pure _

theorem opened_contents {s : TapFile} (h : Contents img s) : Contents img (opened s) :=
  ((FileStream.seekTo_disk _ 0).trans (FileStream.seekPut_disk _ 0)).trans h

theorem openTape_contents : openTape.Keeps (Contents img) :=
  Run.keeps_modify fun s hs => opened_contents ((FileStream.openFile_disk s.stream).trans hs)

theorem closeTape_contents : closeTape.Keeps (Contents img) :=
  Run.keeps_modify fun s hs => (FileStream.close_disk s.stream).trans hs

theorem setDirection_contents (d : Direction) : (setDirection d).Keeps (Contents img) :=
  Run.keeps_modify fun _ hs => hs

theorem getState_contents : getState.Keeps (Contents img) := by
  refine Run.keeps_get.bind fun s => ?_
  refine .ite (fun _ => Run.keeps_pure _) fun _ => .ite (fun _ => Run.keeps_pure _) fun _ => ?_
  refine .ite (fun _ => Run.keeps_pure _) fun _ => tell_contents.bind fun pos => ?_
  repeat' refine .ite (fun _ => Run.keeps_pure _) fun _ => ?_
  exact Run.keeps_pure _

/-! ## 2. Moving the head -/

theorem readHeader_contents : readHeader.Keeps (Contents img) :=
  readLength_contents.bind fun _ => eof_contents.bind fun _ =>
    .ite (fun _ => Run.keeps_pure _) fun _ =>
      (throwIfFail_contents _).bind fun _ => Run.keeps_pure _

theorem skipRecord_contents (n : CAddr) : (skipRecord n).Keeps (Contents img) := by
  refine (seekBy_contents _).bind fun _ => (throwIfFail_contents _).bind fun _ => ?_
  refine readLength_contents.bind fun endRecordSize => eof_contents.bind fun b => ?_
  have hrest : Run.Keeps (Contents img) (do
      throwIfFail "Can't read end of record"
      if endRecordSize ≠ n then Run.throw (.generic "Record size mismatch at end")) :=
    (throwIfFail_contents _).bind fun _ =>
      .ite (fun _ => Run.keeps_throw _) fun _ => Run.keeps_pure _
  exact .ite (fun _ => (Run.keeps_throw _).bind fun _ => hrest) fun _ => hrest

theorem passItem_contents : passItem.Keeps (Contents img) := by
  refine readHeader_contents.bind fun o => ?_
  cases o with
  | none => exact Run.keeps_pure _
  | some recordSize =>
    refine .ite (fun _ => (skipRecord_contents _).bind fun _ => Run.keeps_modify fun _ hs => hs)
      fun _ => tell_contents.bind fun pos => Run.keeps_modify fun _ hs => hs

theorem seekToNextRecord_contents : seekToNextRecord.Keeps (Contents img) := by
  refine (setDirection_contents _).bind fun _ => Run.keeps_get.bind fun s => ?_
  refine .ite (fun _ => Run.keeps_pure _) fun _ => .ite (fun _ => ?_) fun _ => ?_
  · exact (seekBy_contents _).bind fun _ => (throwIfFail_contents _).bind fun _ =>
      Run.keeps_modify fun _ hs => hs
  · exact .ite (fun _ => Run.keeps_pure _) fun _ => passItem_contents

theorem backToStart_contents : backToStart.Keeps (Contents img) := by
  refine Run.keeps_get.bind fun s => (seekTo_contents _).bind fun _ => ?_
  refine (throwIfFail_contents _).bind fun _ => ?_
  refine Run.Keeps.bind (Run.keeps_modify fun _ hs => hs) fun _ => Run.keeps_get.bind fun s => ?_
  refine .ite (fun _ => readLength_contents.bind fun _ => ?_) fun _ => Run.keeps_pure _
  exact (throwIfFail_contents _).bind fun _ => (tapAssert_contents _).bind fun _ =>
    seekBy_contents _

theorem backOverItem_contents : backOverItem.Keeps (Contents img) := by
  refine Run.Keeps.bind (Run.keeps_modify fun _ hs => hs) fun _ => (seekBy_contents _).bind fun _ => ?_
  refine (throwIfFail_contents _).bind fun _ => readLength_contents.bind fun endRecordSize => ?_
  refine (throwIfFail_contents _).bind fun _ => .ite (fun _ => ?_) fun _ => ?_
  · refine (seekBy_contents _).bind fun _ => (throwIfFail_contents _).bind fun _ => ?_
    refine readLength_contents.bind fun recordSize => (throwIfFail_contents _).bind fun _ => ?_
    have hrest : Run.Keeps (Contents img) (do
        Run.modify reset
        modifyStream (FileStream.seekBy (-4))) :=
      Run.Keeps.bind (Run.keeps_modify fun _ hs => hs) fun _ => seekBy_contents _
    exact .ite (fun _ => (Run.keeps_throw _).bind fun _ => hrest) fun _ => hrest
  · exact Run.Keeps.bind (Run.keeps_modify fun _ hs => hs) fun _ => (seekBy_contents _).bind fun _ =>
      throwIfFail_contents _

theorem seekToPrevRecord_contents : seekToPrevRecord.Keeps (Contents img) := by
  refine (setDirection_contents _).bind fun _ => Run.keeps_get.bind fun s => ?_
  refine .ite (fun _ => Run.keeps_pure _) fun _ => ?_
  have hrest : Run.Keeps (Contents img) (do
      let pos ← onStream FileStream.tell
      if pos = 0 then Run.modify fun s => { reset s with mCurRecordEof := false }
      else if s.mCurRecordValid then backToStart
      else backOverItem) :=
    tell_contents.bind fun _ => .ite (fun _ => Run.keeps_modify fun _ hs => hs) fun _ =>
      .ite (fun _ => backToStart_contents) fun _ => backOverItem_contents
  exact .ite (fun _ => clearFlags_contents.bind fun _ => hrest) fun _ => hrest

theorem seekToBeginningOfTape_contents : seekToBeginningOfTape.Keeps (Contents img) := by
  refine (setDirection_contents _).bind fun _ => eof_contents.bind fun b => ?_
  have hrest : Run.Keeps (Contents img) (do
      Run.modify fun s => { reset s with mCurRecordEof := false }
      modifyStream (FileStream.seekTo 0)) :=
    Run.Keeps.bind (Run.keeps_modify fun _ hs => hs) fun _ => seekTo_contents 0
  exact .ite (fun _ => clearFlags_contents.bind fun _ => hrest) fun _ => hrest

/-! ## 3. Reading -/

theorem openItem_contents : openItem.Keeps (Contents img) := by
  refine readHeader_contents.bind fun o => ?_
  cases o with
  | none => exact Run.keeps_pure _
  | some recordSize =>
    have hrest : Run.Keeps (Contents img) (do
        let pos ← onStream FileStream.tell
        Run.modify fun s => { s with
          mCurRecordLeft := recordSize
          mCurRecordStart := pos
          mCurRecordValid := true
          mCurRecordEof := recordSize == 0 }
        return recordSize != 0) :=
      tell_contents.bind fun _ => Run.Keeps.bind (Run.keeps_modify fun _ hs => hs) fun _ => Run.keeps_pure _
    refine .ite (fun _ => ?_) fun _ => hrest
    exact tell_contents.bind fun _ => (skipRecord_contents _).bind fun _ =>
      (seekTo_contents _).bind fun _ => (throwIfFail_contents _).bind fun _ => hrest

theorem readInRecord_contents (n : CAddr) : (readInRecord n).Keeps (Contents img) := by
  refine Run.keeps_get.bind fun s => (tapAssert_contents _).bind fun _ => ?_
  refine (tapAssert_contents _).bind fun _ => ?_
  have hrest : ∀ retVal : List (BitVec 8), Run.Keeps (Contents img) (do
      Run.modify fun s' => { s' with mCurRecordLeft :=
        s'.mCurRecordLeft - BitVec.ofNat 32 (min n.toNat s.mCurRecordLeft.toNat) }
      return retVal : Tap (List (BitVec 8))) :=
    fun _ => Run.Keeps.bind (Run.keeps_modify fun _ hs => hs) fun _ => Run.keeps_pure _
  have hdata : ∀ retVal : List (BitVec 8), Run.Keeps (Contents img) (do
      throwIfFail "Can't read from file"
      if n.toNat ≥ s.mCurRecordLeft.toNat then
        let _ ← readLength
        throwIfFail "Can't read from end of record"
        Run.modify fun s => { s with mCurRecordValid := false }
      Run.modify fun s' => { s' with mCurRecordLeft :=
        s'.mCurRecordLeft - BitVec.ofNat 32 (min n.toNat s.mCurRecordLeft.toNat) }
      return retVal) := by
    intro retVal
    refine (throwIfFail_contents _).bind fun _ => .ite (fun _ => ?_) fun _ => hrest retVal
    exact readLength_contents.bind fun _ => (throwIfFail_contents _).bind fun _ =>
      Run.Keeps.bind (Run.keeps_modify fun _ hs => hs) fun _ => hrest retVal
  refine .ite (fun _ => (Run.keeps_pure _).bind hdata) fun _ => ?_
  exact (onStream_contents fun s => FileStream.read_disk s _).bind hdata

theorem read_contents (n : CAddr) : (read n).Keeps (Contents img) := by
  refine (setDirection_contents _).bind fun _ => Run.keeps_get.bind fun s => ?_
  refine .ite (fun _ => Run.keeps_pure _) fun _ => (tapAssert_contents _).bind fun _ => ?_
  refine .ite (fun _ => readInRecord_contents n) fun _ => ?_
  refine .ite (fun _ => Run.keeps_pure _) fun _ => openItem_contents.bind fun _ => ?_
  exact .ite (fun _ => readInRecord_contents n) fun _ => Run.keeps_pure _

end TapFile

/-! ## 4. Tapes with replaced bytes -/

namespace PokedTapFile

/-- The file of the tape below. -/
def Contents (img : Option (List (BitVec 8))) (s : PokedTapFile) : Prop :=
  TapFile.Contents img s.tape

variable {img : Option (List (BitVec 8))}

theorem onTape_contents {α : Type} {m : Tap α} (h : m.Keeps (TapFile.Contents img)) :
    (onTape m).Keeps (Contents img) :=
  fun s hs => h s.tape hs

theorem tellg_contents : tellg.Keeps (Contents img) :=
  (onTape_contents TapFile.tell_contents).bind fun _ => Run.keeps_pure _

theorem pokedAssert_contents (c : Bool) : (pokedAssert c).Keeps (Contents img) :=
  .ite (fun _ => Run.keeps_pure ()) fun _ => Run.keeps_throw _

theorem getState_contents : getState.Keeps (Contents img) :=
  onTape_contents TapFile.getState_contents

theorem closeTape_contents : closeTape.Keeps (Contents img) :=
  (onTape_contents TapFile.closeTape_contents).bind fun _ => Run.keeps_modify fun _ hs => hs

theorem reOpen_contents : reOpen.Keeps (Contents img) :=
  Run.keeps_get.bind fun _ =>
    .ite (fun _ => onTape_contents TapFile.openTape_contents) fun _ => Run.keeps_pure _

theorem seekToBeginningOfTape_contents : seekToBeginningOfTape.Keeps (Contents img) :=
  (onTape_contents TapFile.seekToBeginningOfTape_contents).bind fun _ =>
    Run.keeps_modify fun _ hs => hs

theorem seekToNextRecord_contents : seekToNextRecord.Keeps (Contents img) := by
  refine tellg_contents.bind fun pos => Run.keeps_get.bind fun s => ?_
  refine (onTape_contents TapFile.seekToNextRecord_contents).bind fun _ => ?_
  refine tellg_contents.bind fun after => getState_contents.bind fun state => ?_
  exact .ite (fun _ => Run.keeps_modify fun _ hs => hs) fun _ =>
    (pokedAssert_contents _).bind fun _ => Run.keeps_modify fun _ hs => hs

theorem seekToPrevRecord_contents : seekToPrevRecord.Keeps (Contents img) := by
  refine tellg_contents.bind fun pos => Run.keeps_get.bind fun s => ?_
  refine (onTape_contents TapFile.seekToPrevRecord_contents).bind fun _ => ?_
  refine tellg_contents.bind fun after => getState_contents.bind fun state => ?_
  cases state with
  | EndOfFile =>
    refine Run.keeps_get.bind fun _ => (pokedAssert_contents _).bind fun _ => ?_
    refine Run.Keeps.bind (Run.keeps_modify fun _ hs => hs) fun _ => Run.keeps_get.bind fun s => ?_
    split
    · exact Run.keeps_modify fun _ hs => hs
    · exact Run.keeps_throw _
  | BeginningOfTape => exact Run.keeps_modify fun _ hs => hs
  | EndOfTape | EndOfRecord | Normal =>
    exact (pokedAssert_contents _).bind fun _ => Run.keeps_get.bind fun _ =>
      (pokedAssert_contents _).bind fun _ => Run.keeps_modify fun _ hs => hs

theorem read_contents (n : CAddr) : (read n).Keeps (Contents img) := by
  refine tellg_contents.bind fun pos => Run.keeps_get.bind fun s => ?_
  refine (onTape_contents (TapFile.read_contents n)).bind fun data => ?_
  refine tellg_contents.bind fun pos' => Run.keeps_get.bind fun s' => ?_
  refine getState_contents.bind fun state => .ite (fun _ => ?_) fun _ => ?_
  · exact Run.Keeps.bind (Run.keeps_modify fun _ hs => hs) fun _ => Run.keeps_pure _
  · exact (pokedAssert_contents _).bind fun _ =>
      Run.Keeps.bind (Run.keeps_modify fun _ hs => hs) fun _ => Run.keeps_pure _

end PokedTapFile

end CraySim
