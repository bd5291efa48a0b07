/-
  Subject:   Seeking forward over an item and back again.

  `SeekToNextRecord` and `SeekToPrevRecord` leave other flags behind than there were before them.
  Outside of a record the flags, and what is remembered of the last record, are not looked at; only
  behind a mark that has been passed they are, and what is done there comes to the same.

  * `Loose`, `Alike` -- states that differ in what is not looked at,
  * `perform_alike` -- every command leads from such states to such states,
  * `Passed` -- behind a mark: one reader remembers it, the other one does not,
  * `perform_passed` -- a command then finds on the tape what is not remembered,
  * `performAll_like` -- so no run tells the states apart,
  * `seekPair`, `NoOp` -- forward and back, and that nothing is left of it,
  * `seekPair_noOp_iff` -- nothing is, unless the record is too long for the way back.
-/
import CraySim.TapReadBack
import CraySim.Lib.SideBySide

namespace CraySim

open ByteFile Framed Tape Run

namespace TapFile

/-! ## 1. What is not looked at -/

/-- Outside of a record, at one place of one file. -/
structure Loose (s t : TapFile) : Prop where
  stream : s.stream = t.stream
  direction : s.mLastCmdDirection = t.mLastCmdDirection
  valid_left : s.mCurRecordValid = false
  valid_right : t.mCurRecordValid = false

/-- Only the flag for marks may differ. -/
structure Placed (s t : TapFile) : Prop extends Loose s t where
  left : s.mCurRecordLeft = t.mCurRecordLeft
  start : s.mCurRecordStart = t.mCurRecordStart

def Alike (s t : TapFile) : Prop := s = t ∨ Loose s t

/-- A relation that asks of the streams that they are the same, and of nothing else that a step of
    the stream changes. -/
structure Streamwise (R : TapFile → TapFile → Prop) : Prop where
  stream : ∀ s t, R s t → s.stream = t.stream
  put : ∀ s t, R s t → ∀ x, R { s with stream := x } { t with stream := x }

theorem Placed.alike {s t : TapFile} (h : Placed s t) : Alike s t := .inr h.toLoose

theorem Alike.stream {s t : TapFile} (h : Alike s t) : s.stream = t.stream :=
  h.elim (congrArg _) Loose.stream

theorem streamwise_loose : Streamwise Loose where
  stream _ _ h := h.stream
  put _ _ h _ := ⟨rfl, h.direction, h.valid_left, h.valid_right⟩

theorem streamwise_placed : Streamwise Placed where
  stream _ _ h := h.stream
  put _ _ h x := ⟨streamwise_loose.put _ _ h.toLoose x, h.left, h.start⟩

theorem streamwise_alike : Streamwise Alike where
  stream _ _ h := h.stream
  put _ _ h x := h.elim (fun e => .inl (e ▸ rfl)) fun h => .inr (streamwise_loose.put _ _ h x)

/-! ## 2. Steps -/

section steps
variable {R : TapFile → TapFile → Prop}

/-- `m` does the same on states in `R`, and leaves states in `Q`. -/
abbrev Leads {α : Type} (R Q : TapFile → TapFile → Prop) (m : Tap α) : Prop := Agree R Q m m

/-- It keeps what the states have in common. -/
abbrev Same {α : Type} (R : TapFile → TapFile → Prop) (m : Tap α) : Prop := Leads R R m

theorem Same.id {α : Type} (a : α) : Same R (pure a) := agree_pure (fun _ _ h => h) a

theorem Same.throw {α : Type} (e : TapExn) : Same R (Run.throw e : Tap α) :=
  agree_throw (fun _ _ h => h) e

/-- A step that keeps it, taken under a condition. -/
theorem Same.guard {α β : Type} {c : Prop} [Decidable c] {m : Tap α} {n : Tap β} (hm : Same R m)
    (hn : Same R n) : Same R (if c then m >>= fun _ => n else n) :=
  Agree.guard hm (fun _ _ h => h) hn

theorem onStream_same {α : Type} (hR : Streamwise R) (f : FileStream → α × FileStream) :
    Same R (onStream f) := by
  intro s t hst
  rw [onStream_apply, onStream_apply, hR.stream s t hst]
  exact ⟨rfl, hR.put s t hst _⟩

theorem modifyStream_same (hR : Streamwise R) (f : FileStream → FileStream) :
    Same R (modifyStream f) := by
  intro s t hst
  rw [modifyStream_apply, modifyStream_apply, hR.stream s t hst]
  exact ⟨rfl, hR.put s t hst _⟩

theorem eof_same (hR : Streamwise R) : Same R eof := by
  intro s t hst
  rw [eof_apply, eof_apply, hR.stream s t hst]
  exact ⟨rfl, hst⟩

theorem throwIfFail_same (hR : Streamwise R) (aText : String) : Same R (throwIfFail aText) := by
  intro s t hst
  rw [throwIfFail, throwIfFail, hR.stream s t hst]
  split
  · exact ⟨rfl, hst⟩
  · exact ⟨rfl, hst⟩

theorem tapAssert_same (c : Bool) : Same R (tapAssert c) :=
  .ite (fun _ => Same.id ()) fun _ => Same.throw _

theorem readLength_same (hR : Streamwise R) : Same R readLength :=
  (onStream_same hR _).seq fun _ => Same.id _

theorem readHeader_same (hR : Streamwise R) : Same R readHeader :=
  (readLength_same hR).seq fun _ => (eof_same hR).seq fun _ => .ite (fun _ => Same.id _) fun _ =>
    (throwIfFail_same hR _).seq fun _ => Same.id _

theorem skipRecord_same (hR : Streamwise R) (n : CAddr) : Same R (skipRecord n) := by
  refine (modifyStream_same hR _).seq fun _ => (throwIfFail_same hR _).seq fun _ => ?_
  refine (readLength_same hR).seq fun endRecordSize => (eof_same hR).seq fun b => ?_
  refine Same.guard (Same.throw _) ((throwIfFail_same hR _).seq fun _ => ?_)
  exact .ite (fun _ => Same.throw _) fun _ => Same.id _

/-- What is set outside of a record, from what is there. -/
theorem modify_alike {f : TapFile → TapFile} (h : ∀ s t, Loose s t → Alike (f s) (f t)) :
    Same Alike (Run.modify f) :=
  agree_modify fun s t hst => hst.elim (fun e => .inl (congrArg f e)) (h s t)

theorem setDirection_same (d : Direction) : Same Alike (setDirection d) :=
  modify_alike fun _ _ h => .inr ⟨h.stream, rfl, h.valid_left, h.valid_right⟩

theorem fileExists_eq {s t : TapFile} (h : s.stream = t.stream) : fileExists s = fileExists t := by
  rw [fileExists, fileExists, h]

theorem inRecord_loose {s t : TapFile} (h : Loose s t) :
    inRecord s = false ∧ inRecord t = false := by
  rw [inRecord, inRecord, h.valid_left, h.valid_right]
  exact ⟨rfl, rfl⟩

/-- A method that looks at the state first: outside of a record it sees nothing but the file. -/
theorem get_alike {α : Type} {f : TapFile → Tap α}
    (h : ∀ s t, Loose s t → Agree Alike Alike (f s) (f t)) : Same Alike (Run.get >>= f) := by
  rintro s t (rfl | hst)
  · exact ⟨rfl, .inl rfl⟩
  · exact h s t hst s t (.inr hst)

end steps

/-! ## 3. Moving the head -/

theorem passItem_alike : Same Alike passItem := by
  refine (readHeader_same streamwise_alike).seq fun o => ?_
  cases o with
  | none => exact Same.id _
  | some recordSize =>
    refine .ite (fun _ => (skipRecord_same streamwise_alike _).seq fun _ => ?_) fun _ => ?_
    · exact modify_alike fun _ _ h => .inr ⟨h.stream, h.direction, rfl, rfl⟩
    · refine (onStream_same streamwise_alike _).seq fun pos => modify_alike fun s t h => .inl ?_
      rw [h.stream, h.direction]

theorem seekToNextRecord_alike : Same Alike seekToNextRecord := by
  refine (setDirection_same _).seq fun _ => get_alike fun s t h => ?_
  rw [fileExists_eq h.stream, (inRecord_loose h).1, (inRecord_loose h).2, h.stream]
  refine .ite (fun _ => Same.id _) fun _ => .ite (fun hin => absurd hin Bool.false_ne_true) fun _ => ?_
  exact .ite (fun _ => Same.id _) fun _ => passItem_alike

theorem backOverItem_loose : Same Loose backOverItem := by
  have hstep := modifyStream_same streamwise_loose
  have hfail := throwIfFail_same streamwise_loose
  have hlength := readLength_same streamwise_loose
  refine Agree.seq (agree_modify fun _ _ h => ⟨h.stream, h.direction, h.valid_left, h.valid_right⟩) ?_
  refine fun _ => (hstep _).seq fun _ => (hfail _).seq fun _ => hlength.seq fun endRecordSize => (hfail _).seq fun _ => ?_
  refine .ite (fun _ => ?_) fun _ => ?_
  · refine (hstep _).seq fun _ => (hfail _).seq fun _ => hlength.seq fun recordSize => ?_
    refine (hfail _).seq fun _ => Same.guard (Same.throw _) ?_
    exact Agree.seq (agree_modify fun _ _ h => ⟨h.stream, h.direction, rfl, rfl⟩) fun _ => hstep _
  · refine Agree.seq (agree_modify fun _ _ h => ⟨h.stream, h.direction, rfl, rfl⟩) fun _ => ?_
    exact (hstep _).seq fun _ => hfail _

/-- Back from outside of a record: the branch for the inside is not taken. -/
theorem seekToPrevRecord_loose : Same Loose seekToPrevRecord := by
  refine Agree.seq (agree_modify fun _ _ h => ⟨h.stream, rfl, h.valid_left, h.valid_right⟩) ?_
  intro _
  refine agree_get fun s t h => ?_
  rw [fileExists_eq h.stream, h.stream, h.valid_left, h.valid_right]
  refine .ite (fun _ => Same.id _) fun _ => ?_
  refine Same.guard (modifyStream_same streamwise_loose _) ?_
  refine (onStream_same streamwise_loose _).seq fun pos => ?_
  refine .ite (fun _ => agree_modify fun _ _ h => ⟨h.stream, h.direction, rfl, rfl⟩) fun _ => ?_
  exact .ite (fun hf => absurd hf Bool.false_ne_true) fun _ => backOverItem_loose

theorem seekToPrevRecord_alike : Same Alike seekToPrevRecord := by
  rintro s t (rfl | hst)
  · exact ⟨rfl, .inl rfl⟩
  · exact (seekToPrevRecord_loose s t hst).imp_right .inr

theorem seekToBeginningOfTape_alike : Same Alike seekToBeginningOfTape := by
  refine (setDirection_same _).seq fun _ => (eof_same streamwise_alike).seq fun b => ?_
  refine Same.guard (modifyStream_same streamwise_alike _) ?_
  refine Agree.seq (modify_alike fun _ _ h => .inr ⟨h.stream, h.direction, rfl, rfl⟩) fun _ => ?_
  exact modifyStream_same streamwise_alike _

/-! ## 4. Moving data -/

theorem openItem_alike : Same Alike openItem := by
  refine (readHeader_same streamwise_alike).seq fun o => ?_
  cases o with
  | none => exact Same.id _
  | some recordSize =>
    -- everything that may have differed is set
    have hrest : Same Alike (do
        let pos ← onStream FileStream.tell
        Run.modify fun s => { s with
          mCurRecordLeft := recordSize
          mCurRecordStart := pos
          mCurRecordValid := true
          mCurRecordEof := recordSize == 0 }
        return recordSize != 0) := by
      refine (onStream_same streamwise_alike _).seq fun pos => ?_
      refine Agree.seq (modify_alike fun s t h => .inl ?_) fun _ => Same.id _
      rw [h.stream, h.direction]
    refine .ite (fun _ => ?_) fun _ => hrest
    refine (onStream_same streamwise_alike _).seq fun _ => ?_
    refine (skipRecord_same streamwise_alike _).seq fun _ => ?_
    refine (modifyStream_same streamwise_alike _).seq fun _ => ?_
    exact (throwIfFail_same streamwise_alike _).seq fun _ => hrest

theorem readInRecord_alike (aMaxSize : CAddr) : Same Alike (readInRecord aMaxSize) := by
  refine get_alike fun s t h => ?_
  rw [h.valid_left, h.valid_right]
  exact fun _ _ hst => ⟨rfl, hst⟩

theorem read_alike (aMaxSize : CAddr) : Same Alike (read aMaxSize) := by
  refine (setDirection_same _).seq fun _ => get_alike fun s t h => ?_
  rw [fileExists_eq h.stream, (inRecord_loose h).1, (inRecord_loose h).2, h.stream]
  refine .ite (fun _ => Same.id _) fun _ => (tapAssert_same _).seq fun _ => ?_
  refine .ite (fun hin => absurd hin Bool.false_ne_true) fun _ => .ite (fun _ => Same.id _) fun _ => ?_
  refine openItem_alike.seq fun _ => .ite (fun _ => readInRecord_alike _) fun _ => Same.id _

theorem Loose.onStream {s t : TapFile} (h : Loose s t) (f : FileStream → FileStream) :
    Loose { s with stream := f s.stream } { t with stream := f t.stream } :=
  ⟨congrArg f h.stream, h.direction, h.valid_left, h.valid_right⟩

theorem opened_loose {s t : TapFile} (h : Loose s t) : Loose (opened s) (opened t) :=
  ⟨congrArg (fun x => FileStream.seekTo 0 (FileStream.seekPut 0 x)) h.stream, rfl, rfl, rfl⟩

theorem openTape_alike : Same Alike openTape :=
  modify_alike fun _ _ h => .inr (opened_loose (h.onStream FileStream.openFile))

theorem createTape_alike : Same Alike createTape :=
  modify_alike fun _ _ h => .inr (opened_loose (h.onStream FileStream.create))

theorem closeTape_alike : Same Alike closeTape :=
  modify_alike fun _ _ h => .inr ⟨congrArg FileStream.close h.stream, rfl, rfl, rfl⟩

theorem recreate_alike : Same Alike recreate :=
  createTape_alike.seq fun _ => (modifyStream_same streamwise_alike _).seq fun _ =>
    closeTape_alike.seq fun _ => openTape_alike

theorem truncate_alike : Same Alike truncate := by
  refine get_alike fun s t h => ?_
  rw [h.direction]
  refine (onStream_same streamwise_alike _).seq fun curPos => closeTape_alike.seq fun _ => ?_
  have hend : Same Alike (do
      modifyStream (FileStream.seekTo curPos)
      setDirection t.mLastCmdDirection) :=
    (modifyStream_same streamwise_alike _).seq fun _ => setDirection_same _
  refine .ite (fun _ => ?_) fun _ => recreate_alike.seq fun _ => hend
  refine Same.guard (Same.throw _) ?_
  exact (modifyStream_same streamwise_alike _).seq fun _ => openTape_alike.seq fun _ => hend

theorem truncateUnlessSame_alike (aRecordSize : CAddr) :
    Same Alike (truncateUnlessSame aRecordSize) := by
  refine (readHeader_same streamwise_alike).seq fun o => ?_
  cases o with
  | none => exact Same.id _
  | some diskRecordSize =>
    have hstep := modifyStream_same streamwise_alike
    have hfail := throwIfFail_same streamwise_alike
    have hcut : Same Alike (do
        modifyStream (FileStream.seekBy (-4))
        throwIfFail "Can't seek to beginning of record"
        if diskRecordSize ≠ aRecordSize then truncate) :=
      (hstep _).seq fun _ => (hfail _).seq fun _ =>
        .ite (fun _ => truncate_alike) fun _ => Same.id _
    refine .ite (fun _ => ?_) fun _ => hcut
    refine (hstep _).seq fun _ => (hfail _).seq fun _ => ?_
    refine (readLength_same streamwise_alike).seq fun endDiskRecordSize => (hfail _).seq fun _ => ?_
    refine Same.guard (Same.throw _) ?_
    exact (hstep _).seq fun _ => (hfail _).seq fun _ => hcut

/-- What is remembered of the record is set before the data is written, the flags behind it. -/
theorem putItem_loose (aRecordSize : CAddr) (aData : List (BitVec 8)) :
    Leads Loose Alike (putItem aRecordSize aData) := by
  have hloose : ∀ s t, Loose s t → Alike s t := fun _ _ h => .inr h
  have hplaced : ∀ s t, Placed s t → Alike s t := fun _ _ h => h.alike
  have hstep := modifyStream_same streamwise_placed
  have hfail := throwIfFail_same streamwise_placed
  have hend : Leads Placed Alike (do
      let endPos := (← Run.get).stream.tellPut
      modifyStream (FileStream.seekTo endPos)
      modifyStream (FileStream.seekPut endPos)
      throwIfFail "Can't reposition read after write"
      Run.modify fun s => { s with
        mCurRecordEof := aRecordSize == 0
        mCurRecordValid := aRecordSize == 0 }) := by
    refine agree_get fun s t h => ?_
    rw [h.stream]
    refine (hstep _).bind hplaced fun _ => (hstep _).bind hplaced fun _ => ?_
    refine (hfail _).bind hplaced fun _ => agree_modify fun s t h => .inl ?_
    rw [h.stream, h.direction, h.left, h.start]
  have hclear := modifyStream_same streamwise_loose FileStream.clearFlags
  refine (eof_same streamwise_loose).bind hloose fun _ => .guard hclear hloose ?_
  refine (onStream_same streamwise_loose _).bind hloose fun pos => ?_
  refine (modifyStream_same streamwise_loose _).bind hloose fun _ => ?_
  refine (eof_same streamwise_loose).bind hloose fun _ => .guard hclear hloose ?_
  refine (modifyStream_same streamwise_loose _).bind hloose fun _ => ?_
  refine Agree.bind (M := Placed) (agree_modify fun s t h => ?_) hplaced fun _ => ?_
  · exact ⟨⟨h.stream, h.direction, h.valid_left, h.valid_right⟩, rfl,
      congrArg FileStream.tellPut h.stream⟩
  · refine (hfail _).bind hplaced fun _ => .ite (fun _ => ?_) fun _ => hend
    refine (hstep _).bind hplaced fun _ => (hfail _).bind hplaced fun _ => ?_
    exact (hstep _).bind hplaced fun _ => (hfail _).bind hplaced fun _ => hend

theorem putItem_alike (aRecordSize : CAddr) (aData : List (BitVec 8)) :
    Same Alike (putItem aRecordSize aData) := by
  rintro s t (rfl | hst)
  · exact ⟨rfl, .inl rfl⟩
  · exact putItem_loose aRecordSize aData s t hst

theorem writeRecordInternal_alike (aData : List (BitVec 8)) :
    Same Alike (writeRecordInternal aData) := by
  have hput := putItem_alike (BitVec.ofNat 32 aData.length) aData
  have hrest : Same Alike (do
      let s ← Run.get
      if s.stream.eofbit then pure ()
      else if inRecord s then
        modifyStream (FileStream.seekTo (s.mCurRecordStart - 4))
        throwIfFail "Can't seek to beginning of record"
        truncate
      else truncateUnlessSame (BitVec.ofNat 32 aData.length)
      putItem (BitVec.ofNat 32 aData.length) aData) := by
    refine get_alike fun s t h => ?_
    rw [(inRecord_loose h).1, (inRecord_loose h).2, h.stream]
    refine .ite (fun _ => hput) fun _ => .ite (fun hin => absurd hin Bool.false_ne_true) fun _ => ?_
    exact (truncateUnlessSame_alike _).seq fun _ => hput
  refine get_alike fun s t h => ?_
  rw [fileExists_eq h.stream]
  exact .ite (fun _ => closeTape_alike.seq fun _ => recreate_alike.seq fun _ => hrest) fun _ => hrest

theorem writeRecord_alike (aData : List (BitVec 8)) : Same Alike (writeRecord aData) :=
  (setDirection_same _).seq fun _ => (tapAssert_same _).seq fun _ => writeRecordInternal_alike aData

theorem writeEndOfFile_alike : Same Alike writeEndOfFile :=
  (setDirection_same _).seq fun _ => writeRecordInternal_alike []

/-- **Any command** on states that differ in what is not looked at. -/
theorem perform_alike (c : TapCommand) : Same Alike (perform c) := by
  cases c with
  | seekToNextRecord => exact seekToNextRecord_alike.seq fun _ => Same.id _
  | seekToPrevRecord => exact seekToPrevRecord_alike.seq fun _ => Same.id _
  | seekToBeginningOfTape => exact seekToBeginningOfTape_alike.seq fun _ => Same.id _
  | read aMaxSize => exact read_alike aMaxSize
  | writeRecord aData => exact (writeRecord_alike aData).seq fun _ => Same.id _
  | writeEndOfFile => exact writeEndOfFile_alike.seq fun _ => Same.id _

/-! ## 5. Behind a mark -/

/-- Behind a mark, in front of an item: one reader has passed the mark and remembers it, the other
    one does not. -/
inductive Passed : TapFile → TapFile → Prop
  | intro {img : List (BitVec 8)} {p : Nat} {x : TapItem} {dir : Direction} {left : CAddr}
      {start : Int} {mark : Bool} (hmark : Stands img p (itemBytes .mark))
      (hitem : Stands img (p + 4) (itemBytes x)) (hfits : ItemFits x)
      (hshort : x.length + 8 < 2 ^ 32) :
      Passed ⟨.ready img (p + 4), dir, 0, (p + 4 : Nat), true, true⟩
        ⟨.ready img (p + 4), dir, left, start, false, mark⟩

/-- States that no command tells apart. -/
def Like (s t : TapFile) : Prop := Passed s t ∨ Alike s t

theorem like_refl (s : TapFile) : Like s s := .inr (.inl rfl)

theorem Like.stream {s t : TapFile} (h : Like s t) : s.stream = t.stream := by
  rcases h with h | h
  · cases h
    rfl
  · exact h.stream

/-- Where one is loose, the flags, what is left and the start do not matter. -/
theorem like_loose {x : FileStream} {dir : Direction} {left left' : CAddr} {start start' : Int}
    {mark mark' : Bool} :
    Like ⟨x, dir, left, start, false, mark⟩ ⟨x, dir, left', start', false, mark'⟩ :=
  .inr (.inr ⟨rfl, rfl, rfl, rfl⟩)

section passed
variable {img : List (BitVec 8)} {p : Nat} {x y : TapItem} {dir : Direction}
  {left left' : CAddr} {start start' : Int} {valid valid' mark mark' : Bool}

theorem putItem_forgets (hy : ItemFits y) (hp : p ≤ img.length) :
    putItem (itemSize y) (itemData y) ⟨.ready img p, dir, left, start, valid, mark⟩ =
      putItem (itemSize y) (itemData y) ⟨.ready img p, dir, left', start', valid', mark'⟩ := by
  cases y with
  | record data => rw [itemData, putItem_record hy hp, putItem_record hy hp]
  | mark => exact (putItem_mark hp).trans (putItem_mark hp).symm

/-- Outside of a record, in front of an item, writing does not ask for what is remembered. -/
theorem writeRecordInternal_forgets (hy : ItemFits y) (hitem : Stands img p (itemBytes x))
    (hfits : ItemFits x) (hshort : x.length + 4 < 2 ^ 32) (hout : (valid && !mark) = false)
    (hout' : (valid' && !mark') = false) :
    writeRecordInternal (itemData y) ⟨.ready img p, dir, left, start, valid, mark⟩ =
      writeRecordInternal (itemData y) ⟨.ready img p, dir, left', start', valid', mark'⟩ := by
  have hp : p ≤ img.length := le_trans (Nat.le_add_right _ _) hitem.le_length
  rw [writeRecordInternal_ready hout, writeRecordInternal_ready hout', itemSize_itemData,
    Run.bind_apply, Run.bind_apply, truncateUnlessSame_item hfits hshort hitem,
    truncateUnlessSame_item hfits hshort hitem]
  by_cases hsame : itemSize x = itemSize y
  · rw [if_pos hsame, if_pos hsame]
    exact putItem_forgets hy hp
  · rw [if_neg hsame, if_neg hsame]
    exact putItem_forgets hy (by rw [List.length_take]; omega)

/-- In front of an item, reading does not either. -/
theorem read_forgets {aMaxSize : CAddr} (hitem : Stands img p (itemBytes x)) (hfits : ItemFits x)
    (hpos : 0 < aMaxSize.toNat) (hout : (valid && !mark) = false)
    (hout' : (valid' && !mark') = false) :
    read aMaxSize ⟨.ready img p, dir, left, start, valid, mark⟩ =
      read aMaxSize ⟨.ready img p, dir, left', start', valid', mark'⟩ := by
  rw [read_ready hout hpos, read_ready hout' hpos]
  cases x with
  | record data =>
    rw [Run.bind_apply_ok (openItem_record hfits hitem),
      Run.bind_apply_ok (openItem_record hfits hitem)]
  | mark => rw [Run.bind_apply_ok (openItem_mark hitem), Run.bind_apply_ok (openItem_mark hitem)]

theorem seekToNextRecord_like (hitem : Stands img p (itemBytes x)) (hfits : ItemFits x)
    (hout : (valid && !mark) = false) (hout' : (valid' && !mark') = false) :
    ∃ s t, seekToNextRecord ⟨.ready img p, dir, left, start, valid, mark⟩ = (.ok (), s) ∧
      seekToNextRecord ⟨.ready img p, dir, left', start', valid', mark'⟩ = (.ok (), t) ∧
      Like s t := by
  rw [seekToNextRecord_ready hout, seekToNextRecord_ready hout']
  cases x with
  | record data =>
    exact ⟨_, _, passItem_record hfits hitem, passItem_record hfits hitem, like_loose⟩
  | mark => exact ⟨_, _, passItem_mark hitem, passItem_mark hitem, like_refl _⟩

/-- Back in front of the mark, with what is remembered of it or with what stands on the tape. -/
theorem seekToPrevRecord_like (hmark : Stands img p (itemBytes .mark)) :
    ∃ s t, seekToPrevRecord ⟨.ready img (p + 4), dir, 0, (p + 4 : Nat), true, true⟩ = (.ok (), s) ∧
      seekToPrevRecord ⟨.ready img (p + 4), dir, left, start, false, mark⟩ = (.ok (), t) ∧
      Like s t := by
  rw [seekToPrevRecord_ready (Nat.succ_pos _), seekToPrevRecord_ready (Nat.succ_pos _), if_pos rfl,
    if_neg Bool.false_ne_true]
  exact ⟨_, _, backToStart_mark hmark, backOverItem_mark hmark, like_loose⟩

end passed

/-! ## 6. Runs -/

section runs
variable {s t : TapFile}

/-- `m` does the same on both, and what it leaves is alike. -/
def SameOn {α : Type} (m : Tap α) (s t : TapFile) : Prop :=
  (m s).1 = (m t).1 ∧ Like (m s).2 (m t).2

theorem sameOn_of_eq {α : Type} {m : Tap α} (h : m s = m t) : SameOn m s t := by
  rw [SameOn, h]
  exact ⟨rfl, like_refl _⟩

theorem sameOn_of_ok {α : Type} {m : Tap α} {a : α}
    (h : ∃ s' t', m s = (.ok a, s') ∧ m t = (.ok a, t') ∧ Like s' t') : SameOn m s t := by
  obtain ⟨s', t', hs, ht, hlike⟩ := h
  rw [SameOn, hs, ht]
  exact ⟨rfl, hlike⟩

theorem SameOn.command {m : Tap Unit} (h : SameOn m s t) :
    SameOn (do m; return [] : Tap (List (BitVec 8))) s t := by
  have hm : Agree (fun a b => a = s ∧ b = t) Like m m := by
    rintro _ _ ⟨rfl, rfl⟩
    exact h
  exact hm.bind (fun _ _ h => h) (fun _ => agree_pure (fun _ _ h => h) []) s t ⟨rfl, rfl⟩

/-- Refusing a command leaves the tape where it is. -/
theorem Passed.setDirection (h : Passed s t) (d : Direction) :
    Passed { s with mLastCmdDirection := d } { t with mLastCmdDirection := d } := by
  obtain ⟨hmark, hitem, hfits, hshort⟩ := h
  exact .intro hmark hitem hfits hshort

theorem read_passed (h : Passed s t) (aMaxSize : CAddr) : SameOn (read aMaxSize) s t := by
  have hrefused := h.setDirection .Forward
  obtain ⟨hmark, hitem, hfits, hshort⟩ := h
  by_cases hzero : aMaxSize.toNat = 0
  · obtain rfl : aMaxSize = 0 := BitVec.eq_of_toNat_eq hzero
    exact ⟨rfl, .inl hrefused⟩
  · exact sameOn_of_eq (read_forgets hitem hfits (Nat.pos_of_ne_zero hzero) rfl rfl)

theorem writeRecord_passed (h : Passed s t) (aData : List (BitVec 8)) :
    SameOn (writeRecord aData) s t := by
  by_cases hnil : aData = []
  · subst hnil
    exact ⟨rfl, .inl (h.setDirection .Forward)⟩
  · refine sameOn_of_eq ?_
    obtain ⟨hmark, hitem, hfits, hshort⟩ := h
    rw [writeRecord_cons hnil, writeRecord_cons hnil, itemData, writeRecordInternal_stored]
    exact writeRecordInternal_forgets (itemFits_stored _) hitem hfits (by omega) rfl rfl

theorem writeEndOfFile_eq (s : TapFile) : writeEndOfFile s =
    writeRecordInternal (itemData .mark) { s with mLastCmdDirection := .Forward } := rfl

/-- **One command** behind a mark: what is remembered of the mark is what stands there. -/
theorem perform_passed (c : TapCommand) (h : Passed s t) : SameOn (perform c) s t := by
  cases c with
  | read aMaxSize => exact read_passed h aMaxSize
  | writeRecord aData => exact (writeRecord_passed h aData).command
  | seekToNextRecord =>
    obtain ⟨hmark, hitem, hfits, hshort⟩ := h
    exact (sameOn_of_ok (seekToNextRecord_like hitem hfits rfl rfl)).command
  | seekToPrevRecord =>
    obtain ⟨hmark, hitem, hfits, hshort⟩ := h
    exact (sameOn_of_ok (seekToPrevRecord_like hmark)).command
  | seekToBeginningOfTape =>
    obtain ⟨hmark, hitem, hfits, hshort⟩ := h
    refine (sameOn_of_eq ?_).command
    rw [seekToBeginningOfTape_ready, seekToBeginningOfTape_ready]
  | writeEndOfFile =>
    obtain ⟨hmark, hitem, hfits, hshort⟩ := h
    refine (sameOn_of_eq ?_).command
    rw [writeEndOfFile_eq, writeEndOfFile_eq]
    exact writeRecordInternal_forgets (y := .mark) trivial hitem hfits (by omega) rfl rfl

theorem perform_like (c : TapCommand) (h : Like s t) : SameOn (perform c) s t := by
  rcases h with h | h
  · exact perform_passed c h
  · obtain ⟨hanswer, halike⟩ := perform_alike c s t h
    exact ⟨hanswer, .inr halike⟩

/-- **Any run** on states that are alike returns the same and leaves the same file. -/
theorem performAll_like (cs : List TapCommand) (h : Like s t) :
    (performAll cs s).1 = (performAll cs t).1 ∧
      (performAll cs s).2.stream = (performAll cs t).2.stream := by
  induction cs generalizing s t with
  | nil => exact ⟨rfl, h.stream⟩
  | cons c cs ih =>
    obtain ⟨hanswer, hlike⟩ := perform_like c h
    obtain ⟨hanswers, hstream⟩ := ih hlike
    rw [performAll, performAll, hanswer, hanswers]
    exact ⟨rfl, hstream⟩

/-- Every command sets the direction before it does anything else. -/
theorem performAll_setDirection (cs : List TapCommand) (s : TapFile) (d : Direction) :
    (performAll cs { s with mLastCmdDirection := d }).1 = (performAll cs s).1 ∧
      (performAll cs { s with mLastCmdDirection := d }).2.stream = (performAll cs s).2.stream := by
  cases cs with
  | nil => exact ⟨rfl, rfl⟩
  | cons c cs =>
    have hc : perform c { s with mLastCmdDirection := d } = perform c s := by
      cases c <;> rfl
    rw [performAll, performAll, hc]
    exact ⟨rfl, rfl⟩

end runs

/-! ## 7. Forward and back -/

def seekPair : Tap Unit := do
  seekToNextRecord
  seekToPrevRecord

/-- Nothing is left of `m`: the file is where it was, and every later run returns the same and
    leaves the same file as without `m`. -/
def NoOp (m : Tap Unit) (s : TapFile) : Prop :=
  ∃ t, m s = (.ok (), t) ∧ t.stream = s.stream ∧
    ∀ cs, (performAll cs t).1 = (performAll cs s).1 ∧
      (performAll cs t).2.stream.disk = (performAll cs s).2.stream.disk

section pair
variable {s : TapFile} {behind front : List TapItem} {x : TapItem} {data : List (BitVec 8)}

/-- Over an item and back, if the way back is not too long for a word. -/
theorem seekPair_short (hd : Describes s (.between behind (x :: front))) (hfits : ItemFits x)
    (hshort : x.length + 8 < 2 ^ 32) : ∃ m, seekPair s =
      (.ok (), ⟨.ready (image itemBytes (behind.reverse ++ x :: front)) (position behind), .Backward,
        0, 0, false, m⟩) := by
  have hout := flags_between hd
  have hstream := stream_front hd
  have hfront := stands_front behind x front
  obtain ⟨stream, dir, left, start, valid, mark⟩ := s
  dsimp only at hout hstream
  subst hstream
  cases x with
  | record data =>
    refine ⟨false, ?_⟩
    rw [seekPair, Run.bind_apply_ok ((seekToNextRecord_ready hout).trans (passItem_record hfits hfront)),
      seekToPrevRecord_ready (by rw [length_itemBytes_record]; omega), if_neg Bool.false_ne_true,
      backOverItem_record hfits hshort hfront]
  | mark =>
    refine ⟨true, ?_⟩
    rw [seekPair, Run.bind_apply_ok ((seekToNextRecord_ready hout).trans (passItem_mark hfront)),
      seekToPrevRecord_ready (Nat.succ_pos _), if_pos rfl, backToStart_mark hfront]

/-- The head where it was, outside of a record, is like the head that has not moved. -/
theorem like_of_describes (hd : Describes s (.between behind (x :: front))) (hfits : ItemFits x)
    (hshort : x.length + 8 < 2 ^ 32) (left : CAddr) (start : Int) (m : Bool) :
    Like s ⟨.ready (image itemBytes (behind.reverse ++ x :: front)) (position behind),
      s.mLastCmdDirection, left, start, false, m⟩ := by
  have hstream := stream_front hd
  have hfront := stands_front behind x front
  obtain ⟨stream, dir, left', start', valid, mark⟩ := s
  dsimp only at hstream
  subst hstream
  rcases hd with ⟨-, ⟨hvalid, -⟩ | ⟨hvalid, hmark, hleft, hstart, hbehind⟩⟩
  · dsimp only at hvalid
    subst hvalid
    exact like_loose
  · dsimp only at hvalid hmark hleft hstart
    subst hvalid hmark hleft hstart
    obtain ⟨behind, rfl⟩ : ∃ b, behind = .mark :: b := by
      cases behind with
      | nil => exact nomatch hbehind
      | cons y b => exact ⟨b, by rw [Option.some.inj hbehind]⟩
    have hpos := position_cons .mark behind
    rw [length_itemBytes_mark] at hpos
    have hat := stands_front behind .mark (x :: front)
    rw [hpos] at hfront ⊢
    rw [List.reverse_cons, List.append_assoc, List.singleton_append] at hfront ⊢
    exact .inl (.intro hat hfront hfits hshort)

theorem seekPair_noOp (hd : Describes s (.between behind (x :: front))) (hfits : ItemFits x)
    (hshort : x.length + 8 < 2 ^ 32) : NoOp seekPair s := by
  obtain ⟨m, hpair⟩ := seekPair_short hd hfits hshort
  refine ⟨_, hpair, (stream_front hd).symm, fun cs => ?_⟩
  obtain ⟨hanswers, hstream⟩ := performAll_like cs (like_of_describes hd hfits hshort 0 0 m)
  obtain ⟨hanswers', hstream'⟩ := performAll_setDirection cs
    ⟨.ready (image itemBytes (behind.reverse ++ x :: front)) (position behind),
      s.mLastCmdDirection, 0, 0, false, m⟩ .Backward
  exact ⟨hanswers'.trans hanswers.symm, congrArg FileStream.disk (hstream'.trans hstream.symm)⟩

theorem throwIfFail_ended {img : List (BitVec 8)} {dir : Direction} {left : CAddr} {start : Int}
    {valid mark : Bool} (aText : String) :
    throwIfFail aText ⟨.ended img, dir, left, start, valid, mark⟩ =
      (.error (.generic aText), ⟨.ended img, dir, left, start, valid, mark⟩) := rfl

/-- A length is read, or the file ends and the read fails. -/
theorem readLength_cases {img : List (BitVec 8)} {q : Nat} {dir : Direction} {left : CAddr}
    {start : Int} {valid mark : Bool} (hq : q ≤ img.length) :
    ∃ v, readLength ⟨.ready img q, dir, left, start, valid, mark⟩ =
        (.ok v, ⟨.ready img (q + 4), dir, left, start, valid, mark⟩) ∨
      readLength ⟨.ready img q, dir, left, start, valid, mark⟩ =
        (.ok v, ⟨.ended img, dir, left, start, valid, mark⟩) := by
  by_cases hrest : q + 4 ≤ img.length
  · refine ⟨BitVec.ofNat 32 (valueLE (window img q 4)), .inl ?_⟩
    simp only [readLength, Run.bind_apply, onStream_apply, FileStream.read_ready hrest,
      Run.pure_apply]
  · refine ⟨BitVec.ofNat 32 (valueLE (img.drop q)), .inr ?_⟩
    simp only [readLength, Run.bind_apply, onStream_apply,
      FileStream.read_rest hq (Nat.lt_of_not_le hrest), Run.pure_apply]

/-- Back over a record that is too long: the sum of its length and the lengths around it has wrapped
    around, and the head does not get to the start of the record, whatever stands where it gets. -/
theorem backOverItem_long {img : List (BitVec 8)} {p : Nat} {dir : Direction} {left : CAddr}
    {start : Int} {valid mark : Bool} (hfits : ItemFits (.record data))
    (hlong : 2 ^ 32 ≤ data.length + 8) (h : Stands img p (itemBytes (.record data))) {t : TapFile}
    (ht : backOverItem ⟨.ready img (p + (itemBytes (.record data)).length), dir, left, start, valid,
      mark⟩ = (.ok (), t)) : t.stream ≠ .ready img p := by
  have hsize := toNat_itemSize hfits
  have hlt : data.length < 2 ^ 32 := hfits.2
  have hle := h.le_length
  rw [length_itemBytes_record] at hle
  have hback := seekBy_trailer img p data
  -- where the head gets
  obtain ⟨q, hq⟩ : ∃ q, p + 4 + data.length + 4 = q + (data.length + 8 - 2 ^ 32) :=
    ⟨2 ^ 32 + p, by omega⟩
  have hwrapped : FileStream.seekBy (-((itemSize (.record data) + 8#32).toNat : Int))
      (.ready img (p + 4 + data.length + 4)) = .ready img q := by
    refine FileStream.seekBy_ready ?_
    have hmod : (data.length + 8) % 2 ^ 32 = data.length + 8 - 2 ^ 32 := by omega
    rw [BitVec.toNat_add, hsize, Item.length, show (8#32).toNat = 8 from rfl, hmod]
    omega
  obtain ⟨v, hread | hread⟩ := @readLength_cases img q dir left start valid false (by omega)
  · by_cases hsame : itemSize (.record data) = v
    · -- the length that stands there happens to be the same
      subst hsame
      have hfour : FileStream.seekBy (-4) (.ready img (q + 4)) = .ready img q := seekBy_back 4
      simp [-BitVec.toNat_add, backOverItem, Run.bind_apply, Run.modify_apply, modifyStream_apply,
        hback, throwIfFail_ready, readLength_stands (stands_trailer h), itemSize_ne_zero hfits,
        hwrapped, hread, reset, hfour] at ht
      rw [← ht]
      intro hsame
      have hpos : q = p := congrArg FileStream.pos hsame
      omega
    · simp [-BitVec.toNat_add, backOverItem, Run.bind_apply, Run.modify_apply, modifyStream_apply,
        hback, throwIfFail_ready, readLength_stands (stands_trailer h), itemSize_ne_zero hfits,
        hwrapped, hread, hsame, Run.throw_apply] at ht
  · simp [-BitVec.toNat_add, backOverItem, Run.bind_apply, Run.modify_apply, modifyStream_apply,
      hback, throwIfFail_ready, readLength_stands (stands_trailer h), itemSize_ne_zero hfits,
      hwrapped, hread, throwIfFail_ended] at ht

/-- Over a record that is too long for the way back. -/
theorem not_seekPair_noOp (hd : Describes s (.between behind (x :: front))) (hfits : ItemFits x)
    (hlong : 2 ^ 32 ≤ x.length + 8) : ¬ NoOp seekPair s := by
  rintro ⟨t, ht, hback, -⟩
  have hout := flags_between hd
  have hstream := stream_front hd
  have hfront := stands_front behind x front
  obtain ⟨stream, dir, left, start, valid, mark⟩ := s
  dsimp only at hout hstream hback
  subst hstream
  cases x with
  | record data =>
    rw [seekPair, Run.bind_apply_ok ((seekToNextRecord_ready hout).trans (passItem_record hfits hfront)),
      seekToPrevRecord_ready (by rw [length_itemBytes_record]; omega),
      if_neg Bool.false_ne_true] at ht
    exact backOverItem_long hfits hlong hfront ht hback
  | mark => exact absurd hlong (by decide)

/-- **Forward and back**: in front of any item of any tape, nothing is left of it exactly when the
    length of the item and the two lengths around it fit in a word together. -/
theorem seekPair_noOp_iff (hd : Describes s (.between behind (x :: front)))
    (hfits : ∀ y ∈ Head.items (.between behind (x :: front)), ItemFits y) :
    NoOp seekPair s ↔ x.length + 8 < 2 ^ 32 := by
  have hx : ItemFits x := hfits x (by simp [Head.items])
  constructor
  · intro hnoop
    refine Nat.lt_of_not_le fun hlong => ?_
    exact not_seekPair_noOp hd hx hlong hnoop
  · exact seekPair_noOp hd hx

/-- In front of a mark, behind a record. -/
theorem seekPair_noOp_iff_mark : NoOp seekPair (ofDisk (some (image itemBytes [.mark, .record [7]]))
    false) ↔ (Item.mark : TapItem).length + 8 < 2 ^ 32 :=
  seekPair_noOp_iff (describes_ofDisk [.mark, .record [7]] false)
    (by simp [Head.items, ItemFits])

/-- A record of `2 ^ 32 - 8` bytes in front of another one, at the beginning of a tape. -/
theorem ofDisk_not_noOp (hlen : data.length + 8 = 2 ^ 32) (m : Bool) :
    (∀ y ∈ [.record data, .record [1]], ItemFits y) ∧
      ¬ NoOp seekPair (ofDisk (some (image itemBytes [.record data, .record [1]])) m) := by
  have hlong : ItemFits (.record data) := ⟨by omega, by omega⟩
  refine ⟨fun y hy => ?_, ?_⟩
  · rcases List.mem_cons.1 hy with rfl | hy
    · exact hlong
    · rw [List.mem_singleton.1 hy]
      exact ⟨by decide, by decide⟩
  · exact not_seekPair_noOp (describes_ofDisk [.record data, .record [1]] m) hlong
      (Nat.le_of_eq hlen.symm)

theorem not_seekPair_noOp_long :
    (∀ y ∈ [.record (List.replicate (2 ^ 32 - 8) 0), .record [1]], ItemFits y) ∧
      ¬ NoOp seekPair (ofDisk (some
        (image itemBytes [.record (List.replicate (2 ^ 32 - 8) 0), .record [1]])) false) := by
  have hlen : (List.replicate (2 ^ 32 - 8) (0 : BitVec 8)).length + 8 = 2 ^ 32 := by
    rw [List.length_replicate]
    exact Nat.sub_add_cancel (by decide)
  exact ofDisk_not_noOp hlen false

end pair

end TapFile

end CraySim
