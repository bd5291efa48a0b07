/-
  Subject:   Single steps over a tape, whatever position in files is kept.

  A tape that is spaced over is where a head is, but the position in files kept for the pokes may be
  any: a step forward does not look at it, a step backward does.

  * `OnDrive`, `reOpen_opens` -- a tape that is open at a head, or closed,
  * `seekToNextRecord_steps`, `seekToNextRecord_refuses` -- a step forward, and where there is none,
  * `read_steps`, `writeRecord_steps` -- reading and writing,
  * `BacksOver`, `seekToPrevRecord_step` -- a step backward, and where there is none,
  * `BackOk` -- the steps backward over a number of records.
-/
import CraySim.PokedTapRun

namespace CraySim

open ByteFile Framed Tape TapFile

namespace PokedTapFile

/-! ## 1. The tape on the drive -/

/-- The tape is open with the head at `h`, or it is closed and the head is at the load point. -/
def OnDrive (t : TapFile) (h : TapHead) : Prop :=
  Describes t h ∨
    t.stream.isOpen = false ∧ t.stream.disk = some (tapeImage h) ∧ h = .between [] h.items

theorem length_tapeImage_next (h : TapHead) : (tapeImage h.next).length = (tapeImage h).length := by
  rw [tapeImage, Head.items_next, tapeImage]

theorem length_tapeImage_prev (h : TapHead) : (tapeImage h.prev).length = (tapeImage h).length := by
  rw [tapeImage, Head.items_prev, tapeImage]

theorem length_poke (s : PokedTapFile) (data : List (BitVec 8)) : (poke s data).length = data.length := by
  rw [poke]
  repeat' split
  · rfl
  · rfl
  · rw [pokeBytes, List.length_mapIdx]

section steps
variable {s : PokedTapFile} {t : TapFile} {h : TapHead} {behind front : List TapItem}
  {done todo data : List (BitVec 8)}

theorem isOpen_described (hd : Describes t h) : t.stream.isOpen = true := by
  rcases stream_cases hd with hs | hs
  · rw [hs, FileStream.isOpen_ready]
  · rw [hs, FileStream.isOpen_ended]

/-- After `ReOpen` the tape is open with the head where it was; a tape that was open is as it
    was. -/
theorem reOpen_opens (hs : OnDrive s.tape h) :
    ∃ s', reOpen s = (.ok (), s') ∧ Describes s'.tape h ∧ (s' = s ∨ h = .between [] h.items) := by
  rcases hs with hd | ⟨hopen, hdisk, hstart⟩
  · refine ⟨s, ?_, hd, .inl rfl⟩
    simp only [reOpen, Run.bind_apply, Run.get_apply, isOpen_described hd]
    rfl
  · have himage : s.tape.stream.openFile = .ready (tapeImage h) 0 := by
      simp [FileStream.openFile, hopen, hdisk, FileStream.ready]
    refine ⟨{ s with tape := opened { s.tape with stream := s.tape.stream.openFile } }, ?_, ?_,
      .inr hstart⟩
    · simp only [reOpen, Run.bind_apply, Run.get_apply, hopen]
      rfl
    · rw [himage, hstart]
      refine .between (.inl ?_) (.inl ⟨rfl, fun _ => .inl rfl⟩)
      simp [opened, reset, tapeImage, Head.items, position]

/-- Opening the tape changes nothing that a poke depends on. -/
theorem poke_reOpen {s' : PokedTapFile} (hopen : reOpen s = (.ok (), s')) (data : List (BitVec 8)) :
    poke s' data = poke s data := by
  rw [reOpen, Run.bind_apply, Run.get_apply] at hopen
  dsimp only at hopen
  split at hopen
  · rw [onTape] at hopen
    rw [← (Prod.mk.inj hopen).2]
    rfl
  · rw [← (Prod.mk.inj hopen).2]

/-- `tellg` of a tape on the drive: -1 once the end has been noticed. -/
theorem tellg_described (hd : Describes s.tape h) :
    tellg s = (.ok (if s.tape.stream.eofbit then -1 else BitVec.ofNat 64 (headPosition h)), s) := by
  rcases stream_cases hd with hs | hs
  · rw [tellg_ready hs, hs, FileStream.eofbit_ready]
    rfl
  · obtain ⟨⟨stream, dir, left, start, valid, mark⟩, sizes, idx, ofs, pokes⟩ := s
    dsimp only at hs
    subst hs
    simp [tellg, Run.bind_apply, onTape, onStream_apply, Run.pure_apply]

/-- A tape on the drive can be asked for its state. -/
theorem getState_described {t : TapFile} (hd : Describes t h) :
    ∃ state, TapFile.getState t = (.ok state, t) := by
  rcases stream_cases hd with hs | hs
  · obtain ⟨stream, dir, left, start, valid, mark⟩ := t
    dsimp only at hs
    subst hs
    have hseen : TapFile.getState ⟨.ready (tapeImage h) (headPosition h), dir, left, start, valid,
        mark⟩ = ((if (headPosition h : Int) = 0 then pure .BeginningOfTape
          else if mark then pure .EndOfFile
          else if !valid then pure .EndOfRecord
          else if left = 0 && dir = .Backward then pure .EndOfRecord else pure .Normal) : Tap TapState)
        ⟨.ready (tapeImage h) (headPosition h), dir, left, start, valid, mark⟩ := by
      simp [TapFile.getState, Run.bind_apply, Run.get_apply, fileExists, onStream_apply]
    rw [hseen]
    repeat' split
    all_goals exact ⟨_, rfl⟩
  · exact ⟨_, getState_ended hs⟩

/-! ## 2. Forward -/

/-- What is left of the record under the head fits in a word together with the length behind it. -/
def RestFits : TapHead → Prop
  | .inside _ _ todo _ => todo.length + 4 < 2 ^ 32
  | .between _ _ => True

/-- What `GetState` says after a step forward. -/
def stateAhead : TapHead → TapState
  | .between _ [] => .EndOfTape
  | .between _ (.mark :: _) => .EndOfFile
  | _ => .EndOfRecord

/-- The tape where a step or a read ends that finds nothing. -/
theorem ended_tape (hd : Describes s.tape (.between behind [])) :
    ∃ t, t = ({ s.tape with
        stream := .ended (image itemBytes behind.reverse), mLastCmdDirection := .Forward } : TapFile) ∧
      Describes t (.between behind []) ∧ TapFile.getState t = (.ok .EndOfTape, t) :=
  ⟨_, rfl, describes_ended hd, getState_ended rfl⟩

/-- At the end of the tape: the file is counted as one that has been passed. -/
theorem seekToNextRecord_atEnd (hd : Describes s.tape (.between behind [])) :
    ∃ t, seekToNextRecord s = (.ok (), nextFile { s with tape := t }) ∧
      Describes t (.between behind []) ∧ TapFile.getState t = (.ok .EndOfTape, t) := by
  have hmove := seekToNextRecord_end hd
  obtain ⟨t, ht, hd', hstate⟩ := ended_tape hd
  rw [← ht] at hmove
  refine ⟨t, ?_, hd', hstate⟩
  have hafter := @tellg_described { s with tape := t } _ hd'
  have hget := getState_onTape s hstate
  simp only [seekToNextRecord, Run.bind_apply, tellg_described hd, Run.get_apply, onTape_ok hmove,
    hafter, hget]
  rfl

/-- **A step forward** goes where the head goes, and `GetState` tells what was passed. -/
theorem seekToNextRecord_steps (hd : Describes s.tape h) (hfits : ∀ x ∈ h.items, ItemFits x)
    (hlen : (tapeImage h).length < 2 ^ 63) (hrest : RestFits h) :
    ∃ s', seekToNextRecord s = (.ok (), s') ∧ Describes s'.tape h.next ∧
      getState s' = (.ok (stateAhead h), s') := by
  have hshort : (tapeImage h).length < 2 ^ 64 := lt_trans hlen (by decide)
  rcases h with ⟨behind, _ | ⟨data | _, front⟩⟩ | ⟨behind, done, todo, front⟩
  · obtain ⟨t, hseek, hd', hstate⟩ := seekToNextRecord_atEnd hd
    exact ⟨_, hseek, hd', onTape_ok hstate⟩
  · obtain ⟨t, hmove, harr⟩ := seekToNextRecord_over hd (hfits (.record data) (by simp [Head.items]))
    have hbase : (if inRecord s.tape then BitVec.ofNat 64 (position behind) - 4
        else BitVec.ofNat 64 (position behind)) = BitVec.ofNat 64 (position behind) :=
      if_neg (by rw [inRecord, flags_between hd]; exact Bool.false_ne_true)
    exact ⟨_, seekToNextRecord_advance (stream_front hd) harr.stream hbase hmove
      (getState_record harr) (position_record data behind) (headPosition_next_lt hshort),
      harr.describes, onTape_ok (getState_record harr)⟩
  · obtain ⟨t, hmove, harr⟩ := seekToNextRecord_over hd trivial
    exact ⟨_, seekToNextRecord_nextFile (stream_front hd) harr.stream hmove (getState_mark harr),
      harr.describes, onTape_ok (getState_mark harr)⟩
  · obtain ⟨t, hmove, harr⟩ := seekToNextRecord_out hd hrest
    have hready : s.tape.stream =
        .ready (tapeImage (.inside behind done todo front)) (position behind + 4 + done.length) := by
      rcases hd with _ | ⟨hstream, -, -, -, -, -, -⟩
      exact hstream
    have hbase : (if inRecord s.tape then BitVec.ofNat 64 (position behind + 4 + done.length) - 4
        else BitVec.ofNat 64 (position behind + 4 + done.length)) =
          BitVec.ofNat 64 (position behind + done.length) := by
      rw [inRecord_inside hd, if_pos rfl]
      exact ofNat_sub_length _ _
    exact ⟨_, seekToNextRecord_advance hready harr.stream hbase hmove (getState_record harr)
      headPosition_record (headPosition_next_lt hshort), harr.describes,
      onTape_ok (getState_record harr)⟩

/-- `TapFile_c::SeekToNextRecord` where the sum of the lengths wraps: the head moves by `w`. -/
theorem seekToNextRecord_wraps {w : Nat} (hd : Describes t (.inside behind done todo front))
    (hw : todo.length + 4 = 2 ^ 32 + w) :
    ∃ t', TapFile.seekToNextRecord t = (.ok (), t') ∧
      t'.stream = .ready (tapeImage (.inside behind done todo front))
        (position behind + 4 + done.length + w) ∧
      TapFile.getState t' = (.ok .EndOfRecord, t') := by
  obtain ⟨stream, dir, left, start, valid, mark⟩ := t
  rcases hd with _ | ⟨hstream, hvalid, heof, hleft, -, -, -⟩
  dsimp only at hstream hvalid heof hleft
  rw [tapeImage, Head.items]
  generalize image itemBytes (behind.reverse ++ .record (done ++ todo) :: front) = img at hstream ⊢
  subst hstream hvalid heof
  have hn := left.isLt
  have hseek : FileStream.seekBy ((left + 4#32).toNat : Int)
      (.ready img (position behind + 4 + done.length)) =
        .ready img (position behind + 4 + done.length + w) := by
    refine FileStream.seekBy_ready ?_
    rw [BitVec.toNat_add, hleft, show (4#32).toNat = 4 from rfl, hw]
    omega
  have hne : (position behind : Int) + 4 + done.length + w ≠ 0 := by omega
  refine ⟨⟨.ready img (position behind + 4 + done.length + w), .Forward, left, start, false, false⟩,
    ?_, rfl, ?_⟩
  · simp [-BitVec.toNat_add, TapFile.seekToNextRecord, Run.bind_apply, setDirection_apply,
      Run.get_apply, fileExists, inRecord, modifyStream_apply, hseek, throwIfFail_ready,
      Run.modify_apply]
  · simp [TapFile.getState, Run.bind_apply, Run.get_apply, fileExists, onStream_apply,
      Run.pure_apply, hne]

/-- A step in a file that is shorter than the lengths around a record fails the assertion. -/
theorem seekToNextRecord_fails {pos after : CInt} (htell : tellg s = (.ok pos, s))
    (hmove : TapFile.seekToNextRecord s.tape = (.ok (), t))
    (hafter : tellg { s with tape := t } = (.ok after, { s with tape := t }))
    (hstate : TapFile.getState t = (.ok .EndOfRecord, t))
    (hshort : ¬ (if inRecord s.tape then pos - 4 else pos) + 8 ≤ after) :
    seekToNextRecord s = (.error .assertion, { s with tape := t }) := by
  have hget := getState_onTape s hstate
  simp only [seekToNextRecord, Run.bind_apply, htell, Run.get_apply, onTape_ok hmove, hafter, hget,
    hshort, pokedAssert]
  rfl

/-- Where the rest of the record is too long the head does not get out of it. -/
theorem seekToNextRecord_refuses (hd : Describes s.tape h) (hlen : (tapeImage h).length < 2 ^ 63)
    (hrest : ¬ RestFits h) : ∃ s', seekToNextRecord s = (.error .assertion, s') := by
  rcases h with ⟨behind, front⟩ | ⟨behind, done, todo, front⟩
  · exact absurd trivial hrest
  · have hlong : 2 ^ 32 ≤ todo.length + 4 := Nat.le_of_not_lt hrest
    have hle : position behind + 4 + done.length ≤ _ :=
      headPosition_le (.inside behind done todo front)
    obtain ⟨w, hw⟩ := Nat.exists_eq_add_of_le hlong
    obtain ⟨t, hmove, hstream, hstate⟩ := seekToNextRecord_wraps hd hw
    have hin := inRecord_inside hd
    obtain ⟨hready, hsmall⟩ : s.tape.stream =
        .ready (tapeImage (.inside behind done todo front)) (position behind + 4 + done.length) ∧
          w < 4 := by
      rcases hd with _ | ⟨hstream, -, -, hleft, -, -, -⟩
      have hlt := s.tape.mCurRecordLeft.isLt
      exact ⟨hstream, by omega⟩
    have hafter := @tellg_ready { s with tape := t } _ _ hstream
    refine ⟨_, seekToNextRecord_fails (tellg_ready hready) hmove hafter hstate ?_⟩
    -- the head is three bytes further at most, and the lengths take eight
    have hbase : BitVec.ofNat 64 (position behind + 4 + done.length) - 4 + 8 =
        BitVec.ofNat 64 (position behind + done.length + 8) := by
      rw [BitVec.ofNat_add _ 8]
      exact congrArg (· + 8) (ofNat_sub_length _ _)
    rw [hin, if_pos rfl, hbase, BitVec.le_def, toNat_ofNat_lt (by omega), toNat_ofNat_lt (by omega)]
    omega

theorem read_atEnd {aMaxSize : CAddr} (hd : Describes s.tape (.between behind []))
    (hpos : 0 < aMaxSize.toNat) :
    ∃ t, read aMaxSize s = (.ok (poke s []), nextFile { s with tape := t }) ∧
      Describes t (.between behind []) := by
  have hmove := read_end hd hpos
  obtain ⟨t, ht, hd', hstate⟩ := ended_tape hd
  rw [← ht] at hmove
  refine ⟨t, ?_, hd'⟩
  have hafter := @tellg_described { s with tape := t } _ hd'
  have hget := getState_onTape s hstate
  simp only [read, Run.bind_apply, tellg_described hd, Run.get_apply, onTape_ok hmove, hafter, hget]
  rfl

/-- **Reading** reads what the head reads, with the pokes at the position that is kept. -/
theorem read_steps {aMaxSize : CAddr} (hd : Describes s.tape h) (hfits : ∀ x ∈ h.items, ItemFits x)
    (hlen : (tapeImage h).length < 2 ^ 63) (hpos : 0 < aMaxSize.toNat) :
    ∃ s', read aMaxSize s = (.ok (poke s (h.read aMaxSize.toNat).1), s') ∧
      Describes s'.tape (h.read aMaxSize.toNat).2 := by
  have hroom := (headPosition_le h.next).trans_lt ((length_tapeImage_next h).trans_lt hlen)
  rcases h with ⟨behind, _ | ⟨data | _, front⟩⟩ | ⟨behind, done, todo, front⟩
  · obtain ⟨t, hread, hd'⟩ := read_atEnd hd hpos
    exact ⟨_, hread, hd'⟩
  · have hx : ItemFits (.record data) := hfits (.record data) (by simp [Head.items])
    rw [Head.next, headPosition, position_record] at hroom
    have hout : (!s.tape.mCurRecordValid || s.tape.mCurRecordEof) = true := by
      rw [← Bool.not_eq_false', Bool.not_or, Bool.not_not]
      exact flags_between hd
    have hbase : (if !s.tape.mCurRecordValid || s.tape.mCurRecordEof
        then BitVec.ofNat 64 (position behind) + 4 else BitVec.ofNat 64 (position behind)) =
          BitVec.ofNat 64 (position behind + 4 + ([] : List (BitVec 8)).length) := by
      rw [hout, if_pos rfl, List.length_nil, Nat.add_zero, BitVec.ofNat_add]
      rfl
    obtain ⟨t, hread, harr⟩ := read_moves (stream_front hd) hbase (read_record hd hx hpos)
      (toNat_itemSize hx) (List.ne_nil_of_length_pos hx.1) hpos (by rw [List.nil_append]; omega)
    exact ⟨_, hread, harr.describes⟩
  · obtain ⟨t, hmove, harr⟩ := read_mark hd hpos
    exact ⟨_, read_nextFile (stream_front hd) harr.stream hmove (getState_mark harr), harr.describes⟩
  · obtain ⟨left, hleft, hread⟩ := read_in hd hpos
    obtain ⟨hstream, hvalid, heof, htodo⟩ : s.tape.stream =
        .ready (tapeImage (.inside behind done todo front)) (position behind + 4 + done.length) ∧
          s.tape.mCurRecordValid = true ∧ s.tape.mCurRecordEof = false ∧ todo ≠ [] := by
      rcases hd with _ | ⟨hstream, hvalid, heof, -, -, -, htodo⟩
      exact ⟨hstream, hvalid, heof, htodo⟩
    rw [Head.next, headPosition, position_record] at hroom
    have hbase : (if !s.tape.mCurRecordValid || s.tape.mCurRecordEof
        then BitVec.ofNat 64 (position behind + 4 + done.length) + 4
        else BitVec.ofNat 64 (position behind + 4 + done.length)) =
          BitVec.ofNat 64 (position behind + 4 + done.length) := by
      rw [hvalid, heof, Bool.not_true, Bool.or_false, if_neg Bool.false_ne_true]
    obtain ⟨t, hmove, harr⟩ := read_moves hstream hbase hread hleft htodo hpos (by omega)
    exact ⟨_, hmove, harr.describes⟩

/-- In front of a record too long for the sum of the lengths the tape is cut behind its start, and the
    new record is put there. -/
theorem writeRecordInternal_wraps {x : TapItem} {old : List (BitVec 8)}
    (hd : Describes t (.between behind (.record old :: front))) (hx : ItemFits x)
    (hold : ItemFits (.record old)) (hlong : 2 ^ 32 ≤ old.length + 4) (hne : x.length ≠ old.length) :
    ∃ t', writeRecordInternal (itemData x) t = (.ok (), t') := by
  have hout := flags_between hd
  have hstream := stream_front hd
  have hfront := stands_front behind (.record old) front
  have htrailer := stands_trailer hfront
  obtain ⟨w, hw⟩ := Nat.exists_eq_add_of_le hlong
  have hlt : old.length < 2 ^ 32 := hold.2
  obtain ⟨stream, dir, left, start, valid, mark⟩ := t
  dsimp only at hout hstream
  generalize image itemBytes (behind.reverse ++ .record old :: front) = img at *
  generalize position behind = p at *
  subst hstream
  have hzero := itemSize_ne_zero hold
  have hskip := seekBy_data (p := p) hold img
  have hback : FileStream.seekBy (-((itemSize (.record old) + 4#32).toNat : Int))
      (.ready img (p + 4 + old.length + 4)) = .ready img (p + 4 + old.length - w + 4) := by
    refine FileStream.seekBy_ready ?_
    rw [BitVec.toNat_add, toNat_itemSize hold, Item.length, show (4#32).toNat = 4 from rfl, hw]
    omega
  have hfour : FileStream.seekBy (-4) (.ready img (p + 4 + old.length - w + 4)) =
      .ready img (p + 4 + old.length - w) := seekBy_back 4
  have hsame : itemSize (.record old) ≠ itemSize x := fun h =>
    hne ((itemSize_eq_iff hx hold).1 h).symm
  have hle : p + 4 + old.length - w ≤ img.length := by
    have hend := htrailer.le_length
    rw [length_lengthBytes] at hend
    omega
  have hcut : truncateUnlessSame (itemSize x) ⟨.ready img p, dir, left, start, valid, mark⟩ =
      (.ok (), ⟨.ready (img.take (p + 4 + old.length - w)) (p + 4 + old.length - w), dir, 0, 0, false,
        mark⟩) := by
    simp [-BitVec.toNat_add, truncateUnlessSame, Run.bind_apply, readHeader_item hfront, hzero, hskip,
      readLength_stands htrailer, hback, hsame, modifyStream_apply, hfour, throwIfFail_ready,
      truncate_ready hle]
  rw [writeRecordInternal_ready hout, itemSize_itemData, Run.bind_apply_ok hcut]
  have hend : p + 4 + old.length - w ≤ (img.take (p + 4 + old.length - w)).length := by
    rw [List.length_take_of_le hle]
  cases x with
  | record data => exact ⟨_, putItem_record hx hend⟩
  | mark => exact ⟨_, putItem_mark hend⟩

/-- **Writing** puts the record at the head, if the record in front of it is not too long; a short
    record is written in any case. -/
theorem writeRecord_steps (hd : Describes s.tape h) (hfits : ∀ x ∈ h.items, ItemFits x)
    (hne : data ≠ []) (hdata : data.length + 4 < 2 ^ 32) :
    ∃ s', writeRecord data s = (.ok (), s') ∧
      (WriteSafe h → Describes s'.tape (h.write (.record data))) := by
  have hx : ItemFits (.record data) := ⟨List.length_pos_of_ne_nil hne, by omega⟩
  have hd' := describes_setDirection hd .Forward
  by_cases hsafe : WriteSafe h
  · obtain ⟨t, hwrite, hdt⟩ := writeRecordInternal_describes hd' hfits hx hsafe
    rw [← writeRecord_cons hne] at hwrite
    exact ⟨_, onTape_ok hwrite, fun _ => hdt⟩
  · obtain ⟨t, hwrite⟩ : ∃ t, TapFile.writeRecord data s.tape = (.ok (), t) := by
      rw [writeRecord_cons hne]
      rcases h with ⟨behind, _ | ⟨old | _, front⟩⟩ | ⟨behind, done, todo, front⟩
      · exact absurd trivial hsafe
      · have hlong : 2 ^ 32 ≤ old.length + 4 := Nat.le_of_not_lt hsafe
        exact writeRecordInternal_wraps hd' hx (hfits (.record old) (by simp [Head.items])) hlong
          (show data.length ≠ old.length by omega)
      · exact absurd (show Item.mark.length + 4 < 2 ^ 32 by decide) hsafe
      · exact absurd trivial hsafe
    exact ⟨_, onTape_ok hwrite, fun h => absurd h hsafe⟩

/-! ## 3. Backward -/

/-- What a step backward looks at besides the head: the position that is kept, and whether the end
    of the tape has been noticed. -/
structure Kept where
  sizes : List CInt
  idx : CInt
  ofs : CInt
  ended : Bool

def kept (s : PokedTapFile) : Kept where
  sizes := s.mFileSizes
  idx := s.mCurFileIdx
  ofs := s.mCurFileOfs
  ended := s.tape.stream.eofbit

/-- The bytes that `SeekToPrevRecord` takes itself to go back over: the data of the record, but once
    the end of the tape has been noticed all that is left of 64 bits. -/
def passedBack (k : Kept) : TapHead → CInt
  | .between (.record data :: behind) _ =>
    if k.ended then -1 - BitVec.ofNat 64 (position behind) - 8 else BitVec.ofNat 64 data.length
  | .inside _ done _ _ => BitVec.ofNat 64 done.length
  | .between _ _ => 0

/-- The position that is kept passes the assertions of `SeekToPrevRecord`. -/
def BacksOver (k : Kept) : TapHead → Prop
  | .between [] _ => True
  | .between (.mark :: behind) _ => behind = [] ∨ 0 < k.idx ∧ (k.idx - 1).toNat < k.sizes.length
  | .between (.record data :: behind) front =>
    behind = [] ∨ k.ofs ≤ passedBack k (.between (.record data :: behind) front)
  | .inside behind done todo front =>
    behind = [] ∨ k.ofs ≤ passedBack k (.inside behind done todo front)

instance (k : Kept) : (h : TapHead) → Decidable (BacksOver k h)
  | .between [] _ => .isTrue trivial
  | .between (.mark :: behind) _ =>
    inferInstanceAs (Decidable (behind = [] ∨ 0 < k.idx ∧ (k.idx - 1).toNat < k.sizes.length))
  | .between (.record data :: behind) front => inferInstanceAs (Decidable
      (behind = [] ∨ k.ofs ≤ passedBack k (.between (.record data :: behind) front)))
  | .inside behind done todo front => inferInstanceAs (Decidable
      (behind = [] ∨ k.ofs ≤ passedBack k (.inside behind done todo front)))

/-- What is kept after a step back in a file. -/
def Kept.back (k : Kept) (h : TapHead) : Kept :=
  { k with ofs := k.ofs - passedBack k h, ended := false }

/-- What `GetState` says after a step backward. -/
def stateBehind : TapHead → TapState
  | .between [] _ => .BeginningOfTape
  | .between [_] _ => .BeginningOfTape
  | .between (.mark :: _) _ => .EndOfFile
  | .inside [] _ _ _ => .BeginningOfTape
  | _ => .EndOfRecord

/-- The tape after a step backward from `h`. -/
structure SteppedBack (s s' : PokedTapFile) (h : TapHead) : Prop where
  describes : Describes s'.tape h.prev
  state : getState s' = (.ok (stateBehind h), s')
  kept : stateBehind h = .EndOfRecord → kept s' = (kept s).back h

section back
variable {pos after : CInt} (htell : tellg s = (.ok pos, s))
  (hmove : TapFile.seekToPrevRecord s.tape = (.ok (), t))
  (hafter : tellg { s with tape := t } = (.ok after, { s with tape := t }))
include htell hmove hafter

/-- Over a mark, into the file in front of it if there is one. -/
theorem seekToPrevRecord_overMark (hstate : TapFile.getState t = (.ok .EndOfFile, t)) :
    (0 < s.mCurFileIdx ∧ (s.mCurFileIdx - 1).toNat < s.mFileSizes.length → ∃ size,
      seekToPrevRecord s = (.ok (), { s with
        tape := t, mCurFileIdx := s.mCurFileIdx - 1, mCurFileOfs := size })) ∧
    (¬ (0 < s.mCurFileIdx ∧ (s.mCurFileIdx - 1).toNat < s.mFileSizes.length) →
      ∃ e s', seekToPrevRecord s = (.error e, s')) := by
  have hget := getState_onTape s hstate
  constructor
  · intro ⟨hpos, hsize⟩
    refine ⟨s.mFileSizes.get ⟨_, hsize⟩, ?_⟩
    have hentry := List.getElem?_eq_getElem hsize
    simp only [seekToPrevRecord, Run.bind_apply, htell, Run.get_apply, onTape_ok hmove, hafter, hget,
      hpos, pokedAssert, decide_true, if_true, Run.pure_apply, Run.modify_apply, hentry]
    rfl
  · intro hnot
    by_cases hpos : 0 < s.mCurFileIdx
    · have hentry : s.mFileSizes[(s.mCurFileIdx - 1).toNat]? = none :=
        List.getElem?_eq_none (Nat.le_of_not_lt fun hsize => hnot ⟨hpos, hsize⟩)
      refine ⟨.undefinedBehaviour, { s with tape := t, mCurFileIdx := s.mCurFileIdx - 1 }, ?_⟩
      simp only [seekToPrevRecord, Run.bind_apply, htell, Run.get_apply, onTape_ok hmove, hafter,
        hget, hpos, pokedAssert, decide_true, if_true, Run.pure_apply, Run.modify_apply, hentry]
      rfl
    · refine ⟨.assertion, { s with tape := t }, ?_⟩
      simp only [seekToPrevRecord, Run.bind_apply, htell, Run.get_apply, onTape_ok hmove, hafter,
        hget, hpos, pokedAssert, decide_false]
      rfl

/-- In a file, by `n` bytes as it takes them. -/
theorem seekToPrevRecord_inFile {n : CInt}
    (hstate : TapFile.getState t = (.ok .EndOfRecord, t))
    (hroom : after + 8 ≤ if s.tape.mCurRecordValid then pos + 4 else pos)
    (hn : (if s.tape.mCurRecordValid then pos + 4 else pos) - after - 8 = n) :
    (s.mCurFileOfs ≤ n →
      seekToPrevRecord s = (.ok (), { s with tape := t, mCurFileOfs := s.mCurFileOfs - n })) ∧
    (¬ s.mCurFileOfs ≤ n → ∃ e s', seekToPrevRecord s = (.error e, s')) := by
  have hget := getState_onTape s hstate
  constructor
  · intro hofs
    simp only [seekToPrevRecord, Run.bind_apply, htell, Run.get_apply, onTape_ok hmove, hafter, hget,
      hroom, hn, hofs, pokedAssert, decide_true, if_true, Run.pure_apply, Run.modify_apply]
  · intro hofs
    refine ⟨.assertion, { s with tape := t }, ?_⟩
    simp only [seekToPrevRecord, Run.bind_apply, htell, Run.get_apply, onTape_ok hmove, hafter, hget,
      hroom, hn, hofs, pokedAssert, decide_true, if_true, Run.pure_apply, decide_false]
    rfl

end back

theorem steppedBack_loadPoint {h' : TapHead} {m : Bool} {pos : CInt} (htell : tellg s = (.ok pos, s))
    (hmove : TapFile.seekToPrevRecord s.tape = (.ok (), t)) (harr : Arrives t h' m)
    (hprev : h.prev = h') (hstate : TapFile.getState t = (.ok .BeginningOfTape, t))
    (hbehind : stateBehind h = .BeginningOfTape) :
    ∃ s', seekToPrevRecord s = (.ok (), s') ∧ SteppedBack s s' h := by
  refine ⟨_, seekToPrevRecord_loadPoint htell hmove (tellg_ready harr.stream) hstate, ?_⟩
  refine ⟨hprev ▸ harr.describes, ?_, fun hne => ?_⟩
  · rw [hbehind]
    exact onTape_ok hstate
  · rw [hbehind] at hne
    cases hne

theorem steppedBack_inFile {h' : TapHead} {pos : CInt} (htell : tellg s = (.ok pos, s))
    (hmove : TapFile.seekToPrevRecord s.tape = (.ok (), t)) (harr : Arrives t h' false)
    (hprev : h.prev = h') (hstate : TapFile.getState t = (.ok .EndOfRecord, t))
    (hbehind : stateBehind h = .EndOfRecord)
    (hroom : BitVec.ofNat 64 (headPosition h') + 8 ≤
      if s.tape.mCurRecordValid then pos + 4 else pos)
    (hn : (if s.tape.mCurRecordValid then pos + 4 else pos) - BitVec.ofNat 64 (headPosition h') - 8 =
      passedBack (kept s) h)
    (hback : BacksOver (kept s) h ↔ s.mCurFileOfs ≤ passedBack (kept s) h) :
    (BacksOver (kept s) h → ∃ s', seekToPrevRecord s = (.ok (), s') ∧ SteppedBack s s' h) ∧
      (¬ BacksOver (kept s) h → ∃ e s', seekToPrevRecord s = (.error e, s')) := by
  have hafter := @tellg_ready { s with tape := t } _ _ harr.stream
  obtain ⟨hok, herror⟩ := seekToPrevRecord_inFile htell hmove hafter hstate hroom hn
  refine ⟨fun hover => ⟨_, hok (hback.mp hover), hprev ▸ harr.describes, ?_, fun _ => ?_⟩,
    fun hnot => herror (mt hback.mpr hnot)⟩
  · rw [hbehind]
    exact onTape_ok hstate
  · rw [kept, Kept.back, harr.stream, FileStream.eofbit_ready]
    rfl

/-- The room behind a record, and what is taken for its data. -/
theorem room_record {front : List TapItem} {x : TapItem}
    (hd : Describes s.tape (.between (.record data :: x :: behind) front))
    (hlen : (tapeImage (.between (.record data :: x :: behind) front)).length < 2 ^ 63) :
    ∃ pos, tellg s = (.ok pos, s) ∧
      (BitVec.ofNat 64 (position (x :: behind)) + 8 ≤
        if s.tape.mCurRecordValid then pos + 4 else pos) ∧
      (if s.tape.mCurRecordValid then pos + 4 else pos) - BitVec.ofNat 64 (position (x :: behind)) - 8 =
        passedBack (kept s) (.between (.record data :: x :: behind) front) := by
  have hvalid : s.tape.mCurRecordValid = false := by
    rcases hd with ⟨-, ⟨hvalid, -⟩ | ⟨-, -, -, -, hmark⟩⟩
    · exact hvalid
    · exact absurd hmark (by simp)
  have hle : position (.record data :: x :: behind) ≤ _ :=
    headPosition_le (.between (.record data :: x :: behind) front)
  rw [position_record] at hle
  have height : BitVec.ofNat 64 (position (x :: behind)) + 8 =
      BitVec.ofNat 64 (position (x :: behind) + 8) := by
    rw [BitVec.ofNat_add]
    rfl
  refine ⟨_, tellg_described hd, ?_, ?_⟩
  · rw [hvalid, if_neg Bool.false_ne_true, height]
    cases s.tape.stream.eofbit with
    | false => exact ofNat_le (by rw [headPosition, position_record]; omega) (by
        rw [headPosition, position_record]; omega)
    | true =>
      rw [if_pos rfl, BitVec.le_def, toNat_ofNat_lt (by omega)]
      have hmax : (-1 : CInt).toNat = 2 ^ 64 - 1 := rfl
      omega
  · rw [hvalid, if_neg Bool.false_ne_true, passedBack,
      show (kept s).ended = s.tape.stream.eofbit from rfl]
    cases s.tape.stream.eofbit with
    | false =>
      rw [if_neg Bool.false_ne_true, if_neg Bool.false_ne_true, BitVec.sub_sub, height, headPosition,
        position_record, ofNat_sub]
    | true => rfl

/-- The room in a record, and what is taken for the part of it that has been read. -/
theorem room_inside {x : TapItem} (hd : Describes s.tape (.inside (x :: behind) done todo front))
    (hlen : (tapeImage (.inside (x :: behind) done todo front)).length < 2 ^ 63) :
    ∃ pos, tellg s = (.ok pos, s) ∧
      (BitVec.ofNat 64 (position (x :: behind)) + 8 ≤
        if s.tape.mCurRecordValid then pos + 4 else pos) ∧
      (if s.tape.mCurRecordValid then pos + 4 else pos) - BitVec.ofNat 64 (position (x :: behind)) - 8 =
        passedBack (kept s) (.inside (x :: behind) done todo front) := by
  obtain ⟨hstream, hvalid⟩ : s.tape.stream = .ready (tapeImage (.inside (x :: behind) done todo front))
      (position (x :: behind) + 4 + done.length) ∧ s.tape.mCurRecordValid = true := by
    rcases hd with _ | ⟨hstream, hvalid, -, -, -, -, -⟩
    exact ⟨hstream, hvalid⟩
  have hle : position (x :: behind) + 4 + done.length ≤ _ :=
    headPosition_le (.inside (x :: behind) done todo front)
  have height : BitVec.ofNat 64 (position (x :: behind)) + 8 =
      BitVec.ofNat 64 (position (x :: behind) + 8) := by
    rw [BitVec.ofNat_add]
    rfl
  have hbase : BitVec.ofNat 64 (position (x :: behind) + 4 + done.length) + 4 =
      BitVec.ofNat 64 (position (x :: behind) + 8 + done.length) := by
    rw [show position (x :: behind) + 8 + done.length =
      position (x :: behind) + 4 + done.length + 4 by omega, BitVec.ofNat_add _ 4]
    rfl
  refine ⟨_, tellg_ready hstream, ?_, ?_⟩
  · rw [hvalid, if_pos rfl, height, hbase]
    exact ofNat_le (by omega) (by omega)
  · rw [hvalid, if_pos rfl, hbase, BitVec.sub_sub, height, ofNat_sub, passedBack]

/-- **A step backward** goes where the head goes, if the position that is kept lets it. -/
theorem seekToPrevRecord_step (hd : Describes s.tape h) (hfits : ∀ x ∈ h.items, ItemFits x)
    (hshort : ∀ x ∈ h.items, x.length + 8 < 2 ^ 32) (hlen : (tapeImage h).length < 2 ^ 63) :
    (BacksOver (kept s) h → ∃ s', seekToPrevRecord s = (.ok (), s') ∧ SteppedBack s s' h) ∧
      (¬ BacksOver (kept s) h → ∃ e s', seekToPrevRecord s = (.error e, s')) := by
  have htell := tellg_described hd
  rcases h with ⟨_ | ⟨data | _, behind⟩, front⟩ | ⟨behind, done, todo, front⟩
  · obtain ⟨t, hmove, harr⟩ := seekToPrevRecord_stay hd
    exact ⟨fun _ => steppedBack_loadPoint htell hmove harr rfl (getState_start harr) rfl,
      fun hnot => absurd trivial hnot⟩
  · have hx : Item.record data ∈ Head.items (.between (.record data :: behind) front) := by
      simp [Head.items]
    obtain ⟨t, hmove, harr⟩ := seekToPrevRecord_record hd (hfits _ hx) (hshort _ hx)
    rcases behind with _ | ⟨x, behind⟩
    · exact ⟨fun _ => steppedBack_loadPoint htell hmove harr rfl (getState_start harr) rfl,
        fun hnot => absurd (.inl rfl) hnot⟩
    · obtain ⟨pos, hpos, hroom, hn⟩ := room_record hd hlen
      exact steppedBack_inFile hpos hmove harr rfl (getState_record harr) rfl hroom hn
        (or_iff_right (List.cons_ne_nil x behind))
  · obtain ⟨t, hmove, harr⟩ := seekToPrevRecord_mark hd
    rcases behind with _ | ⟨x, behind⟩
    · exact ⟨fun _ => steppedBack_loadPoint htell hmove harr rfl (getState_start harr) rfl,
        fun hnot => absurd (.inl rfl) hnot⟩
    · have hafter := @tellg_ready { s with tape := t } _ _ harr.stream
      obtain ⟨hok, herror⟩ := seekToPrevRecord_overMark htell hmove hafter (getState_mark harr)
      refine ⟨fun hback => ?_, fun hnot => herror fun hkept => hnot (.inr hkept)⟩
      obtain ⟨size, hseek⟩ := hok (hback.resolve_left (List.cons_ne_nil x behind))
      refine ⟨_, hseek, harr.describes, onTape_ok (getState_mark harr), fun hstate => ?_⟩
      cases hstate
  · obtain ⟨t, hmove, harr⟩ := seekToPrevRecord_out hd
    rcases behind with _ | ⟨x, behind⟩
    · exact ⟨fun _ => steppedBack_loadPoint htell hmove harr rfl (getState_start harr) rfl,
        fun hnot => absurd (.inl rfl) hnot⟩
    · obtain ⟨pos, hpos, hroom, hn⟩ := room_inside hd hlen
      exact steppedBack_inFile hpos hmove harr rfl (getState_record harr) rfl hroom hn
        (or_iff_right (List.cons_ne_nil x behind))

end steps

/-! ## 4. Spacing backward -/

/-- There is a record to go back over. -/
def PassesRecord : TapHead → Prop
  | .between [] _ => False
  | .between (.mark :: _) _ => False
  | _ => True

/-- A step that arrives at the load point passes every assertion. -/
theorem backsOver_loadPoint {h : TapHead} (k : Kept) (hstate : stateBehind h = .BeginningOfTape) :
    BacksOver k h := by
  rcases h with ⟨_ | ⟨_ | _, _ | ⟨x, behind⟩⟩, front⟩ | ⟨_ | ⟨x, behind⟩, done, todo, front⟩
  · trivial
  · exact .inl rfl
  · cases hstate
  · exact .inl rfl
  · cases hstate
  · exact .inl rfl
  · cases hstate

instance : (h : TapHead) → Decidable (PassesRecord h)
  | .between [] _ => .isFalse id
  | .between (.mark :: _) _ => .isFalse id
  | .between (.record _ :: _) _ => .isTrue trivial
  | .inside _ _ _ _ => .isTrue trivial

/-- Going back `n` times, or as far as a mark: no assertion fails, and a step that arrives at the load
    point is the last one and goes over a record. -/
def BackOk : Nat → Kept → TapHead → Prop
  | 0, _, _ => True
  | n + 1, k, h =>
    if stateBehind h = .BeginningOfTape then n = 0 ∧ PassesRecord h
    else BacksOver k h ∧ (stateBehind h = .EndOfRecord → BackOk n (k.back h) h.prev)

def decidableBackOk : (n : Nat) → (k : Kept) → (h : TapHead) → Decidable (BackOk n k h)
  | 0, _, _ => .isTrue trivial
  | n + 1, k, h =>
    have := decidableBackOk n (k.back h) h.prev
    inferInstanceAs (Decidable (if stateBehind h = .BeginningOfTape then n = 0 ∧ PassesRecord h
      else BacksOver k h ∧ (stateBehind h = .EndOfRecord → BackOk n (k.back h) h.prev)))

instance (n : Nat) (k : Kept) (h : TapHead) : Decidable (BackOk n k h) := decidableBackOk n k h

end PokedTapFile

end CraySim
