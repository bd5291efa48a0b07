/-
  Subject:   Where the position in files is right.

  The position that is kept is the number of marks behind the head and the data since the last of
  them, as long as every step is one of those that keep it so.

  * `Tracks` -- the position kept is the one of the head,
  * `KeepsPosition` -- the steps that keep it,
  * `perform_tracks` -- one step; `performAll_tracks` a run,
  * `updateForNewFile_tracks` -- a tape that has just been opened, and the sizes of its files,
  * `poked_run` -- any run of such steps reads the tape with its pokes,
  * `poked_rewind` -- a poke that is missed after a rewind.
-/
import CraySim.PokedTapFile
import CraySim.TapReadBack

namespace CraySim

open ByteFile Framed Tape TapFile

namespace PokedTapFile

/-! ## 1. The position -/

/-- The reader is where `h` says and not behind the end, the position kept is the one of `h`, and
    the sizes and the pokes are those of the tape when it was opened. -/
structure Tracks (sizes : List CInt) (aPokes : Option (List PokeMap)) (s : PokedTapFile)
    (h : TapHead) : Prop where
  describes : Describes s.tape h
  stream : s.tape.stream = .ready (tapeImage h) (headPosition h)
  idx : s.mCurFileIdx = BitVec.ofNat 64 h.fileIdx
  ofs : s.mCurFileOfs = BitVec.ofNat 64 h.fileOfs
  sizes : s.mFileSizes = sizes
  pokes : s.mCurPokeMap = aPokes

/-- A byte at `ofs` of file `idx`, or what it is replaced by. -/
def pokeAt (aPokes : Option (List PokeMap)) (idx ofs : Nat) (b : BitVec 8) : BitVec 8 :=
  match aPokes with
  | none => b
  | some files =>
    match files[idx]? with
    | none => b
    | some pokes => (pokes.lookup (BitVec.ofNat 64 ofs)).getD b

/-- Data that stands in front of the head, with its pokes. -/
def pokedData (aPokes : Option (List PokeMap)) (h : TapHead) (data : List (BitVec 8)) :
    List (BitVec 8) :=
  data.mapIdx fun i b => pokeAt aPokes h.fileIdx (h.fileOfs + i) b

section sizes
variable {a b n : Nat}

theorem ofNat_le (h : a ≤ b) (hb : b < 2 ^ 64) : BitVec.ofNat 64 a ≤ BitVec.ofNat 64 b := by
  rw [BitVec.le_def, BitVec.toNat_ofNat, BitVec.toNat_ofNat, Nat.mod_eq_of_lt hb,
    Nat.mod_eq_of_lt (lt_of_le_of_lt h hb)]
  exact h

theorem ofNat_sub (a n : Nat) : BitVec.ofNat 64 (a + n) - BitVec.ofNat 64 a = BitVec.ofNat 64 n := by
  rw [BitVec.ofNat_add, BitVec.add_comm, BitVec.add_sub_cancel]

theorem toNat_ofNat_lt (h : a < 2 ^ 64) : (BitVec.ofNat 64 a).toNat = a :=
  Nat.mod_eq_of_lt h

end sizes

/-! ## 2. Single steps -/

section steps
variable {s : PokedTapFile} {t : TapFile} {h h' : TapHead} {img : List (BitVec 8)} {p b n : Nat}

theorem onTape_ok {α : Type} {m : Tap α} {a : α} (hm : m s.tape = (.ok a, t)) :
    onTape m s = (.ok a, { s with tape := t }) := by
  rw [onTape, hm]

theorem tellg_ready (hs : s.tape.stream = .ready img p) :
    tellg s = (.ok (BitVec.ofNat 64 p), s) := by
  obtain ⟨⟨stream, dir, left, start, valid, mark⟩, sizes, idx, ofs, pokes⟩ := s
  dsimp only at hs
  subst hs
  simp [tellg, Run.bind_apply, onTape, onStream_apply, Run.pure_apply]

theorem getState_onTape {state : TapState} (s : PokedTapFile)
    (hstate : TapFile.getState t = (.ok state, t)) :
    onTape TapFile.getState { s with tape := t } = (.ok state, { s with tape := t }) :=
  onTape_ok hstate

/-- Backward to the start of the tape, wherever the head was. -/
theorem seekToPrevRecord_loadPoint {pos after : CInt} (htell : tellg s = (.ok pos, s))
    (hmove : TapFile.seekToPrevRecord s.tape = (.ok (), t))
    (hafter : tellg { s with tape := t } = (.ok after, { s with tape := t }))
    (hstate : TapFile.getState t = (.ok .BeginningOfTape, t)) :
    seekToPrevRecord s = (.ok (), { s with tape := t, mCurFileIdx := 0, mCurFileOfs := 0 }) := by
  have hget := getState_onTape s hstate
  simp only [seekToPrevRecord, Run.bind_apply, htell, Run.get_apply, onTape_ok hmove, hafter, hget]
  rfl

/-! A call looks where the head is, moves it, and looks again. -/

section moves
variable {state : TapState} (hs : s.tape.stream = .ready img p)
  (ht : t.stream = .ready (tapeImage h') (headPosition h'))
include hs ht

theorem looks (hstate : TapFile.getState t = (.ok state, t)) :
    tellg s = (.ok (BitVec.ofNat 64 p), s) ∧
      tellg { s with tape := t } = (.ok (BitVec.ofNat 64 (headPosition h')), { s with tape := t }) ∧
      onTape TapFile.getState { s with tape := t } = (.ok state, { s with tape := t }) :=
  ⟨tellg_ready hs, tellg_ready ht, getState_onTape s hstate⟩

/-- Forward to the next file: `Read` and `SeekToNextRecord` over a mark. -/
theorem seekToNextRecord_nextFile (hmove : TapFile.seekToNextRecord s.tape = (.ok (), t))
    (hstate : TapFile.getState t = (.ok .EndOfFile, t)) :
    seekToNextRecord s = (.ok (), nextFile { s with tape := t }) := by
  obtain ⟨htell, hafter, hget⟩ := looks hs ht hstate
  simp only [seekToNextRecord, Run.bind_apply, htell, Run.get_apply, onTape_ok hmove, hafter, hget]
  rfl

/-- Forward in a file, by `n` bytes and the two lengths around them. -/
theorem seekToNextRecord_advance
    (hbase : (if inRecord s.tape then BitVec.ofNat 64 p - 4 else BitVec.ofNat 64 p) =
      BitVec.ofNat 64 b)
    (hmove : TapFile.seekToNextRecord s.tape = (.ok (), t))
    (hstate : TapFile.getState t = (.ok .EndOfRecord, t)) (hn : headPosition h' = b + 8 + n)
    (hlt : headPosition h' < 2 ^ 64) :
    seekToNextRecord s =
      (.ok (), { s with tape := t, mCurFileOfs := s.mCurFileOfs + BitVec.ofNat 64 n }) := by
  obtain ⟨htell, hafter, hget⟩ := looks hs ht hstate
  have height : BitVec.ofNat 64 b + 8 = BitVec.ofNat 64 (b + 8) := by rw [BitVec.ofNat_add]; rfl
  have hle : BitVec.ofNat 64 (b + 8) ≤ BitVec.ofNat 64 (headPosition h') := ofNat_le (by omega) hlt
  have hdiff : BitVec.ofNat 64 (headPosition h') - BitVec.ofNat 64 b - 8 = BitVec.ofNat 64 n := by
    rw [BitVec.sub_sub, height, hn, ofNat_sub]
  simp only [seekToNextRecord, Run.bind_apply, htell, Run.get_apply, onTape_ok hmove, hafter, hget,
    hbase, height, hle, hdiff]
  rfl

/-- Backward over the mark behind file `n`: the offset is the size the file had. -/
theorem seekToPrevRecord_intoFile {size : CInt}
    (hmove : TapFile.seekToPrevRecord s.tape = (.ok (), t))
    (hstate : TapFile.getState t = (.ok .EndOfFile, t))
    (hidx : s.mCurFileIdx = BitVec.ofNat 64 (n + 1))
    (hlt : n + 1 < 2 ^ 64) (hsize : s.mFileSizes[n]? = some size) :
    seekToPrevRecord s =
      (.ok (), { s with tape := t, mCurFileIdx := BitVec.ofNat 64 n, mCurFileOfs := size }) := by
  obtain ⟨htell, hafter, hget⟩ := looks hs ht hstate
  have hpos : 0 < s.mCurFileIdx := by
    rw [hidx, BitVec.lt_def, toNat_ofNat_lt hlt]
    exact Nat.succ_pos n
  have hdec : s.mCurFileIdx - 1 = BitVec.ofNat 64 n := by
    rw [hidx, Nat.add_comm]
    exact ofNat_sub 1 n
  have hget' : s.mFileSizes[(BitVec.ofNat 64 n).toNat]? = some size := by
    rw [toNat_ofNat_lt (by omega), hsize]
  simp only [seekToPrevRecord, Run.bind_apply, htell, Run.get_apply, onTape_ok hmove, hafter, hget,
    hpos, pokedAssert, decide_true, if_true, Run.pure_apply, Run.modify_apply, hget', hdec]

/-- Backward in a file, over all the data of it behind the head. -/
theorem seekToPrevRecord_back
    (hbase : (if s.tape.mCurRecordValid then BitVec.ofNat 64 p + 4 else BitVec.ofNat 64 p) =
      BitVec.ofNat 64 b)
    (hmove : TapFile.seekToPrevRecord s.tape = (.ok (), t))
    (hstate : TapFile.getState t = (.ok .EndOfRecord, t)) (hn : b = headPosition h' + 8 + n)
    (hlt : b < 2 ^ 64) (hofs : s.mCurFileOfs = BitVec.ofNat 64 n) :
    seekToPrevRecord s = (.ok (), { s with tape := t, mCurFileOfs := 0 }) := by
  obtain ⟨htell, hafter, hget⟩ := looks hs ht hstate
  have height : BitVec.ofNat 64 (headPosition h') + 8 = BitVec.ofNat 64 (headPosition h' + 8) := by
    rw [BitVec.ofNat_add]
    rfl
  have hle : BitVec.ofNat 64 (headPosition h' + 8) ≤ BitVec.ofNat 64 b := ofNat_le (by omega) hlt
  have hdiff : BitVec.ofNat 64 b - BitVec.ofNat 64 (headPosition h') - 8 = BitVec.ofNat 64 n := by
    rw [BitVec.sub_sub, height, hn, ofNat_sub]
  have hall : s.mCurFileOfs ≤ BitVec.ofNat 64 n := by
    rw [hofs]
    exact BitVec.le_refl _
  have hzero : s.mCurFileOfs - BitVec.ofNat 64 n = 0 := by rw [hofs, BitVec.sub_self]; rfl
  simp only [seekToPrevRecord, Run.bind_apply, htell, Run.get_apply, onTape_ok hmove, hafter, hget,
    hbase, height, hle, hdiff, hall, pokedAssert, decide_true, if_true, Run.pure_apply,
    Run.modify_apply, hzero]

theorem read_nextFile {aMaxSize : CAddr} {data : List (BitVec 8)}
    (hmove : TapFile.read aMaxSize s.tape = (.ok data, t))
    (hstate : TapFile.getState t = (.ok .EndOfFile, t)) :
    read aMaxSize s = (.ok (poke s data), nextFile { s with tape := t }) := by
  obtain ⟨htell, hafter, hget⟩ := looks hs ht hstate
  simp only [read, Run.bind_apply, htell, Run.get_apply, onTape_ok hmove, hafter, hget]
  rfl

/-- Reading `n` bytes of a record. -/
theorem read_advance {aMaxSize : CAddr} {data : List (BitVec 8)} {a : Nat}
    (hbase : (if !s.tape.mCurRecordValid || s.tape.mCurRecordEof then BitVec.ofNat 64 p + 4
      else BitVec.ofNat 64 p) = BitVec.ofNat 64 b)
    (hmove : TapFile.read aMaxSize s.tape = (.ok data, t))
    (hend : (if !t.mCurRecordValid then BitVec.ofNat 64 (headPosition h') - 4
      else BitVec.ofNat 64 (headPosition h')) = BitVec.ofNat 64 a)
    (hstate : TapFile.getState t = (.ok state, t)) (hne : ¬ (state = .EndOfFile ∨ state = .EndOfTape))
    (hn : a = b + n) (hlt : a < 2 ^ 64) :
    read aMaxSize s = (.ok (poke s data),
      { s with tape := t, mCurFileOfs := s.mCurFileOfs + BitVec.ofNat 64 n }) := by
  obtain ⟨htell, hafter, hget⟩ := looks hs ht hstate
  have hle : BitVec.ofNat 64 b ≤ BitVec.ofNat 64 a := ofNat_le (by omega) hlt
  have hdiff : BitVec.ofNat 64 a - BitVec.ofNat 64 b = BitVec.ofNat 64 n := by rw [hn, ofNat_sub]
  simp only [read, Run.bind_apply, htell, Run.get_apply, onTape_ok hmove, hafter, hget, hbase, hend,
    hle, hdiff, if_neg hne]
  rfl

end moves

end steps

/-! ## 3. Positions -/

section positions
variable {behind front : List TapItem} {done todo data : List (BitVec 8)}

theorem headPosition_le (h : TapHead) : headPosition h ≤ (tapeImage h).length := by
  rcases h with ⟨behind, front⟩ | ⟨behind, done, todo, front⟩
  · exact position_le behind front
  · have hitem := (stands_front behind (.record (done ++ todo)) front).le_length
    rw [length_itemBytes_record, List.length_append] at hitem
    rw [headPosition, tapeImage, Head.items]
    omega

theorem headPosition_next_lt {h : TapHead} (hlen : (tapeImage h).length < 2 ^ 64) :
    headPosition h.next < 2 ^ 64 := by
  refine lt_of_le_of_lt (headPosition_le h.next) ?_
  rwa [tapeImage, Head.items_next]

theorem position_record (data : List (BitVec 8)) (behind : List TapItem) :
    position (.record data :: behind) = position behind + 8 + data.length := by
  rw [position_cons, length_itemBytes_record]
  omega

theorem length_le_position (behind : List TapItem) : behind.length ≤ position behind := by
  rw [← List.length_reverse]
  refine length_le_length_image (fun x => ?_) behind.reverse
  cases x with
  | record data =>
    rw [length_itemBytes_record]
    omega
  | mark =>
    rw [length_itemBytes_mark]
    omega

theorem fileIdx_le (h : TapHead) : h.fileIdx ≤ headPosition h := by
  rcases h with ⟨behind, front⟩ | ⟨behind, done, todo, front⟩
  · exact le_trans List.countP_le_length (length_le_position behind)
  · have hle := le_trans (List.countP_le_length (p := Item.isMark)) (length_le_position behind)
    rw [headPosition, Head.fileIdx]
    omega

theorem fileIdx_mark (behind front : List TapItem) :
    Head.fileIdx (.between (.mark :: behind) front) = behind.countP Item.isMark + 1 :=
  List.countP_cons_of_pos rfl

theorem fileIdx_record (data : List (BitVec 8)) (behind front : List TapItem) :
    Head.fileIdx (.between (.record data :: behind) front) = behind.countP Item.isMark :=
  List.countP_cons_of_neg Bool.false_ne_true

end positions

/-! ## 4. Steps that keep the position -/

section tracks
variable {sizes : List CInt} {aPokes : Option (List PokeMap)} {s : PokedTapFile} {h : TapHead}
  {behind front : List TapItem} {done todo data : List (BitVec 8)} {x : TapItem}

theorem seekToNextRecord_mark (ht : Tracks sizes aPokes s (.between behind (.mark :: front))) :
    ∃ s', seekToNextRecord s = (.ok (), s') ∧
      Tracks sizes aPokes s' (.between (.mark :: behind) front) := by
  obtain ⟨t, hmove, harr⟩ := seekToNextRecord_over ht.describes trivial
  refine ⟨_, seekToNextRecord_nextFile ht.stream harr.stream hmove (getState_mark harr), ?_⟩
  refine ⟨harr.describes, harr.stream, ?_, rfl, ht.sizes, ht.pokes⟩
  rw [fileIdx_mark, BitVec.ofNat_add]
  exact congrArg (· + 1) ht.idx

theorem seekToNextRecord_passes (ht : Tracks sizes aPokes s (.between behind (.record data :: front)))
    (hfits : ItemFits (.record data))
    (hlen : (tapeImage (.between behind (.record data :: front))).length < 2 ^ 64) :
    ∃ s', seekToNextRecord s = (.ok (), s') ∧
      Tracks sizes aPokes s' (.between (.record data :: behind) front) := by
  obtain ⟨t, hmove, harr⟩ := seekToNextRecord_over ht.describes hfits
  have hout : inRecord s.tape = false := flags_between ht.describes
  have hlt : headPosition (.between (.record data :: behind) front) < 2 ^ 64 :=
    headPosition_next_lt hlen
  have hbase : (if inRecord s.tape then BitVec.ofNat 64 (headPosition (.between behind
      (.record data :: front))) - 4 else BitVec.ofNat 64 (headPosition (.between behind
      (.record data :: front)))) = BitVec.ofNat 64 (position behind) := by
    rw [hout, if_neg Bool.false_ne_true, headPosition]
  refine ⟨_, seekToNextRecord_advance ht.stream harr.stream hbase hmove (getState_record harr)
    (position_record data behind) hlt, ?_⟩
  refine ⟨harr.describes, harr.stream, ?_, ?_, ht.sizes, ht.pokes⟩
  · rw [fileIdx_record]
    exact ht.idx
  · rw [Head.fileOfs, Head.dataSinceMark, BitVec.ofNat_add]
    exact congrArg (· + _) ht.ofs

theorem inRecord_inside {t : TapFile} (hd : Describes t (.inside behind done todo front)) :
    inRecord t = true := by
  rcases hd with _ | ⟨-, hvalid, heof, -, -, -, -⟩
  rw [inRecord, hvalid, heof]
  rfl

/-- The length in front of a record does not count. -/
theorem ofNat_sub_length (p n : Nat) :
    BitVec.ofNat 64 (p + 4 + n) - 4 = BitVec.ofNat 64 (p + n) := by
  rw [show p + 4 + n = 4 + (p + n) by omega]
  exact ofNat_sub 4 _

theorem headPosition_record : headPosition (.between (.record (done ++ todo) :: behind) front) =
    position behind + done.length + 8 + todo.length := by
  rw [headPosition, position_record, List.length_append]
  omega

theorem seekToNextRecord_leaves (ht : Tracks sizes aPokes s (.inside behind done todo front))
    (hshort : todo.length + 4 < 2 ^ 32)
    (hlen : (tapeImage (.inside behind done todo front)).length < 2 ^ 64) :
    ∃ s', seekToNextRecord s = (.ok (), s') ∧
      Tracks sizes aPokes s' (.between (.record (done ++ todo) :: behind) front) := by
  obtain ⟨t, hmove, harr⟩ := seekToNextRecord_out ht.describes hshort
  have hlt : headPosition (.between (.record (done ++ todo) :: behind) front) < 2 ^ 64 :=
    headPosition_next_lt hlen
  have hbase : (if inRecord s.tape then BitVec.ofNat 64 (headPosition (.inside behind done todo
      front)) - 4 else BitVec.ofNat 64 (headPosition (.inside behind done todo front))) =
        BitVec.ofNat 64 (position behind + done.length) := by
    rw [inRecord_inside ht.describes, if_pos rfl]
    exact ofNat_sub_length _ _
  refine ⟨_, seekToNextRecord_advance ht.stream harr.stream hbase hmove (getState_record harr)
    headPosition_record hlt, ?_⟩
  refine ⟨harr.describes, harr.stream, ?_, ?_, ht.sizes, ht.pokes⟩
  · rw [fileIdx_record]
    exact ht.idx
  · rw [Head.fileOfs, Head.dataSinceMark, List.length_append, ← Nat.add_assoc, BitVec.ofNat_add]
    exact congrArg (· + _) ht.ofs

theorem seekToPrevRecord_stays (ht : Tracks sizes aPokes s (.between [] front)) :
    ∃ s', seekToPrevRecord s = (.ok (), s') ∧ Tracks sizes aPokes s' (.between [] front) := by
  obtain ⟨t, hmove, harr⟩ := seekToPrevRecord_stay ht.describes
  refine ⟨_, seekToPrevRecord_loadPoint (tellg_ready ht.stream) hmove (tellg_ready harr.stream)
      (getState_start harr), ?_⟩
  exact ⟨harr.describes, harr.stream, rfl, rfl, ht.sizes, ht.pokes⟩

/-- Back into the file in front of a mark, which has the size it had when the tape was opened. -/
theorem seekToPrevRecord_intoPrev (ht : Tracks sizes aPokes s (.between (.mark :: behind) front))
    (hlen : (tapeImage (.between (.mark :: behind) front)).length < 2 ^ 64)
    (hsize : behind = [] ∨ sizes[behind.countP Item.isMark]? =
      some (BitVec.ofNat 64 (Head.dataSinceMark behind))) :
    ∃ s', seekToPrevRecord s = (.ok (), s') ∧
      Tracks sizes aPokes s' (.between behind (.mark :: front)) := by
  obtain ⟨t, hmove, harr⟩ := seekToPrevRecord_mark ht.describes
  rcases behind with _ | ⟨x, behind⟩
  · refine ⟨_, seekToPrevRecord_loadPoint (tellg_ready ht.stream) hmove (tellg_ready harr.stream)
      (getState_start harr), ?_⟩
    exact ⟨harr.describes, harr.stream, rfl, rfl, ht.sizes, ht.pokes⟩
  · have hidx := ht.idx
    rw [fileIdx_mark] at hidx
    have hlt : (x :: behind).countP Item.isMark + 1 < 2 ^ 64 := by
      rw [← fileIdx_mark (x :: behind) front]
      exact lt_of_le_of_lt (le_trans (fileIdx_le _) (headPosition_le _)) hlen
    have hentry := hsize.resolve_left (List.cons_ne_nil x behind)
    rw [← ht.sizes] at hentry
    refine ⟨_, seekToPrevRecord_intoFile ht.stream harr.stream hmove (getState_mark harr) hidx hlt
      hentry, ?_⟩
    exact ⟨harr.describes, harr.stream, rfl, rfl, ht.sizes, ht.pokes⟩

theorem seekToPrevRecord_toFirst (ht : Tracks sizes aPokes s (.between (.record data :: behind) front))
    (hfits : ItemFits (.record data)) (hshort : data.length + 8 < 2 ^ 32)
    (hlen : (tapeImage (.between (.record data :: behind) front)).length < 2 ^ 64)
    (hfirst : Head.dataSinceMark behind = 0) :
    ∃ s', seekToPrevRecord s = (.ok (), s') ∧
      Tracks sizes aPokes s' (.between behind (.record data :: front)) := by
  obtain ⟨t, hmove, harr⟩ := seekToPrevRecord_record ht.describes hfits hshort
  have hofs := ht.ofs
  rw [Head.fileOfs, Head.dataSinceMark, hfirst, Nat.zero_add] at hofs
  have hvalid : s.tape.mCurRecordValid = false := by
    rcases ht.describes with ⟨-, ⟨hvalid, -⟩ | ⟨-, -, -, -, hmark⟩⟩
    · exact hvalid
    · exact absurd hmark (by simp)
  have hidx := ht.idx
  rw [fileIdx_record] at hidx
  rcases behind with _ | ⟨x, behind⟩
  · refine ⟨_, seekToPrevRecord_loadPoint (tellg_ready ht.stream) hmove (tellg_ready harr.stream)
      (getState_start harr), ?_⟩
    exact ⟨harr.describes, harr.stream, rfl, rfl, ht.sizes, ht.pokes⟩
  · have hbase : (if s.tape.mCurRecordValid then BitVec.ofNat 64 (headPosition
        (.between (.record data :: x :: behind) front)) + 4 else BitVec.ofNat 64 (headPosition
          (.between (.record data :: x :: behind) front))) =
        BitVec.ofNat 64 (position (.record data :: x :: behind)) := by
      rw [hvalid, if_neg Bool.false_ne_true, headPosition]
    have hlt : position (.record data :: x :: behind) < 2 ^ 64 :=
      lt_of_le_of_lt (headPosition_le (.between (.record data :: x :: behind) front)) hlen
    refine ⟨_, seekToPrevRecord_back ht.stream harr.stream hbase hmove (getState_record harr)
      (position_record data (x :: behind)) hlt hofs, ?_⟩
    exact ⟨harr.describes, harr.stream, hidx, (congrArg (BitVec.ofNat 64) hfirst).symm, ht.sizes,
      ht.pokes⟩

theorem seekToPrevRecord_leaves (ht : Tracks sizes aPokes s (.inside behind done todo front))
    (hlen : (tapeImage (.inside behind done todo front)).length < 2 ^ 64)
    (hfirst : Head.dataSinceMark behind = 0) :
    ∃ s', seekToPrevRecord s = (.ok (), s') ∧
      Tracks sizes aPokes s' (.between behind (.record (done ++ todo) :: front)) := by
  obtain ⟨t, hmove, harr⟩ := seekToPrevRecord_out ht.describes
  have hofs := ht.ofs
  rw [Head.fileOfs, hfirst, Nat.zero_add] at hofs
  have hvalid : s.tape.mCurRecordValid = true := by
    rcases ht.describes with _ | ⟨-, hvalid, -, -, -, -, -⟩
    exact hvalid
  rcases behind with _ | ⟨x, behind⟩
  · refine ⟨_, seekToPrevRecord_loadPoint (tellg_ready ht.stream) hmove (tellg_ready harr.stream)
      (getState_start harr), ?_⟩
    exact ⟨harr.describes, harr.stream, rfl, rfl, ht.sizes, ht.pokes⟩
  · have hbase : (if s.tape.mCurRecordValid then BitVec.ofNat 64 (headPosition
        (.inside (x :: behind) done todo front)) + 4 else BitVec.ofNat 64 (headPosition
          (.inside (x :: behind) done todo front))) =
        BitVec.ofNat 64 (position (x :: behind) + 8 + done.length) := by
      rw [hvalid, if_pos rfl, headPosition, show position (x :: behind) + 8 + done.length =
        position (x :: behind) + 4 + done.length + 4 by omega, BitVec.ofNat_add _ 4]
      rfl
    have hroom := headPosition_next_lt hlen
    rw [Head.next, headPosition, position_record, List.length_append] at hroom
    refine ⟨_, seekToPrevRecord_back ht.stream harr.stream hbase hmove (getState_record harr) rfl
      (by omega) hofs, ?_⟩
    exact ⟨harr.describes, harr.stream, ht.idx, (congrArg (BitVec.ofNat 64) hfirst).symm,
      ht.sizes, ht.pokes⟩

theorem seekToBeginningOfTape_rewinds (ht : Tracks sizes aPokes s h) (hofs : h.fileOfs = 0) :
    ∃ s', seekToBeginningOfTape s = (.ok (), s') ∧ Tracks sizes aPokes s' h.rewind := by
  obtain ⟨t, hmove, harr⟩ := seekToBeginningOfTape_rewind ht.describes
  refine ⟨{ s with tape := t, mCurFileIdx := 0 }, ?_, ?_⟩
  · rw [seekToBeginningOfTape, Run.bind_apply_ok (onTape_ok hmove)]
    rfl
  · refine ⟨harr.describes, harr.stream, rfl, ?_, ht.sizes, ht.pokes⟩
    rw [ht.ofs, hofs]
    rfl

/-- The pokes are looked up at the true position. -/
theorem poke_eq (ht : Tracks sizes aPokes s h) (hlen : (tapeImage h).length < 2 ^ 64)
    (data : List (BitVec 8)) : poke s data = pokedData aPokes h data := by
  have hidx : s.mCurFileIdx.toNat = h.fileIdx := by
    rw [ht.idx]
    exact toNat_ofNat_lt (lt_of_le_of_lt (le_trans (fileIdx_le h) (headPosition_le h)) hlen)
  have hsame : data.mapIdx (fun _ b => b) = data :=
    List.ext_getElem? fun i => by simp
  rw [poke, ht.pokes, hidx]
  rcases aPokes with _ | files
  · exact hsame.symm
  · rcases hfile : files[h.fileIdx]? with _ | pokes
    · simp only [pokedData, pokeAt, hfile]
      exact hsame.symm
    · simp only [pokedData, pokeAt, hfile, pokeBytes, ht.ofs, BitVec.ofNat_add]

theorem read_passesMark {aMaxSize : CAddr}
    (ht : Tracks sizes aPokes s (.between behind (.mark :: front))) (hpos : 0 < aMaxSize.toNat)
    (hlen : (tapeImage (.between behind (.mark :: front))).length < 2 ^ 64) :
    ∃ s', read aMaxSize s = (.ok (pokedData aPokes (.between behind (.mark :: front)) []), s') ∧
      Tracks sizes aPokes s' (.between (.mark :: behind) front) := by
  obtain ⟨t, hmove, harr⟩ := read_mark ht.describes hpos
  rw [← poke_eq ht hlen]
  refine ⟨_, read_nextFile ht.stream harr.stream hmove (getState_mark harr), ?_⟩
  refine ⟨harr.describes, harr.stream, ?_, rfl, ht.sizes, ht.pokes⟩
  rw [fileIdx_mark, BitVec.ofNat_add]
  exact congrArg (· + 1) ht.idx

/-- Where the head is behind what has been read of a record. -/
theorem fileIdx_readFrom (n : Nat) (behind : List TapItem) (done todo : List (BitVec 8))
    (front : List TapItem) :
    (Head.readFrom n behind done todo front).2.fileIdx = behind.countP Item.isMark := by
  rw [Head.readFrom]
  split
  · exact fileIdx_record _ behind front
  · rfl

theorem fileOfs_readFrom (n : Nat) (behind : List TapItem) (done todo : List (BitVec 8))
    (front : List TapItem) :
    (Head.readFrom n behind done todo front).2.fileOfs =
      Head.dataSinceMark behind + done.length + (Head.readFrom n behind done todo front).1.length := by
  rw [Head.readFrom]
  split
  · rw [Head.fileOfs, Head.dataSinceMark, List.length_append, ← Nat.add_assoc]
  · rw [Head.fileOfs, List.length_append, ← Nat.add_assoc]

/-- Reading with the head in a record, or right behind the length in front of it, whatever position is
    kept: `base` is the byte of the data that is read first. -/
theorem read_moves {aMaxSize left : CAddr} {img : List (BitVec 8)} {p : Nat}
    (hs : s.tape.stream = .ready img p)
    (hbase : (if !s.tape.mCurRecordValid || s.tape.mCurRecordEof
      then BitVec.ofNat 64 p + 4 else BitVec.ofNat 64 p) =
        BitVec.ofNat 64 (position behind + 4 + done.length))
    (hread : TapFile.read aMaxSize s.tape = readInRecord aMaxSize
      ⟨.ready (image itemBytes (behind.reverse ++ .record (done ++ todo) :: front))
        (position behind + 4 + done.length), .Forward, left, (position behind + 4 : Nat), true,
        false⟩)
    (hleft : left.toNat = todo.length) (htodo : todo ≠ []) (hpos : 0 < aMaxSize.toNat)
    (hroom : position behind + 8 + (done ++ todo).length < 2 ^ 64) :
    ∃ t, read aMaxSize s = (.ok (poke s (Head.readFrom aMaxSize.toNat behind done todo front).1),
        { s with
          tape := t
          mCurFileOfs := s.mCurFileOfs +
            BitVec.ofNat 64 (Head.readFrom aMaxSize.toNat behind done todo front).1.length }) ∧
      Arrives t (Head.readFrom aMaxSize.toNat behind done todo front).2 false := by
  rw [List.length_append] at hroom
  by_cases hmax : todo.length ≤ aMaxSize.toNat
  · rw [Head.readFrom, if_pos hmax]
    obtain ⟨t, hmove, harr⟩ : ∃ t, TapFile.read aMaxSize s.tape = (.ok todo, t) ∧
        Arrives t (.between (.record (done ++ todo) :: behind) front) false := by
      rw [hread]
      exact readInRecord_whole hleft htodo hmax
    have hvalid : t.mCurRecordValid = false := by
      have hflags := flags_between harr.describes
      rwa [harr.eof, Bool.not_false, Bool.and_true] at hflags
    have hend : (if !t.mCurRecordValid then BitVec.ofNat 64 (headPosition
        (.between (.record (done ++ todo) :: behind) front)) - 4 else BitVec.ofNat 64 (headPosition
          (.between (.record (done ++ todo) :: behind) front))) =
        BitVec.ofNat 64 (position behind + 4 + done.length + todo.length) := by
      rw [hvalid, Bool.not_false, if_pos rfl, headPosition, position_record, List.length_append,
        show position behind + 8 + (done.length + todo.length) =
          4 + (position behind + 4 + done.length + todo.length) by omega]
      exact ofNat_sub 4 _
    exact ⟨t, read_advance hs harr.stream hbase hmove hend (getState_record harr) (by decide) rfl
      (by omega), harr⟩
  · rw [Head.readFrom, if_neg hmax]
    have hlt : aMaxSize.toNat < todo.length := Nat.lt_of_not_le hmax
    obtain ⟨t, hmove, harr⟩ : ∃ t, TapFile.read aMaxSize s.tape =
        (.ok (todo.take aMaxSize.toNat), t) ∧ Arrives t (.inside behind
          (done ++ todo.take aMaxSize.toNat) (todo.drop aMaxSize.toNat) front) false := by
      rw [hread]
      exact readInRecord_rest hleft hpos hlt
    have hvalid : t.mCurRecordValid = true := by
      rcases harr.describes with _ | ⟨-, hvalid, -, -, -, -, -⟩
      exact hvalid
    have htake : (todo.take aMaxSize.toNat).length = aMaxSize.toNat :=
      List.length_take_of_le (Nat.le_of_lt hlt)
    have hend : (if !t.mCurRecordValid then BitVec.ofNat 64 (headPosition (.inside behind
        (done ++ todo.take aMaxSize.toNat) (todo.drop aMaxSize.toNat) front)) - 4 else
          BitVec.ofNat 64 (headPosition (.inside behind (done ++ todo.take aMaxSize.toNat)
            (todo.drop aMaxSize.toNat) front))) =
        BitVec.ofNat 64 (position behind + 4 + done.length + aMaxSize.toNat) := by
      rw [hvalid, Bool.not_true, if_neg Bool.false_ne_true, headPosition, List.length_append, htake,
        ← Nat.add_assoc]
    refine ⟨t, ?_, harr⟩
    rw [htake]
    exact read_advance hs harr.stream hbase hmove hend (getState_inside harr) (by decide) rfl
      (by omega)

theorem read_data {aMaxSize left : CAddr} (ht : Tracks sizes aPokes s h)
    (hbase : (if !s.tape.mCurRecordValid || s.tape.mCurRecordEof
      then BitVec.ofNat 64 (headPosition h) + 4 else BitVec.ofNat 64 (headPosition h)) =
        BitVec.ofNat 64 (position behind + 4 + done.length))
    (hread : TapFile.read aMaxSize s.tape = readInRecord aMaxSize
      ⟨.ready (image itemBytes (behind.reverse ++ .record (done ++ todo) :: front))
        (position behind + 4 + done.length), .Forward, left, (position behind + 4 : Nat), true,
        false⟩)
    (hleft : left.toNat = todo.length) (htodo : todo ≠ []) (hpos : 0 < aMaxSize.toNat)
    (hidx : h.fileIdx = behind.countP Item.isMark)
    (hofs : h.fileOfs = Head.dataSinceMark behind + done.length)
    (hroom : position behind + 8 + (done ++ todo).length < 2 ^ 64) :
    ∃ s', read aMaxSize s =
        (.ok (poke s (Head.readFrom aMaxSize.toNat behind done todo front).1), s') ∧
      Tracks sizes aPokes s' (Head.readFrom aMaxSize.toNat behind done todo front).2 := by
  obtain ⟨t, hmove, harr⟩ := read_moves ht.stream hbase hread hleft htodo hpos hroom
  refine ⟨_, hmove, harr.describes, harr.stream, ?_, ?_, ht.sizes, ht.pokes⟩
  · rw [fileIdx_readFrom, ← hidx]
    exact ht.idx
  · rw [fileOfs_readFrom, ← hofs, BitVec.ofNat_add]
    exact congrArg (· + _) ht.ofs

theorem read_intoRecord {aMaxSize : CAddr}
    (ht : Tracks sizes aPokes s (.between behind (.record data :: front)))
    (hfits : ItemFits (.record data)) (hpos : 0 < aMaxSize.toNat)
    (hlen : (tapeImage (.between behind (.record data :: front))).length < 2 ^ 64) :
    ∃ s', read aMaxSize s =
        (.ok (poke s (Head.readFrom aMaxSize.toNat behind [] data front).1), s') ∧
      Tracks sizes aPokes s' (Head.readFrom aMaxSize.toNat behind [] data front).2 := by
  have hroom := headPosition_next_lt hlen
  rw [Head.next, headPosition, position_record] at hroom
  have hout : (!s.tape.mCurRecordValid || s.tape.mCurRecordEof) = true := by
    have hflags := flags_between ht.describes
    cases hv : s.tape.mCurRecordValid <;> cases he : s.tape.mCurRecordEof <;>
      simp_all
  refine read_data ht ?_ (read_record ht.describes hfits hpos) (toNat_itemSize hfits)
    (List.ne_nil_of_length_pos hfits.1) hpos rfl rfl hroom
  rw [hout, if_pos rfl, headPosition, List.length_nil, Nat.add_zero, BitVec.ofNat_add]
  rfl

theorem read_inRecord {aMaxSize : CAddr}
    (ht : Tracks sizes aPokes s (.inside behind done todo front)) (hpos : 0 < aMaxSize.toNat)
    (hlen : (tapeImage (.inside behind done todo front)).length < 2 ^ 64) :
    ∃ s', read aMaxSize s =
        (.ok (poke s (Head.readFrom aMaxSize.toNat behind done todo front).1), s') ∧
      Tracks sizes aPokes s' (Head.readFrom aMaxSize.toNat behind done todo front).2 := by
  have hroom := headPosition_next_lt hlen
  rw [Head.next, headPosition, position_record] at hroom
  obtain ⟨left, hleft, hread⟩ := read_in ht.describes hpos
  obtain ⟨hvalid, heof, htodo⟩ : s.tape.mCurRecordValid = true ∧ s.tape.mCurRecordEof = false ∧
      todo ≠ [] := by
    rcases ht.describes with _ | ⟨-, hvalid, heof, -, -, -, htodo⟩
    exact ⟨hvalid, heof, htodo⟩
  refine read_data ht ?_ hread hleft htodo hpos rfl rfl hroom
  rw [hvalid, heof, Bool.not_true, Bool.or_false, if_neg Bool.false_ne_true, headPosition]

/-- A record written over the part of a record that has been read. -/
theorem writeRecord_tracks {aData : List (BitVec 8)}
    (ht : Tracks sizes aPokes s (.inside behind done todo front)) (hsame : aData.length = done.length)
    (hfits : ItemFits (.record aData)) : ∃ s', writeRecord aData s = (.ok (), s') ∧
      Tracks sizes aPokes s' (.between (.record aData :: behind) []) := by
  have hd := describes_setDirection ht.describes .Forward
  obtain ⟨t, hwrite, harr⟩ := writeRecordInternal_in hd hfits
  rw [← writeRecord_cons (List.ne_nil_of_length_pos hfits.1)] at hwrite
  refine ⟨_, onTape_ok hwrite, harr.describes, harr.stream, ?_, ?_, ht.sizes, ht.pokes⟩
  · rw [fileIdx_record]
    exact ht.idx
  · rw [Head.fileOfs, Head.dataSinceMark, hsame]
    exact ht.ofs

theorem writeEndOfFile_tracks (ht : Tracks sizes aPokes s (.between behind front))
    (hfits : ∀ y ∈ Head.items (.between behind front), ItemFits y)
    (hsafe : WriteSafe (.between behind front)) (hofs : Head.dataSinceMark behind = 0) :
    ∃ s', writeEndOfFile s = (.ok (), s') ∧
      Tracks sizes aPokes s' (Head.write .mark (.between behind front)) := by
  have hd := describes_setDirection ht.describes .Forward
  obtain ⟨t, front', hwrite, hhead, harr⟩ : ∃ t front', TapFile.writeEndOfFile s.tape = (.ok (), t) ∧
      Head.write .mark (.between behind front) = .between (.mark :: behind) front' ∧
      Arrives t (.between (.mark :: behind) front') true := by
    rcases front with _ | ⟨y, front⟩
    · obtain ⟨t, hwrite, harr⟩ := writeRecordInternal_end (x := .mark) hd trivial
      exact ⟨t, _, hwrite, rfl, harr⟩
    · have hy : ItemFits y := hfits y (by simp [Head.items])
      obtain ⟨t, hwrite, harr⟩ := writeRecordInternal_over (x := .mark) hd trivial hy hsafe
      exact ⟨t, _, hwrite, rfl, harr⟩
  rw [hhead]
  refine ⟨{ s with tape := t, mCurFileIdx := s.mCurFileIdx + 1 }, ?_, ?_⟩
  · rw [writeEndOfFile, Run.bind_apply_ok (onTape_ok hwrite)]
    rfl
  · refine ⟨harr.describes, harr.stream, ?_, ?_, ht.sizes, ht.pokes⟩
    · rw [fileIdx_mark, BitVec.ofNat_add]
      exact congrArg (· + 1) ht.idx
    · exact ht.ofs.trans (congrArg (BitVec.ofNat 64) hofs)

end tracks

/-! ## 5. Opening a tape -/

section opening
variable {s : PokedTapFile} {behind front : List TapItem}

/-- Up to the next mark, or to the end of the tape. -/
theorem scanFile_front (fuel : Nat) {n : Nat} (hd : Describes s.tape (.between behind front))
    (hfits : ∀ x ∈ front, ItemFits x) (hfuel : front.length < fuel) :
    (∃ t behind', scanFile fuel (BitVec.ofNat 64 n) s = (.ok none, { s with tape := t }) ∧
        Describes t (.between behind' []) ∧ t.stream.eofbit = true ∧
        behind'.reverse = behind.reverse ++ front ∧ Head.fileSizes n front = []) ∨
      ∃ t size behind' rest, scanFile fuel (BitVec.ofNat 64 n) s =
          (.ok (some (BitVec.ofNat 64 size)), { s with tape := t }) ∧
        Arrives t (.between (.mark :: behind') rest) true ∧
        behind'.reverse ++ .mark :: rest = behind.reverse ++ front ∧ (∀ x ∈ rest, x ∈ front) ∧
        rest.length < front.length ∧ Head.fileSizes n front = size :: Head.fileSizes 0 rest := by
  induction fuel generalizing s behind front n with
  | zero => exact absurd hfuel (Nat.not_lt_zero _)
  | succ fuel ih =>
    rcases front with _ | ⟨x, front⟩
    · obtain ⟨t, hread, hend, hd'⟩ : ∃ t, TapFile.read (BitVec.allOnes 32) s.tape = (.ok [], t) ∧
          t.stream = .ended (image itemBytes behind.reverse) ∧ Describes t (.between behind []) :=
        ⟨_, read_end hd (by decide), rfl, describes_ended hd⟩
      refine .inl ⟨t, behind, ?_, hd', ?_, (List.append_nil _).symm, rfl⟩
      · rw [scanFile, Run.bind_apply_ok (onTape_ok hread)]
        exact Run.bind_apply_ok (onTape_ok (getState_ended hend))
      · rw [hend, FileStream.eofbit_ended]
    · obtain ⟨t, hread, harr⟩ := read_item hd (hfits x List.mem_cons_self)
      cases x with
      | mark =>
        have hget : onTape TapFile.getState { s with tape := t } =
            (.ok .EndOfFile, { s with tape := t }) :=
          onTape_ok (getState_mark (s := t) harr)
        have hsize : BitVec.ofNat 64 n + BitVec.ofNat 64 (itemData .mark).length =
            BitVec.ofNat 64 n := BitVec.add_zero _
        refine .inr ⟨t, n, behind, front, ?_, harr, rfl, fun y hy => List.mem_cons_of_mem _ hy,
          Nat.lt_succ_self _, rfl⟩
        rw [scanFile, Run.bind_apply_ok (onTape_ok hread), hsize]
        exact Run.bind_apply_ok hget
      | record data =>
        have hget : onTape TapFile.getState { s with tape := t } =
            (.ok .EndOfRecord, { s with tape := t }) := onTape_ok (getState_record (s := t) harr)
        have hnext : scanFile (fuel + 1) (BitVec.ofNat 64 n) s =
            scanFile fuel (BitVec.ofNat 64 (n + data.length)) { s with tape := t } := by
          rw [scanFile, Run.bind_apply_ok (onTape_ok hread), BitVec.ofNat_add]
          exact Run.bind_apply_ok hget
        have hitems : (Item.record data :: behind).reverse ++ front =
            behind.reverse ++ .record data :: front := by
          rw [List.reverse_cons, List.append_assoc, List.singleton_append]
        rw [hnext, Head.fileSizes, ← hitems]
        rcases ih (s := { s with tape := t }) (n := n + data.length) harr.describes
          (fun y hy => hfits y (List.mem_cons_of_mem _ hy)) (Nat.lt_of_succ_lt_succ hfuel) with
          hend | ⟨t', size, behind', rest, hscan, harr', heq, hmem, hlt, hsizes⟩
        · exact .inl hend
        · exact .inr ⟨t', size, behind', rest, hscan, harr', heq,
            fun y hy => List.mem_cons_of_mem _ (hmem y hy), Nat.lt_succ_of_lt hlt, hsizes⟩

/-- A round before the end of the tape keeps the size of the file it finds. -/
theorem scanFiles_succ {rounds : Nat} (fuel : Nat) {state : TapState}
    (hstate : TapFile.getState s.tape = (.ok state, s.tape)) (hne : state ≠ .EndOfTape)
    {s' : PokedTapFile} {size : Option CInt} (hscan : scanFile rounds 0 s = (.ok size, s')) :
    scanFiles rounds (fuel + 1) s =
      scanFiles rounds fuel { s' with mFileSizes := s'.mFileSizes ++ size.toList } := by
  rw [scanFiles, Run.bind_apply_ok (onTape_ok hstate)]
  cases size with
  | none =>
    rw [Option.toList_none, List.append_nil]
    cases state <;> first | exact Run.bind_apply_ok hscan | exact absurd rfl hne
  | some size => cases state <;> first | exact Run.bind_apply_ok hscan | exact absurd rfl hne

/-- All the files; the last round finds the end of the tape. -/
theorem scanFiles_front (rounds fuel : Nat) {state : TapState}
    (hd : Describes s.tape (.between behind front)) (hfits : ∀ x ∈ front, ItemFits x)
    (hstate : TapFile.getState s.tape = (.ok state, s.tape)) (hne : state ≠ .EndOfTape)
    (hrounds : front.length < rounds) (hfuel : front.length + 1 < fuel) :
    ∃ t behind', scanFiles rounds fuel s = (.ok (), { s with
        tape := t, mFileSizes := s.mFileSizes ++ (Head.fileSizes 0 front).map (BitVec.ofNat 64) }) ∧
      Describes t (.between behind' []) ∧ behind'.reverse = behind.reverse ++ front := by
  induction fuel generalizing s behind front state with
  | zero => exact absurd hfuel (Nat.not_lt_zero _)
  | succ fuel ih =>
    rcases scanFile_front rounds (n := 0) hd hfits hrounds with
      ⟨t, behind', hscan, hd', hend, hitems, hsizes⟩ |
        ⟨t, size, behind', rest, hscan, harr, hitems, hmem, hlt, hsizes⟩
    · -- nothing but the end of the tape is left
      obtain ⟨n, rfl⟩ := Nat.exists_eq_add_one_of_ne_zero (show fuel ≠ 0 by omega)
      refine ⟨t, behind', ?_, hd', hitems⟩
      have hstream := (stream_end hd').resolve_left fun h => by
        rw [h] at hend
        exact Bool.false_ne_true hend
      rw [hsizes, List.map_nil, List.append_nil]
      rw [scanFiles_succ _ hstate hne hscan, Option.toList_none, List.append_nil]
      have hget : onTape TapFile.getState { s with tape := t } =
          (.ok .EndOfTape, { s with tape := t }) :=
        onTape_ok (getState_ended (s := t) hstream)
      exact Run.bind_apply_ok hget
    · obtain ⟨t', behind'', hscan', hd', hitems'⟩ := ih
        (s := { s with tape := t, mFileSizes := s.mFileSizes ++ [BitVec.ofNat 64 size] })
        harr.describes (fun x hx => hfits x (hmem x hx)) (getState_mark (s := t) harr) (by decide)
        (by omega) (by omega)
      refine ⟨t', behind'', ?_, hd', ?_⟩
      · rw [hsizes, List.map_cons, List.append_cons]
        exact (scanFiles_succ _ hstate hne hscan).trans hscan'
      · rw [hitems', ← hitems, List.reverse_cons, List.append_assoc, List.singleton_append]

end opening

/-- The sizes of the files of a tape, as they are kept. -/
def sizesOf (items : List TapItem) : List CInt := (Head.fileSizes 0 items).map (BitVec.ofNat 64)

theorem updateForNewFile_tracks {items : List TapItem} (hitems : ∀ x ∈ items, ItemFits x)
    (aMemory : Bool) (aPokes : Option (List PokeMap)) {fuel : Nat}
    (hfuel : items.length + 1 < fuel) :
    ∃ s, updateForNewFile fuel aPokes (ofDisk (some (image itemBytes items)) aMemory) =
        (.ok (), s) ∧ Tracks (sizesOf items) aPokes s (.between [] items) := by
  have hopen := describes_ofDisk items aMemory
  obtain ⟨t, hrewind, harr⟩ := seekToBeginningOfTape_rewind hopen
  obtain ⟨t', behind', hscan, hd', hitems'⟩ := scanFiles_front (s := ⟨t, [], 0, 0, aPokes⟩)
    fuel fuel harr.describes hitems (getState_start harr) (by decide)
    (show items.length < fuel by omega) hfuel
  obtain ⟨t'', hrewind', harr'⟩ := seekToBeginningOfTape_rewind hd'
  have hhead : Head.rewind (.between behind' []) = .between [] items := by
    rw [Head.rewind, Head.items, List.append_nil, hitems']
    rfl
  rw [hhead] at harr'
  have hgood : (TapFile.ofDisk (some (image itemBytes items)) aMemory).stream.good = true := by
    rw [ofDisk_eq]
    rfl
  have hfirst : seekToBeginningOfTape
      ⟨TapFile.ofDisk (some (image itemBytes items)) aMemory, [], 0, 0, aPokes⟩ =
        (.ok (), ⟨t, [], 0, 0, aPokes⟩) := Run.bind_apply_ok (onTape_ok hrewind)
  have hsecond : seekToBeginningOfTape ⟨t', sizesOf items, 0, 0, aPokes⟩ =
      (.ok (), ⟨t'', sizesOf items, 0, 0, aPokes⟩) := Run.bind_apply_ok (onTape_ok hrewind')
  have hopened : updateForNewFile fuel aPokes (ofDisk (some (image itemBytes items)) aMemory) =
      (.ok (), ⟨t'', sizesOf items, 0, 0, aPokes⟩) := by
    refine (Run.bind_apply_ok rfl).trans ((Run.bind_apply_ok rfl).trans ?_)
    refine (congrFun (if_pos hgood) _).trans ?_
    exact (Run.bind_apply_ok hfirst).trans ((Run.bind_apply_ok hscan).trans hsecond)
  exact ⟨_, hopened, harr'.describes, harr'.stream, rfl, rfl, rfl, rfl⟩

/-! ## 6. Runs -/

/-- What a command does to the tape, and the data it returns. -/
def perform : TapCommand → Poked (List (BitVec 8))
  | .seekToNextRecord => do seekToNextRecord; return []
  | .seekToPrevRecord => do seekToPrevRecord; return []
  | .seekToBeginningOfTape => do seekToBeginningOfTape; return []
  | .read aMaxSize => read aMaxSize
  | .writeRecord aData => do writeRecord aData; return []
  | .writeEndOfFile => do writeEndOfFile; return []

/-- A run, as `TapFile.performAll`. -/
def performAll : List TapCommand → PokedTapFile →
    List (Except TapExn (List (BitVec 8))) × PokedTapFile
  | [], s => ([], s)
  | c :: cs, s =>
    ((perform c s).1 :: (performAll cs (perform c s).2).1, (performAll cs (perform c s).2).2)

/-- The data on the tape with its pokes. -/
def pokedResult (aPokes : Option (List PokeMap)) : TapCommand → TapHead → List (BitVec 8)
  | .read aMaxSize, h => pokedData aPokes h (h.read aMaxSize.toNat).1
  | _, _ => []

def pokedResults (aPokes : Option (List PokeMap)) : List TapCommand → TapHead →
    List (List (BitVec 8))
  | [], _ => []
  | c :: cs, h => pokedResult aPokes c h :: pokedResults aPokes cs (outcome c h).2

/-- There is an item in front of the head, or the rest of one. -/
def NotAtEnd : TapHead → Prop
  | .between _ [] => False
  | _ => True

/-- The command keeps the position right, with the head where it is. -/
def KeepsPosition (sizes : List CInt) : TapCommand → TapHead → Prop
  | .seekToNextRecord, h => NotAtEnd h
  | .read aMaxSize, h => 0 < aMaxSize.toNat ∧ NotAtEnd h
  | .seekToPrevRecord, .between (.mark :: behind) _ => behind = [] ∨
      sizes[behind.countP Item.isMark]? = some (BitVec.ofNat 64 (Head.dataSinceMark behind))
  | .seekToPrevRecord, .between (.record _ :: behind) _ => Head.dataSinceMark behind = 0
  | .seekToPrevRecord, .between [] _ => True
  | .seekToPrevRecord, .inside behind _ _ _ => Head.dataSinceMark behind = 0
  | .seekToBeginningOfTape, h => h.fileOfs = 0
  | .writeEndOfFile, h => h.fileOfs = 0
  | .writeRecord aData, .inside _ done _ _ => aData.length = done.length
  | .writeRecord _, .between _ _ => False

/-- Every command of a run keeps the position, 32 bits are enough for the lengths it adds up, and
    64 bits for the tape. -/
def PokedSafeRun (sizes : List CInt) : List TapCommand → TapHead → Prop
  | [], _ => True
  | c :: cs, h => Safe c h ∧ KeepsPosition sizes c h ∧ (tapeImage h).length < 2 ^ 64 ∧
      PokedSafeRun sizes cs (outcome c h).2

section runs
variable {sizes : List CInt} {aPokes : Option (List PokeMap)} {s : PokedTapFile} {h : TapHead}

theorem perform_of_unit {m : Poked Unit} {h' : TapHead}
    (hm : ∃ s', m s = (.ok (), s') ∧ Tracks sizes aPokes s' h') :
    ∃ s', (do m; return [] : Poked (List (BitVec 8))) s = (.ok [], s') ∧
      Tracks sizes aPokes s' h' := by
  obtain ⟨s', hs, ht⟩ := hm
  exact ⟨s', Run.bind_apply_ok hs, ht⟩

/-- **One step** returns what is on the tape with its pokes, and keeps the position. -/
theorem perform_tracks {c : TapCommand} (ht : Tracks sizes aPokes s h)
    (hfits : ∀ x ∈ h.items, ItemFits x) (hsafe : Safe c h) (hkeeps : KeepsPosition sizes c h)
    (hlen : (tapeImage h).length < 2 ^ 64) :
    ∃ s', perform c s = (.ok (pokedResult aPokes c h), s') ∧
      Tracks sizes aPokes s' (outcome c h).2 := by
  cases c with
  | seekToNextRecord =>
    refine perform_of_unit ?_
    rcases h with ⟨behind, _ | ⟨data | _, front⟩⟩ | ⟨behind, done, todo, front⟩
    · exact absurd hkeeps id
    · exact seekToNextRecord_passes ht (hfits _ (by simp [Head.items])) hlen
    · exact seekToNextRecord_mark ht
    · exact seekToNextRecord_leaves ht hsafe hlen
  | seekToPrevRecord =>
    refine perform_of_unit ?_
    rcases h with ⟨_ | ⟨data | _, behind⟩, front⟩ | ⟨behind, done, todo, front⟩
    · exact seekToPrevRecord_stays ht
    · exact seekToPrevRecord_toFirst ht (hfits _ (by simp [Head.items])) hsafe hlen hkeeps
    · exact seekToPrevRecord_intoPrev ht hlen hkeeps
    · exact seekToPrevRecord_leaves ht hlen hkeeps
  | seekToBeginningOfTape => exact perform_of_unit (seekToBeginningOfTape_rewinds ht hkeeps)
  | read aMaxSize =>
    obtain ⟨hpos, hend⟩ := hkeeps
    have hne : aMaxSize ≠ 0 := fun hz => absurd hpos (by rw [hz]; decide)
    rw [outcome, if_neg hne, pokedResult]
    rcases h with ⟨behind, _ | ⟨data | _, front⟩⟩ | ⟨behind, done, todo, front⟩
    · exact absurd hend id
    · rw [← poke_eq ht hlen]
      exact read_intoRecord ht (hfits _ (by simp [Head.items])) hpos hlen
    · exact read_passesMark ht hpos hlen
    · rw [← poke_eq ht hlen]
      exact read_inRecord ht hpos hlen
  | writeRecord aData =>
    rcases h with ⟨behind, front⟩ | ⟨behind, done, todo, front⟩
    · exact absurd hkeeps id
    · have hsame : aData.length = done.length := hkeeps
      have hdone : done ≠ [] := by
        rcases ht.describes with _ | ⟨-, -, -, -, -, hdone, -⟩
        exact hdone
      have hne : aData ≠ [] := fun hnil =>
        hdone (List.eq_nil_of_length_eq_zero (hsame.symm.trans (congrArg List.length hnil)))
      rw [outcome, if_neg hne]
      exact perform_of_unit (writeRecord_tracks ht hsame
        ⟨List.length_pos_of_ne_nil hne, (hsafe hne).1⟩)
  | writeEndOfFile =>
    refine perform_of_unit ?_
    rcases h with ⟨behind, front⟩ | ⟨behind, done, todo, front⟩
    · exact writeEndOfFile_tracks ht hfits hsafe hkeeps
    · have hofs : Head.dataSinceMark behind + done.length = 0 := hkeeps
      rcases ht.describes with _ | ⟨-, -, -, -, -, hdone, -⟩
      exact absurd (List.eq_nil_of_length_eq_zero (by omega)) hdone

/-- **Runs** of such steps. -/
theorem performAll_tracks (cs : List TapCommand) (ht : Tracks sizes aPokes s h)
    (hfits : ∀ x ∈ h.items, ItemFits x) (hsafe : PokedSafeRun sizes cs h) :
    (performAll cs s).1 = (pokedResults aPokes cs h).map .ok ∧
      Tracks sizes aPokes (performAll cs s).2 (outcomes cs h).2 := by
  induction cs generalizing s h with
  | nil => exact ⟨rfl, ht⟩
  | cons c cs ih =>
    obtain ⟨hc, hkeeps, hlen, hcs⟩ := hsafe
    obtain ⟨s', hs, ht'⟩ := perform_tracks ht hfits hc hkeeps hlen
    obtain ⟨hresults, hend⟩ := ih ht' (itemFits_outcome hfits hc) hcs
    rw [performAll, pokedResults, outcomes, hs]
    exact ⟨by rw [hresults, List.map_cons], hend⟩

end runs

/-- **Any run** of steps that keep the position, on a tape that has been opened with any pokes:
    what is read is the tape with its pokes, no assertion fails, and the position kept is the one
    of the head. -/
theorem poked_run {items : List TapItem} (hitems : ∀ x ∈ items, ItemFits x) (aMemory : Bool)
    (aPokes : Option (List PokeMap)) {fuel : Nat} (hfuel : items.length + 1 < fuel)
    {cs : List TapCommand} (hsafe : PokedSafeRun (sizesOf items) cs (.between [] items)) :
    ∃ s, updateForNewFile fuel aPokes (ofDisk (some (image itemBytes items)) aMemory) =
        (.ok (), s) ∧
      (performAll cs s).1 = (pokedResults aPokes cs (.between [] items)).map .ok ∧
      (performAll cs s).2.mCurFileIdx =
        BitVec.ofNat 64 (outcomes cs (.between [] items)).2.fileIdx ∧
      (performAll cs s).2.mCurFileOfs =
        BitVec.ofNat 64 (outcomes cs (.between [] items)).2.fileOfs ∧
      Describes (performAll cs s).2.tape (outcomes cs (.between [] items)).2 := by
  obtain ⟨s, hopen, ht⟩ := updateForNewFile_tracks hitems aMemory aPokes hfuel
  obtain ⟨hresults, hend⟩ := performAll_tracks cs ht hitems hsafe
  exact ⟨s, hopen, hresults, hend.idx, hend.ofs, hend.describes⟩

/-- Two files; the second byte of the second one is poked. -/
theorem poked_run_short :
    ∃ s, updateForNewFile 5 (some [[], [(1, 9)]])
        (ofDisk (some (image itemBytes [.record [1], .mark, .record [2, 3]])) false) = (.ok (), s) ∧
      (performAll [.seekToNextRecord, .read 4, .read 4] s).1 = [.ok [], .ok [], .ok [2, 9]] := by
  obtain ⟨s, hopen, hresults, -⟩ := @poked_run [.record [1], .mark, .record [2, 3]]
    (by simp [ItemFits]) false (some [[], [(1, 9)]]) 5 (by decide)
    [.seekToNextRecord, .read 4, .read 4] (by
      simp [PokedSafeRun, Safe, KeepsPosition, NotAtEnd, outcome, Head.read, Head.next,
        tapeImage, Head.items, length_itemBytes_record])
  exact ⟨s, hopen, hresults.trans (by decide)⟩

/-- The first byte of a tape is poked. It is read with its poke; after a rewind it is read without,
    since the offset in the file is the one before the rewind. -/
theorem poked_rewind :
    (performAll [.read 4, .seekToBeginningOfTape, .read 4]
      (updateForNewFile 4 (some [[(0, 9)]])
        (ofDisk (some (image itemBytes [.record [1, 2]])) false)).2).1 =
          [.ok [9, 2], .ok [], .ok [1, 2]] ∧
      pokedResults (some [[(0, 9)]]) [.read 4, .seekToBeginningOfTape, .read 4]
        (.between [] [.record [1, 2]]) = [[9, 2], [], [9, 2]] := by
  decide

end PokedTapFile

end CraySim
