/-
  Subject:   Every operation of a tape image is the operation of a head on a tape.

  * `Arrives` -- the state after a motion: the head, and whether it met a mark,
  * `seekToNextRecord_over`, `read_mark`, `seekToPrevRecord_record`, `writeRecordInternal_over`
    and others -- the operations, one lemma for each place the head can be,
  * `getState_mark` and others -- what `GetState` says after a motion.
-/
import CraySim.TapHead

namespace CraySim

open ByteFile Framed Tape

namespace TapFile

/-! ## 1. Where a motion ends -/

/-- The tape of a head. -/
def tapeImage (h : TapHead) : List (BitVec 8) := image itemBytes h.items

/-- The byte the head stands at. -/
def headPosition : TapHead → Nat
  | .between behind _ => position behind
  | .inside behind done _ _ => position behind + 4 + done.length

/-- The reader is where `h` says, not behind the end, and its flag for marks is `m`. -/
structure Arrives (s : TapFile) (h : TapHead) (m : Bool) : Prop where
  describes : Describes s h
  stream : s.stream = .ready (tapeImage h) (headPosition h)
  eof : s.mCurRecordEof = m

theorem arrives_behind {x : TapItem} {behind front : List TapItem} {dir : Direction}
    {left : CAddr} {start : Int}
    (hmark : x = .mark → left = 0 ∧ start = ((position (x :: behind) : Nat) : Int)) :
    Arrives ⟨.ready (image itemBytes (behind.reverse ++ x :: front)) (position (x :: behind)), dir,
      left, start, x.isMark, x.isMark⟩ (.between (x :: behind) front) x.isMark := by
  have himage : image itemBytes (behind.reverse ++ x :: front) =
      image itemBytes ((x :: behind).reverse ++ front) := by
    rw [List.reverse_cons, List.append_assoc, List.singleton_append]
  refine ⟨.between (.inl (by rw [himage])) ?_, by rw [himage]; rfl, rfl⟩
  cases x with
  | record data => exact .inl ⟨rfl, fun h => absurd h Bool.false_ne_true⟩
  | mark => exact .inr ⟨rfl, rfl, (hmark rfl).1, (hmark rfl).2, rfl⟩

/-- Right in front of an item, outside of any record. -/
theorem arrives_front {behind front : List TapItem} {dir : Direction} {left : CAddr} {start : Int}
    {m : Bool} (hmark : m = true → behind = [] ∨ front.head? = some .mark) :
    Arrives ⟨.ready (image itemBytes (behind.reverse ++ front)) (position behind), dir, left, start,
      false, m⟩ (.between behind front) m :=
  ⟨.between (.inl rfl) (.inl ⟨rfl, hmark⟩), rfl, rfl⟩

theorem arrives_start (items : List TapItem) {dir : Direction} {left : CAddr} {start : Int} :
    Arrives ⟨.ready (image itemBytes items) 0, dir, left, start, false, false⟩ (.between [] items)
      false :=
  @arrives_front [] items dir left start false (nomatch ·)

/-! ## 2. Forwards -/

section operations
variable {s : TapFile} {behind front : List TapItem} {done todo : List (BitVec 8)} {x : TapItem}

theorem flags_between (hd : Describes s (.between behind front)) :
    (s.mCurRecordValid && !s.mCurRecordEof) = false := by
  rcases hd with ⟨-, ⟨hvalid, -⟩ | ⟨-, heof, -⟩⟩
  · rw [hvalid, Bool.false_and]
  · rw [heof, Bool.not_true, Bool.and_false]

theorem stream_front (hd : Describes s (.between behind (x :: front))) :
    s.stream = .ready (image itemBytes (behind.reverse ++ x :: front)) (position behind) := by
  rcases hd with ⟨hstream | ⟨hnil, -⟩, -⟩
  · exact hstream
  · exact absurd hnil (List.cons_ne_nil x front)

/-- At the end of the tape, whether it has been noticed or not. -/
theorem stream_end (hd : Describes s (.between behind [])) :
    s.stream = .ready (image itemBytes behind.reverse) (image itemBytes behind.reverse).length ∨
      s.stream = .ended (image itemBytes behind.reverse) := by
  rcases hd with ⟨hstream | ⟨-, hstream⟩, -⟩
  · rw [List.append_nil] at hstream
    exact .inl hstream
  · exact .inr hstream

variable {dir : Direction} {aMaxSize : CAddr}

/-- Behind the end nothing but the flags of the stream differs from standing there. -/
theorem describes_ended (hd : Describes s (.between behind [])) :
    Describes { s with stream := .ended (image itemBytes behind.reverse), mLastCmdDirection := dir }
      (.between behind []) := by
  rcases hd with ⟨-, hflags⟩
  exact .between (.inr ⟨rfl, rfl⟩) hflags

theorem seekToNextRecord_over (hd : Describes s (.between behind (x :: front)))
    (hfits : ItemFits x) : ∃ s', seekToNextRecord s = (.ok (), s') ∧
      Arrives s' (.between (x :: behind) front) x.isMark := by
  have hout := flags_between hd
  have hstream := stream_front hd
  have hfront := stands_front behind x front
  have hpos := position_cons x behind
  obtain ⟨stream, dir, left, start, valid, mark⟩ := s
  dsimp only at hout hstream
  subst hstream
  rw [seekToNextRecord_ready hout]
  cases x with
  | record data =>
    rw [passItem_record hfits hfront, ← hpos]
    exact ⟨_, rfl, arrives_behind (nomatch ·)⟩
  | mark =>
    rw [length_itemBytes_mark] at hpos
    rw [passItem_mark hfront, ← hpos]
    exact ⟨_, rfl, arrives_behind fun _ => ⟨rfl, rfl⟩⟩

theorem seekToNextRecord_end (hd : Describes s (.between behind [])) :
    seekToNextRecord s = (.ok (), { s with
      stream := .ended (image itemBytes behind.reverse), mLastCmdDirection := .Forward }) := by
  have hout := flags_between hd
  have hstream := stream_end hd
  obtain ⟨stream, dir, left, start, valid, mark⟩ := s
  dsimp only at hout hstream
  rcases hstream with rfl | rfl
  · rw [seekToNextRecord_ready hout, passItem_end]
  · rw [seekToNextRecord_ended hout]

theorem seekToNextRecord_out (hd : Describes s (.inside behind done todo front))
    (hshort : todo.length + 4 < 2 ^ 32) : ∃ s', seekToNextRecord s = (.ok (), s') ∧
      Arrives s' (.between (.record (done ++ todo) :: behind) front) false := by
  obtain ⟨stream, dir, left, start, valid, mark⟩ := s
  rcases hd with _ | ⟨hstream, hvalid, heof, hleft, hstart, -, -⟩
  dsimp only at hstream hvalid heof hleft
  subst hstream hvalid heof
  have hpos : position behind + 4 + done.length + todo.length + 4 =
      position (.record (done ++ todo) :: behind) := by
    rw [position_cons, length_itemBytes_record, List.length_append]
    omega
  rw [seekToNextRecord_inside hleft hshort, hpos]
  exact ⟨_, rfl, arrives_behind (nomatch ·)⟩

theorem stands_todo (behind : List TapItem) (done todo : List (BitVec 8)) (front : List TapItem) :
    Stands (image itemBytes (behind.reverse ++ .record (done ++ todo) :: front))
      (position behind + 4 + done.length)
      (todo ++ lengthBytes (itemSize (.record (done ++ todo)))) := by
  have hbehind := (stands_front behind (.record (done ++ todo)) front).right
  rw [length_lengthBytes, List.append_assoc] at hbehind
  exact hbehind.right

theorem readInRecord_whole {left aMaxSize : CAddr} {start : Int}
    (hleft : left.toNat = todo.length) (htodo : todo ≠ []) (hmax : todo.length ≤ aMaxSize.toNat) :
    ∃ s', readInRecord aMaxSize
        ⟨.ready (image itemBytes (behind.reverse ++ .record (done ++ todo) :: front))
          (position behind + 4 + done.length), dir, left, start, true, false⟩ = (.ok todo, s') ∧
      Arrives s' (.between (.record (done ++ todo) :: behind) front) false := by
  have hpos : position behind + 4 + done.length + todo.length + 4 =
      position (.record (done ++ todo) :: behind) := by
    rw [position_cons, length_itemBytes_record, List.length_append]
    omega
  rw [readInRecord_all (stands_todo behind done todo front) hleft htodo hmax, hpos]
  exact ⟨_, rfl, arrives_behind (nomatch ·)⟩

theorem readInRecord_rest {left aMaxSize : CAddr}
    (hleft : left.toNat = todo.length) (hpos : 0 < aMaxSize.toNat)
    (hmax : aMaxSize.toNat < todo.length) :
    ∃ s', readInRecord aMaxSize
        ⟨.ready (image itemBytes (behind.reverse ++ .record (done ++ todo) :: front))
          (position behind + 4 + done.length), dir, left, (position behind + 4 : Nat), true,
          false⟩ = (.ok (todo.take aMaxSize.toNat), s') ∧
      Arrives s' (.inside behind (done ++ todo.take aMaxSize.toNat) (todo.drop aMaxSize.toNat)
        front) false := by
  have hdata : (done ++ todo.take aMaxSize.toNat) ++ todo.drop aMaxSize.toNat = done ++ todo := by
    rw [List.append_assoc, List.take_append_drop]
  have hdone : (done ++ todo.take aMaxSize.toNat).length = done.length + aMaxSize.toNat := by
    rw [List.length_append, List.length_take_of_le (Nat.le_of_lt hmax)]
  have hrest : (left - aMaxSize).toNat = (todo.drop aMaxSize.toNat).length := by
    rw [BitVec.toNat_sub_of_le (by rw [BitVec.le_def]; omega), hleft, List.length_drop]
  rw [readInRecord_part (stands_todo behind done todo front) hleft hpos hmax, Nat.add_assoc, ← hdone]
  refine ⟨_, rfl, .inside ?_ rfl rfl hrest rfl ?_ ?_, ?_, rfl⟩
  · rw [hdata]
  · exact List.ne_nil_of_length_pos (by omega)
  · exact List.ne_nil_of_length_pos (by rw [List.length_drop]; omega)
  · rw [tapeImage, headPosition, Head.items, hdata]

theorem read_mark (hd : Describes s (.between behind (.mark :: front)))
    (hpos : 0 < aMaxSize.toNat) : ∃ s', read aMaxSize s = (.ok [], s') ∧
      Arrives s' (.between (.mark :: behind) front) true := by
  have hout := flags_between hd
  have hstream := stream_front hd
  have hbehind := position_cons .mark behind
  obtain ⟨stream, dir, left, start, valid, mark⟩ := s
  dsimp only at hout hstream
  subst hstream
  rw [length_itemBytes_mark] at hbehind
  rw [read_ready hout hpos, Run.bind_apply_ok (openItem_mark (stands_front behind .mark front)),
    ← hbehind]
  exact ⟨_, rfl, arrives_behind fun _ => ⟨rfl, rfl⟩⟩

theorem read_end (hd : Describes s (.between behind [])) (hpos : 0 < aMaxSize.toNat) :
    read aMaxSize s = (.ok [], { s with
      stream := .ended (image itemBytes behind.reverse), mLastCmdDirection := .Forward }) := by
  have hout := flags_between hd
  have hstream := stream_end hd
  obtain ⟨stream, dir, left, start, valid, mark⟩ := s
  dsimp only at hout hstream
  rcases hstream with rfl | rfl
  · rw [read_ready hout hpos, Run.bind_apply_ok openItem_end]
    rfl
  · rw [read_ended hout hpos]

/-- In front of a record: what is read is read with the head at the start of its data. -/
theorem read_record {data : List (BitVec 8)}
    (hd : Describes s (.between behind (.record data :: front))) (hfits : ItemFits (.record data))
    (hpos : 0 < aMaxSize.toNat) :
    read aMaxSize s = readInRecord aMaxSize
      ⟨.ready (image itemBytes (behind.reverse ++ .record ([] ++ data) :: front))
        (position behind + 4 + ([] : List (BitVec 8)).length), .Forward, itemSize (.record data),
        (position behind + 4 : Nat), true, false⟩ := by
  have hout := flags_between hd
  have hstream := stream_front hd
  obtain ⟨stream, dir, left, start, valid, mark⟩ := s
  dsimp only at hout hstream
  subst hstream
  rw [read_ready hout hpos,
    Run.bind_apply_ok (openItem_record hfits (stands_front behind (.record data) front))]
  rfl

theorem read_in (hd : Describes s (.inside behind done todo front))
    (hpos : 0 < aMaxSize.toNat) : ∃ left, left.toNat = todo.length ∧
      read aMaxSize s = readInRecord aMaxSize
        ⟨.ready (image itemBytes (behind.reverse ++ .record (done ++ todo) :: front))
          (position behind + 4 + done.length), .Forward, left, (position behind + 4 : Nat), true,
          false⟩ := by
  obtain ⟨stream, dir, left, start, valid, mark⟩ := s
  rcases hd with _ | ⟨hstream, hvalid, heof, hleft, hstart, -, -⟩
  dsimp only at hstream hvalid heof hleft hstart
  subst hstream hvalid heof hstart
  exact ⟨left, hleft, read_inside hpos⟩

/-! ## 3. Backwards -/

theorem position_pos (x : TapItem) (behind : List TapItem) : 0 < position (x :: behind) := by
  rw [position_cons]
  cases x with
  | record data =>
    rw [length_itemBytes_record]
    omega
  | mark =>
    rw [length_itemBytes_mark]
    omega

/-- Wherever the stream is, it is set to where the head is. -/
theorem seekToPrevRecord_settled (hd : Describes s (.between behind front)) :
    seekToPrevRecord s = seekToPrevRecord { s with
      stream := .ready (image itemBytes (behind.reverse ++ front)) (position behind) } := by
  obtain ⟨stream, dir, left, start, valid, mark⟩ := s
  rcases hd with ⟨hstream | ⟨rfl, hstream⟩, -⟩
  · dsimp only at hstream
    subst hstream
    rfl
  · dsimp only at hstream
    subst hstream
    rw [seekToPrevRecord_ended, List.append_nil]
    rfl

theorem seekToPrevRecord_stay (hd : Describes s (.between [] front)) :
    ∃ s', seekToPrevRecord s = (.ok (), s') ∧ Arrives s' (.between [] front) false := by
  rw [seekToPrevRecord_settled hd]
  exact ⟨_, seekToPrevRecord_start, arrives_front (nomatch ·)⟩

theorem seekToPrevRecord_mark (hd : Describes s (.between (.mark :: behind) front)) :
    ∃ s', seekToPrevRecord s = (.ok (), s') ∧ Arrives s' (.between behind (.mark :: front)) true := by
  have hpos := position_cons .mark behind
  rw [length_itemBytes_mark] at hpos
  have himage : image itemBytes ((Item.mark :: behind).reverse ++ front) =
      image itemBytes (behind.reverse ++ .mark :: front) := by
    rw [List.reverse_cons, List.append_assoc, List.singleton_append]
  rw [seekToPrevRecord_settled hd, himage]
  rcases hd with ⟨-, hflags⟩
  obtain ⟨stream, dir, left, start, valid, mark⟩ := s
  dsimp only at hflags ⊢
  rw [seekToPrevRecord_ready (position_pos .mark behind)]
  rcases hflags with ⟨rfl, -⟩ | ⟨rfl, rfl, rfl, rfl, -⟩
  · rw [hpos, if_neg Bool.false_ne_true, backOverItem_mark (stands_front behind .mark front)]
    exact ⟨_, rfl, arrives_front fun _ => .inr rfl⟩
  · rw [hpos, if_pos rfl, backToStart_mark (stands_front behind .mark front)]
    exact ⟨_, rfl, arrives_front fun _ => .inr rfl⟩

theorem seekToPrevRecord_record {data : List (BitVec 8)}
    (hd : Describes s (.between (.record data :: behind) front)) (hfits : ItemFits (.record data))
    (hshort : data.length + 8 < 2 ^ 32) : ∃ s', seekToPrevRecord s = (.ok (), s') ∧
      Arrives s' (.between behind (.record data :: front)) false := by
  have hpos := position_cons (.record data) behind
  have himage : image itemBytes ((Item.record data :: behind).reverse ++ front) =
      image itemBytes (behind.reverse ++ .record data :: front) := by
    rw [List.reverse_cons, List.append_assoc, List.singleton_append]
  rw [seekToPrevRecord_settled hd, himage]
  rcases hd with ⟨-, ⟨hvalid, -⟩ | ⟨-, -, -, -, hmark⟩⟩
  · obtain ⟨stream, dir, left, start, valid, mark⟩ := s
    dsimp only at hvalid ⊢
    rw [seekToPrevRecord_ready (position_pos (.record data) behind), hvalid,
      if_neg Bool.false_ne_true, hpos,
      backOverItem_record hfits hshort (stands_front behind (.record data) front)]
    exact ⟨_, rfl, arrives_front (nomatch ·)⟩
  · exact absurd hmark (by simp)

theorem seekToPrevRecord_out (hd : Describes s (.inside behind done todo front)) :
    ∃ s', seekToPrevRecord s = (.ok (), s') ∧
      Arrives s' (.between behind (.record (done ++ todo) :: front)) false := by
  obtain ⟨stream, dir, left, start, valid, mark⟩ := s
  rcases hd with _ | ⟨hstream, hvalid, heof, hleft, hstart, -, -⟩
  dsimp only at hstream hvalid heof hleft hstart
  subst hstream hvalid heof hstart
  rw [seekToPrevRecord_ready (by omega), if_pos rfl, backToStart_record]
  exact ⟨_, rfl, arrives_front (nomatch ·)⟩

/-- Any stream on the tape of a head: at a position of it or behind its end. -/
theorem stream_cases {h : TapHead} (hd : Describes s h) :
    s.stream = .ready (tapeImage h) (headPosition h) ∨ s.stream = .ended (tapeImage h) := by
  rcases hd with ⟨hstream | ⟨rfl, hstream⟩, -⟩ | ⟨hstream, -, -, -, -, -, -⟩
  · exact .inl hstream
  · refine .inr ?_
    rw [hstream, tapeImage, Head.items, List.append_nil]
  · exact .inl hstream

theorem seekToBeginningOfTape_rewind {h : TapHead} (hd : Describes s h) :
    ∃ s', seekToBeginningOfTape s = (.ok (), s') ∧ Arrives s' h.rewind false := by
  have hstream := stream_cases hd
  obtain ⟨stream, dir, left, start, valid, mark⟩ := s
  dsimp only at hstream
  rcases hstream with rfl | rfl
  · exact ⟨_, seekToBeginningOfTape_ready, arrives_start h.items⟩
  · exact ⟨_, seekToBeginningOfTape_ended, arrives_start h.items⟩

/-! ## 4. Writing -/

theorem itemSize_eq_iff {x y : TapItem} (hx : ItemFits x) (hy : ItemFits y) :
    itemSize y = itemSize x ↔ y.length = x.length := by
  constructor
  · intro h
    rw [← toNat_itemSize hx, ← toNat_itemSize hy, h]
  · intro h
    rw [itemSize, h, itemSize]

theorem length_itemBytes_eq {x y : TapItem} (hx : ItemFits x) (hy : ItemFits y)
    (h : y.length = x.length) : (itemBytes x).length = (itemBytes y).length := by
  cases x with
  | record data =>
    cases y with
    | record data' =>
      rw [length_itemBytes_record, length_itemBytes_record]
      have hlen : data'.length = data.length := h
      omega
    | mark => exact absurd h (Nat.ne_of_lt hx.1)
  | mark =>
    cases y with
    | record data' => exact absurd h (Nat.ne_of_gt hy.1)
    | mark => rfl

/-- `WriteRecordInternal` puts the item `x` behind `behind`. -/
theorem putItem_arrives {img : List (BitVec 8)} {left : CAddr} {start : Int}
    {valid mark : Bool} (hfits : ItemFits x) (hp : position behind ≤ img.length)
    (himg : splice img (position behind) (itemBytes x) =
      image itemBytes (behind.reverse ++ x :: front)) :
    ∃ s', putItem (itemSize x) (itemData x)
        ⟨.ready img (position behind), dir, left, start, valid, mark⟩ = (.ok (), s') ∧
      Arrives s' (.between (x :: behind) front) x.isMark := by
  have hpos := position_cons x behind
  cases x with
  | record data =>
    rw [itemData, putItem_record hfits hp, himg, ← hpos]
    exact ⟨_, rfl, arrives_behind (nomatch ·)⟩
  | mark =>
    have hput := @putItem_mark img (position behind) dir left start valid mark hp
    rw [length_itemBytes_mark] at hpos
    rw [himg, ← hpos] at hput
    exact ⟨_, hput, arrives_behind fun _ => ⟨rfl, rfl⟩⟩

theorem itemSize_itemData (x : TapItem) : BitVec.ofNat 32 (itemData x).length = itemSize x := by
  cases x <;> rfl

/-- What is behind the head stays when the tape is cut there. -/
theorem take_position (behind items : List TapItem) :
    (image itemBytes (behind.reverse ++ items)).take (position behind) =
      image itemBytes behind.reverse := by
  rw [image_append]
  exact List.take_left

theorem position_le (behind items : List TapItem) :
    position behind ≤ (image itemBytes (behind.reverse ++ items)).length := by
  rw [length_image_front]
  exact Nat.le_add_right _ _

theorem putItem_appends {left : CAddr} {start : Int} {valid mark : Bool}
    (behind : List TapItem) (hfits : ItemFits x) :
    ∃ s', putItem (itemSize x) (itemData x)
        ⟨.ready (image itemBytes behind.reverse) (position behind), dir, left, start, valid, mark⟩ =
          (.ok (), s') ∧ Arrives s' (.between (x :: behind) []) x.isMark := by
  refine putItem_arrives hfits (Nat.le_refl _) ?_
  rw [position, splice_length, image_append, image_cons, image_nil, List.append_nil]

theorem writeRecordInternal_over {y : TapItem} (hd : Describes s (.between behind (y :: front)))
    (hx : ItemFits x) (hy : ItemFits y) (hshort : y.length + 4 < 2 ^ 32) :
    ∃ s', writeRecordInternal (itemData x) s = (.ok (), s') ∧
      Arrives s' (.between (x :: behind) (if y.length = x.length then front else [])) x.isMark := by
  have hout := flags_between hd
  have hstream := stream_front hd
  have hfront := stands_front behind y front
  obtain ⟨stream, dir, left, start, valid, mark⟩ := s
  dsimp only at hout hstream
  subst hstream
  rw [writeRecordInternal_ready hout, Run.bind_apply, itemSize_itemData,
    truncateUnlessSame_item hy hshort hfront]
  by_cases hsame : y.length = x.length
  · rw [if_pos ((itemSize_eq_iff hx hy).2 hsame), if_pos hsame]
    refine putItem_arrives hx (position_le behind _) ?_
    rw [image_append, image_append, image_cons, image_cons]
    exact splice_append _ _ (length_itemBytes_eq hx hy hsame)
  · rw [if_neg (mt (itemSize_eq_iff hx hy).1 hsame), if_neg hsame, take_position]
    exact putItem_appends behind hx

theorem writeRecordInternal_end (hd : Describes s (.between behind [])) (hx : ItemFits x) :
    ∃ s', writeRecordInternal (itemData x) s = (.ok (), s') ∧
      Arrives s' (.between (x :: behind) []) x.isMark := by
  have hout := flags_between hd
  have hstream := stream_end hd
  obtain ⟨stream, dir, left, start, valid, mark⟩ := s
  dsimp only at hout hstream
  rcases hstream with rfl | rfl
  · rw [writeRecordInternal_ready hout, Run.bind_apply_ok truncateUnlessSame_end, itemSize_itemData,
      putItem_ended]
    exact putItem_appends behind hx
  · rw [writeRecordInternal_ended, itemSize_itemData, putItem_ended]
    exact putItem_appends behind hx

theorem writeRecordInternal_in (hd : Describes s (.inside behind done todo front))
    (hx : ItemFits x) : ∃ s', writeRecordInternal (itemData x) s = (.ok (), s') ∧
      Arrives s' (.between (x :: behind) []) x.isMark := by
  obtain ⟨stream, dir, left, start, valid, mark⟩ := s
  rcases hd with _ | ⟨hstream, hvalid, heof, hleft, hstart, -, -⟩
  dsimp only at hstream hvalid heof hleft hstart
  subst hstream hvalid heof hstart
  rw [writeRecordInternal_inside (position_le behind _), itemSize_itemData, take_position]
  exact putItem_appends behind hx

/-! ## 5. What `GetState` says -/

theorem getState_mark (h : Arrives s (.between (x :: behind) front) true) :
    getState s = (.ok .EndOfFile, s) := by
  have hne : position (x :: behind) ≠ 0 := Nat.ne_of_gt (position_pos x behind)
  obtain ⟨-, hstream, heof⟩ := h
  obtain ⟨stream, dir, left, start, valid, mark⟩ := s
  dsimp only at hstream heof
  subst hstream heof
  simp [getState, Run.bind_apply, Run.get_apply, fileExists, onStream_apply, headPosition, hne,
    Run.pure_apply]

/-- Behind a record that has been read or passed. -/
theorem getState_record (h : Arrives s (.between (x :: behind) front) false) :
    getState s = (.ok .EndOfRecord, s) := by
  have hne : position (x :: behind) ≠ 0 := Nat.ne_of_gt (position_pos x behind)
  have hvalid := flags_between h.describes
  obtain ⟨-, hstream, heof⟩ := h
  rw [heof, Bool.not_false, Bool.and_true] at hvalid
  obtain ⟨stream, dir, left, start, valid, mark⟩ := s
  dsimp only at hstream heof hvalid
  subst hstream heof hvalid
  simp [getState, Run.bind_apply, Run.get_apply, fileExists, onStream_apply, headPosition, hne,
    Run.pure_apply]

theorem getState_ended {img : List (BitVec 8)} (h : s.stream = .ended img) :
    getState s = (.ok .EndOfTape, s) := by
  simp [getState, Run.bind_apply, Run.get_apply, fileExists, h, Run.pure_apply]

theorem getState_start {m : Bool} (h : Arrives s (.between [] front) m) :
    getState s = (.ok .BeginningOfTape, s) := by
  obtain ⟨-, hstream, -⟩ := h
  have hzero : headPosition (.between [] front) = 0 := rfl
  obtain ⟨stream, dir, left, start, valid, mark⟩ := s
  dsimp only at hstream
  rw [hzero] at hstream
  subst hstream
  simp [getState, Run.bind_apply, Run.get_apply, fileExists, onStream_apply, Run.pure_apply]

theorem getState_inside (h : Arrives s (.inside behind done todo front) false) :
    getState s = (.ok .Normal, s) := by
  obtain ⟨hd, -, -⟩ := h
  obtain ⟨stream, dir, left, start, valid, mark⟩ := s
  rcases hd with _ | ⟨hstream, hvalid, heof, hleft, -, -, htodo⟩
  dsimp only at hstream hvalid heof hleft
  subst hstream hvalid heof
  have hleft' : left ≠ 0#32 := by
    intro hz
    rw [hz] at hleft
    exact htodo (List.eq_nil_of_length_eq_zero hleft.symm)
  have hne : (position behind : Int) + 4 + done.length ≠ 0 := by omega
  simp [getState, Run.bind_apply, Run.get_apply, fileExists, onStream_apply, hne, hleft',
    Run.pure_apply]

end operations

end TapFile

end CraySim
