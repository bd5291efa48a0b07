/-
  Subject:   Runs on a tape image.

  Any sequence of operations on a well formed image does to it what it does to a tape, as long as
  no length of a record, together with the lengths around it, is too long for 32 bits.

  * `TapCommand`, `perform`, `outcome` -- the operations, on the image and on the tape,
  * `Safe` -- when 32 bits are enough for an operation,
  * `perform_describes` -- one operation,
  * `performAll_describes` -- a run: the image stays well formed, and the state is the position,
  * `performAll_wraps` -- a record after which seeking back reports a mismatch.
-/
import CraySim.TapMotion

namespace CraySim

open ByteFile Framed Tape

/-- The operations on a tape. -/
inductive TapCommand where
  | seekToNextRecord
  | seekToPrevRecord
  | seekToBeginningOfTape
  | read (aMaxSize : CAddr)
  | writeRecord (aData : List (BitVec 8))
  | writeEndOfFile
  deriving DecidableEq, Repr

namespace TapFile

/-! ## 1. Operations as commands -/

/-- What a command does to the tape image, and the data it returns. -/
def perform : TapCommand → Tap (List (BitVec 8))
  | .seekToNextRecord => do seekToNextRecord; return []
  | .seekToPrevRecord => do seekToPrevRecord; return []
  | .seekToBeginningOfTape => do seekToBeginningOfTape; return []
  | .read aMaxSize => read aMaxSize
  | .writeRecord aData => do writeRecord aData; return []
  | .writeEndOfFile => do writeEndOfFile; return []

/-- A run: what every command returned or raised, and the tape behind it. -/
def performAll : List TapCommand → TapFile → List (Except TapExn (List (BitVec 8))) × TapFile
  | [], s => ([], s)
  | c :: cs, s =>
    ((perform c s).1 :: (performAll cs (perform c s).2).1, (performAll cs (perform c s).2).2)

/-- What a command is for. Reading nothing and writing an empty record are refused. -/
def outcome : TapCommand → TapHead → Except TapExn (List (BitVec 8)) × TapHead
  | .seekToNextRecord, h => (.ok [], h.next)
  | .seekToPrevRecord, h => (.ok [], h.prev)
  | .seekToBeginningOfTape, h => (.ok [], h.rewind)
  | .read aMaxSize, h =>
    if aMaxSize = 0 then (.error .assertion, h)
    else (.ok (h.read aMaxSize.toNat).1, (h.read aMaxSize.toNat).2)
  | .writeRecord aData, h =>
    if aData = [] then (.error .assertion, h) else (.ok [], h.write (.record aData))
  | .writeEndOfFile, h => (.ok [], h.write .mark)

def outcomes : List TapCommand → TapHead → List (Except TapExn (List (BitVec 8))) × TapHead
  | [], h => ([], h)
  | c :: cs, h =>
    ((outcome c h).1 :: (outcomes cs (outcome c h).2).1, (outcomes cs (outcome c h).2).2)

/-- Writing looks at the item in front of the head, and skips it together with its length. -/
def WriteSafe : TapHead → Prop
  | .between _ (y :: _) => y.length + 4 < 2 ^ 32
  | _ => True

/-- 32 bits are enough for what the command adds to a length. -/
def Safe : TapCommand → TapHead → Prop
  | .seekToNextRecord, .inside _ _ todo _ => todo.length + 4 < 2 ^ 32
  | .seekToPrevRecord, .between (x :: _) _ => x.length + 8 < 2 ^ 32
  | .writeRecord aData, h => aData ≠ [] → aData.length < 2 ^ 32 ∧ WriteSafe h
  | .writeEndOfFile, h => WriteSafe h
  | _, _ => True

/-- Every command of a run is safe where it is given. -/
def SafeRun : List TapCommand → TapHead → Prop
  | [], _ => True
  | c :: cs, h => Safe c h ∧ SafeRun cs (outcome c h).2

/-! ## 2. One command -/

section command
variable {s : TapFile} {h : TapHead}

theorem describes_setDirection (hd : Describes s h) (d : Direction) :
    Describes { s with mLastCmdDirection := d } h := by
  rcases hd with ⟨hstream, hflags⟩ | ⟨hstream, hvalid, heof, hleft, hstart, hdone, htodo⟩
  · exact .between hstream hflags
  · exact .inside hstream hvalid heof hleft hstart hdone htodo

theorem disk_eq (hd : Describes s h) : s.stream.disk = some (tapeImage h) := by
  rcases stream_cases hd with hstream | hstream
  · rw [hstream, FileStream.disk_ready]
  · rw [hstream, FileStream.disk_ended]

theorem seekToNextRecord_describes (hd : Describes s h) (hfits : ∀ x ∈ h.items, ItemFits x)
    (hsafe : Safe .seekToNextRecord h) :
    ∃ s', seekToNextRecord s = (.ok (), s') ∧ Describes s' h.next := by
  rcases h with ⟨behind, _ | ⟨x, front⟩⟩ | ⟨behind, done, todo, front⟩
  · exact ⟨_, seekToNextRecord_end hd, describes_ended hd⟩
  · have hx : ItemFits x := hfits x (by simp [Head.items])
    obtain ⟨s', hs, harr⟩ := seekToNextRecord_over hd hx
    exact ⟨s', hs, harr.describes⟩
  · obtain ⟨s', hs, harr⟩ := seekToNextRecord_out hd hsafe
    exact ⟨s', hs, harr.describes⟩

theorem seekToPrevRecord_describes (hd : Describes s h) (hfits : ∀ x ∈ h.items, ItemFits x)
    (hsafe : Safe .seekToPrevRecord h) :
    ∃ s', seekToPrevRecord s = (.ok (), s') ∧ Describes s' h.prev := by
  rcases h with ⟨_ | ⟨data | _, behind⟩, front⟩ | ⟨behind, done, todo, front⟩
  · obtain ⟨s', hs, harr⟩ := seekToPrevRecord_stay hd
    exact ⟨s', hs, harr.describes⟩
  · have hx : ItemFits (.record data) := hfits _ (by simp [Head.items])
    obtain ⟨s', hs, harr⟩ := seekToPrevRecord_record hd hx hsafe
    exact ⟨s', hs, harr.describes⟩
  · obtain ⟨s', hs, harr⟩ := seekToPrevRecord_mark hd
    exact ⟨s', hs, harr.describes⟩
  · obtain ⟨s', hs, harr⟩ := seekToPrevRecord_out hd
    exact ⟨s', hs, harr.describes⟩

/-- Reading in a record, or right behind the length in front of it. -/
theorem readInRecord_describes {dir : Direction} {left aMaxSize : CAddr}
    {behind front : List TapItem} {done todo : List (BitVec 8)} (hleft : left.toNat = todo.length)
    (htodo : todo ≠ []) (hpos : 0 < aMaxSize.toNat) :
    ∃ s', readInRecord aMaxSize
        ⟨.ready (image itemBytes (behind.reverse ++ .record (done ++ todo) :: front))
          (position behind + 4 + done.length), dir, left, (position behind + 4 : Nat), true,
          false⟩ = (.ok (Head.readFrom aMaxSize.toNat behind done todo front).1, s') ∧
      Describes s' (Head.readFrom aMaxSize.toNat behind done todo front).2 := by
  by_cases hmax : todo.length ≤ aMaxSize.toNat
  · rw [Head.readFrom, if_pos hmax]
    obtain ⟨s', hs, harr⟩ := readInRecord_whole hleft htodo hmax
    exact ⟨s', hs, harr.describes⟩
  · rw [Head.readFrom, if_neg hmax]
    obtain ⟨s', hs, harr⟩ := readInRecord_rest hleft hpos (by omega)
    exact ⟨s', hs, harr.describes⟩

theorem read_describes {aMaxSize : CAddr} (hd : Describes s h) (hfits : ∀ x ∈ h.items, ItemFits x)
    (hpos : 0 < aMaxSize.toNat) : ∃ s', read aMaxSize s = (.ok (h.read aMaxSize.toNat).1, s') ∧
      Describes s' (h.read aMaxSize.toNat).2 := by
  rcases h with ⟨behind, _ | ⟨data | _, front⟩⟩ | ⟨behind, done, todo, front⟩
  · exact ⟨_, read_end hd hpos, describes_ended hd⟩
  · have hx : ItemFits (.record data) := hfits _ (by simp [Head.items])
    rw [read_record hd hx hpos]
    exact readInRecord_describes (toNat_itemSize hx) (List.ne_nil_of_length_pos hx.1) hpos
  · obtain ⟨s', hs, harr⟩ := read_mark hd hpos
    exact ⟨s', hs, harr.describes⟩
  · obtain ⟨left, hleft, hread⟩ := read_in hd hpos
    rw [hread]
    rcases hd with _ | ⟨-, -, -, -, -, -, htodo⟩
    exact readInRecord_describes hleft htodo hpos

theorem writeRecordInternal_describes {x : TapItem} (hd : Describes s h)
    (hfits : ∀ y ∈ h.items, ItemFits y) (hx : ItemFits x) (hsafe : WriteSafe h) :
    ∃ s', writeRecordInternal (itemData x) s = (.ok (), s') ∧ Describes s' (h.write x) := by
  rcases h with ⟨behind, _ | ⟨y, front⟩⟩ | ⟨behind, done, todo, front⟩
  · obtain ⟨s', hs, harr⟩ := writeRecordInternal_end hd hx
    exact ⟨s', hs, harr.describes⟩
  · have hy : ItemFits y := hfits y (by simp [Head.items])
    obtain ⟨s', hs, harr⟩ := writeRecordInternal_over hd hx hy hsafe
    exact ⟨s', hs, harr.describes⟩
  · obtain ⟨s', hs, harr⟩ := writeRecordInternal_in hd hx
    exact ⟨s', hs, harr.describes⟩

/-- A command that moves the head only, or writes. -/
theorem perform_of_unit {m : Tap Unit} {h' : TapHead}
    (hm : ∃ s', m s = (.ok (), s') ∧ Describes s' h') :
    ∃ s', (do m; return [] : Tap (List (BitVec 8))) s = (.ok [], s') ∧ Describes s' h' := by
  obtain ⟨s', hs, hd⟩ := hm
  exact ⟨s', Run.bind_apply_ok hs, hd⟩

/-- `Read` refuses to read nothing. -/
theorem read_zero (hd : Describes s h) :
    read 0 s = (.error .assertion, { s with mLastCmdDirection := .Forward }) := by
  simp [read, Run.bind_apply, setDirection_apply, Run.get_apply, fileExists, disk_eq hd, tapAssert,
    Run.throw_apply]

/-- `WriteRecord` refuses an empty record. -/
theorem writeRecord_nil (s : TapFile) :
    writeRecord [] s = (.error .assertion, { s with mLastCmdDirection := .Forward }) := rfl

theorem writeRecord_cons {aData : List (BitVec 8)} (hne : aData ≠ []) (s : TapFile) :
    writeRecord aData s =
      writeRecordInternal (itemData (.record aData)) { s with mLastCmdDirection := .Forward } := by
  have hlen : aData.length ≠ 0 := mt List.eq_nil_of_length_eq_zero hne
  simp [writeRecord, Run.bind_apply, setDirection_apply, tapAssert, hne, Run.pure_apply, itemData]

/-- **One command** does to the image what it does to the tape. -/
theorem perform_describes (c : TapCommand) (hd : Describes s h) (hfits : ∀ x ∈ h.items, ItemFits x)
    (hsafe : Safe c h) :
    ∃ s', perform c s = ((outcome c h).1, s') ∧ Describes s' (outcome c h).2 := by
  cases c with
  | seekToNextRecord => exact perform_of_unit (seekToNextRecord_describes hd hfits hsafe)
  | seekToPrevRecord => exact perform_of_unit (seekToPrevRecord_describes hd hfits hsafe)
  | seekToBeginningOfTape =>
    obtain ⟨s', hs, harr⟩ := seekToBeginningOfTape_rewind hd
    exact perform_of_unit ⟨s', hs, harr.describes⟩
  | read aMaxSize =>
    by_cases hzero : aMaxSize = 0
    · rw [outcome, if_pos hzero, hzero, perform, read_zero hd]
      exact ⟨_, rfl, describes_setDirection hd .Forward⟩
    · have hpos : 0 < aMaxSize.toNat := by
        refine Nat.pos_of_ne_zero fun hz => hzero ?_
        exact BitVec.eq_of_toNat_eq hz
      rw [outcome, if_neg hzero]
      exact read_describes hd hfits hpos
  | writeRecord aData =>
    by_cases hnil : aData = []
    · rw [outcome, if_pos hnil, hnil, perform]
      exact ⟨_, Run.bind_apply_error (writeRecord_nil s), describes_setDirection hd .Forward⟩
    · obtain ⟨hlen, hwrite⟩ := hsafe hnil
      have hx : ItemFits (.record aData) := ⟨List.length_pos_of_ne_nil hnil, hlen⟩
      rw [outcome, if_neg hnil]
      refine perform_of_unit ?_
      rw [writeRecord_cons hnil]
      exact writeRecordInternal_describes (describes_setDirection hd .Forward) hfits hx hwrite
  | writeEndOfFile =>
    refine perform_of_unit ?_
    exact writeRecordInternal_describes (x := .mark) (describes_setDirection hd .Forward) hfits
      trivial hsafe

end command

theorem itemFits_outcome {c : TapCommand} {h : TapHead} (hfits : ∀ x ∈ h.items, ItemFits x)
    (hsafe : Safe c h) : ∀ x ∈ (outcome c h).2.items, ItemFits x := by
  cases c with
  | seekToNextRecord => rwa [outcome, Head.items_next]
  | seekToPrevRecord => rwa [outcome, Head.items_prev]
  | seekToBeginningOfTape => exact hfits
  | read aMaxSize =>
    rw [outcome]
    split
    · exact hfits
    · rwa [Head.items_read]
  | writeRecord aData =>
    rw [outcome]
    split
    · exact hfits
    · rename_i hnil
      exact Head.forall_items_write ⟨List.length_pos_of_ne_nil hnil, (hsafe hnil).1⟩ hfits
  | writeEndOfFile => exact Head.forall_items_write trivial hfits

/-! ## 3. Runs -/

/-- **Runs**: from a state that describes a head, every command of a safe run returns what it
    returns on the tape, and the state behind the run describes the head. -/
theorem performAll_describes (cs : List TapCommand) {s : TapFile} {h : TapHead}
    (hd : Describes s h) (hfits : ∀ x ∈ h.items, ItemFits x) (hsafe : SafeRun cs h) :
    (performAll cs s).1 = (outcomes cs h).1 ∧ Describes (performAll cs s).2 (outcomes cs h).2 ∧
      ∀ x ∈ (outcomes cs h).2.items, ItemFits x := by
  induction cs generalizing s h with
  | nil => exact ⟨rfl, hd, hfits⟩
  | cons c cs ih =>
    obtain ⟨hc, hcs⟩ := hsafe
    obtain ⟨s', hs, hd'⟩ := perform_describes c hd hfits hc
    obtain ⟨hresults, hend, hitems⟩ := ih hd' (itemFits_outcome hfits hc) hcs
    rw [performAll, outcomes, hs]
    exact ⟨by rw [hresults], hend, hitems⟩

theorem ofDisk_eq (file : List (BitVec 8)) (aMemory : Bool) :
    ofDisk (some file) aMemory = ⟨.ready file 0, .None, 0, 0, false, aMemory⟩ := by
  have hopen : FileStream.openFile
      { disk := some file, isOpen := false, pos := 0, eofbit := false, failbit := false } =
        .ready file 0 := rfl
  rw [ofDisk, hopen]
  exact opened_ready

theorem describes_ofDisk (items : List TapItem) (aMemory : Bool) :
    Describes (ofDisk (some (image itemBytes items)) aMemory) (.between [] items) := by
  rw [ofDisk_eq]
  exact .between (.inl rfl) (.inl ⟨rfl, fun _ => .inl rfl⟩)

/-- The tape refuses nothing but an empty argument. -/
theorem outcome_error {c : TapCommand} {h : TapHead} {e : TapExn}
    (he : (outcome c h).1 = .error e) : e = .assertion := by
  cases c with
  | read aMaxSize =>
    rw [outcome] at he
    split at he
    · exact (Except.error.inj he).symm
    · exact nomatch he
  | writeRecord aData =>
    rw [outcome] at he
    split at he
    · exact (Except.error.inj he).symm
    · exact nomatch he
  | seekToNextRecord => exact nomatch he
  | seekToPrevRecord => exact nomatch he
  | seekToBeginningOfTape => exact nomatch he
  | writeEndOfFile => exact nomatch he

theorem outcomes_error {cs : List TapCommand} {h : TapHead} {e : TapExn}
    (he : .error e ∈ (outcomes cs h).1) : e = .assertion := by
  induction cs generalizing h with
  | nil => exact absurd he List.not_mem_nil
  | cons c cs ih =>
    rcases List.mem_cons.1 he with heq | hmem
    · exact outcome_error heq.symm
    · exact ih hmem

/-- **Any run** on a well formed image: every operation does what it does on the tape, no length is
    found not to match, the image stays well formed, and the state says where the head is. -/
theorem tape_wellFormed {items : List TapItem} (hitems : ∀ x ∈ items, ItemFits x) (aMemory : Bool)
    {cs : List TapCommand} (hsafe : SafeRun cs (.between [] items)) :
    (performAll cs (ofDisk (some (image itemBytes items)) aMemory)).1 =
        (outcomes cs (.between [] items)).1 ∧
      (∀ aText, .error (.generic aText) ∉
        (performAll cs (ofDisk (some (image itemBytes items)) aMemory)).1) ∧
      (performAll cs (ofDisk (some (image itemBytes items)) aMemory)).2.stream.disk =
        some (image itemBytes (outcomes cs (.between [] items)).2.items) ∧
      (∀ x ∈ (outcomes cs (.between [] items)).2.items, ItemFits x) ∧
      Describes (performAll cs (ofDisk (some (image itemBytes items)) aMemory)).2
        (outcomes cs (.between [] items)).2 := by
  obtain ⟨hresults, hd, hfits⟩ :=
    performAll_describes cs (describes_ofDisk items aMemory) hitems hsafe
  refine ⟨hresults, fun aText hmem => ?_, disk_eq hd, hfits, hd⟩
  rw [hresults] at hmem
  exact nomatch outcomes_error hmem

theorem tape_wellFormed_short :
    (performAll [.read 1, .writeEndOfFile]
      (ofDisk (some (image itemBytes [.record [7, 8], .mark])) false)).2.stream.disk =
        some (image itemBytes [.mark]) :=
  (@tape_wellFormed [.record [7, 8], .mark] (by simp [ItemFits]) false [.read 1, .writeEndOfFile]
    (by simp [SafeRun, Safe, WriteSafe, outcome, Head.read, Head.readFrom])).2.2.1

/-! ## 4. Where 32 bits are not enough -/

section wraps
variable {img data : List (BitVec 8)} {p : Nat} {dir : Direction} {left : CAddr} {start : Int}
  {valid mark : Bool}

/-- The length of the record and its two length words is 0 in 32 bits: the reader stays behind the
    record and takes the length of the next item for the one in front of the record. -/
theorem backOverItem_wraps {x : TapItem} (hfits : ItemFits (.record data))
    (hlen : data.length + 8 = 2 ^ 32) (h : Stands img p (itemBytes (.record data)))
    (hnext : Stands img (p + (itemBytes (.record data)).length) (itemBytes x))
    (hne : itemSize (.record data) ≠ itemSize x) :
    (backOverItem ⟨.ready img (p + (itemBytes (.record data)).length), dir, left, start, valid,
      mark⟩).1 = .error (.generic "Record size mismatch") := by
  have hsize := toNat_itemSize hfits
  have hpos := length_itemBytes_record data
  have hback := seekBy_trailer img p data
  have hstay : FileStream.seekBy (-((itemSize (.record data) + 8#32).toNat : Int))
      (.ready img (p + 4 + data.length + 4)) = .ready img (p + 4 + data.length + 4) := by
    refine FileStream.seekBy_ready ?_
    rw [BitVec.toNat_add, hsize, Item.length, show (8#32).toNat = 8 from rfl, hlen, Nat.mod_self]
    omega
  have hheader := stands_size hnext
  rw [hpos, show p + (4 + data.length + 4) = p + 4 + data.length + 4 by omega] at hheader
  simp [-BitVec.toNat_add, backOverItem, Run.bind_apply, Run.modify_apply, modifyStream_apply,
    hback, throwIfFail_ready, readLength_stands (stands_trailer h), itemSize_ne_zero hfits, hstay,
    readLength_stands hheader, hne, Run.throw_apply]

theorem performAll_wraps {x : TapItem} (hlen : data.length + 8 = 2 ^ 32)
    (hne : itemSize (.record data) ≠ itemSize x) :
    (performAll [.seekToNextRecord, .seekToPrevRecord]
      (ofDisk (some (image itemBytes [.record data, x])) valid)).1 =
        [.ok [], .error (.generic "Record size mismatch")] := by
  have hfits : ItemFits (.record data) := ⟨by omega, by omega⟩
  obtain ⟨s', hs, harr⟩ := seekToNextRecord_over (describes_ofDisk [.record data, x] valid) hfits
  have hstream := harr.stream
  have hmark := harr.eof
  have hvalid : s'.mCurRecordValid = false := by
    have hflags := flags_between harr.describes
    rwa [hmark, Item.isMark, Bool.not_false, Bool.and_true] at hflags
  obtain ⟨stream, dir, left, start, valid', mark'⟩ := s'
  dsimp only at hstream hmark hvalid
  subst hstream hmark hvalid
  have hnext : Stands (image itemBytes [.record data, x])
      (position [] + (itemBytes (.record data)).length) (itemBytes x) := by
    rw [← position_cons]
    exact stands_front [.record data] x []
  have hmismatch := @backOverItem_wraps _ data _ .Backward left start false false x hfits hlen
    (stands_front [] (.record data) [x]) hnext hne
  rw [← position_cons] at hmismatch
  have hprev := @seekToPrevRecord_ready (image itemBytes [.record data, x])
    (position [.record data]) dir left start false false (position_pos _ _)
  rw [if_neg Bool.false_ne_true] at hprev
  rcases hr : backOverItem ⟨.ready (image itemBytes [.record data, x]) (position [.record data]),
    .Backward, left, start, false, false⟩ with ⟨r, s''⟩
  have hback : perform .seekToPrevRecord ⟨.ready (image itemBytes [.record data, x])
      (position [.record data]), dir, left, start, false, false⟩ =
        (.error (.generic "Record size mismatch"), s'') := by
    refine Run.bind_apply_error ?_
    rw [hprev, hr]
    exact congrArg (·, s'') ((congrArg Prod.fst hr).symm.trans hmismatch)
  have hforward := @Run.bind_apply_ok _ _ _ _ (fun _ => (pure [] : Tap (List (BitVec 8)))) _ _ _ _ hs
  rw [performAll, performAll, performAll, perform, hforward]
  exact congrArg (fun r => [.ok [], r.1]) hback

end wraps

/-- A record of `2 ^ 32 - 8` bytes and a short one: the image is well formed, and seeking forward
    and back reports a mismatch. -/
theorem tape_wellFormed_wraps :
    (∀ x ∈ [.record (List.replicate (2 ^ 32 - 8) 0), .record [1]], ItemFits x) ∧
      (performAll [.seekToNextRecord, .seekToPrevRecord] (ofDisk (some
        (image itemBytes [.record (List.replicate (2 ^ 32 - 8) 0), .record [1]])) false)).1 =
          [.ok [], .error (.generic "Record size mismatch")] := by
  have hlen : (List.replicate (2 ^ 32 - 8) (0 : BitVec 8)).length + 8 = 2 ^ 32 := by
    rw [List.length_replicate]
    exact Nat.sub_add_cancel (by decide)
  have hlong : ItemFits (.record (List.replicate (2 ^ 32 - 8) 0)) := ⟨by omega, by omega⟩
  have hshort : ItemFits (.record [1]) := ⟨by decide, by decide⟩
  refine ⟨fun x hx => ?_, performAll_wraps hlen fun heq => ?_⟩
  · rcases List.mem_cons.1 hx with rfl | hx
    · exact hlong
    · rw [List.mem_singleton.1 hx]
      exact hshort
  · have hsizes := (itemSize_eq_iff hshort hlong).1 heq
    rw [Item.length, Item.length, List.length_singleton] at hsizes
    omega

end TapFile

end CraySim
