/-
  Subject:   Editing the files of a tape.

  `tap_edit.cpp`. A command copies the tape to a temporary one, file by file, with a file of the
  host put in or a file left out, and gives the temporary tape the name of the old one. The mark
  behind a file is copied only if there was a record: a file without records is lost wherever it is
  copied. The temporary tape is made by the first write, so that a tape without any file cannot be
  renamed.

  * `Editor`, `Edit` -- the two tapes, and what is done with them,
  * `Written` -- the items on the temporary tape,
  * `addTape_file`, `skip_file`, `copyFront_files`, `copyRest_files` -- what the loops do,
  * `does_iff` -- a command does it iff every file it copies has a record and a file is left.

  The loops end with the tape; here they are given a number of rounds. That the file of the host is
  there, and failures of the file system other than that of `rename`, are left out.
-/
import CraySim.TapReadBack

namespace CraySim

open TapFile

/-- How a command ends that does not return. -/
inductive EditExn where
  /-- An exception of the tape code, or of `tap_edit.cpp` itself. -/
  | tap (aExn : TapExn)
  /-- `boost::filesystem::filesystem_error`. -/
  | filesystem
  /-- No exception of the source: the rounds were not enough. -/
  | outOfRounds
  deriving DecidableEq, Repr

/-- `aTarget` and `TempTape`. -/
structure Editor where
  aTarget : TapFile
  tempTape : TapFile

abbrev Edit := Run EditExn Editor

namespace Editor

/-- An operation on the tape that is edited. -/
def onTarget {α : Type} (m : Tap α) : Edit α := fun e =>
  ((m e.aTarget).1.mapError .tap, { e with aTarget := (m e.aTarget).2 })

/-- An operation on the temporary tape. -/
def onTemp {α : Type} (m : Tap α) : Edit α := fun e =>
  ((m e.tempTape).1.mapError .tap, { e with tempTape := (m e.tempTape).2 })

/-- `throw Generic_x(aText);` -/
def generic {α : Type} (aText : String) : Edit α := Run.throw (.tap (.generic aText))

/-! ## 1. Copying -/

/-- `Add` from a tape: the next file, with `First` and `NeedEOF`. -/
def addTape : Nat → Bool → Bool → Edit Unit
  | 0, _, _ => Run.throw .outOfRounds
  | rounds + 1, first, needEOF => do
    let buffer ← onTarget (read (BitVec.allOnes 32))
    match ← onTarget getState with
    | .EndOfTape => if first then pure () else generic "Unexpected end of input file"
    | .EndOfFile => if needEOF then onTemp writeEndOfFile
    | _ =>
      onTemp (writeRecord buffer)
      addTape rounds false true

/-- `Add` from a file of the host: records of `aRecordSize` bytes and the rest. -/
def addHost (aSrc : List (BitVec 8)) : Edit Unit := do
  if (aSrc.take 4096).length > 0 then onTemp (writeRecord (aSrc.take 4096))
  if (aSrc.take 4096).length < 4096 then onTemp writeEndOfFile
  else addHost (aSrc.drop 4096)
  termination_by aSrc.length
  decreasing_by
    simp only [List.length_take] at *
    simp only [List.length_drop]
    omega

/-- `Skip`: the next file is left out. -/
def skip : Nat → Bool → Edit Unit
  | 0, _ => Run.throw .outOfRounds
  | rounds + 1, first => do
    onTarget seekToNextRecord
    match ← onTarget getState with
    | .EndOfTape => if first then pure () else generic "Unexpected end of input file"
    | .EndOfFile => pure ()
    | _ => skip rounds false

/-! ## 2. The commands -/

def fileIdxEnd : Int := -1

/-- `Mode_e`. -/
inductive Mode where
  | Replace
  | Delete
  | Insert
  deriving DecidableEq, Repr

/-- `for (int i = 0; i < mPos || mPos == FileIdxEnd; ++i)`, from `i` on. -/
def copyFront (mPos : Int) : Nat → Nat → Edit Unit
  | 0, _ => Run.throw .outOfRounds
  | rounds + 1, i =>
    if (i : Int) < mPos ∨ mPos = fileIdxEnd then do
      addTape rounds true false
      if (← onTarget getState) = .EndOfTape then pure ()
      else copyFront mPos rounds (i + 1)
    else pure ()

/-- `while (aTarget.GetState() != TapFile_c::State_e::EndOfTape)`. -/
def copyRest : Nat → Edit Unit
  | 0 => Run.throw .outOfRounds
  | rounds + 1 => do
    if (← onTarget getState) = .EndOfTape then pure ()
    else
      addTape rounds true false
      copyRest rounds

/-- The file of the temporary tape with the name of the old one. -/
def renamed (e : Editor) : Editor :=
  { aTarget := { e.aTarget with
      stream := { e.aTarget.stream with disk := e.tempTape.stream.disk } }
    tempTape := { e.tempTape with stream := { e.tempTape.stream with disk := none } } }

/-- `boost::filesystem::rename(TempFile, aTarget.GetFileName())`, of the files of closed tapes. -/
def rename : Edit Unit := do
  if (← Run.get).tempTape.stream.disk = none then Run.throw .filesystem
  else Run.modify renamed

/-- Puts in the file of the host. -/
def addFile (mMode : Mode) (file : List (BitVec 8)) : Edit Unit :=
  if mMode = .Insert ∨ mMode = .Replace then addHost file else pure ()

/-- Leaves out the file at the position. -/
def skipFile (rounds : Nat) (mMode : Mode) : Edit Unit := do
  if (← onTarget getState) = .EndOfTape then pure ()
  else if mMode = .Delete ∨ mMode = .Replace then skip rounds true
  else pure ()

/-- The part of `Exec` that fills the temporary tape. -/
def copyEdited (rounds : Nat) (mMode : Mode) (mPos : Int) (file : List (BitVec 8)) : Edit Unit := do
  onTarget seekToBeginningOfTape
  copyFront mPos rounds 0
  addFile mMode file
  skipFile rounds mMode
  copyRest rounds

/-- The part of `Exec` that puts the temporary tape in the place of the old one. -/
def exchange : Edit Unit := do
  onTemp closeTape
  onTarget closeTape
  rename
  onTarget openTape

/-- The body of `Exec`, behind the constructor of `TempTape`. -/
def edit (rounds : Nat) (mMode : Mode) (mPos : Int) (file : List (BitVec 8)) : Edit Unit := do
  copyEdited rounds mMode mPos file
  exchange

end Editor

/-- `Exec`, for the tape it is given. `TempTape` is on a file that is not there yet; what its
    `mCurRecordEof` is in the beginning is left to the memory. -/
def TapFile.exec (rounds : Nat) (mMode : Editor.Mode) (mPos : Int) (file : List (BitVec 8))
    (aMemory : Bool) (aTarget : TapFile) : Except EditExn Unit × TapFile :=
  let r := Editor.edit rounds mMode mPos file ⟨aTarget, ofDisk none aMemory⟩
  (r.1, r.2.aTarget)

open ByteFile Framed Tape

/-- The records of a file. -/
abbrev TapeFile := List (List (BitVec 8))

namespace Editor

/-! ## 3. The temporary tape -/

/-- The items on the temporary tape; without one there is no tape yet. -/
inductive Written (aMemory : Bool) : TapFile → List TapItem → Prop
  | nothing : Written aMemory (ofDisk none aMemory) []
  | items {s : TapFile} {xs : List TapItem} (hne : xs ≠ []) (h : Describes s (.between xs.reverse [])) :
      Written aMemory s xs

section written
variable {aMemory : Bool} {s : TapFile} {xs : List TapItem} {x : TapItem}

theorem stored_eq (hx : ItemFits x) : stored x = x := by
  cases x with
  | record data => exact (stored_record_eq (List.ne_nil_of_length_pos hx.1)).2 hx.2
  | mark => rfl

theorem ne_nil_of_itemFits (hx : ItemFits x) : x ≠ .record [] := by
  rintro rfl
  exact absurd hx.1 (by simp)

/-- An item is put behind the others, and makes the tape if it is the first one. -/
theorem Written.write (h : Written aMemory s xs) (hx : ItemFits x) :
    ∃ s', writeItem x s = (.ok (), s') ∧ Written aMemory s' (xs ++ [x]) := by
  cases h with
  | nothing =>
    obtain ⟨s', hs, harr⟩ := writeRecordInternal_end (describes_ofDisk [] aMemory) hx
    rw [writeItem_stored (ne_nil_of_itemFits hx), stored_eq hx, writeRecordInternal_absent]
    exact ⟨s', hs, .items (by simp) harr.describes⟩
  | items hne hd =>
    obtain ⟨s', hs, hd'⟩ := writeItem_end (ne_nil_of_itemFits hx) hd
    rw [stored_eq hx] at hd'
    exact ⟨s', hs, .items (by simp) (by rwa [List.reverse_append])⟩

/-- The file of the temporary tape is there as soon as there is an item. -/
theorem Written.disk (h : Written aMemory s xs) :
    (xs = [] ∧ s.stream.disk = none) ∨
      (xs ≠ [] ∧ s.stream.disk = some (image itemBytes xs)) := by
  cases h with
  | nothing => exact .inl ⟨rfl, rfl⟩
  | items hne hd =>
    refine .inr ⟨hne, ?_⟩
    rw [disk_eq hd, tapeImage, Head.items, List.reverse_reverse, List.append_nil]

end written

section copy
variable {aMemory : Bool} {e : Editor} {xs behind front : List TapItem}

theorem onTarget_ok {α : Type} {m : Tap α} {a : α} {s : TapFile} (h : m e.aTarget = (.ok a, s)) :
    onTarget m e = (.ok a, { e with aTarget := s }) := by
  rw [onTarget, h]
  rfl

theorem onTemp_ok {α : Type} {m : Tap α} {a : α} {s : TapFile} (h : m e.tempTape = (.ok a, s)) :
    onTemp m e = (.ok a, { e with tempTape := s }) := by
  rw [onTemp, h]
  rfl

/-! ## 4. One file -/

/-- `Add` copies the records in front of the next mark, and the mark behind a record. -/
theorem addTape_items (recs : TapeFile) {rounds : Nat} (hrounds : recs.length < rounds)
    (first needEOF : Bool) (hd : Describes e.aTarget (.between behind (fileItems recs ++ front)))
    (hfits : ∀ r ∈ recs, ItemFits (.record r)) (hw : Written aMemory e.tempTape xs) :
    ∃ e' behind', addTape rounds first needEOF e = (.ok (), e') ∧
      Arrives e'.aTarget (.between (.mark :: behind') front) true ∧
      Written aMemory e'.tempTape (xs ++ recs.map .record ++
        if needEOF = true ∨ recs ≠ [] then [.mark] else []) := by
  induction recs generalizing e rounds first needEOF xs behind with
  | nil =>
    obtain ⟨rounds, rfl⟩ := Nat.exists_eq_add_one.mpr hrounds
    obtain ⟨s, hread, harr⟩ := read_item hd trivial
    have hstate : onTarget getState { e with aTarget := s } = (.ok .EndOfFile, { e with aTarget := s }) :=
      onTarget_ok (getState_mark harr)
    rw [addTape, Run.bind_apply_ok (onTarget_ok hread), Run.bind_apply_ok hstate]
    cases needEOF with
    | false => exact ⟨_, behind, rfl, harr, by simpa using hw⟩
    | true =>
      obtain ⟨s', hs, hw'⟩ := hw.write (x := .mark) trivial
      have hput : onTemp writeEndOfFile { e with aTarget := s } =
          (.ok (), ⟨s, s'⟩) := onTemp_ok hs
      exact ⟨_, behind, hput, harr, by simpa using hw'⟩
  | cons r recs ih =>
    obtain ⟨rounds, rfl⟩ := Nat.exists_eq_add_one.mpr (Nat.zero_lt_of_lt hrounds)
    have hr := hfits r List.mem_cons_self
    obtain ⟨s, hread, harr⟩ := read_item hd hr
    have hstate : onTarget getState { e with aTarget := s } = (.ok .EndOfRecord, { e with aTarget := s }) :=
      onTarget_ok (getState_record harr)
    obtain ⟨s', hs, hw'⟩ := hw.write hr
    have hput : onTemp (writeRecord r) { e with aTarget := s } = (.ok (), ⟨s, s'⟩) := onTemp_ok hs
    obtain ⟨e', behind', hadd, harr', hw''⟩ := ih (e := ⟨s, s'⟩)
      (Nat.lt_of_succ_lt_succ hrounds) false true harr.describes
      (fun r hr => hfits r (List.mem_cons_of_mem _ hr)) hw'
    rw [addTape, Run.bind_apply_ok (onTarget_ok hread), Run.bind_apply_ok hstate]
    refine ⟨e', behind', ?_, harr', ?_⟩
    · exact (Run.bind_apply_ok hput).trans hadd
    · simpa using hw''

/-- At the end of the tape `Add` finds nothing. -/
theorem addTape_end {rounds : Nat} (hrounds : 0 < rounds) (needEOF : Bool)
    (hd : Describes e.aTarget (.between behind [])) :
    ∃ s, addTape rounds true needEOF e = (.ok (), { e with aTarget := s }) ∧
      getState s = (.ok .EndOfTape, s) := by
  obtain ⟨rounds, rfl⟩ := Nat.exists_eq_add_one.mpr hrounds
  have hread := @read_end e.aTarget behind (BitVec.allOnes 32) hd (by decide)
  have hstate : onTarget getState { e with aTarget := { e.aTarget with
      stream := .ended (image itemBytes behind.reverse), mLastCmdDirection := .Forward } } = _ :=
    onTarget_ok (getState_ended rfl)
  rw [addTape, Run.bind_apply_ok (onTarget_ok hread), Run.bind_apply_ok hstate]
  exact ⟨_, rfl, getState_ended rfl⟩

/-- `Skip` passes the records in front of the next mark, and the mark. -/
theorem skip_items (recs : TapeFile) {rounds : Nat} (hrounds : recs.length < rounds) (first : Bool)
    (hd : Describes e.aTarget (.between behind (fileItems recs ++ front)))
    (hfits : ∀ r ∈ recs, ItemFits (.record r)) :
    ∃ s behind', skip rounds first e = (.ok (), { e with aTarget := s }) ∧
      Arrives s (.between (.mark :: behind') front) true := by
  induction recs generalizing e rounds first behind with
  | nil =>
    obtain ⟨rounds, rfl⟩ := Nat.exists_eq_add_one.mpr hrounds
    obtain ⟨s, hseek, harr⟩ := seekToNextRecord_over hd trivial
    have hstate : onTarget getState { e with aTarget := s } = (.ok .EndOfFile, { e with aTarget := s }) :=
      onTarget_ok (getState_mark harr)
    rw [skip, Run.bind_apply_ok (onTarget_ok hseek), Run.bind_apply_ok hstate]
    exact ⟨s, behind, rfl, harr⟩
  | cons r recs ih =>
    obtain ⟨rounds, rfl⟩ := Nat.exists_eq_add_one.mpr (Nat.zero_lt_of_lt hrounds)
    obtain ⟨s, hseek, harr⟩ := seekToNextRecord_over hd (hfits r List.mem_cons_self)
    have hstate : onTarget getState { e with aTarget := s } = (.ok .EndOfRecord, { e with aTarget := s }) :=
      onTarget_ok (getState_record harr)
    obtain ⟨s', behind', hskip, harr'⟩ := ih (e := { e with aTarget := s })
      (Nat.lt_of_succ_lt_succ hrounds) false harr.describes
      fun r hr => hfits r (List.mem_cons_of_mem _ hr)
    rw [skip, Run.bind_apply_ok (onTarget_ok hseek), Run.bind_apply_ok hstate]
    exact ⟨s', behind', hskip, harr'⟩

/-- The records of a file of the host. -/
def hostRecords (aSrc : List (BitVec 8)) : TapeFile :=
  if aSrc = [] then []
  else aSrc.take 4096 :: hostRecords (aSrc.drop 4096)
  termination_by aSrc.length
  decreasing_by
    rename_i hne
    have hpos := List.length_pos_of_ne_nil hne
    rw [List.length_drop]
    omega

/-- `Add` from a file of the host writes its records, and always a mark. -/
theorem addHost_items (aSrc : List (BitVec 8)) (hw : Written aMemory e.tempTape xs) :
    ∃ s, addHost aSrc e = (.ok (), { e with tempTape := s }) ∧
      Written aMemory s (xs ++ fileItems (hostRecords aSrc)) := by
  induction hn : aSrc.length using Nat.strongRecOn generalizing aSrc e xs with
  | ind n ih =>
    subst hn
    by_cases hnil : aSrc = []
    · obtain ⟨s, hs, hw'⟩ := hw.write (x := .mark) trivial
      have hput : onTemp writeEndOfFile e = (.ok (), { e with tempTape := s }) := onTemp_ok hs
      rw [hnil, addHost, hostRecords, if_pos rfl]
      exact ⟨s, hput, hw'⟩
    · have hpos := List.length_pos_of_ne_nil hnil
      have hlen : (aSrc.take 4096).length = min 4096 aSrc.length := List.length_take
      have hr : ItemFits (.record (aSrc.take 4096)) := ⟨by omega, by omega⟩
      obtain ⟨s, hs, hw'⟩ := hw.write hr
      have hput : onTemp (writeRecord (aSrc.take 4096)) e = (.ok (), { e with tempTape := s }) :=
        onTemp_ok hs
      rw [addHost, if_pos (by omega), Run.bind_apply_ok hput, hostRecords, if_neg hnil]
      by_cases hrest : (aSrc.take 4096).length < 4096
      · -- the rest of the file
        have hdrop : aSrc.drop 4096 = [] := List.drop_eq_nil_of_le (by omega)
        obtain ⟨s', hs', hw''⟩ := hw'.write (x := .mark) trivial
        have hmark : onTemp writeEndOfFile { e with tempTape := s } =
            (.ok (), { e with tempTape := s' }) := onTemp_ok hs'
        rw [if_pos hrest, hdrop, hostRecords, if_pos rfl]
        exact ⟨s', hmark, by simpa [fileItems] using hw''⟩
      · obtain ⟨s', hs', hw''⟩ := ih _ (by rw [List.length_drop]; omega) (aSrc.drop 4096)
          (e := { e with tempTape := s }) hw' rfl
        rw [if_neg hrest]
        exact ⟨s', hs', by simpa [fileItems] using hw''⟩

/-! ## 5. The loops over the files -/

/-- The files in front of the head, which stands in front of one of them or has just passed one. -/
def Reads (s : TapFile) (files : List TapeFile) : Prop :=
  (∃ behind, Describes s (.between behind (ofFiles files))) ∧
    ∃ state, getState s = (.ok state, s) ∧ state ≠ .EndOfTape

/-- The end of the tape has been noticed. -/
def Ended (s : TapFile) : Prop := getState s = (.ok .EndOfTape, s)

/-- The files whose marks are copied. -/
def kept (files : List TapeFile) : List TapeFile := files.filter fun recs => !recs.isEmpty

/-- The records a tape can hold. -/
def FilesFit (files : List TapeFile) : Prop := ∀ recs ∈ files, ∀ r ∈ recs, ItemFits (.record r)

variable {files : List TapeFile} {recs : TapeFile}

theorem FilesFit.head (h : FilesFit (recs :: files)) : ∀ r ∈ recs, ItemFits (.record r) :=
  h recs List.mem_cons_self

theorem FilesFit.tail (h : FilesFit (recs :: files)) : FilesFit files :=
  fun recs hrecs => h recs (List.mem_cons_of_mem _ hrecs)

theorem FilesFit.sublist {files' : List TapeFile} (h : FilesFit files) (hs : files'.Sublist files) :
    FilesFit files' := fun recs hrecs => h recs (hs.subset hrecs)

theorem reads_of_arrives (h : Arrives e.aTarget (.between (.mark :: behind) (ofFiles files)) true) :
    Reads e.aTarget files :=
  ⟨⟨_, h.describes⟩, _, getState_mark h, by decide⟩

/-- `Add` copies the next file, if it has a record. -/
theorem addTape_file {rounds : Nat} (hrounds : recs.length < rounds)
    (hr : Reads e.aTarget (recs :: files)) (hfits : FilesFit (recs :: files))
    (hw : Written aMemory e.tempTape xs) :
    ∃ e', addTape rounds true false e = (.ok (), e') ∧ Reads e'.aTarget files ∧
      Written aMemory e'.tempTape (xs ++ ofFiles (kept [recs])) := by
  obtain ⟨⟨behind, hd⟩, -⟩ := hr
  obtain ⟨e', behind', hadd, harr, hw'⟩ := addTape_items recs hrounds true false hd hfits.head hw
  refine ⟨e', hadd, reads_of_arrives harr, ?_⟩
  cases recs with
  | nil => simpa [kept] using hw'
  | cons r recs => simpa [kept, fileItems] using hw'

theorem kept_cons (recs : TapeFile) (files : List TapeFile) :
    kept (recs :: files) = kept [recs] ++ kept files := by
  rw [kept, kept, kept, ← List.filter_append, List.singleton_append]

/-- Rounds enough for a tape are enough for what is behind its first file. -/
theorem rounds_tail {rounds : Nat} (h : (ofFiles (recs :: files)).length + 1 < rounds + 1) :
    recs.length < rounds ∧ (ofFiles files).length + 1 < rounds := by
  rw [ofFiles_cons, List.length_append, length_fileItems] at h
  omega

/-- The loop over the files in front of the position. -/
theorem copyFront_files (k : Nat) {rounds : Nat} (hrounds : (ofFiles files).length + 1 < rounds)
    (i : Nat) (hk : k ≤ files.length) (hr : Reads e.aTarget files) (hfits : FilesFit files)
    (hw : Written aMemory e.tempTape xs) :
    ∃ e', copyFront ((i + k : Nat) : Int) rounds i e = (.ok (), e') ∧
      Reads e'.aTarget (files.drop k) ∧
      Written aMemory e'.tempTape (xs ++ ofFiles (kept (files.take k))) := by
  induction k generalizing e rounds i files xs with
  | zero =>
    obtain ⟨rounds, rfl⟩ := Nat.exists_eq_add_one.mpr (Nat.zero_lt_of_lt hrounds)
    have hdone : ¬ ((i : Int) < ((i + 0 : Nat) : Int) ∨ ((i + 0 : Nat) : Int) = fileIdxEnd) := by
      rw [fileIdxEnd]
      omega
    rw [copyFront, if_neg hdone]
    exact ⟨e, rfl, hr, by simpa [kept] using hw⟩
  | succ k ih =>
    match files, hk with
    | recs :: files, hk =>
      obtain ⟨rounds, rfl⟩ := Nat.exists_eq_add_one.mpr (Nat.zero_lt_of_lt hrounds)
      obtain ⟨hone, hrest⟩ := rounds_tail hrounds
      obtain ⟨e₁, hadd, hr₁, hw₁⟩ := addTape_file hone hr hfits hw
      obtain ⟨e₂, hcopy, hr₂, hw₂⟩ := ih hrest (i + 1) (by simpa using hk) hr₁ hfits.tail hw₁
      obtain ⟨-, state, hstate, hne⟩ := hr₁
      have hmore : (i : Int) < ((i + (k + 1) : Nat) : Int) ∨
          ((i + (k + 1) : Nat) : Int) = fileIdxEnd := .inl (by omega)
      have hpos : ((i + (k + 1) : Nat) : Int) = ((i + 1 + k : Nat) : Int) := by omega
      rw [copyFront, if_pos hmore, Run.bind_apply_ok hadd,
        Run.bind_apply_ok (onTarget_ok (e := e₁) hstate), if_neg hne, hpos]
      refine ⟨e₂, hcopy, hr₂, ?_⟩
      rw [List.take_succ_cons, kept_cons, ofFiles_append, ← List.append_assoc]
      exact hw₂

theorem copyFront_end {rounds : Nat} (hrounds : (ofFiles files).length + 1 < rounds) (i : Nat)
    (hr : Reads e.aTarget files) (hfits : FilesFit files) (hw : Written aMemory e.tempTape xs) :
    ∃ e', copyFront fileIdxEnd rounds i e = (.ok (), e') ∧ Ended e'.aTarget ∧
      Written aMemory e'.tempTape (xs ++ ofFiles (kept files)) := by
  induction files generalizing e rounds i xs with
  | nil =>
    obtain ⟨rounds, rfl⟩ := Nat.exists_eq_add_one.mpr (Nat.zero_lt_of_lt hrounds)
    obtain ⟨⟨behind, hd⟩, -⟩ := hr
    obtain ⟨s, hadd, hstate⟩ := addTape_end (Nat.lt_of_succ_lt_succ hrounds) false hd
    rw [copyFront, if_pos (.inr rfl), Run.bind_apply_ok hadd,
      Run.bind_apply_ok (onTarget_ok (e := { e with aTarget := s }) hstate), if_pos rfl]
    exact ⟨_, rfl, hstate, by simpa [kept] using hw⟩
  | cons recs files ih =>
    obtain ⟨rounds, rfl⟩ := Nat.exists_eq_add_one.mpr (Nat.zero_lt_of_lt hrounds)
    obtain ⟨hone, hrest⟩ := rounds_tail hrounds
    obtain ⟨e₁, hadd, hr₁, hw₁⟩ := addTape_file hone hr hfits hw
    obtain ⟨e₂, hcopy, hended, hw₂⟩ := ih hrest (i + 1) hr₁ hfits.tail hw₁
    obtain ⟨-, state, hstate, hne⟩ := hr₁
    rw [copyFront, if_pos (.inr rfl), Run.bind_apply_ok hadd,
      Run.bind_apply_ok (onTarget_ok (e := e₁) hstate), if_neg hne]
    refine ⟨e₂, hcopy, hended, ?_⟩
    rw [kept_cons, ofFiles_append, ← List.append_assoc]
    exact hw₂

theorem copyRest_ended {rounds : Nat} (hrounds : 0 < rounds) (h : Ended e.aTarget) :
    copyRest rounds e = (.ok (), e) := by
  obtain ⟨rounds, rfl⟩ := Nat.exists_eq_add_one.mpr hrounds
  rw [copyRest, Run.bind_apply_ok (onTarget_ok (e := e) h), if_pos rfl]
  rfl

theorem copyRest_files {rounds : Nat} (hrounds : (ofFiles files).length + 1 < rounds)
    (hr : Reads e.aTarget files) (hfits : FilesFit files) (hw : Written aMemory e.tempTape xs) :
    ∃ e', copyRest rounds e = (.ok (), e') ∧
      Written aMemory e'.tempTape (xs ++ ofFiles (kept files)) := by
  induction files generalizing e rounds xs with
  | nil =>
    obtain ⟨rounds, rfl⟩ := Nat.exists_eq_add_one.mpr (Nat.zero_lt_of_lt hrounds)
    obtain ⟨⟨behind, hd⟩, state, hstate, hne⟩ := hr
    obtain ⟨s, hadd, hended⟩ := addTape_end (Nat.lt_of_succ_lt_succ hrounds) false hd
    have hrest := copyRest_ended (e := { e with aTarget := s }) (Nat.lt_of_succ_lt_succ hrounds)
      hended
    rw [copyRest, Run.bind_apply_ok (onTarget_ok (e := e) hstate), if_neg hne,
      Run.bind_apply_ok hadd, hrest]
    exact ⟨_, rfl, by simpa [kept] using hw⟩
  | cons recs files ih =>
    obtain ⟨rounds, rfl⟩ := Nat.exists_eq_add_one.mpr (Nat.zero_lt_of_lt hrounds)
    obtain ⟨hone, hrest⟩ := rounds_tail hrounds
    obtain ⟨e₁, hadd, hr₁, hw₁⟩ := addTape_file hone hr hfits hw
    obtain ⟨e₂, hcopy, hw₂⟩ := ih hrest hr₁ hfits.tail hw₁
    obtain ⟨-, state, hstate, hne⟩ := hr
    rw [copyRest, Run.bind_apply_ok (onTarget_ok (e := e) hstate), if_neg hne,
      Run.bind_apply_ok hadd]
    refine ⟨e₂, hcopy, ?_⟩
    rw [kept_cons, ofFiles_append, ← List.append_assoc]
    exact hw₂

/-- `Skip` passes the next file. -/
theorem skip_file {rounds : Nat} (hrounds : recs.length < rounds)
    (hr : Reads e.aTarget (recs :: files)) (hfits : FilesFit (recs :: files)) :
    ∃ s, skip rounds true e = (.ok (), { e with aTarget := s }) ∧ Reads s files := by
  obtain ⟨⟨behind, hd⟩, -⟩ := hr
  obtain ⟨s, behind', hskip, harr⟩ := skip_items recs hrounds true hd hfits.head
  exact ⟨s, hskip, ⟨_, harr.describes⟩, _, getState_mark harr, by decide⟩

end copy

/-! ## 6. The commands -/

/-- The positions a command can be given. -/
def Valid (mMode : Mode) (mPos : Int) (files : List TapeFile) : Prop :=
  match mMode with
  | .Insert => mPos = fileIdxEnd ∨ (0 ≤ mPos ∧ mPos.toNat ≤ files.length)
  | .Replace | .Delete => 0 ≤ mPos ∧ mPos.toNat < files.length

/-- What a command is for. -/
def edited (mMode : Mode) (mPos : Int) (file : TapeFile) (files : List TapeFile) : List TapeFile :=
  match mMode with
  | .Insert =>
    if mPos = fileIdxEnd then files ++ [file] else files.insertIdx mPos.toNat file
  | .Replace => files.set mPos.toNat file
  | .Delete => files.eraseIdx mPos.toNat

/-- The files a command copies. -/
def copied (mMode : Mode) (mPos : Int) (files : List TapeFile) : List TapeFile :=
  match mMode with
  | .Insert => files
  | .Replace | .Delete => files.eraseIdx mPos.toNat

/-- What is put in, if something is. -/
def added (mMode : Mode) (file : TapeFile) : List TapeFile :=
  match mMode with
  | .Insert | .Replace => [file]
  | .Delete => []

/-- The files behind the one that is left out, if one is. -/
def behindSkipped (mMode : Mode) (files : List TapeFile) : List TapeFile :=
  match mMode with
  | .Insert => files
  | .Replace | .Delete => files.tail

/-- The files a command copies before and behind the position. -/
def frontFiles (mPos : Int) (files : List TapeFile) : List TapeFile :=
  if mPos = fileIdxEnd then files else files.take mPos.toNat

def behindFiles (mMode : Mode) (mPos : Int) (files : List TapeFile) : List TapeFile :=
  if mPos = fileIdxEnd then [] else behindSkipped mMode (files.drop mPos.toNat)

/-- What a command makes of the files. -/
def produced (mMode : Mode) (mPos : Int) (file : TapeFile) (files : List TapeFile) :
    List TapeFile :=
  kept (frontFiles mPos files) ++ added mMode file ++ kept (behindFiles mMode mPos files)

section commands

variable {aMemory : Bool} {e : Editor} {xs : List TapItem} {files : List TapeFile} {rounds : Nat}

/-- From anywhere on the tape, `Exec` starts at its beginning. -/
theorem seek_reads {h : TapHead} (hd : Describes e.aTarget h) (hitems : h.items = ofFiles files) :
    ∃ s, onTarget seekToBeginningOfTape e = (.ok (), { e with aTarget := s }) ∧ Reads s files := by
  obtain ⟨s, hs, harr⟩ := seekToBeginningOfTape_rewind hd
  rw [Head.rewind, hitems] at harr
  exact ⟨s, onTarget_ok hs, ⟨[], harr.describes⟩, _, getState_start harr, by decide⟩

theorem behindSkipped_sublist (mMode : Mode) (files : List TapeFile) :
    (behindSkipped mMode files).Sublist files := by
  cases mMode with
  | Insert => exact .refl files
  | Replace => exact List.tail_sublist files
  | Delete => exact List.tail_sublist files

theorem addFile_files (mMode : Mode) (file : List (BitVec 8)) (hw : Written aMemory e.tempTape xs) :
    ∃ s, addFile mMode file e = (.ok (), { e with tempTape := s }) ∧
      Written aMemory s (xs ++ ofFiles (added mMode (hostRecords file))) := by
  have hadd : ∃ s, addHost file e = (.ok (), { e with tempTape := s }) ∧
      Written aMemory s (xs ++ ofFiles [hostRecords file]) := by
    obtain ⟨s, hs, hw'⟩ := addHost_items file hw
    exact ⟨s, hs, by simpa using hw'⟩
  cases mMode with
  | Insert => exact hadd
  | Replace => exact hadd
  | Delete => exact ⟨e.tempTape, rfl, by simpa [added] using hw⟩

theorem skipFile_files {mMode : Mode} (hrounds : (ofFiles files).length + 1 < rounds)
    (hr : Reads e.aTarget files) (hfits : FilesFit files) (hne : mMode ≠ .Insert → files ≠ []) :
    ∃ s, skipFile rounds mMode e = (.ok (), { e with aTarget := s }) ∧
      Reads s (behindSkipped mMode files) := by
  have hskip : mMode ≠ .Insert → ∃ s, skip rounds true e = (.ok (), { e with aTarget := s }) ∧
      Reads s files.tail := by
    intro hmode
    match files, hne hmode with
    | recs :: files, _ =>
      have hall : (ofFiles (recs :: files)).length + 1 < rounds + 1 := Nat.lt_succ_of_lt hrounds
      exact skip_file (rounds_tail hall).1 hr hfits
  obtain ⟨-, state, hstate, hopen⟩ := id hr
  rw [skipFile, Run.bind_apply_ok (onTarget_ok (e := e) hstate), if_neg hopen]
  cases mMode with
  | Insert => exact ⟨e.aTarget, rfl, hr⟩
  | Replace => exact hskip (by decide)
  | Delete => exact hskip (by decide)

/-- Only a file that is put in can be put at the end. -/
theorem mode_of_end {mMode : Mode} {mPos : Int} (h : Valid mMode mPos files)
    (hend : mPos = fileIdxEnd) : mMode = .Insert := by
  subst hend
  cases mMode with
  | Insert => rfl
  | Replace => exact absurd h.1 (by decide)
  | Delete => exact absurd h.1 (by decide)

theorem index_of_valid {mMode : Mode} {mPos : Int} (h : Valid mMode mPos files)
    (hend : mPos ≠ fileIdxEnd) : 0 ≤ mPos ∧ mPos.toNat ≤ files.length ∧
      (mMode ≠ .Insert → files.drop mPos.toNat ≠ []) := by
  have hinside : mPos.toNat < files.length → files.drop mPos.toNat ≠ [] := by
    intro hlt hnil
    have hlen := List.length_drop (i := mPos.toNat) (l := files)
    rw [hnil, List.length_nil] at hlen
    omega
  cases mMode with
  | Insert =>
    rcases h with h | h
    · exact absurd h hend
    · exact ⟨h.1, h.2, fun hne => absurd rfl hne⟩
  | Replace => exact ⟨h.1, Nat.le_of_lt h.2, fun _ => hinside h.2⟩
  | Delete => exact ⟨h.1, Nat.le_of_lt h.2, fun _ => hinside h.2⟩

/-- **Copying**: what is on the temporary tape behind the loops. -/
theorem copyEdited_files {mMode : Mode} {mPos : Int} {h : TapHead} (file : List (BitVec 8))
    (hvalid : Valid mMode mPos files) (hrounds : (ofFiles files).length + 1 < rounds)
    (hd : Describes e.aTarget h) (hitems : h.items = ofFiles files) (hfits : FilesFit files)
    (hw : Written aMemory e.tempTape []) :
    ∃ e', copyEdited rounds mMode mPos file e = (.ok (), e') ∧
      Written aMemory e'.tempTape (ofFiles (produced mMode mPos (hostRecords file) files)) := by
  obtain ⟨s, hseek, hr⟩ := seek_reads hd hitems
  rw [copyEdited, Run.bind_apply_ok hseek]
  by_cases hend : mPos = fileIdxEnd
  · obtain rfl := mode_of_end hvalid hend
    subst hend
    obtain ⟨e₁, hcopy, hended, hw₁⟩ := copyFront_end (e := { e with aTarget := s }) hrounds 0 hr hfits hw
    obtain ⟨s₂, hadd, hw₂⟩ := addFile_files .Insert file hw₁
    have hskip : skipFile rounds .Insert { e₁ with tempTape := s₂ } =
        (.ok (), { e₁ with tempTape := s₂ }) := by
      rw [skipFile, Run.bind_apply_ok (onTarget_ok (e := { e₁ with tempTape := s₂ }) hended)]
      rfl
    have hrest := copyRest_ended (e := { e₁ with tempTape := s₂ }) (Nat.zero_lt_of_lt hrounds) hended
    rw [Run.bind_apply_ok hcopy, Run.bind_apply_ok hadd, Run.bind_apply_ok hskip]
    refine ⟨_, hrest, ?_⟩
    rw [produced, frontFiles, behindFiles, if_pos rfl, if_pos rfl, ofFiles_append]
    simpa [kept] using hw₂
  · obtain ⟨hpos, hle, hne⟩ := index_of_valid hvalid hend
    obtain ⟨e₁, hcopy, hr₁, hw₁⟩ := copyFront_files (e := { e with aTarget := s }) mPos.toNat hrounds 0
      hle hr hfits hw
    rw [show ((0 + mPos.toNat : Nat) : Int) = mPos by omega] at hcopy
    have hdrop : (files.drop mPos.toNat).Sublist files := List.drop_sublist _ _
    have hbehind := (behindSkipped_sublist mMode (files.drop mPos.toNat)).trans hdrop
    have hrounds₁ := Nat.lt_of_le_of_lt (Nat.succ_le_succ (length_ofFiles_le hdrop)) hrounds
    have hrounds₃ := Nat.lt_of_le_of_lt (Nat.succ_le_succ (length_ofFiles_le hbehind)) hrounds
    obtain ⟨s₂, hadd, hw₂⟩ := addFile_files mMode file hw₁
    obtain ⟨s₃, hskip, hr₃⟩ := skipFile_files (e := { e₁ with tempTape := s₂ }) hrounds₁ hr₁
      (hfits.sublist hdrop) hne
    obtain ⟨e₄, hrest, hw₄⟩ := copyRest_files (e := ⟨s₃, s₂⟩) hrounds₃ hr₃
      (hfits.sublist hbehind) hw₂
    rw [Run.bind_apply_ok hcopy, Run.bind_apply_ok hadd, Run.bind_apply_ok hskip]
    refine ⟨e₄, hrest, ?_⟩
    rw [produced, frontFiles, behindFiles, if_neg hend, if_neg hend, ofFiles_append, ofFiles_append]
    exact hw₄

theorem describes_reopened {s : TapFile} (hclosed : s.stream.isOpen = false) (items : List TapItem)
    (hdisk : s.stream.disk = some (image itemBytes items)) :
    ∃ s', openTape s = (.ok (), s') ∧ Describes s' (.between [] items) := by
  obtain ⟨stream, dir, left, start, valid, mark⟩ := s
  obtain ⟨disk, isOpen, pos, eofbit, failbit⟩ := stream
  dsimp only at hclosed hdisk
  subst hclosed hdisk
  have hopen : openTape ⟨⟨some (image itemBytes items), false, pos, eofbit, failbit⟩, dir, left, start,
      valid, mark⟩ = (.ok (), ⟨.ready (image itemBytes items) 0, .None, 0, 0, false, mark⟩) := rfl
  exact ⟨_, hopen, .between (.inl rfl) (.inl ⟨rfl, fun _ => .inl rfl⟩)⟩

theorem isOpen_close (s : FileStream) : s.close.isOpen = false := by
  unfold FileStream.close
  split
  · rfl
  · rename_i h
    simpa using h

theorem disk_close (s : FileStream) : s.close.disk = s.disk := by
  unfold FileStream.close
  split <;> rfl

/-- The temporary tape takes the place of the old one, if there is one. -/
theorem exchange_written {items : List TapItem} (hw : Written aMemory e.tempTape items) :
    (items = [] → (exchange e).1 = .error .filesystem) ∧
      (items ≠ [] → ∃ e', exchange e = (.ok (), e') ∧ Describes e'.aTarget (.between [] items)) := by
  have htemp : onTemp closeTape e = (.ok (), { e with tempTape := (closeTape e.tempTape).2 }) :=
    onTemp_ok rfl
  have htarget : onTarget closeTape { e with tempTape := (closeTape e.tempTape).2 } =
      (.ok (), ⟨(closeTape e.aTarget).2, (closeTape e.tempTape).2⟩) := onTarget_ok rfl
  have hdisk : (closeTape e.tempTape).2.stream.disk = e.tempTape.stream.disk :=
    disk_close e.tempTape.stream
  have hclosed : (closeTape e.aTarget).2.stream.isOpen = false := isOpen_close e.aTarget.stream
  rw [exchange, Run.bind_apply_ok htemp, Run.bind_apply_ok htarget]
  generalize (closeTape e.aTarget).2 = s, (closeTape e.tempTape).2 = t at hdisk hclosed ⊢
  rcases hw.disk with ⟨hnil, hnone⟩ | ⟨hne, hsome⟩
  · refine ⟨fun _ => ?_, fun hne => absurd hnil hne⟩
    have hrename : rename ⟨s, t⟩ = (.error .filesystem, ⟨s, t⟩) := by
      rw [rename, Run.bind_apply_ok (Run.get_apply _), if_pos (hdisk.trans hnone)]
      rfl
    rw [Run.bind_apply_error hrename]
  · refine ⟨fun hnil => absurd hnil hne, fun _ => ?_⟩
    have hfile := hdisk.trans hsome
    have hrename : rename ⟨s, t⟩ = (.ok (), renamed ⟨s, t⟩) := by
      rw [rename, Run.bind_apply_ok (Run.get_apply _),
        if_neg (by rw [hfile]; exact Option.some_ne_none _)]
      rfl
    obtain ⟨s', hs, hd⟩ := describes_reopened (s := (renamed ⟨s, t⟩).aTarget) hclosed items hfile
    rw [Run.bind_apply_ok hrename]
    exact ⟨_, onTarget_ok hs, hd⟩

/-- **What a command does**: the tape with the files produced, unless there is none. -/
theorem exec_produced {mMode : Mode} {mPos : Int} {h : TapHead} {aTarget : TapFile}
    (file : List (BitVec 8)) (hvalid : Valid mMode mPos files)
    (hrounds : (ofFiles files).length + 1 < rounds) (hd : Describes aTarget h)
    (hitems : h.items = ofFiles files) (hfits : FilesFit files) (aMemory : Bool) :
    (produced mMode mPos (hostRecords file) files = [] →
        (aTarget.exec rounds mMode mPos file aMemory).1 = .error .filesystem) ∧
      (produced mMode mPos (hostRecords file) files ≠ [] →
        ∃ s, aTarget.exec rounds mMode mPos file aMemory = (.ok (), s) ∧
          Describes s (.between [] (ofFiles (produced mMode mPos (hostRecords file) files)))) := by
  obtain ⟨e₁, hcopy, hw⟩ := copyEdited_files (e := ⟨aTarget, ofDisk none aMemory⟩) file
    hvalid hrounds hd hitems hfits .nothing
  obtain ⟨hnone, hsome⟩ := exchange_written hw
  have hedit : edit rounds mMode mPos file ⟨aTarget, ofDisk none aMemory⟩ = exchange e₁ := by
    rw [edit, Run.bind_apply_ok hcopy]
  rw [TapFile.exec, hedit]
  refine ⟨fun hnil => hnone (by rw [hnil, ofFiles_nil]), fun hne => ?_⟩
  obtain ⟨e₂, hexchange, hd'⟩ := hsome (ofFiles_ne_nil hne)
  rw [hexchange]
  exact ⟨_, rfl, hd'⟩

end commands

/-! ## 7. What the commands are for -/

section purpose

variable {mMode : Mode} {mPos : Int} {files : List TapeFile} {file : TapeFile}

theorem insertIdx_eq {l : List TapeFile} {i : Nat} (h : i ≤ l.length) :
    l.insertIdx i file = l.take i ++ file :: l.drop i := by
  induction l generalizing i with
  | nil =>
    obtain rfl : i = 0 := Nat.le_zero.mp h
    rfl
  | cons recs l ih =>
    cases i with
    | zero => rfl
    | succ i =>
      rw [List.insertIdx_succ_cons, ih (Nat.le_of_succ_le_succ h)]
      rfl

theorem edited_eq (h : Valid mMode mPos files) :
    edited mMode mPos file files =
      frontFiles mPos files ++ added mMode file ++ behindFiles mMode mPos files := by
  by_cases hend : mPos = fileIdxEnd
  · obtain rfl := mode_of_end h hend
    rw [edited, frontFiles, behindFiles, if_pos hend, if_pos hend, if_pos hend, List.append_nil]
    rfl
  · rw [frontFiles, behindFiles, if_neg hend, if_neg hend]
    cases mMode with
    | Insert =>
      rw [edited, if_neg hend, insertIdx_eq (index_of_valid h hend).2.1]
      simp [added, behindSkipped]
    | Replace =>
      rw [edited, List.set_eq_take_append_cons_drop, if_pos h.2]
      simp [added, behindSkipped]
    | Delete =>
      rw [edited, List.eraseIdx_eq_take_drop_succ]
      simp [added, behindSkipped]

theorem copied_eq (h : Valid mMode mPos files) :
    copied mMode mPos files = frontFiles mPos files ++ behindFiles mMode mPos files := by
  by_cases hend : mPos = fileIdxEnd
  · obtain rfl := mode_of_end h hend
    rw [copied, frontFiles, behindFiles, if_pos hend, if_pos hend, List.append_nil]
  · rw [frontFiles, behindFiles, if_neg hend, if_neg hend]
    cases mMode with
    | Insert => rw [copied, behindSkipped, List.take_append_drop]
    | Replace =>
      rw [copied, List.eraseIdx_eq_take_drop_succ]
      simp [behindSkipped]
    | Delete =>
      rw [copied, List.eraseIdx_eq_take_drop_succ]
      simp [behindSkipped]

/-- A file without records has no place among the files copied. -/
theorem kept_eq {files : List TapeFile} (h : ∀ recs ∈ files, recs ≠ []) : kept files = files := by
  refine List.filter_eq_self.2 fun recs hrecs => ?_
  simpa using h recs hrecs

theorem length_kept (files : List TapeFile) :
    (image itemBytes (ofFiles (kept files))).length + 4 * files.countP List.isEmpty =
      (image itemBytes (ofFiles files)).length := by
  induction files with
  | nil => rfl
  | cons recs files ih =>
    rw [kept_cons, ofFiles_append, image_append, List.length_append, ofFiles_cons, image_append,
      List.length_append, ← ih]
    cases recs with
    | nil =>
      rw [List.countP_cons_of_pos rfl]
      simp only [kept, fileItems]
      simp
      omega
    | cons r recs =>
      rw [List.countP_cons_of_neg (by simp)]
      simp [kept]
      omega

theorem produced_eq (h : Valid mMode mPos files)
    (hall : ∀ recs ∈ copied mMode mPos files, recs ≠ []) :
    produced mMode mPos file files = edited mMode mPos file files := by
  rw [copied_eq h] at hall
  rw [produced, edited_eq h, kept_eq fun recs hrecs => hall recs (List.mem_append_left _ hrecs),
    kept_eq fun recs hrecs => hall recs (List.mem_append_right _ hrecs)]

/-- If the image is the one of the files edited, no mark is missing. -/
theorem copied_ne_nil (h : Valid mMode mPos files)
    (himage : image itemBytes (ofFiles (produced mMode mPos file files)) =
      image itemBytes (ofFiles (edited mMode mPos file files))) :
    ∀ recs ∈ copied mMode mPos files, recs ≠ [] := by
  have hlen := congrArg List.length himage
  rw [produced, edited_eq h] at hlen
  simp only [ofFiles_append, image_append, List.length_append] at hlen
  have hfront := length_kept (frontFiles mPos files)
  have hbehind := length_kept (behindFiles mMode mPos files)
  have hnone : (copied mMode mPos files).countP List.isEmpty = 0 := by
    rw [copied_eq h, List.countP_append]
    omega
  intro recs hrecs hnil
  exact List.countP_eq_zero.1 hnone recs hrecs (by rw [hnil]; rfl)

theorem length_delete (file : TapeFile) (h : Valid .Delete mPos files) :
    (edited .Delete mPos file files).length = files.length - 1 :=
  List.length_eraseIdx_of_lt h.2

theorem edited_ne_nil_iff (file : TapeFile) (h : Valid mMode mPos files) :
    edited mMode mPos file files ≠ [] ↔ (mMode = .Delete → 1 < files.length) := by
  cases mMode with
  | Insert => simp [edited_eq h, added]
  | Replace => simp [edited_eq h, added]
  | Delete =>
    have hlen := length_delete file h
    rw [← List.length_pos_iff, hlen]
    constructor
    · exact fun hpos _ => by omega
    · intro hmany
      have hlt := hmany rfl
      omega

end purpose

/-- The command does what it is for: from anywhere on the tape, whatever the memory was and however
    many rounds more there are than are needed. -/
def Does (mMode : Mode) (mPos : Int) (file : List (BitVec 8)) (files : List TapeFile) : Prop :=
  ∀ (aTarget : TapFile) (h : TapHead) (aMemory : Bool) (rounds : Nat), Describes aTarget h →
    h.items = ofFiles files → (ofFiles files).length + 1 < rounds →
    ∃ s, aTarget.exec rounds mMode mPos file aMemory = (.ok (), s) ∧
      Describes s (.between [] (ofFiles (edited mMode mPos (hostRecords file) files)))

/-- Where the command does what it is for, no mark and no file is missing. -/
theorem Does.produced {mMode : Mode} {mPos : Int} {files : List TapeFile} {file : List (BitVec 8)}
    (hdoes : Does mMode mPos file files) (hfits : FilesFit files) (hvalid : Valid mMode mPos files) :
    (∀ recs ∈ copied mMode mPos files, recs ≠ []) ∧
      edited mMode mPos (hostRecords file) files ≠ [] := by
  have hstart := describes_ofDisk (ofFiles files) false
  obtain ⟨s, hexec, hs⟩ := hdoes _ _ false _ hstart rfl (Nat.lt_succ_self _)
  obtain ⟨hnone, hsome⟩ := exec_produced file hvalid (Nat.lt_succ_self _) hstart rfl hfits false
  have hne : Editor.produced mMode mPos (hostRecords file) files ≠ [] := by
    intro hnil
    have herror := hnone hnil
    rw [hexec] at herror
    cases herror
  obtain ⟨s', hexec', hs'⟩ := hsome hne
  obtain rfl : s = s' := (Prod.mk.inj (hexec.symm.trans hexec')).2
  have himage : image itemBytes (ofFiles (Editor.produced mMode mPos (hostRecords file) files)) =
      image itemBytes (ofFiles (edited mMode mPos (hostRecords file) files)) :=
    Option.some.inj ((disk_eq hs').symm.trans (disk_eq hs))
  have hall := copied_ne_nil hvalid himage
  rw [produced_eq hvalid hall] at hne
  exact ⟨hall, hne⟩

/-- **The commands**: a file is inserted, replaced or deleted, and the others stay as they are,
    exactly if each of the others has a record, and a file is left. -/
theorem does_iff {mMode : Mode} {mPos : Int} {files : List TapeFile} (file : List (BitVec 8))
    (hfits : FilesFit files) (hvalid : Valid mMode mPos files) :
    Does mMode mPos file files ↔
      (∀ recs ∈ copied mMode mPos files, recs ≠ []) ∧ (mMode = .Delete → 1 < files.length) := by
  constructor
  · intro hdoes
    obtain ⟨hall, hne⟩ := hdoes.produced hfits hvalid
    exact ⟨hall, (edited_ne_nil_iff _ hvalid).1 hne⟩
  · rintro ⟨hall, hmany⟩ aTarget h aMemory rounds hd hitems hrounds
    obtain ⟨-, hsome⟩ := exec_produced file hvalid hrounds hd hitems hfits aMemory
    have hne := (edited_ne_nil_iff (hostRecords file) hvalid).2 hmany
    rw [produced_eq hvalid hall] at hsome
    exact hsome hne

/-- The first of two files is deleted. -/
theorem does_deleteFirst : Does .Delete 0 [] [[[1]], [[2], [3]]] := by
  have hvalid : Valid .Delete 0 [[[1]], [[2], [3]]] := ⟨by decide, by decide⟩
  refine (does_iff [] ?_ hvalid).2 ⟨?_, ?_⟩
  · intro recs hrecs r hr
    simp only [List.mem_cons, List.not_mem_nil, or_false] at hrecs
    rcases hrecs with rfl | rfl
    · obtain rfl := List.mem_singleton.1 hr
      exact ⟨by decide, by decide⟩
    · simp only [List.mem_cons, List.not_mem_nil, or_false] at hr
      rcases hr with rfl | rfl <;> exact ⟨by decide, by decide⟩
  · simp [copied]
  · simp

/-- A file is put in front of a file without records, which is lost; the only file is deleted, and
    there is no tape to be renamed. -/
theorem not_does : ¬ Does .Insert 0 [7] [[]] ∧ ¬ Does .Delete 0 [] [[[1]]] := by
  constructor
  · intro hdoes
    have hfits : FilesFit [[]] := by
      intro recs hrecs r hr
      obtain rfl := List.mem_singleton.1 hrecs
      cases hr
    obtain ⟨hall, -⟩ := hdoes.produced hfits (.inr ⟨by decide, by decide⟩)
    exact hall [] (by simp [copied]) rfl
  · intro hdoes
    have hfits : FilesFit [[[1]]] := by
      intro recs hrecs r hr
      obtain rfl := List.mem_singleton.1 hrecs
      obtain rfl := List.mem_singleton.1 hr
      exact ⟨by decide, by decide⟩
    obtain ⟨-, hne⟩ := hdoes.produced hfits ⟨by decide, by decide⟩
    exact hne rfl

end Editor

end CraySim
