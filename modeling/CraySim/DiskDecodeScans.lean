/-
  Subject:   The lists of scans of the tracks.

  `LoadScanInfo` and `GetScans` of `disk_decode.cpp`. A line of a scan info file holds the name of a
  scan, a head and a track. Tracks are numbered from 1; the table of the sectors takes that into
  account, the table of the scans does not.

  * `InStream`, `getline` -- the file, read by lines of limited length,
  * `atoi`, `scanFields` -- the fields of a line,
  * `ScanImage`, `addLine`, `getScans` -- the table,
  * `loadLoop`, `Loads` -- the loop, and what it ends with,
  * `loads_iff` -- it ends for files without overlong lines,
  * `scanIdx_lt_iff`, `scanIdx_inj` -- the entries of the table,
  * `Holds`, `Holds.push` -- what a line adds, and where,
  * `scansRight_iff` -- when a track gets its scans.
-/
import CraySim.DiskDecodeBounds
import Mathlib.Data.List.TakeWhile

namespace CraySim

namespace DiskDecode

/-! ## 1. Lines -/

/-- A name, a line, a file: bytes. -/
abbrev Chars := List (BitVec 8)

def newline : BitVec 8 := 0x0A
def comma : BitVec 8 := 0x2C

/-- `sizeof(LineBuf)`. -/
def lineBufSize : Nat := 32768 * 4

/-- `std::ifstream`: what has not been read, and the flags. -/
structure InStream where
  rest : Chars
  eofbit : Bool
  failbit : Bool
  deriving DecidableEq, Repr

/-- A file that was opened. -/
def InStream.open (file : Chars) : InStream := ⟨file, false, false⟩

/-- `getline(LineBuf, lineBufSize)`. The end of the file is an error where nothing was read; a line
    for which the buffer has no room is one, too, and the rest of it is still to be read. -/
def InStream.getline (s : InStream) : Chars × InStream :=
  if s.eofbit || s.failbit then ([], { s with failbit := true })
  else
    let line := (s.rest.takeWhile (· ≠ newline)).take (lineBufSize - 1)
    match s.rest.drop line.length with
    | [] => (line, ⟨[], true, line.isEmpty⟩)
    | c :: rest =>
      if c = newline then (line, ⟨rest, false, false⟩) else (line, ⟨c :: rest, false, true⟩)

/-! ## 2. Fields -/

def isSpace (c : BitVec 8) : Bool := c = 0x20 || (9 ≤ c && c ≤ 13)

def isDigit (c : BitVec 8) : Bool := 0x30 ≤ c && c ≤ 0x39

/-- The sign of a number, and what follows it. -/
def signOf : Chars → Bool × Chars
  | [] => (false, [])
  | c :: str =>
    if c = 0x2D then (true, str) else if c = 0x2B then (false, str) else (false, c :: str)

/-- `atoi`: `strtol`, whose value is limited to 64 bits, as an `int`. -/
def atoi (str : Chars) : BitVec 32 :=
  let signed := signOf (str.dropWhile isSpace)
  let value := (signed.2.takeWhile isDigit).foldl (fun (v : Nat) c => 10 * v + (c.toNat - 0x30)) 0
  BitVec.ofInt 32
    (if signed.1 then max (-(value : Int)) (-2 ^ 63) else min (value : Int) (2 ^ 63 - 1))

/-- The tokens of `strtok(LineBuf, ",")`. -/
def tokens (line : Chars) : List Chars :=
  ((line.takeWhile (· ≠ 0)).splitOn comma).filter (· ≠ [])

/-- A full line. -/
structure ScanLine where
  ScanFileName : Chars
  Head : BitVec 32
  Track : BitVec 32
  deriving DecidableEq, Repr

/-- The fields of a line: its first three tokens. -/
def scanFields (line : Chars) : Option ScanLine :=
  match tokens line with
  | scanFileName :: head :: track :: _ => some ⟨scanFileName, atoi head, atoi track⟩
  | _ => none

/-- The line `a,4,823`. -/
example : scanFields [0x61, 0x2C, 0x34, 0x2C, 0x38, 0x32, 0x33] = some ⟨[0x61], 4, 823⟩ := by decide

/-- An `int` as a `size_t`. -/
def sizeOfInt (i : BitVec 32) : Nat := (i.signExtend 64).toNat

/-! ## 3. The table -/

/-- What may go wrong. -/
inductive ScanExn where
  /-- `std::invalid_argument`. -/
  | invalidArgument (aText : String)
  /-- There is no such element. -/
  | undefinedBehaviour
  deriving DecidableEq, Repr

/-- `DiskImage_c` with its lists of scans. -/
structure ScanImage extends DiskImage where
  mTrackScans : List (List Chars)
  length_trackScans : mTrackScans.length = mHeads * mTracks

namespace ScanImage

/-- `SetSize` of a new image. -/
def new (aHeads aTracks aSectors : Nat) : ScanImage where
  toDiskImage := .new aHeads aTracks aSectors
  mTrackScans := List.replicate (aHeads * aTracks) []
  length_trackScans := List.length_replicate

/-- Where the scans of a track are. -/
def scanIdx (image : ScanImage) (aHead aTrack : Nat) : Nat := aHead * image.mTracks + aTrack

/-- `mTrackScans[idx].push_back(name)`. -/
def push (image : ScanImage) (idx : Nat) (name : Chars) : ScanImage :=
  { image with
    mTrackScans := image.mTrackScans.modify idx (· ++ [name])
    length_trackScans := by rw [List.length_modify, image.length_trackScans] }

/-- What `LoadScanInfo` does with a line. -/
def addLine (image : ScanImage) (line : Chars) : Except ScanExn ScanImage :=
  match scanFields line with
  | none => .ok image
  | some f =>
    if image.isValidIdx (sizeOfInt f.Head) (sizeOfInt f.Track) 0 then
      if image.scanIdx (sizeOfInt f.Head) (sizeOfInt f.Track) < image.mTrackScans.length then
        .ok (image.push (image.scanIdx (sizeOfInt f.Head) (sizeOfInt f.Track)) f.ScanFileName)
      else .error .undefinedBehaviour
    else .ok image

/-- The loop of `LoadScanInfo`, for a number of rounds. -/
def loadLoop : Nat → InStream → ScanImage → Option (Except ScanExn ScanImage)
  | 0, _, _ => none
  | rounds + 1, inFile, image =>
    if inFile.eofbit then some (.ok image)
    else
      match image.addLine inFile.getline.1 with
      | .error e => some (.error e)
      | .ok image => loadLoop rounds inFile.getline.2 image

def getScans (image : ScanImage) (aHead aTrack : Nat) : Except ScanExn (List Chars) :=
  if image.isValidIdx aHead aTrack 0 then
    match image.mTrackScans[image.scanIdx aHead aTrack]? with
    | some scans => .ok scans
    | none => .error .undefinedBehaviour
  else .error (.invalidArgument "Invalid argument to GetScans")

end ScanImage

/-! ## 4. The lines of a file -/

/-- The lines of a file; the last one has no line end. -/
def fileLines (file : Chars) : List Chars := file.splitOn newline

variable {line : Chars}

theorem fileLines_of_not_mem (h : newline ∉ line) : fileLines line = [line] :=
  List.splitOn_eq_singleton h

theorem fileLines_append (h : newline ∉ line) (rest : Chars) :
    fileLines (line ++ newline :: rest) = line :: fileLines rest := by
  rw [fileLines, List.splitOn_append_cons_self, List.splitOn_eq_singleton h]
  rfl

/-- A file is a line, or a line with its end and the rest of the file. -/
theorem file_cases (file : Chars) : ∃ line : Chars, newline ∉ line ∧
    (file = line ∨ ∃ rest, file = line ++ newline :: rest) := by
  induction file with
  | nil => exact ⟨[], List.not_mem_nil, .inl rfl⟩
  | cons c file ih =>
    by_cases hc : c = newline
    · exact ⟨[], List.not_mem_nil, .inr ⟨file, by rw [hc, List.nil_append]⟩⟩
    · obtain ⟨line, hline, hfile⟩ := ih
      have hmem : newline ∉ c :: line := by
        rw [List.mem_cons, not_or]
        exact ⟨Ne.symm hc, hline⟩
      refine ⟨c :: line, hmem, ?_⟩
      rcases hfile with rfl | ⟨rest, rfl⟩
      · exact .inl rfl
      · exact .inr ⟨rest, rfl⟩

theorem file_induction {motive : Chars → Prop} (last : ∀ line, newline ∉ line → motive line)
    (line : ∀ line rest, newline ∉ line → motive rest → motive (line ++ newline :: rest))
    (file : Chars) : motive file := by
  obtain ⟨first, hfirst, rfl | ⟨rest, hrest⟩⟩ := file_cases file
  · exact last file hfirst
  · rw [hrest]
    exact line first rest hfirst (file_induction last line rest)
termination_by file.length
decreasing_by
  rw [hrest, List.length_append, List.length_cons]
  omega

theorem takeWhile_line (h : newline ∉ line) (rest : Chars) :
    (line ++ newline :: rest).takeWhile (· ≠ newline) = line := by
  have hall : ∀ c ∈ line, decide (c ≠ newline) = true := fun c hc =>
    decide_eq_true fun hn => h (hn ▸ hc)
  rw [List.takeWhile_append_of_pos hall]
  simp

theorem takeWhile_lastLine (h : newline ∉ line) :
    line.takeWhile (· ≠ newline) = line := by
  rw [List.takeWhile_eq_self_iff]
  exact fun c hc => decide_eq_true fun hn => h (hn ▸ hc)

/-- The last line, where the buffer has room for it. -/
theorem getline_last (h : newline ∉ line) (hroom : line.length < lineBufSize) :
    (InStream.open line).getline = (line, ⟨[], true, line.isEmpty⟩) := by
  have htake : line.take (lineBufSize - 1) = line := List.take_of_length_le (by omega)
  simp only [InStream.getline, InStream.open, Bool.or_self, Bool.false_eq_true, if_false,
    takeWhile_lastLine h, htake, List.drop_length]

/-- Another line, where the buffer has room for it. -/
theorem getline_line (h : newline ∉ line) (hroom : line.length < lineBufSize) (rest : Chars) :
    (InStream.open (line ++ newline :: rest)).getline = (line, .open rest) := by
  have htake : line.take (lineBufSize - 1) = line := List.take_of_length_le (by omega)
  simp only [InStream.getline, InStream.open, Bool.or_self, Bool.false_eq_true, if_false,
    takeWhile_line h, htake, List.drop_left, if_true]

theorem getline_overlong {line rest : Chars} (h : newline ∉ line)
    (hline : (line ++ rest).takeWhile (· ≠ newline) = line) (hroom : lineBufSize ≤ line.length) :
    (InStream.open (line ++ rest)).getline =
      (line.take (lineBufSize - 1), ⟨line.drop (lineBufSize - 1) ++ rest, false, true⟩) := by
  have hsize : 0 < lineBufSize := by decide
  have hcut : (line.take (lineBufSize - 1)).length = lineBufSize - 1 :=
    List.length_take_of_le (by omega)
  rcases hdrop : line.drop (lineBufSize - 1) with - | ⟨c, tail⟩
  · rw [List.drop_eq_nil_iff] at hdrop
    omega
  · have hc : c ≠ newline := fun hn => h (hn ▸ List.mem_of_mem_drop (hdrop ▸ List.mem_cons_self))
    have hrest : (line ++ rest).drop (lineBufSize - 1) = c :: (tail ++ rest) := by
      rw [List.drop_append_of_le_length (by omega), hdrop, List.cons_append]
    simp only [InStream.getline, InStream.open, Bool.or_self, Bool.false_eq_true, if_false, hline,
      hcut, hrest, if_neg hc, List.cons_append]

/-! ## 5. The loop -/

namespace ScanImage

/-- `LoadScanInfo` ends, and leaves an image. -/
def Loads (file : Chars) (image img' : ScanImage) : Prop :=
  ∃ rounds, loadLoop rounds (.open file) image = some (.ok img')

/-- After an error the loop never ends: `failbit` is not looked at. -/
theorem loadLoop_failed (rounds : Nat) : ∀ (inFile : InStream) (image img' : ScanImage),
    inFile.eofbit = false → inFile.failbit = true →
      loadLoop rounds inFile image ≠ some (.ok img') := by
  induction rounds with
  | zero =>
    intro inFile image img' _ _ h
    exact nomatch h
  | succ rounds ih =>
    intro inFile image img' heof hfail h
    have hget : inFile.getline = ([], { inFile with failbit := true }) := by
      rw [InStream.getline, hfail, Bool.or_true, if_pos rfl]
    simp only [loadLoop, heof, Bool.false_eq_true, if_false, hget] at h
    split at h
    · exact nomatch h
    · exact ih ⟨inFile.rest, false, true⟩ _ img' rfl rfl h

/-- The loop stays in a round for a line, and goes on behind it. -/
theorem loadLoop_succ (rounds : Nat) {inFile : InStream} (heof : inFile.eofbit = false)
    (image img' : ScanImage) :
    loadLoop (rounds + 1) inFile image = some (.ok img') ↔
      ∃ img1, image.addLine inFile.getline.1 = .ok img1 ∧
        loadLoop rounds inFile.getline.2 img1 = some (.ok img') := by
  simp only [loadLoop, heof, Bool.false_eq_true, if_false]
  split <;> rename_i hadd
  · simp [hadd]
  · simp [hadd]

theorem loads_last {line : Chars} (h : newline ∉ line) (hroom : line.length < lineBufSize)
    (image img' : ScanImage) : Loads line image img' ↔ image.addLine line = .ok img' := by
  have hend : ∀ rounds img1, loadLoop (rounds + 1) ⟨[], true, line.isEmpty⟩ img1 =
      some (.ok img1) := fun _ _ => rfl
  constructor
  · rintro ⟨- | - | rounds, hload⟩
    · exact nomatch hload
    · obtain ⟨img1, -, hload⟩ := (loadLoop_succ 0 rfl image img').mp hload
      exact nomatch hload
    · obtain ⟨img1, hadd, hload⟩ := (loadLoop_succ (rounds + 1) rfl image img').mp hload
      rw [getline_last h hroom] at hadd hload
      rw [hend] at hload
      cases hload
      exact hadd
  · intro hadd
    refine ⟨2, (loadLoop_succ 1 rfl image img').mpr ⟨img', ?_⟩⟩
    rw [getline_last h hroom]
    exact ⟨hadd, rfl⟩

theorem loads_line {line : Chars} (h : newline ∉ line) (hroom : line.length < lineBufSize)
    (rest : Chars) (image img' : ScanImage) :
    Loads (line ++ newline :: rest) image img' ↔
      ∃ img1, image.addLine line = .ok img1 ∧ Loads rest img1 img' := by
  have hget := getline_line h hroom rest
  constructor
  · rintro ⟨- | rounds, hload⟩
    · exact nomatch hload
    · obtain ⟨img1, hadd, hload⟩ := (loadLoop_succ rounds rfl image img').mp hload
      rw [hget] at hadd hload
      exact ⟨img1, hadd, rounds, hload⟩
  · rintro ⟨img1, hadd, rounds, hload⟩
    refine ⟨rounds + 1, (loadLoop_succ rounds rfl image img').mpr ⟨img1, ?_⟩⟩
    rw [hget]
    exact ⟨hadd, hload⟩

theorem not_loads_overlong {line rest : Chars} (h : newline ∉ line)
    (hline : (line ++ rest).takeWhile (· ≠ newline) = line) (hroom : lineBufSize ≤ line.length)
    (image img' : ScanImage) : ¬ Loads (line ++ rest) image img' := by
  rintro ⟨- | rounds, hload⟩
  · exact nomatch hload
  · obtain ⟨img1, -, hload⟩ := (loadLoop_succ rounds rfl image img').mp hload
    rw [getline_overlong h hline hroom] at hload
    exact loadLoop_failed rounds _ img1 img' rfl rfl hload

theorem foldlM_addLine_cons (image img' : ScanImage) (line : Chars) (lines : List Chars) :
    (line :: lines).foldlM addLine image = .ok img' ↔
      ∃ img1, image.addLine line = .ok img1 ∧ lines.foldlM addLine img1 = .ok img' := by
  rw [List.foldlM_cons]
  rcases hadd : image.addLine line with e | img1
  · simp [bind, Except.bind]
  · simp [bind, Except.bind]

/-- **`LoadScanInfo` ends for files without overlong lines, and has then looked at every line.** -/
theorem loads_iff (file : Chars) (image img' : ScanImage) : Loads file image img' ↔
    (∀ line ∈ fileLines file, line.length < lineBufSize) ∧
      (fileLines file).foldlM addLine image = .ok img' := by
  induction file using file_induction generalizing image with
  | last line hline =>
    rw [fileLines_of_not_mem hline, foldlM_addLine_cons]
    by_cases hroom : line.length < lineBufSize
    · rw [loads_last hline hroom]
      simp [hroom, pure, Except.pure]
    · have htake : (line ++ []).takeWhile (· ≠ newline) = line := by
        rw [List.append_nil, takeWhile_lastLine hline]
      have hnot := not_loads_overlong hline htake (by omega) image img'
      rw [List.append_nil] at hnot
      simp [hnot, hroom]
  | line line rest hline ih =>
    rw [fileLines_append hline, foldlM_addLine_cons, List.forall_mem_cons]
    by_cases hroom : line.length < lineBufSize
    · rw [loads_line hline hroom]
      simp only [ih, hroom, true_and]
      constructor
      · rintro ⟨img1, hadd, hshort, hfold⟩
        exact ⟨hshort, img1, hadd, hfold⟩
      · rintro ⟨hshort, img1, hadd, hfold⟩
        exact ⟨img1, hadd, hshort, hfold⟩
    · have hnot := not_loads_overlong hline (takeWhile_line hline rest) (by omega) image img'
      simp [hnot, hroom]

/-! ## 6. What is put where -/

section table
variable (H T S : Nat)

/-- A track of an image. -/
def IsTrack (head track : Nat) : Prop := head < H ∧ (1 ≤ track ∧ track ≤ T) ∧ 0 < S

/-- The last track of the last head. -/
def IsLastTrack (head track : Nat) : Prop := head + 1 = H ∧ track = T

instance (head track : Nat) : Decidable (IsTrack H T S head track) :=
  inferInstanceAs (Decidable (_ ∧ _))

instance (head track : Nat) : Decidable (IsLastTrack H T head track) :=
  inferInstanceAs (Decidable (_ ∧ _))

variable {H T S}

/-- The table has no entry for the last track of the last head: it starts with one for a track 0. -/
theorem scanIdx_lt_iff {head track : Nat} (h : IsTrack H T S head track) :
    head * T + track < H * T ↔ ¬ IsLastTrack H T head track := by
  obtain ⟨hhead, ⟨hlow, hhigh⟩, -⟩ := h
  have hsucc : head * T + T = (head + 1) * T := by rw [Nat.succ_mul]
  by_cases hH : head + 1 = H
  · rw [← hH, IsLastTrack, ← hsucc]
    omega
  · have hmul : (head + 1) * T + T ≤ H * T := by
      rw [← Nat.succ_mul]
      exact Nat.mul_le_mul_right T (by omega)
    rw [IsLastTrack]
    omega

theorem scanIdx_inj {head track head' track' : Nat} (h : IsTrack H T S head track)
    (h' : IsTrack H T S head' track') :
    head * T + track = head' * T + track' ↔ head = head' ∧ track = track' := by
  obtain ⟨-, ⟨hlow, hhigh⟩, -⟩ := h
  obtain ⟨-, ⟨hlow', hhigh'⟩, -⟩ := h'
  constructor
  · intro heq
    have hhead : head = head' := by
      rcases Nat.lt_trichotomy head head' with hlt | heq' | hlt
      · have := Nat.mul_le_mul_right T (Nat.succ_le_of_lt hlt)
        rw [Nat.succ_mul] at this
        omega
      · exact heq'
      · have := Nat.mul_le_mul_right T (Nat.succ_le_of_lt hlt)
        rw [Nat.succ_mul] at this
        omega
    subst hhead
    exact ⟨rfl, by omega⟩
  · rintro ⟨rfl, rfl⟩
    rfl

variable (H T S)

/-- The name on a line for a track. -/
def scanOf (head track : Nat) (line : Chars) : Option Chars :=
  match scanFields line with
  | some f =>
    if sizeOfInt f.Head = head ∧ sizeOfInt f.Track = track then some f.ScanFileName else none
  | none => none

/-- The names on the lines for a track. -/
def scansOf (lines : List Chars) (head track : Nat) : List Chars :=
  lines.filterMap (scanOf head track)

/-- A line is not for the last track of the last head. -/
def InTable (line : Chars) : Prop :=
  ∀ f, scanFields line = some f → IsTrack H T S (sizeOfInt f.Head) (sizeOfInt f.Track) →
    ¬ IsLastTrack H T (sizeOfInt f.Head) (sizeOfInt f.Track)

/-- The table holds the names on some lines. -/
structure Holds (lines : List Chars) (image : ScanImage) : Prop where
  heads : image.mHeads = H
  tracks : image.mTracks = T
  sectors : image.mSectors = S
  scans : ∀ head track, IsTrack H T S head track → ¬ IsLastTrack H T head track →
    image.mTrackScans[head * T + track]? = some (scansOf lines head track)

theorem holds_new : Holds H T S [] (new H T S) where
  heads := rfl
  tracks := rfl
  sectors := rfl
  scans := fun head track htrack hlast => by
    rw [new, List.getElem?_replicate, if_pos ((scanIdx_lt_iff htrack).mpr hlast)]
    rfl

variable {H T S} {lines : List Chars} {image img' : ScanImage}

theorem Holds.length (h : Holds H T S lines image) : image.mTrackScans.length = H * T := by
  rw [image.length_trackScans, h.heads, h.tracks]

theorem Holds.isValidIdx_iff (h : Holds H T S lines image) (head track : Nat) :
    image.isValidIdx head track 0 = true ↔ IsTrack H T S head track := by
  rw [DiskImage.isValidIdx_iff, h.heads, h.tracks, h.sectors, IsTrack]

theorem Holds.skip (h : Holds H T S lines image) {line : Chars}
    (hline : ∀ f, scanFields line = some f →
      ¬ IsTrack H T S (sizeOfInt f.Head) (sizeOfInt f.Track)) :
    Holds H T S (lines ++ [line]) image := by
  refine { h with scans := fun head track htrack hlast => ?_ }
  have hnone : scanOf head track line = none := by
    rw [scanOf]
    split
    · next f hf =>
      refine if_neg ?_
      rintro ⟨rfl, rfl⟩
      exact hline f hf htrack
    · rfl
  rw [h.scans head track htrack hlast, scansOf, scansOf, List.filterMap_append,
    List.filterMap_cons_none hnone, List.filterMap_nil, List.append_nil]

/-- A line that names a track adds to its list, and to no other one. -/
theorem Holds.push (h : Holds H T S lines image) {line : Chars} {f : ScanLine}
    (hf : scanFields line = some f)
    (htrack : IsTrack H T S (sizeOfInt f.Head) (sizeOfInt f.Track)) :
    Holds H T S (lines ++ [line])
      (image.push (image.scanIdx (sizeOfInt f.Head) (sizeOfInt f.Track)) f.ScanFileName) := by
  refine { h with scans := fun head track htrack' hlast => ?_ }
  have hscans := h.scans head track htrack' hlast
  rw [ScanImage.push, scanIdx, h.tracks, List.getElem?_modify, hscans, Option.map_eq_map,
    Option.map_some, scansOf, scansOf, List.filterMap_append]
  by_cases hsame : sizeOfInt f.Head = head ∧ sizeOfInt f.Track = track
  · have hsome : scanOf head track line = some f.ScanFileName := by
      simp only [scanOf, hf, if_pos hsame]
    rw [if_pos ((scanIdx_inj htrack htrack').mpr hsame), List.filterMap_cons_some hsome,
      List.filterMap_nil]
  · have hnone : scanOf head track line = none := by
      simp only [scanOf, hf, if_neg hsame]
    rw [if_neg fun heq => hsame ((scanIdx_inj htrack htrack').mp heq),
      List.filterMap_cons_none hnone, List.filterMap_nil, List.append_nil]

theorem Holds.addLine_eq_ok (h : Holds H T S lines image) {line : Chars}
    (hadd : image.addLine line = .ok img') :
    InTable H T S line ∧ Holds H T S (lines ++ [line]) img' := by
  rw [ScanImage.addLine] at hadd
  split at hadd
  · next hnone =>
    cases hadd
    rw [InTable]
    exact ⟨by simp [hnone], h.skip (by simp [hnone])⟩
  · next f hf =>
    have hline : ∀ g, scanFields line = some g → f = g := fun g hg => Option.some.inj (hf ▸ hg)
    rw [h.length, scanIdx, h.tracks] at hadd
    by_cases htrack : IsTrack H T S (sizeOfInt f.Head) (sizeOfInt f.Track)
    · rw [if_pos ((h.isValidIdx_iff _ _).mpr htrack)] at hadd
      split at hadd
      · next hlt =>
        cases hadd
        have hpush := h.push hf htrack
        rw [scanIdx, h.tracks] at hpush
        refine ⟨fun g hg _ => ?_, hpush⟩
        rw [← hline g hg]
        exact (scanIdx_lt_iff htrack).mp hlt
      · exact nomatch hadd
    · rw [if_neg fun hvalid => htrack ((h.isValidIdx_iff _ _).mp hvalid)] at hadd
      cases hadd
      exact ⟨fun g hg htrack' => absurd (hline g hg ▸ htrack') htrack,
        h.skip fun g hg => hline g hg ▸ htrack⟩

theorem Holds.exists_addLine (h : Holds H T S lines image) {line : Chars}
    (hline : InTable H T S line) : ∃ img', image.addLine line = .ok img' := by
  rw [ScanImage.addLine]
  split
  · exact ⟨image, rfl⟩
  · next f hf =>
    rw [h.length, scanIdx, h.tracks]
    by_cases htrack : IsTrack H T S (sizeOfInt f.Head) (sizeOfInt f.Track)
    · rw [if_pos ((h.isValidIdx_iff _ _).mpr htrack),
        if_pos ((scanIdx_lt_iff htrack).mpr (hline f hf htrack))]
      exact ⟨_, rfl⟩
    · rw [if_neg fun hvalid => htrack ((h.isValidIdx_iff _ _).mp hvalid)]
      exact ⟨image, rfl⟩

theorem Holds.addLines_eq_ok (more : List Chars) : ∀ {lines : List Chars} {image img' : ScanImage},
    Holds H T S lines image → more.foldlM addLine image = .ok img' →
      (∀ line ∈ more, InTable H T S line) ∧ Holds H T S (lines ++ more) img' := by
  induction more with
  | nil =>
    intro lines image img' h hadd
    cases hadd
    rw [List.append_nil]
    exact ⟨List.forall_mem_nil _, h⟩
  | cons line more ih =>
    intro lines image img' h hadd
    obtain ⟨img1, hline, hmore⟩ := (foldlM_addLine_cons image img' line more).mp hadd
    obtain ⟨hin, h1⟩ := h.addLine_eq_ok hline
    obtain ⟨hins, h'⟩ := ih h1 hmore
    rw [List.append_assoc] at h'
    exact ⟨List.forall_mem_cons.mpr ⟨hin, hins⟩, h'⟩

theorem Holds.exists_addLines (more : List Chars) : ∀ {lines : List Chars} {image : ScanImage},
    Holds H T S lines image → (∀ line ∈ more, InTable H T S line) →
      ∃ img', more.foldlM addLine image = .ok img' := by
  induction more with
  | nil => exact fun _ _ => ⟨_, rfl⟩
  | cons line more ih =>
    intro lines image h hin
    obtain ⟨hline, hmore⟩ := List.forall_mem_cons.mp hin
    obtain ⟨img1, hadd⟩ := h.exists_addLine hline
    obtain ⟨img', hadd'⟩ := ih (h.addLine_eq_ok hadd).2 hmore
    exact ⟨img', (foldlM_addLine_cons image img' line more).mpr ⟨img1, hadd, hadd'⟩⟩

/-- What `GetScans` finds. -/
theorem Holds.getScans_eq (h : Holds H T S lines image) {head track : Nat}
    (htrack : IsTrack H T S head track) :
    image.getScans head track =
      if IsLastTrack H T head track then .error .undefinedBehaviour
      else .ok (scansOf lines head track) := by
  rw [getScans, if_pos ((h.isValidIdx_iff head track).mpr htrack), scanIdx, h.tracks]
  by_cases hlast : IsLastTrack H T head track
  · have hout : H * T ≤ head * T + track :=
      Nat.le_of_not_lt fun hlt => (scanIdx_lt_iff htrack).mp hlt hlast
    rw [List.getElem?_eq_none (by rw [h.length]; exact hout), if_pos hlast]
  · rw [h.scans head track htrack hlast, if_neg hlast]

end table

end ScanImage

/-! ## 7. The lists of the tracks -/

open ScanImage

/-- The claim for an image, a file and a track: the file is loaded, every access to the table is in
    its bounds, and the track gets the names on its lines, in their order. -/
def ScansRight (H T S : Nat) (file : Chars) (head track : Nat) : Prop :=
  ∃ image, Loads file (new H T S) image ∧
    (IsTrack H T S head track →
      image.getScans head track = .ok (scansOf (fileLines file) head track))

/-- **A track gets its scans exactly when no line of the file is longer than the buffer, no line is
    for the last track of the last head, and the track is not that one.** -/
theorem scansRight_iff (H T S : Nat) (file : Chars) (head track : Nat) :
    ScansRight H T S file head track ↔
      (∀ line ∈ fileLines file, line.length < lineBufSize) ∧
        (∀ line ∈ fileLines file, InTable H T S line) ∧
        (IsTrack H T S head track → ¬ IsLastTrack H T head track) := by
  constructor
  · rintro ⟨image, hload, hscans⟩
    obtain ⟨hshort, hadd⟩ := (loads_iff file (new H T S) image).mp hload
    obtain ⟨hin, h⟩ := (holds_new H T S).addLines_eq_ok (fileLines file) hadd
    refine ⟨hshort, hin, fun htrack hlast => ?_⟩
    have hget := hscans htrack
    rw [h.getScans_eq htrack, if_pos hlast] at hget
    exact nomatch hget
  · rintro ⟨hshort, hin, hnot⟩
    obtain ⟨image, hadd⟩ := (holds_new H T S).exists_addLines (fileLines file) hin
    obtain ⟨-, h⟩ := (holds_new H T S).addLines_eq_ok (fileLines file) hadd
    refine ⟨image, (loads_iff file (new H T S) image).mpr ⟨hshort, hadd⟩, fun htrack => ?_⟩
    rw [h.getScans_eq htrack, if_neg (hnot htrack), List.nil_append]

/-- The line `a,4,823`, for an image with 5 heads and 823 tracks, names a track with no list. -/
theorem not_scansRight :
    ¬ ScansRight 5 823 32 [0x61, 0x2C, 0x34, 0x2C, 0x38, 0x32, 0x33] 4 823 := by
  rintro ⟨image, hload, hscans⟩
  obtain ⟨-, hadd⟩ := (loads_iff _ (new 5 823 32) image).mp hload
  obtain ⟨-, h⟩ := (holds_new 5 823 32).addLines_eq_ok _ hadd
  have htrack : IsTrack 5 823 32 4 823 := by decide
  have hget := hscans htrack
  rw [h.getScans_eq htrack, if_pos (by decide)] at hget
  exact nomatch hget

end DiskDecode

end CraySim
