/-
  Subject:   Splitting an image into its overlays, as `ovl_split.cpp` does it.

  The overlays stand one behind the other, each behind a header with its length in words. The one
  with the name OVLNUM has a text for each of them.

  * `slice` -- bytes of a buffer; behind its end nothing is defined,
  * `decodeHeader`, `isValidHeader` -- the header of an overlay,
  * `Splits` -- it stays in the image and writes what the headers say,
  * `Inside`, `TableInside` -- headers, overlays and texts that do not reach behind the end,
  * `splits_iff` -- the program is right exactly for these images.
-/
import CraySim.Lib.ByteFile
import CraySim.Lib.EventRun
import CraySim.Types

namespace CraySim

namespace OvlSplit

open ByteFile
open EventRun (exists_of_bind map_eq_ok_iff)

/-! ## 1. Headers -/

/-- Bytes of a buffer. -/
def slice (aContent : List (BitVec 8)) (pos n : Nat) : Except Exn (List (BitVec 8)) :=
  if n = 0 ∨ pos + n ≤ aContent.length then .ok (window aContent pos n)
  else .error .undefinedBehaviour

def isUpperCaseOrNum (aC : BitVec 8) : Bool :=
  (65 ≤ aC.toNat && aC.toNat ≤ 90) || (48 ≤ aC.toNat && aC.toNat ≤ 57)

/-- `ProcessedFileHeader_s`. -/
structure ProcessedFileHeader where
  FileSize : Nat
  Flags : Nat
  Flags1 : Nat
  Flags2 : Nat
  FileName : List (BitVec 8)
  deriving DecidableEq, Repr

def cFileHeaderSize : Nat := 16

/-- The length of an overlay from that in the header, in 16 bits. -/
def fileSize (words : Nat) : Nat := (words * 2 % 65536 + (65536 - cFileHeaderSize)) % 65536

/-- What the bytes of a header say. -/
def header (bs : List (BitVec 8)) : ProcessedFileHeader where
  FileSize := fileSize (valueBE (window bs 0 2))
  Flags := valueBE (window bs 2 2)
  FileName := window bs 4 8
  Flags1 := valueBE (window bs 12 2)
  Flags2 := valueBE (window bs 14 2)

def decodeHeader (aContent : List (BitVec 8)) (aOffset : Nat) : Except Exn ProcessedFileHeader :=
  (slice aContent aOffset cFileHeaderSize).map header

/-- The loop over the name: letters and digits, and zeros behind them. -/
def validName : Bool → List (BitVec 8) → Bool
  | _, [] => true
  | true, c :: cs => if c = 0 then validName false cs else isUpperCaseOrNum c && validName true cs
  | false, c :: cs => c = 0 && validName false cs

/-- `IsValidHeader`; the difference of the offsets has 64 bits. -/
def isValidHeader (aHeader : ProcessedFileHeader) (aMaxOffset aOffset : Nat) : Bool :=
  !((aMaxOffset + 2 ^ 64 - aOffset) % 2 ^ 64 < aHeader.FileSize) &&
    aHeader.Flags = 0 && !(aHeader.Flags1 = 0) &&
    (aHeader.Flags1 / 0x1000 = 0 || aHeader.Flags1 / 0x1000 = 8) &&
    isUpperCaseOrNum (aHeader.FileName.headD 0) && validName true aHeader.FileName.tail

/-- The name as a string of C. -/
def ProcessedFileHeader.cName (h : ProcessedFileHeader) : List (BitVec 8) :=
  h.FileName.takeWhile (· ≠ 0)

def ProcessedFileHeader.fileId (h : ProcessedFileHeader) : Nat := h.Flags1 % 0x8000

def outFileName (FileIdx : Nat) (h : ProcessedFileHeader) : String :=
  let digits := Nat.toDigits 10 FileIdx
  String.ofList (List.replicate (4 - digits.length) '0' ++ digits) ++ "_" ++
    String.ofList (h.cName.map fun c => Char.ofNat c.toNat) ++
    if h.Flags1 / 0x8000 = 0 then ".cod" else ".dat"

/-! ## 2. The program -/

/-- A file that is written, and where its header stands. -/
structure Overlay where
  Offset : Nat
  OutFileName : String
  Content : List (BitVec 8)

/-- What the loop keeps. -/
structure State where
  FileNames : Nat → List (BitVec 8)
  OvlNum : List (BitVec 8)
  MaxFileId : Nat
  files : List Overlay

/-- "OVLNUM". -/
def ovlNumName : List (BitVec 8) := [0x4f, 0x56, 0x4c, 0x4e, 0x55, 0x4d]

/-- An overlay whose header stands at `Offset`. -/
def State.add (s : State) (FileIdx Offset : Nat) (Header : ProcessedFileHeader)
    (Content : List (BitVec 8)) : State where
  FileNames := fun id => if id = Header.fileId then Header.cName else s.FileNames id
  OvlNum := if Header.cName = ovlNumName then Content else s.OvlNum
  MaxFileId := if Header.fileId > s.MaxFileId then Header.fileId else s.MaxFileId
  files := s.files ++ [⟨Offset, outFileName FileIdx Header, Content⟩]

/-- The loop over the overlays, `left` of which are still to come. -/
def splitLoop (File : List (BitVec 8)) :
    (left FileIdx Offset : Nat) → State → Except Exn State
  | 0, _, _, s => .ok s
  | left + 1, FileIdx, Offset, s =>
    (decodeHeader File Offset).bind fun Header =>
      if isValidHeader Header File.length Offset then
        (slice File (Offset + cFileHeaderSize) Header.FileSize).bind fun Content =>
          splitLoop File left (FileIdx + 1) (Offset + cFileHeaderSize + Header.FileSize)
            (s.add FileIdx Offset Header Content)
      -- "Lost track"
      else .ok s

/-- `StartOffs`, in 16 bits. -/
def startOffs (n : Nat) : Nat := (n * 8 + (65536 - 12)) % 65536

/-- `ParseOvlNum`: names and texts, as they are printed. -/
def parseOvlNum (aFileNames : Nat → List (BitVec 8)) (aFile : List (BitVec 8)) :
    (left FileIdx : Nat) → Except Exn (List (List (BitVec 8) × List (BitVec 8)))
  | 0, _ => .ok []
  | left + 1, FileIdx =>
    (slice aFile (FileIdx * 8 + 4) 2).bind fun start =>
      (slice aFile (FileIdx * 8 + 6) 2).bind fun size =>
        if 255 ≤ valueBE size then .ok []
        else
          (slice aFile (startOffs (valueBE start)) (valueBE size)).bind fun Desc =>
            (parseOvlNum aFileNames aFile left (FileIdx + 1)).map
              ((aFileNames FileIdx, Desc.takeWhile (· ≠ 0)) :: ·)

/-- What is written and what is printed. -/
structure Output where
  files : List Overlay
  explanations : List (List (BitVec 8) × List (BitVec 8))

/-- The state in front of the loop. -/
def start : State := ⟨fun _ => [], [], 0, []⟩

/-- The part of `main` behind the loop. -/
def explain (s : State) : Except Exn Output :=
  if 0 < s.OvlNum.length then
    (parseOvlNum s.FileNames s.OvlNum (s.MaxFileId + 1) 0).map fun explanations =>
      ⟨s.files, explanations⟩
  else .ok ⟨s.files, []⟩

def MaxFileSize : Nat := 256 * 1024 * 1024

/-- **`main`**, with the image read. -/
def main (File : List (BitVec 8)) : Except Exn Output :=
  if MaxFileSize < File.length then .ok ⟨[], []⟩
  else
    (slice File 0 2).bind fun FileCnt =>
      (splitLoop File (valueBE FileCnt) 0 4 start).bind explain

/-! ## 3. What it is for -/

/-- The length in the header at `Offset`, in words. -/
def words (File : List (BitVec 8)) (Offset : Nat) : Nat := valueBE (window File Offset 2)

/-- Splitting stays in the image and in the table, and each overlay has the length that its header
    gives, with the header. -/
def Splits (File : List (BitVec 8)) : Prop :=
  ∃ out, main File = .ok out ∧
    ∀ f ∈ out.files, f.Content.length + cFileHeaderSize = 2 * words File f.Offset

/-- The header at `Offset`. -/
def headerAt (File : List (BitVec 8)) (Offset : Nat) : ProcessedFileHeader :=
  header (window File Offset cFileHeaderSize)

/-- It is a valid one. -/
def accepted (File : List (BitVec 8)) (Offset : Nat) : Bool :=
  isValidHeader (headerAt File Offset) File.length Offset

/-- The places of `n` headers one behind the other, and the first that has none. -/
def places (File : List (BitVec 8)) : (n Offset : Nat) → List Nat
  | 0, _ => []
  | n + 1, Offset =>
    Offset :: if accepted File Offset then places File n (Offset + 2 * words File Offset) else []

/-- The places where headers are looked for. -/
def headers (File : List (BitVec 8)) : List Nat := places File (valueBE (window File 0 2)) 4

/-- The places where headers are found. -/
def overlays (File : List (BitVec 8)) : List Nat := (headers File).filter (accepted File)

/-- The overlay with the header at `Offset`. -/
def overlay (File : List (BitVec 8)) (Offset : Nat) : List (BitVec 8) :=
  window File (Offset + cFileHeaderSize) (2 * words File Offset - cFileHeaderSize)

/-- The last overlay OVLNUM. -/
def ovlNum (File : List (BitVec 8)) : List (BitVec 8) :=
  match ((overlays File).filter fun o => (headerAt File o).cName = ovlNumName).getLast? with
  | some o => overlay File o
  | none => []

/-- The largest file number. -/
def maxFileId (File : List (BitVec 8)) : Nat :=
  ((overlays File).map fun o => (headerAt File o).fileId).foldl max 0

/-- A header in the image, with an overlay in the image if it is a valid one. -/
structure HeaderInside (File : List (BitVec 8)) (Offset : Nat) : Prop where
  header : Offset + cFileHeaderSize ≤ File.length
  overlay : accepted File Offset = true →
    cFileHeaderSize ≤ 2 * words File Offset ∧ 2 * words File Offset < 65536 + cFileHeaderSize ∧
      Offset + 2 * words File Offset ≤ File.length

/-- The length of a text in the table. -/
def descSize (aFile : List (BitVec 8)) (i : Nat) : Nat := valueBE (window aFile (i * 8 + 6) 2)

/-- The entries of the table up to the first that is no text, and the texts, are in it. -/
def TableInside (aFile : List (BitVec 8)) (last : Nat) : Prop :=
  ∀ i ≤ last, (∀ j < i, descSize aFile j < 255) → i * 8 + 8 ≤ aFile.length ∧
    (descSize aFile i < 255 → descSize aFile i = 0 ∨
      startOffs (valueBE (window aFile (i * 8 + 4) 2)) + descSize aFile i ≤ aFile.length)

/-- Everything that the headers and the table point to is there. -/
structure Inside (File : List (BitVec 8)) : Prop where
  count : 2 ≤ File.length
  headers : ∀ o ∈ headers File, HeaderInside File o
  table : ovlNum File ≠ [] → TableInside (ovlNum File) (maxFileId File)

/-! ## 4. Slices and headers -/

variable {File : List (BitVec 8)} {Offset : Nat}

theorem slice_eq_ok {aContent bs : List (BitVec 8)} {pos n : Nat} :
    slice aContent pos n = .ok bs ↔
      (n = 0 ∨ pos + n ≤ aContent.length) ∧ window aContent pos n = bs := by
  rw [slice]
  split
  · next hin => simp [hin]
  · next hout => simp [hout]

theorem length_slice {aContent bs : List (BitVec 8)} {pos n : Nat}
    (h : slice aContent pos n = .ok bs) : bs.length = n := by
  obtain ⟨hin, rfl⟩ := slice_eq_ok.mp h
  rw [length_window]
  omega

theorem words_lt (File : List (BitVec 8)) (Offset : Nat) : words File Offset < 65536 := by
  have hlen : (window File Offset 2).length ≤ 2 := by
    rw [length_window]
    omega
  exact Nat.lt_of_lt_of_le (valueBE_lt _) (Nat.pow_le_pow_right (by decide) hlen : _ ≤ 256 ^ 2)

/-- The length is right where 16 bits hold it, the header taken off. -/
theorem fileSize_iff {n : Nat} (hn : n < 65536) :
    fileSize n + cFileHeaderSize = 2 * n ↔
      cFileHeaderSize ≤ 2 * n ∧ 2 * n < 65536 + cFileHeaderSize := by
  have h16 : cFileHeaderSize = 16 := rfl
  rw [fileSize, h16]
  omega

theorem fileSize_headerAt (File : List (BitVec 8)) (Offset : Nat) :
    (headerAt File Offset).FileSize = fileSize (words File Offset) := by
  have hwindow : window (window File Offset cFileHeaderSize) 0 2 = window File Offset 2 := by
    rw [window, window, List.drop_zero, List.take_take]
    rfl
  rw [headerAt, header, hwindow, words]

theorem decodeHeader_eq_ok {h : ProcessedFileHeader} : decodeHeader File Offset = .ok h ↔
    Offset + cFileHeaderSize ≤ File.length ∧ headerAt File Offset = h := by
  rw [decodeHeader, map_eq_ok_iff]
  constructor
  · intro ⟨bs, hbs, hh⟩
    obtain ⟨hin, rfl⟩ := slice_eq_ok.mp hbs
    exact ⟨hin.resolve_left (by decide), hh⟩
  · intro ⟨hin, hh⟩
    exact ⟨_, slice_eq_ok.mpr ⟨Or.inr hin, rfl⟩, hh⟩

/-! ## 5. The loop over the overlays -/

/-- The overlays of some headers. -/
def State.addAll (File : List (BitVec 8)) : (FileIdx : Nat) → List Nat → State → State
  | _, [], s => s
  | FileIdx, o :: os, s =>
    State.addAll File (FileIdx + 1) os (s.add FileIdx o (headerAt File o) (overlay File o))

theorem places_accepted {n : Nat} (h : accepted File Offset = true) :
    places File (n + 1) Offset = Offset :: places File n (Offset + 2 * words File Offset) := by
  rw [places, if_pos h]

theorem places_lost {n : Nat} (h : ¬ accepted File Offset = true) :
    places File (n + 1) Offset = [Offset] := by
  rw [places, if_neg h]

variable {s : State}

/-- Where every header and overlay is in the image, the loop takes them all. -/
theorem splitLoop_of_inside {n FileIdx : Nat}
    (h : ∀ o ∈ places File n Offset, HeaderInside File o) :
    splitLoop File n FileIdx Offset s =
      .ok (s.addAll File FileIdx ((places File n Offset).filter (accepted File))) := by
  induction n generalizing FileIdx Offset s with
  | zero => rfl
  | succ n ih =>
    have hhere : HeaderInside File Offset := h Offset (by rw [places]; exact List.mem_cons_self)
    rw [splitLoop, decodeHeader_eq_ok.mpr ⟨hhere.header, rfl⟩, Except.bind, ← accepted]
    by_cases hacc : accepted File Offset = true
    · obtain ⟨hlow, hhigh, hend⟩ := hhere.overlay hacc
      have hsize := (fileSize_iff (words_lt File Offset)).mpr ⟨hlow, hhigh⟩
      have hFileSize : (headerAt File Offset).FileSize =
          2 * words File Offset - cFileHeaderSize := by
        rw [fileSize_headerAt]
        omega
      have hContent : slice File (Offset + cFileHeaderSize) (headerAt File Offset).FileSize =
          .ok (overlay File Offset) := by
        refine slice_eq_ok.mpr ⟨Or.inr (by omega), ?_⟩
        rw [hFileSize, overlay]
      have hnext : Offset + cFileHeaderSize + (headerAt File Offset).FileSize =
          Offset + 2 * words File Offset := by
        omega
      rw [if_pos hacc, hContent, Except.bind, hnext, places_accepted hacc,
        List.filter_cons_of_pos hacc, State.addAll]
      refine ih fun o ho => h o ?_
      rw [places_accepted hacc]
      exact List.mem_cons_of_mem _ ho
    · rw [if_neg hacc, places_lost hacc, List.filter_cons_of_neg hacc, List.filter_nil,
        State.addAll]

theorem files_splitLoop {n FileIdx : Nat} {s s' : State}
    (h : splitLoop File n FileIdx Offset s = .ok s') : ∀ f ∈ s.files, f ∈ s'.files := by
  induction n generalizing FileIdx Offset s with
  | zero =>
    rw [← Except.ok.inj h]
    exact fun f hf => hf
  | succ n ih =>
    obtain ⟨Header, _, h⟩ := exists_of_bind h
    split at h
    · obtain ⟨Content, _, h⟩ := exists_of_bind h
      exact fun f hf => ih h f (List.mem_append_left _ hf)
    · rw [← Except.ok.inj h]
      exact fun f hf => hf

/-- Where the loop ends and writes what the headers say, every header and overlay is in the
    image. -/
theorem inside_of_splitLoop {n FileIdx : Nat} {s s' : State}
    (h : splitLoop File n FileIdx Offset s = .ok s')
    (hright : ∀ f ∈ s'.files, f.Content.length + cFileHeaderSize = 2 * words File f.Offset) :
    ∀ o ∈ places File n Offset, HeaderInside File o := by
  induction n generalizing FileIdx Offset s with
  | zero => exact fun o ho => absurd ho List.not_mem_nil
  | succ n ih =>
    obtain ⟨Header, hHeader, h⟩ := exists_of_bind h
    obtain ⟨hin, rfl⟩ := decodeHeader_eq_ok.mp hHeader
    by_cases hacc : accepted File Offset = true
    · rw [accepted] at hacc
      rw [if_pos hacc] at h
      obtain ⟨Content, hContent, h⟩ := exists_of_bind h
      have hlen := length_slice hContent
      have hwords : Content.length + cFileHeaderSize = 2 * words File Offset :=
        hright ⟨Offset, _, Content⟩ (files_splitLoop h _ (List.mem_append_right _ List.mem_cons_self))
      rw [fileSize_headerAt] at hlen
      obtain ⟨hlow, hhigh⟩ :=
        (fileSize_iff (words_lt File Offset)).mp (hlen ▸ hwords)
      have hend := (slice_eq_ok.mp hContent).1
      rw [fileSize_headerAt] at hend h
      have hnext : Offset + cFileHeaderSize + fileSize (words File Offset) =
          Offset + 2 * words File Offset := by
        omega
      rw [hnext] at h
      rw [places_accepted hacc]
      intro o ho
      rcases List.mem_cons.mp ho with rfl | hrest
      · exact ⟨hin, fun _ => ⟨hlow, hhigh, by omega⟩⟩
      · exact ih h o hrest
    · rw [places_lost hacc]
      intro o ho
      rw [List.mem_singleton.mp ho]
      exact ⟨hin, fun h => absurd h hacc⟩

theorem ovlNum_addAll {os : List Nat} {FileIdx : Nat} :
    (s.addAll File FileIdx os).OvlNum =
      match (os.filter fun o => (headerAt File o).cName = ovlNumName).getLast? with
      | some o => overlay File o
      | none => s.OvlNum := by
  induction os generalizing FileIdx s with
  | nil => rfl
  | cons o os ih =>
    rw [State.addAll, ih]
    by_cases hname : (headerAt File o).cName = ovlNumName
    · simp only [List.filter_cons, hname, decide_true, if_true, List.getLast?_cons]
      cases ((os.filter fun o => (headerAt File o).cName = ovlNumName).getLast?) with
      | none => exact if_pos hname
      | some o' => rfl
    · simp only [List.filter_cons, hname, decide_false, Bool.false_eq_true, if_false]
      cases ((os.filter fun o => (headerAt File o).cName = ovlNumName).getLast?) with
      | none => exact if_neg hname
      | some o' => rfl

theorem maxFileId_addAll {os : List Nat} {FileIdx : Nat} :
    (s.addAll File FileIdx os).MaxFileId =
      (os.map fun o => (headerAt File o).fileId).foldl max s.MaxFileId := by
  induction os generalizing FileIdx s with
  | nil => rfl
  | cons o os ih =>
    have hmax : (s.add FileIdx o (headerAt File o) (overlay File o)).MaxFileId =
        max s.MaxFileId (headerAt File o).fileId := by
      show (if (headerAt File o).fileId > s.MaxFileId then (headerAt File o).fileId
        else s.MaxFileId) = _
      split <;> omega
    rw [State.addAll, ih, hmax, List.map_cons, List.foldl_cons]

theorem mem_files_addAll {os : List Nat} {FileIdx : Nat} {f : Overlay}
    (hf : f ∈ (s.addAll File FileIdx os).files) :
    f ∈ s.files ∨ ∃ o ∈ os, f.Offset = o ∧ f.Content = overlay File o := by
  induction os generalizing FileIdx s with
  | nil => exact Or.inl hf
  | cons o os ih =>
    rcases ih hf with hadd | ⟨o', ho', hfile⟩
    · rcases List.mem_append.mp hadd with hold | hnew
      · exact Or.inl hold
      · rw [List.mem_singleton.mp hnew]
        exact Or.inr ⟨o, List.mem_cons_self, rfl, rfl⟩
    · exact Or.inr ⟨o', List.mem_cons_of_mem o ho', hfile⟩

/-! ## 6. The table -/

theorem parseOvlNum_iff {aFileNames : Nat → List (BitVec 8)} {aFile : List (BitVec 8)}
    {left FileIdx : Nat} : (∃ r, parseOvlNum aFileNames aFile left FileIdx = .ok r) ↔
      ∀ i, FileIdx ≤ i → i < FileIdx + left → (∀ j, FileIdx ≤ j → j < i → descSize aFile j < 255) →
        i * 8 + 8 ≤ aFile.length ∧ (descSize aFile i < 255 → descSize aFile i = 0 ∨
          startOffs (valueBE (window aFile (i * 8 + 4) 2)) + descSize aFile i ≤ aFile.length) := by
  induction left generalizing FileIdx with
  | zero =>
    constructor
    · intro _ i hlow hhigh
      omega
    · intro _
      exact ⟨[], rfl⟩
  | succ left ih =>
    constructor
    · intro ⟨r, hr⟩ i hlow hhigh hbefore
      obtain ⟨start, hstart, hr⟩ := exists_of_bind hr
      obtain ⟨size, hsize, hr⟩ := exists_of_bind hr
      obtain ⟨_, rfl⟩ := slice_eq_ok.mp hstart
      obtain ⟨hin, rfl⟩ := slice_eq_ok.mp hsize
      rw [← descSize] at hr
      by_cases hi : i = FileIdx
      · subst hi
        refine ⟨by omega, fun htext => ?_⟩
        rw [if_neg (by omega)] at hr
        obtain ⟨Desc, hDesc, _⟩ := exists_of_bind hr
        exact (slice_eq_ok.mp hDesc).1
      · have hhere := hbefore FileIdx (Nat.le_refl _) (by omega)
        rw [if_neg (by omega)] at hr
        obtain ⟨Desc, _, hr⟩ := exists_of_bind hr
        obtain ⟨rest, hrest, _⟩ := map_eq_ok_iff.mp hr
        exact ih.mp ⟨rest, hrest⟩ i (by omega) (by omega)
          fun j hj hji => hbefore j (by omega) hji
    · intro hall
      obtain ⟨hin, htext⟩ := hall FileIdx (Nat.le_refl _) (by omega)
        fun j hlow hhigh => absurd hlow (by omega)
      have hstart := slice_eq_ok.mpr
        ⟨Or.inr (show FileIdx * 8 + 4 + 2 ≤ aFile.length by omega), rfl⟩
      have hsize := slice_eq_ok.mpr
        ⟨Or.inr (show FileIdx * 8 + 6 + 2 ≤ aFile.length by omega), rfl⟩
      rw [parseOvlNum, hstart, Except.bind, hsize]
      dsimp only [Except.bind]
      rw [← descSize]
      by_cases hlast : 255 ≤ descSize aFile FileIdx
      · rw [if_pos hlast]
        exact ⟨[], rfl⟩
      · have hDesc := slice_eq_ok.mpr ⟨htext (by omega), rfl⟩
        have hnext : ∃ rest, parseOvlNum aFileNames aFile left (FileIdx + 1) = .ok rest := by
          refine ih.mpr fun i hlow hhigh hbefore => hall i (by omega) (by omega) fun j hj hji => ?_
          by_cases hjF : j = FileIdx
          · rw [hjF]
            omega
          · exact hbefore j (by omega) hji
        obtain ⟨rest, hrest⟩ := hnext
        rw [if_neg hlast, hDesc]
        dsimp only
        rw [hrest]
        exact ⟨_, rfl⟩

theorem tableInside_iff {aFileNames : Nat → List (BitVec 8)} {aFile : List (BitVec 8)}
    {last : Nat} :
    (∃ r, parseOvlNum aFileNames aFile (last + 1) 0 = .ok r) ↔ TableInside aFile last := by
  rw [parseOvlNum_iff]
  constructor
  · intro h i hi hbefore
    exact h i (Nat.zero_le i) (by omega) fun j _ hj => hbefore j hj
  · intro h i _ hi hbefore
    exact h i (by omega) fun j hj => hbefore j (Nat.zero_le j) hj

/-! ## 7. The image -/

/-- What the loop leaves of an image that has all its overlays. -/
theorem splitLoop_headers (h : ∀ o ∈ headers File, HeaderInside File o) :
    ∃ s, splitLoop File (valueBE (window File 0 2)) 0 4 start = .ok s ∧
      s.OvlNum = ovlNum File ∧ s.MaxFileId = maxFileId File ∧
      ∀ f ∈ s.files, f.Content.length + cFileHeaderSize = 2 * words File f.Offset := by
  refine ⟨_, splitLoop_of_inside h, ovlNum_addAll, maxFileId_addAll, fun f hf => ?_⟩
  rcases mem_files_addAll hf with hnone | ⟨o, ho, hoff, hcontent⟩
  · exact absurd hnone List.not_mem_nil
  · obtain ⟨hmem, hacc⟩ := List.mem_filter.mp ho
    obtain ⟨hlow, _, hend⟩ := (h o hmem).overlay hacc
    rw [hcontent, hoff, overlay, length_window]
    omega

theorem files_explain {out : Output} (h : explain s = .ok out) : out.files = s.files := by
  rw [explain] at h
  split at h
  · obtain ⟨r, _, rfl⟩ := map_eq_ok_iff.mp h
    rfl
  · rw [← Except.ok.inj h]

theorem explain_iff :
    (∃ out, explain s = .ok out) ↔ (s.OvlNum ≠ [] → TableInside s.OvlNum s.MaxFileId) := by
  have htable : (∃ r, parseOvlNum s.FileNames s.OvlNum (s.MaxFileId + 1) 0 = .ok r) ↔
      TableInside s.OvlNum s.MaxFileId := tableInside_iff
  rw [explain]
  split
  · next hsome =>
    constructor
    · intro ⟨out, hout⟩ _
      obtain ⟨r, hr, _⟩ := map_eq_ok_iff.mp hout
      exact htable.mp ⟨r, hr⟩
    · intro h
      obtain ⟨r, hr⟩ := htable.mpr (h (List.length_pos_iff.mp hsome))
      exact ⟨_, map_eq_ok_iff.mpr ⟨r, hr, rfl⟩⟩
  · next hnone =>
    exact ⟨fun _ hsome => absurd (List.length_pos_iff.mpr hsome) hnone, fun _ => ⟨_, rfl⟩⟩

theorem main_eq_ok {out : Output} (hsmall : ¬ MaxFileSize < File.length) : main File = .ok out ↔
    2 ≤ File.length ∧ ∃ s, splitLoop File (valueBE (window File 0 2)) 0 4 start = .ok s ∧
      explain s = .ok out := by
  rw [main, if_neg hsmall]
  constructor
  · intro h
    obtain ⟨FileCnt, hcnt, hrest⟩ := exists_of_bind h
    obtain ⟨hin, hFileCnt⟩ := slice_eq_ok.mp hcnt
    obtain ⟨s, hs, hexplain⟩ := exists_of_bind hrest
    exact ⟨by omega, s, hFileCnt ▸ hs, hexplain⟩
  · intro ⟨hlen, s, hs, h⟩
    rw [slice_eq_ok.mpr ⟨Or.inr (by omega : 0 + 2 ≤ File.length), rfl⟩, Except.bind, hs]
    exact h

/-- Splitting stays in the image exactly where everything that its headers and its table point to is
    in it; larger images are not looked at. -/
theorem splits_iff (File : List (BitVec 8)) :
    Splits File ↔ MaxFileSize < File.length ∨ Inside File := by
  by_cases hlarge : MaxFileSize < File.length
  · refine ⟨fun _ => Or.inl hlarge, fun _ => ⟨⟨[], []⟩, ?_, fun f hf => absurd hf List.not_mem_nil⟩⟩
    rw [main, if_pos hlarge]
  · constructor
    · intro ⟨out, hout, hright⟩
      obtain ⟨hcount, s, hs, hexplain⟩ := (main_eq_ok hlarge).mp hout
      rw [files_explain hexplain] at hright
      have hheaders : ∀ o ∈ headers File, HeaderInside File o := inside_of_splitLoop hs hright
      obtain ⟨s', hs', hovl, hmax, _⟩ := splitLoop_headers hheaders
      obtain rfl : s = s' := Except.ok.inj (hs.symm.trans hs')
      refine Or.inr ⟨hcount, hheaders, ?_⟩
      rw [← hovl, ← hmax]
      exact explain_iff.mp ⟨out, hexplain⟩
    · intro hinside
      obtain ⟨hcount, hheaders, htable⟩ := hinside.resolve_left hlarge
      obtain ⟨s, hs, hovl, hmax, hright⟩ := splitLoop_headers hheaders
      rw [← hovl, ← hmax] at htable
      obtain ⟨out, hout⟩ := explain_iff.mpr htable
      refine ⟨out, (main_eq_ok hlarge).mpr ⟨hcount, s, hs, hout⟩, ?_⟩
      rw [files_explain hout]
      exact hright

/-- An image with one overlay, whose last word is missing. -/
def shortImage : List (BitVec 8) :=
  [0, 1, 0, 0, 0, 9, 0, 0, 0x41, 0, 0, 0, 0, 0, 0, 0, 0, 1, 0, 0]

/-- The overlay is accepted and read behind the end of the image. -/
theorem not_splits : ¬ Splits shortImage := by
  intro ⟨out, hout, _⟩
  have hmain : main shortImage = .error .undefinedBehaviour := by
    rfl
  rw [hmain] at hout
  cases hout

end OvlSplit

end CraySim
