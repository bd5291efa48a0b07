/-
  Subject:   Reading a UNICOS object file, as `cray_disasm.cpp` does it.

  An object file is a row of tables. Each has a header with its type and its length, and the lengths
  are taken from the file. A read behind the end of the file leaves zeros.

  * `field` -- a field of a record, by its first bit and its width,
  * `Container`, `readArea` -- records one behind the other, up to a size,
  * `readTxt`, `readRels` -- `TxtBlock_c::Read`.
-/
import CraySim.Lib.DoWhile
import CraySim.Lib.FileStream
import CraySim.Types

namespace CraySim

namespace ObjFile

open ByteFile FileStream

/-! ## 1. Words of a stream -/

/-- The words of bytes, as many as there are to be. -/
def wordsOf : Nat → List (BitVec 8) → List CInt
  | 0, _ => []
  | n + 1, bs => BitVec.ofNat 64 (valueBE (bs.take 8)) :: wordsOf n (bs.drop 8)

@[simp] theorem length_wordsOf (n : Nat) (bs : List (BitVec 8)) : (wordsOf n bs).length = n := by
  induction n generalizing bs with
  | zero => rfl
  | succ n ih => rw [wordsOf, List.length_cons, ih]

/-- A vector of `n` words is read; what the file does not have stays 0. -/
def readWords (n : Nat) (s : FileStream) : List CInt × FileStream :=
  let (bs, s) := s.read (8 * n)
  (wordsOf n (bs ++ List.replicate (8 * n - bs.length) 0), s)

/-- `FieldBase_c::Get`, for the field from bit `mStart` on. -/
def field (mRawBuffer : List CInt) (mStart aSize : Nat) : Nat :=
  (getBitsReverse (mRawBuffer.getD (mStart / 64) 0) (mStart % 64)
    ((mStart + aSize - 1) % 64)).toNat

/-- `StrField_c::Read`: the string ends in front of its first zero. -/
def readStr (StrLen : Nat) (s : FileStream) : List (BitVec 8) × FileStream :=
  if StrLen = 0 then ([], s)
  else
    let (bs, s) := s.read (8 * ((StrLen + 7) / 8))
    (bs.takeWhile (· ≠ 0), s)

/-- The words of a string. -/
def strWords (StrLen : Nat) : Nat := (StrLen + 7) / 8

/-- `ArrField_T::Read`. -/
def readArr (ArrLen : Nat) (s : FileStream) : List CInt × FileStream :=
  if ArrLen = 0 then ([], s) else readWords ArrLen s

/-- What `Read` throws. -/
inductive ReadError where
  /-- `Generic_x`. -/
  | generic (aText : String)
  /-- `CRAY_ASSERT` failed. -/
  | assertion
  /-- `std::length_error`, of `resize`. -/
  | lengthError
  deriving DecidableEq, Repr

/-- `OctPrinter` of an enumeration. -/
def octPrinter (n : Nat) : String := "0" ++ String.ofList (Nat.toDigits 8 n)

/-- `HexPrinter` of 64 bits. -/
def hexPrinter (n : Nat) : String :=
  let digits := (Nat.toDigits 16 n).map Char.toUpper
  "0x" ++ String.ofList (List.replicate (16 - digits.length) '0' ++ digits)

/-! ## 2. Records -/

/-- Records that are read one behind the other. -/
structure Container (α : Type) where
  read : FileStream → α × FileStream
  sizeInWords : α → Nat
  sizeInWords_pos : ∀ a, 0 < sizeInWords a

/-- The loop over an area: what is read, and the size that is reached. -/
def readArea {α : Type} (c : Container α) (size Idx : Nat) (s : FileStream) :
    List α × Nat × FileStream :=
  if Idx < size then
    let (item, s) := c.read s
    let (items, last, s) := readArea c size (Idx + c.sizeInWords item) s
    (item :: items, last, s)
  else ([], Idx, s)
termination_by size - Idx
decreasing_by
  have hpos := c.sizeInWords_pos item
  omega

theorem readArea_none {α : Type} (c : Container α) (n : Nat) (s : FileStream) :
    readArea c n n s = ([], n, s) := by
  rw [readArea, if_neg (Nat.lt_irrefl n)]

theorem readArea_one {α : Type} {c : Container α} {size Idx : Nat} {s s' : FileStream} {a : α}
    (hlt : Idx < size) (hread : c.read s = (a, s')) (hsize : Idx + c.sizeInWords a = size) :
    readArea c size Idx s = ([a], size, s') := by
  rw [readArea, if_pos hlt, hread]
  dsimp only
  rw [hsize, readArea_none]

namespace TableType

def MTT : Nat := 0o10
def SMT : Nat := 0o11
def XRL : Nat := 0o14
def REL : Nat := 0o15
def TXT : Nat := 0o16
def PDT : Nat := 0o17
def CMB : Nat := 0o21
def GNT : Nat := 0o27

end TableType

namespace BlockContent

def IX : Nat := 1
def BS : Nat := 3
def ZD : Nat := 5

end BlockContent

/-- `HdrDesc_c`. -/
structure HdrDesc where
  mRawBuffer : List CInt

namespace HdrDesc

def hdr_type (h : HdrDesc) : Nat := field h.mRawBuffer 0 7

def hdr_len (h : HdrDesc) : Nat := field h.mRawBuffer 32 32

def read (s : FileStream) : HdrDesc × FileStream :=
  let (ws, s) := readWords 1 s
  (⟨ws⟩, s)

end HdrDesc

/-- `ProgDescTable_c`. -/
structure ProgDescTable where
  mRawBuffer : List CInt
  mExtra : List CInt
  mFileName : List (BitVec 8)
  mModuleName : List (BitVec 8)

namespace ProgDescTable

def pdthdsz (ws : List CInt) : Nat := field ws 0 16

def pdtblsz (t : ProgDescTable) : Nat := field t.mRawBuffer 16 16

def pdtensz (t : ProgDescTable) : Nat := field t.mRawBuffer 32 16

def pdtexsz (t : ProgDescTable) : Nat := field t.mRawBuffer 48 16

def pdtfnl (ws : List CInt) : Nat := field ws 464 8

def pdtmnl (ws : List CInt) : Nat := field ws 472 8

/-- `Read`; where the header is shorter than what is known to be in it, the length of the rest is
    huge and `resize` throws. -/
def read (s : FileStream) : Except ReadError (ProgDescTable × FileStream) :=
  let (ws, s) := readWords 9 s
  let known := 10 + (pdtmnl ws + 7) / 8 + (pdtfnl ws + 7) / 8
  if pdthdsz ws < known then .error .lengthError
  else
    let (mExtra, s) := readArr (pdthdsz ws - known) s
    let (mFileName, s) := readStr (pdtfnl ws) s
    let (mModuleName, s) := readStr (pdtmnl ws) s
    .ok (⟨ws, mExtra, mFileName, mModuleName⟩, s)

end ProgDescTable

/-- `BlockDesc_c`. -/
structure BlockDesc where
  mRawBuffer : List CInt
  mName : List (BitVec 8)
  FileOffset : BitVec 64

namespace BlockDesc

def pdtbkc (b : BlockDesc) : Nat := field b.mRawBuffer 4 3

def pdtbknl (b : BlockDesc) : Nat := field b.mRawBuffer 24 8

def pdtbkln (b : BlockDesc) : Nat := field b.mRawBuffer 32 32

/-- These blocks have text. -/
def hasText (b : BlockDesc) : Bool := !(b.pdtbkc = BlockContent.BS || b.pdtbkc = BlockContent.ZD)

/-- `tellg`, and `Read`. -/
def container (FileBase : BitVec 64) : Container BlockDesc where
  read s :=
    let (FileOffs, s) := s.tell
    let (ws, s) := readWords 1 s
    let (mName, s) := readStr (field ws 24 8) s
    (⟨ws, mName, BitVec.ofInt 64 FileOffs - FileBase⟩, s)
  sizeInWords b := 1 + strWords b.pdtbknl
  sizeInWords_pos _ := Nat.le_add_right 1 _

end BlockDesc

/-- `EntryDesc_c`. -/
structure EntryDesc where
  mRawBuffer : List CInt
  mName : List (BitVec 8)

namespace EntryDesc

def nameLength (e : EntryDesc) : Nat := field e.mRawBuffer 66 8

def container : Container EntryDesc where
  read s :=
    let (ws, s) := readWords 2 s
    let (mName, s) := readStr (field ws 66 8) s
    (⟨ws, mName⟩, s)
  sizeInWords e := 2 + strWords e.nameLength
  sizeInWords_pos _ := Nat.lt_of_lt_of_le Nat.two_pos (Nat.le_add_right 2 _)

end EntryDesc

/-- `ExternDesc_c`. -/
structure ExternDesc where
  mRawBuffer : List CInt
  mName : List (BitVec 8)
  FileOffset : BitVec 64

namespace ExternDesc

def nameLength (e : ExternDesc) : Nat := field e.mRawBuffer 2 8

def container (FileBase : BitVec 64) : Container ExternDesc where
  read s :=
    let (FileOffs, s) := s.tell
    let (ws, s) := readWords 1 s
    let (mName, s) := readStr (field ws 2 8) s
    (⟨ws, mName, BitVec.ofInt 64 FileOffs - FileBase⟩, s)
  sizeInWords e := 1 + strWords e.nameLength
  sizeInWords_pos _ := Nat.le_add_right 1 _

end ExternDesc

/-- `TxtItem_c`. -/
structure TxtItem where
  mRawBuffer : List CInt
  mContent : List CInt

namespace TxtItem

def mNumberOfTextWords (i : TxtItem) : Nat := field i.mRawBuffer 96 32

def container : Container TxtItem where
  read s :=
    let (ws, s) := readWords 2 s
    let (mContent, s) := readArr (field ws 96 32) s
    (⟨ws, mContent⟩, s)
  sizeInWords i := 2 + i.mNumberOfTextWords
  sizeInWords_pos _ := Nat.lt_of_lt_of_le Nat.two_pos (Nat.le_add_right 2 _)

end TxtItem

/-- `RelItem_c`. -/
structure RelItem where
  mRawBuffer : List CInt

namespace RelItem

def rightmostBitAddress (r : RelItem) : Nat := field r.mRawBuffer 17 38

def fieldLengthInBits (r : RelItem) : Nat := field r.mRawBuffer 55 6

def container : Container RelItem where
  read s :=
    let (ws, s) := readWords 1 s
    (⟨ws⟩, s)
  sizeInWords _ := 1
  sizeInWords_pos _ := Nat.one_pos

end RelItem

/-- `XRelItem_c`. -/
structure XRelItem where
  mRawBuffer : List CInt

namespace XRelItem

def fieldLengthInBits (r : XRelItem) : Nat := field r.mRawBuffer 55 6

def rightmostBitAddress (r : XRelItem) : Nat := field r.mRawBuffer 90 38

/-- The item is looked at, and read again. -/
def container : Container XRelItem where
  read s :=
    let s := (s.read 16).2.seekBy (-16)
    let (ws, s) := readWords 2 s
    (⟨ws⟩, s)
  sizeInWords _ := 2
  sizeInWords_pos _ := Nat.two_pos

end XRelItem

/-! ## 3. What is left of a file -/

/-- The bytes that can still be read. -/
def remaining (s : FileStream) : Nat := if s.good then s.content.length - s.pos else 0

variable {s : FileStream} {n : Nat}

theorem remaining_of_not_good (h : s.good = false) : remaining s = 0 := by
  rw [remaining, h, if_neg Bool.false_ne_true]

theorem remaining_of_failbit (h : s.failbit = true) : remaining s = 0 :=
  remaining_of_not_good (by rw [good, h, Bool.not_true, Bool.and_false])

theorem remaining_read (n : Nat) (s : FileStream) :
    remaining (s.read n).2 + (s.read n).1.length ≤ remaining s := by
  cases hgood : s.good with
  | false =>
    have hread : s.read n = ([], { s with failbit := true }) := by
      rw [FileStream.read, hgood, if_neg Bool.false_ne_true]
    rw [hread, remaining_of_failbit rfl, remaining_of_not_good hgood]
    exact Nat.le_refl 0
  | true =>
    have hlen : (if s.isOpen then window s.content s.pos n else []).length ≤
        min n (s.content.length - s.pos) := by
      split
      · rw [length_window]
      · exact Nat.zero_le _
    rw [FileStream.read, if_pos hgood, remaining, remaining, if_pos hgood]
    generalize (if s.isOpen then window s.content s.pos n else []) = got at hlen
    by_cases hshort : got.length < n
    · simp only [if_pos hshort, good, Bool.not_true, Bool.false_and, Bool.false_eq_true, if_false]
      omega
    · have hsame : ({ s with pos := s.pos + n } : FileStream).good = true := hgood
      have hcontent : ({ s with pos := s.pos + n } : FileStream).content = s.content := rfl
      simp only [if_neg hshort, if_pos hsame, hcontent]
      omega

theorem remaining_readWords (n : Nat) (s : FileStream) :
    remaining (readWords n s).2 ≤ remaining s :=
  Nat.le_trans (Nat.le_add_right _ _) (remaining_read (8 * n) s)

theorem remaining_readArr (n : Nat) (s : FileStream) : remaining (readArr n s).2 ≤ remaining s := by
  rw [readArr]
  split
  · exact Nat.le_refl _
  · exact remaining_readWords n s

/-- A header that is not all zeros has taken something from the file. -/
theorem remaining_readHeader (h : (HdrDesc.read s).1.hdr_type ≠ 0) :
    remaining (HdrDesc.read s).2 < remaining s := by
  have hread := remaining_read (8 * 1) s
  have hsome : 0 < (s.read (8 * 1)).1.length := by
    rw [List.length_pos_iff]
    intro hnil
    refine h ?_
    have hzero : (HdrDesc.read s).1 = ⟨[0]⟩ := by
      rw [HdrDesc.read, readWords]
      simp only [hnil]
      rfl
    rw [hzero]
    decide
  exact Nat.lt_of_lt_of_le (Nat.lt_add_of_pos_right hsome) hread

theorem remaining_readHeader_le (s : FileStream) : remaining (HdrDesc.read s).2 ≤ remaining s :=
  remaining_readWords 1 s

/-- An item does not put the file back. -/
def Container.Forward {α : Type} (c : Container α) : Prop := ∀ s, remaining (c.read s).2 ≤ remaining s

theorem remaining_readArea {α : Type} {c : Container α} (h : c.Forward) (size Idx : Nat)
    (s : FileStream) : remaining (readArea c size Idx s).2.2 ≤ remaining s := by
  induction hn : size - Idx using Nat.strong_induction_on generalizing Idx s with
  | _ n ih =>
    rw [readArea]
    split
    · next hlt =>
      have hpos := c.sizeInWords_pos (c.read s).1
      exact Nat.le_trans (ih _ (by omega) (Idx + c.sizeInWords (c.read s).1) (c.read s).2 rfl) (h s)
    · exact Nat.le_refl _

theorem forward_txtItem : TxtItem.container.Forward := fun s =>
  Nat.le_trans (remaining_readArr _ _) (remaining_readWords 2 s)

theorem forward_relItem : RelItem.container.Forward := fun s => remaining_readWords 1 s

/-- A read that raises no flag has read everything it was to. -/
theorem read_of_good (hn : 0 < n) (h : (s.read n).2.good = true) :
    s.isOpen = true ∧ (s.read n).2 = { s with pos := s.pos + n } := by
  cases hgood : s.good with
  | false =>
    rw [FileStream.read, hgood, if_neg Bool.false_ne_true, good, Bool.not_true,
      Bool.and_false] at h
    cases h
  | true =>
    rw [FileStream.read, if_pos hgood] at h ⊢
    cases hopen : s.isOpen with
    | false =>
      simp only [hopen, Bool.false_eq_true, if_false, List.length_nil, if_pos hn, good, Bool.not_true,
        Bool.false_and] at h
    | true =>
      refine ⟨rfl, ?_⟩
      simp only [hopen, if_true] at h ⊢
      by_cases hshort : (window s.content s.pos n).length < n
      · simp only [if_pos hshort, good, Bool.not_true, Bool.false_and, Bool.false_eq_true] at h
      · rw [if_neg hshort]

/-- A read that raises a flag has raised the failure flag. -/
theorem failbit_of_read (h : (s.read n).2.good = false) :
    (s.read n).2.failbit = true := by
  cases hgood : s.good with
  | false => rw [FileStream.read, hgood, if_neg Bool.false_ne_true]
  | true =>
    rw [FileStream.read, if_pos hgood] at h ⊢
    generalize (if s.isOpen then window s.content s.pos n else []) = got at h
    by_cases hshort : got.length < n
    · simp only [if_pos hshort]
    · simp only [if_neg hshort] at h
      exact absurd (hgood.symm.trans h) (by decide)

theorem failbit_seekBy (h : s.failbit = true) (off : Int) :
    (s.seekBy off).failbit = true := by
  rw [seekBy, seekTo, if_pos h]
  exact h

theorem seekBy_read (hn : 0 < n) (h : (s.read n).2.good = true) :
    (s.read n).2.seekBy (-(n : Int)) = s := by
  obtain ⟨hopen, hread⟩ := read_of_good hn h
  have hpos : ((s.pos + n : Nat) : Int) + -(n : Int) = (s.pos : Int) := by omega
  rw [hread] at h ⊢
  have hflags : s.eofbit = false ∧ s.failbit = false := by
    simpa [good] using h
  rw [seekBy, seekTo]
  simp only [hpos, hflags.2, Bool.false_eq_true, if_false, hopen, Bool.true_and]
  rw [if_pos (by simp)]
  cases s
  simp_all

/-- The look at an item does not change what is left, unless it ends the file. -/
theorem remaining_peek (hn : 0 < n) (s : FileStream) :
    remaining ((s.read n).2.seekBy (-(n : Int))) ≤ remaining s := by
  cases hgood : (s.read n).2.good with
  | false =>
    rw [remaining_of_failbit (failbit_seekBy (failbit_of_read hgood) _)]
    exact Nat.zero_le _
  | true => rw [seekBy_read hn hgood]

theorem forward_xrelItem : XRelItem.container.Forward := fun s =>
  Nat.le_trans (remaining_readWords 2 _) (remaining_peek (by decide : 0 < 16) s)

/-! ## 4. The tables of a block -/

/-- A loop over tables of some types comes to its end: the next header of such a type takes something
    from the file, and one of another type ends the loop. -/
theorem next_header {P : Nat → Prop} [DecidablePred P] (hzero : ¬ P 0) {s s₁ s₂ : FileStream}
    {Header' : HdrDesc} (hle : remaining s₁ ≤ remaining s)
    (hread : HdrDesc.read s₁ = (Header', s₂)) :
    Prod.Lex (· < ·) (· < ·) (remaining s₂, if P Header'.hdr_type then 1 else 0)
      (remaining s, 1) := by
  by_cases hnext : P Header'.hdr_type
  · have hne : (HdrDesc.read s₁).1.hdr_type ≠ 0 := by
      intro hnone
      rw [hread] at hnone
      exact hzero (hnone ▸ hnext)
    have hless : remaining s₂ < remaining s₁ := by
      have h := remaining_readHeader hne
      rwa [hread] at h
    exact Prod.Lex.left _ _ (by omega)
  · have hless : remaining s₂ ≤ remaining s₁ := by
      have h := remaining_readHeader_le s₁
      rwa [hread] at h
    rw [if_neg hnext]
    rcases Nat.lt_or_eq_of_le (Nat.le_trans hless hle) with hless | hsame
    · exact Prod.Lex.left _ _ hless
    · rw [hsame]
      exact Prod.Lex.right _ Nat.one_pos

/-- The loop over the text tables. The header in hand is read already. -/
def readTxt (BlockLen WordsRead : Nat) (Header : HdrDesc) (mTxtItems : List TxtItem)
    (s : FileStream) : Except ReadError (Nat × HdrDesc × List TxtItem × FileStream) :=
  if WordsRead < BlockLen then
    if _htype : Header.hdr_type ≠ TableType.TXT then
      .error (.generic ("Unknown TXT block header type: " ++ octPrinter Header.hdr_type))
    else
      match _hitems : readArea TxtItem.container Header.hdr_len 1 s with
      | (items, SubBlockRead, s₁) =>
        if SubBlockRead ≠ Header.hdr_len then .error .assertion
        else
          match _hheader : HdrDesc.read s₁ with
          | (Header', s₂) =>
            readTxt BlockLen (WordsRead + (items.map TxtItem.mNumberOfTextWords).sum) Header'
              (mTxtItems ++ items) s₂
  else .ok (WordsRead, Header, mTxtItems, s)
termination_by (remaining s, if Header.hdr_type = TableType.TXT then 1 else 0)
decreasing_by
  have hle : remaining s₁ ≤ remaining s := by
    have h := remaining_readArea forward_txtItem Header.hdr_len 1 s
    rwa [_hitems] at h
  rw [if_pos (not_ne_iff.mp _htype)]
  exact next_header (P := (· = TableType.TXT)) (by decide) hle _hheader

theorem readTxt_next {BlockLen WordsRead : Nat} {Header Header' : HdrDesc}
    {mTxtItems items : List TxtItem} {s s₁ s₂ : FileStream} (hless : WordsRead < BlockLen)
    (htype : Header.hdr_type = TableType.TXT) (hlen : Header.hdr_len = n)
    (hitems : readArea TxtItem.container n 1 s = (items, n, s₁))
    (hheader : HdrDesc.read s₁ = (Header', s₂)) :
    readTxt BlockLen WordsRead Header mTxtItems s =
      readTxt BlockLen (WordsRead + (items.map TxtItem.mNumberOfTextWords).sum) Header'
        (mTxtItems ++ items) s₂ := by
  subst hlen
  rw [readTxt, if_pos hless, dif_neg (not_not.mpr htype)]
  split
  next new size s₁' hnew =>
    obtain ⟨rfl, hsize, rfl⟩ : items = new ∧ Header.hdr_len = size ∧ s₁ = s₁' := by
      simpa using hitems.symm.trans hnew
    rw [if_neg (not_not.mpr hsize.symm), hheader]

theorem readTxt_last {BlockLen WordsRead : Nat} {Header : HdrDesc} {mTxtItems : List TxtItem}
    (hless : ¬ WordsRead < BlockLen) :
    readTxt BlockLen WordsRead Header mTxtItems s = .ok (WordsRead, Header, mTxtItems, s) := by
  rw [readTxt, if_neg hless]

/-- The loop over the relocation tables. -/
def readRels (Header : HdrDesc) (mRelItems : List RelItem) (mXRelItems : List XRelItem)
    (s : FileStream) : Except ReadError (List RelItem × List XRelItem × FileStream) :=
  if _hrel : Header.hdr_type = TableType.REL then
    match _hitems : readArea RelItem.container Header.hdr_len 1 s with
    | (items, SubBlockRead, s₁) =>
      if SubBlockRead ≠ Header.hdr_len then .error .assertion
      else
        match _hheader : HdrDesc.read s₁ with
        | (Header', s₂) => readRels Header' (mRelItems ++ items) mXRelItems s₂
  else if _hxrl : Header.hdr_type = TableType.XRL then
    match _hitems : readArea XRelItem.container Header.hdr_len 1 s with
    | (items, SubBlockRead, s₁) =>
      if SubBlockRead ≠ Header.hdr_len then .error .assertion
      else
        match _hheader : HdrDesc.read s₁ with
        | (Header', s₂) => readRels Header' mRelItems (mXRelItems ++ items) s₂
  -- the last header is not one of this block's
  else .ok (mRelItems, mXRelItems, s.seekBy (-8))
termination_by (remaining s,
  if Header.hdr_type = TableType.REL ∨ Header.hdr_type = TableType.XRL then 1 else 0)
decreasing_by
  · have hle : remaining s₁ ≤ remaining s := by
      have h := remaining_readArea forward_relItem Header.hdr_len 1 s
      rwa [_hitems] at h
    rw [if_pos (Or.inl _hrel)]
    exact next_header (P := fun t => t = TableType.REL ∨ t = TableType.XRL) (by decide) hle _hheader
  · have hle : remaining s₁ ≤ remaining s := by
      have h := remaining_readArea forward_xrelItem Header.hdr_len 1 s
      rwa [_hitems] at h
    rw [if_pos (Or.inr _hxrl)]
    exact next_header (P := fun t => t = TableType.REL ∨ t = TableType.XRL) (by decide) hle _hheader

/-- A table of extended relocations, and the header behind it. -/
theorem readRels_next {Header Header' : HdrDesc} {mRelItems : List RelItem}
    {mXRelItems items : List XRelItem} {s s₁ s₂ : FileStream}
    (htype : Header.hdr_type = TableType.XRL) (hlen : Header.hdr_len = n)
    (hitems : readArea XRelItem.container n 1 s = (items, n, s₁))
    (hheader : HdrDesc.read s₁ = (Header', s₂)) :
    readRels Header mRelItems mXRelItems s =
      readRels Header' mRelItems (mXRelItems ++ items) s₂ := by
  subst hlen
  have hrel : Header.hdr_type ≠ TableType.REL := by
    rw [htype]
    decide
  rw [readRels, dif_neg hrel, dif_pos htype]
  split
  next new size s₁' hnew =>
    obtain ⟨rfl, hsize, rfl⟩ : items = new ∧ Header.hdr_len = size ∧ s₁ = s₁' := by
      simpa using hitems.symm.trans hnew
    rw [if_neg (not_not.mpr hsize.symm), hheader]

theorem readRels_last {Header : HdrDesc} {mRelItems : List RelItem} {mXRelItems : List XRelItem}
    (hrel : Header.hdr_type ≠ TableType.REL) (hxrl : Header.hdr_type ≠ TableType.XRL) :
    readRels Header mRelItems mXRelItems s = .ok (mRelItems, mXRelItems, s.seekBy (-8)) := by
  rw [readRels, dif_neg hrel, dif_neg hxrl]

/-- `TxtBlock_c`. -/
structure TxtBlock where
  mTxtItems : List TxtItem
  mRelItems : List RelItem
  mXRelItems : List XRelItem

/-- **`TxtBlock_c::Read`**. -/
def TxtBlock.read (aBlock : BlockDesc) (s : FileStream) : Except ReadError (TxtBlock × FileStream) :=
  if aBlock.hasText then
    let BlockLen := aBlock.pdtbkln
    let (Header, s) := HdrDesc.read s
    (readTxt BlockLen 0 Header [] s).bind fun (WordsRead, Header, mTxtItems, s) =>
      if WordsRead ≠ BlockLen then
        .error (.generic ("Too many words (" ++ hexPrinter WordsRead ++ ") read for block of size " ++
          hexPrinter BlockLen))
      else
        (readRels Header [] [] s).bind fun (mRelItems, mXRelItems, s) =>
          .ok (⟨mTxtItems, mRelItems, mXRelItems⟩, s)
  else .ok (⟨[], [], []⟩, s)

/-- The loop of `Flatten`: a copy that leaves the text of an item or the memory is an error. -/
def flattenItems : List TxtItem → List (BitVec 8) → Nat → Except Exn (List (BitVec 8) × Nat)
  | [], aMemory, Addr => .ok (aMemory, Addr)
  | Item :: items, aMemory, Addr =>
    let SizeInBytes := Item.mNumberOfTextWords * 8
    let content := Item.mContent.flatMap fun w => bytesBE 8 w.toNat
    if SizeInBytes ≤ content.length ∧ Addr + SizeInBytes ≤ aMemory.length then
      flattenItems items (splice aMemory Addr (content.take SizeInBytes)) (Addr + SizeInBytes)
    else .error .undefinedBehaviour

/-- **`TxtBlock_c::Flatten`**. -/
def TxtBlock.flatten (b : TxtBlock) (aMemory : List (BitVec 8)) (aStartAddr : Nat) :
    Except Exn (List (BitVec 8) × Nat) :=
  flattenItems b.mTxtItems aMemory aStartAddr

/-! ## 5. The file -/

/-- `ObjFile_c`. -/
structure Obj where
  mBlocks : List BlockDesc
  mEntries : List EntryDesc
  mExterns : List ExternDesc
  mTxtBlocks : List TxtBlock

/-- The loop over the blocks. -/
def readBlocks : List BlockDesc → FileStream → Except ReadError (List TxtBlock × FileStream)
  | [], s => .ok ([], s)
  | Block :: blocks, s =>
    (TxtBlock.read Block s).bind fun (Txt, s) =>
      (readBlocks blocks s).bind fun (txtBlocks, s) => .ok (Txt :: txtBlocks, s)

/-- `ObjFile_c::Read` up to the tables behind those of the blocks. -/
def readTables (s : FileStream) : Except ReadError (Obj × FileStream) :=
  let (Header, s) := HdrDesc.read s
  if Header.hdr_type ≠ TableType.PDT then
    .error (.generic "Invalid object file format: file shouls start with a PDT")
  else
    (ProgDescTable.read s).bind fun (PDTTable, s) =>
      let (pos, s) := s.tell
      let (mBlocks, _, s) :=
        readArea (BlockDesc.container (BitVec.ofInt 64 pos - 8)) PDTTable.pdtblsz 0 s
      let (mEntries, _, s) := readArea EntryDesc.container PDTTable.pdtensz 0 s
      let (pos, s) := s.tell
      let (mExterns, _, s) :=
        readArea (ExternDesc.container (BitVec.ofInt 64 pos)) PDTTable.pdtexsz 0 s
      (readBlocks mBlocks s).bind fun (mTxtBlocks, s) =>
        .ok (⟨mBlocks, mEntries, mExterns, mTxtBlocks⟩, s)

/-- The tables that are skipped. -/
def isSkipped (hdr_type : Nat) : Bool :=
  hdr_type = TableType.SMT || hdr_type = TableType.CMB || hdr_type = TableType.GNT

/-- A round of the loop that skips tables. -/
def skipRound (s : FileStream) : FileStream ⊕ HdrDesc × FileStream :=
  let (Header, s) := HdrDesc.read s
  if isSkipped Header.hdr_type then .inl (s.seekBy (Header.hdr_len * 8 - 8))
  else .inr (Header, s)

/-- The end of `ObjFile_c::Read`. -/
def finish (obj : Obj) (Header : HdrDesc) (s : FileStream) : Except ReadError Obj :=
  if Header.hdr_type ≠ TableType.MTT then
    .error (.generic ("Didn't find MTT termination block where expected (found: " ++
      octPrinter Header.hdr_type ++ ")"))
  else if (s.read 8).2.good then .ok obj
  else .error (.generic "Can't read object file")

/-- **`ObjFile_c::Read`**, with so many rounds for the loop that skips tables. -/
def read (fuel : Nat) (s : FileStream) : Option (Except ReadError Obj) :=
  match readTables s with
  | .error e => some (.error e)
  | .ok (obj, s) => (DoWhile.loop skipRound fuel s).map fun (Header, s) => finish obj Header s

end ObjFile

end CraySim
