/-
  Subject:   Entries appended to a directory.

  `AppendToDir` of `mkfs_unicos.cpp`. The record of the last entry reaches to the end of the block;
  it is known by the room behind the name. Before a new entry is put there, the record is made as
  short as its name allows.

  * `searchLast`, `appendToDir` -- the search for the last entry, and the function,
  * `Packed` -- what a directory block holds,
  * `Packed.searchLast_eq` -- what the search finds,
  * `Tight.append`, `Tight.putEntry` -- what an entry adds,
  * `Walk`, `Packed.walk` -- the block, read.
-/
import CraySim.MkfsDirEntry

namespace CraySim

namespace Mkfs

/-! ## 1. `AppendToDir` -/

def IFMT : Nat := 0o170000
def IFDIR : Nat := 0o40000

/-- The search for the last entry: where it is, and where its name ends. -/
def searchLast (block : Words) (insertLocation : Nat) : Except MkfsExn (Nat × Nat) :=
  if cBlockSize < insertLocation + 3 then .error .undefinedBehaviour
  else
    let next := insertLocation + usedLength block insertLocation / 8
    if cBlockSize < next then .error .assertion
    else if isLast block insertLocation then .ok (insertLocation, next)
    else searchLast block next
termination_by cBlockSize - insertLocation
decreasing_by
  rw [usedLength]
  omega

namespace DiskImage

/-- A field of an inode, as a number. -/
def readINode (image : DiskImage) (iNode : Pointer) (f : InodeField) : Nat :=
  (image.read iNode f.field).toNat

/-- A number is assigned to a field of an inode. -/
def writeINode (image : DiskImage) (iNode : Pointer) (f : InodeField) (aValue : Nat) : DiskImage :=
  image.write iNode f.field (BitVec.ofNat _ aValue)

/-- The first block of a directory: the block, and where the entry goes. -/
def firstBlock (iNode : Pointer) (currBlock : Nat) : Run MkfsExn DiskImage (Nat × Nat) := do
  let newBlock := (← getFreeBlock) % 2 ^ 32
  crayAssert (currBlock = 0)
  Run.modify fun image => image.writeINode iNode (.cdi_addr 0 .blk) newBlock
  Run.modify fun image => image.writeINode iNode (.cdi_addr 0 .nblks) 1
  Run.modify fun image =>
    image.writeINode iNode .cdi_size (image.readINode iNode (.cdi_addr 0 .nblks) * BSIZE)
  Run.modify fun image =>
    image.writeINode iNode .cdi_blocks (image.readINode iNode (.cdi_addr 0 .nblks))
  pure (newBlock, 0)

/-- A directory with a block: the last entry is made as short as possible. -/
def shortenLast (currBlock : Nat) : Run MkfsExn DiskImage (Nat × Nat) := do
  let image ← Run.get
  match searchLast (image.mStorage currBlock) 0 with
  | .error e => Run.throw e
  | .ok (last, insertLocation) => do
    Run.modify fun image => image.write ⟨currBlock, last⟩ cd_reclen
      (BitVec.ofNat _ (usedLength (image.mStorage currBlock) last))
    pure (currBlock, insertLocation)

/-- The place for a new entry. -/
def findPlace (iNode : Pointer) (currBlock currBlockCnt : Nat) :
    Run MkfsExn DiskImage (Nat × Nat) :=
  if currBlockCnt = 0 then firstBlock iNode currBlock else shortenLast currBlock

/-- The words of an entry copied into a block. -/
def copyEntry (block : Words) (insertLocation : Nat) (aDirEntry : DirEntry) : Words := fun i =>
  if insertLocation ≤ i ∧ i < insertLocation + usedLength aDirEntry.mStorage 0 / 8 then
    aDirEntry.mStorage (i - insertLocation)
  else block i

/-- The copy, with the rest of the block given to its record. -/
def putEntry (block : Words) (insertLocation : Nat) (aDirEntry : DirEntry) : Words :=
  cd_reclen.assign (copyEntry block insertLocation aDirEntry) insertLocation
    (BitVec.ofNat _ ((cBlockSize - insertLocation) * 8))

def appendToDir (aINode : BitVec 32) (aDirEntry : DirEntry) : Run MkfsExn DiskImage Unit := do
  let image ← Run.get
  let iNode := image.getINode aINode.toNat
  crayAssert (image.readINode iNode .cdi_mode &&& IFMT = IFDIR)
  let currBlock := image.readINode iNode (.cdi_addr 0 .blk)
  let currBlockCnt := image.readINode iNode (.cdi_addr 0 .nblks)
  crayAssert (image.readINode iNode .cdi_size = currBlockCnt * BSIZE)
  crayAssert (currBlockCnt ≤ 1)
  let place ← findPlace iNode currBlock currBlockCnt
  crayAssert (place.2 + usedLength aDirEntry.mStorage 0 / 8 ≤ cBlockSize)
  Run.modify fun image =>
    image.setBlock place.1 (putEntry (image.mStorage place.1) place.2 aDirEntry)

end DiskImage

/-! ## 2. A directory block -/

/-- The words of some entries. -/
def totalWords (entries : List Entry) : Nat := (entries.map Entry.words).sum

theorem totalWords_cons (e : Entry) (entries : List Entry) :
    totalWords (e :: entries) = e.words + totalWords entries := by
  rw [totalWords, List.map_cons, List.sum_cons, totalWords]

theorem totalWords_nil : totalWords [] = 0 := rfl

theorem totalWords_append (entries entries' : List Entry) :
    totalWords (entries ++ entries') = totalWords entries + totalWords entries' := by
  rw [totalWords, List.map_append, List.sum_append, totalWords, totalWords]

theorem totalWords_concat (init : List Entry) (e : Entry) :
    totalWords (init ++ [e]) = totalWords init + e.words := by
  rw [totalWords_append, totalWords_cons, totalWords_nil, Nat.add_zero]

theorem Entry.three_le_words (e : Entry) : 3 ≤ e.words := three_le_entrySize _

/-- Some entries, one behind the other, their records as short as possible. -/
def Tight (block : Words) : Nat → List Entry → Prop
  | _, [] => True
  | ofs, e :: rest =>
    EntryAt block ofs e ∧ reclen block ofs = e.words * 8 ∧ Tight block (ofs + e.words) rest

/-- **What a directory block holds**: some entries, and a last one with the rest of the block. -/
structure Packed (block : Words) (init : List Entry) (e : Entry) : Prop where
  tight : Tight block 0 init
  entry : EntryAt block (totalWords init) e
  fits : totalWords init + e.words ≤ cBlockSize
  record : reclen block (totalWords init) = (cBlockSize - totalWords init) * 8

section blocks
variable {block block' : Words}

theorem Tight.congr : ∀ {entries : List Entry} {ofs : Nat}, Tight block ofs entries →
    (∀ i, ofs ≤ i → i < ofs + totalWords entries → block' i = block i) →
      Tight block' ofs entries := by
  intro entries
  induction entries with
  | nil =>
    intro ofs _ _
    trivial
  | cons e rest ih =>
    rintro ofs ⟨hentry, hrecord, hrest⟩ hsame
    rw [totalWords_cons] at hsame
    have hthree := e.three_le_words
    refine ⟨hentry.congr fun i hi => hsame _ (by omega) (by omega), ?_,
      ih hrest fun i hlo hhi => hsame i (by omega) (by omega)⟩
    rw [← hrecord]
    exact congrArg BitVec.toNat (IntField.get_congr (hsame _ (by simp only; omega)
      (by simp only; omega)))

theorem Tight.append : ∀ {entries : List Entry} {ofs : Nat} {e : Entry},
    Tight block ofs entries → EntryAt block (ofs + totalWords entries) e →
      reclen block (ofs + totalWords entries) = e.words * 8 → Tight block ofs (entries ++ [e]) := by
  intro entries
  induction entries with
  | nil =>
    intro ofs e _ hentry hrecord
    exact ⟨hentry, hrecord, trivial⟩
  | cons e' rest ih =>
    rintro ofs e ⟨hentry', hrecord', hrest⟩ hentry hrecord
    rw [totalWords_cons, ← Nat.add_assoc] at hentry hrecord
    exact ⟨hentry', hrecord', ih hrest hentry hrecord⟩

/-- The search passes over records that are as short as possible. -/
theorem Tight.searchLast_eq : ∀ {entries : List Entry} {ofs : Nat}, Tight block ofs entries →
    ofs + totalWords entries ≤ cBlockSize →
      searchLast block ofs = searchLast block (ofs + totalWords entries) := by
  intro entries
  induction entries with
  | nil =>
    intro ofs _ _
    rfl
  | cons e rest ih =>
    rintro ofs ⟨hentry, hrecord, hrest⟩ hfits
    rw [totalWords_cons] at hfits ⊢
    have hthree := e.three_le_words
    have hused := hentry.usedLength_eq
    have hlast : isLast block ofs = false := by
      rw [isLast, hused, hrecord]
      exact decide_eq_false (Nat.lt_irrefl _)
    have hnext : ofs + usedLength block ofs / 8 = ofs + e.words := by
      rw [hused, Nat.mul_div_cancel _ (by decide)]
    rw [searchLast, if_neg (by omega), hnext, if_neg (by omega), hlast, if_neg (by decide),
      ih hrest (by omega), Nat.add_assoc]

variable {init : List Entry} {e : Entry}

/-- The search finds the last entry where there is room behind it, -/
theorem Packed.searchLast_eq (h : Packed block init e)
    (hroom : totalWords init + e.words < cBlockSize) :
    searchLast block 0 = .ok (totalWords init, totalWords init + e.words) := by
  have hthree := e.three_le_words
  have hused := h.entry.usedLength_eq
  have hlast : isLast block (totalWords init) = true := by
    rw [isLast, hused, h.record]
    exact decide_eq_true (by omega)
  have hnext : totalWords init + usedLength block (totalWords init) / 8 =
      totalWords init + e.words := by
    rw [hused, Nat.mul_div_cancel _ (by decide)]
  rw [h.tight.searchLast_eq (by omega), Nat.zero_add, searchLast, if_neg (by omega), hnext,
    if_neg (by omega), hlast, if_pos rfl]

/-- and leaves the block where there is none. -/
theorem Packed.searchLast_full (h : Packed block init e)
    (hfull : totalWords init + e.words = cBlockSize) :
    searchLast block 0 = .error .undefinedBehaviour := by
  have hthree := e.three_le_words
  have hused := h.entry.usedLength_eq
  have hlast : isLast block (totalWords init) = false := by
    rw [isLast, hused, h.record]
    exact decide_eq_false (by omega)
  have hnext : totalWords init + usedLength block (totalWords init) / 8 = cBlockSize := by
    rw [hused, Nat.mul_div_cancel _ (by decide), hfull]
  rw [h.tight.searchLast_eq (by omega), Nat.zero_add, searchLast, if_neg (by omega), hnext,
    if_neg (Nat.lt_irrefl _), hlast, if_neg (by decide), searchLast, if_pos (by omega)]

/-! ## 3. What an entry adds -/

theorem reclen_assign (mem : Words) (ofs : Nat) {n : Nat} (h : n ≤ BSIZE) :
    reclen (cd_reclen.assign mem ofs (BitVec.ofNat _ n)) ofs = n := by
  have hsize : BSIZE < 2 ^ cd_reclen.tSize := by decide
  rw [reclen, IntField.toNat_get_assign, BitVec.toNat_ofNat,
    Nat.mod_mod_of_dvd _ (Nat.pow_dvd_pow 2 (by decide))]
  exact Nat.mod_eq_of_lt (Nat.lt_of_le_of_lt h hsize)

/-- A record leaves the words alone that are not its third one. -/
theorem assign_reclen_of_ne (mem : Words) (ofs : Nat) (aValue : BitVec cd_reclen.digits) {i : Nat}
    (h : i ≠ ofs + 2) : cd_reclen.assign mem ofs aValue i = mem i :=
  cd_reclen.assign_of_ne mem ofs aValue h

/-- **The last entry, made as short as possible, is one of those in front.** -/
theorem Packed.shorten (h : Packed block init e) :
    Tight (cd_reclen.assign block (totalWords init)
      (BitVec.ofNat _ (usedLength block (totalWords init)))) 0 (init ++ [e]) := by
  have hthree := e.three_le_words
  have hfits := h.fits
  have hsize : BSIZE = cBlockSize * 8 := rfl
  rw [h.entry.usedLength_eq]
  refine Tight.append (h.tight.congr fun i _ hi => assign_reclen_of_ne _ _ _ (by omega)) ?_ ?_
  · rw [Nat.zero_add]
    exact h.entry.assign_reclen _
  · rw [Nat.zero_add]
    exact reclen_assign _ _ (by omega)

/-- An entry whose name is not too long is as long as its name. -/
theorem usedLength_new {e : Entry} (h : e.name.length < 2 ^ 10) :
    usedLength (DirEntry.new e.name e.ino).mStorage 0 / 8 = e.words := by
  rw [(entryAt_new e.name e.ino h).usedLength_eq, Nat.mul_div_cancel _ (by decide)]

theorem putEntry_front (d : DirEntry) {ofs i : Nat} (h : i < ofs) :
    DiskImage.putEntry block ofs d i = block i := by
  rw [DiskImage.putEntry, assign_reclen_of_ne _ _ _ (by omega)]
  exact if_neg fun hin => by omega

theorem entryAt_copyEntry {e : Entry} (hname : e.name.length < 2 ^ 10) (ofs : Nat) :
    EntryAt (DiskImage.copyEntry block ofs (DirEntry.new e.name e.ino)) ofs e := by
  refine (entryAt_new e.name e.ino hname).congr fun i hi => ?_
  have hin : ofs ≤ ofs + i ∧
      ofs + i < ofs + usedLength (DirEntry.new e.name e.ino).mStorage 0 / 8 := by
    rw [usedLength_new hname]
    exact ⟨Nat.le_add_right _ _, Nat.add_lt_add_left hi _⟩
  rw [DiskImage.copyEntry, if_pos hin, Nat.add_sub_cancel_left, Nat.zero_add]

/-- **A new entry is put behind the others.** -/
theorem Tight.putEntry {entries : List Entry} (h : Tight block 0 entries) {e : Entry}
    (hname : e.name.length < 2 ^ 10) (hfits : totalWords entries + e.words ≤ cBlockSize) :
    Packed (DiskImage.putEntry block (totalWords entries) (DirEntry.new e.name e.ino)) entries
      e := by
  have hsize : BSIZE = cBlockSize * 8 := rfl
  refine ⟨h.congr fun i _ hi => putEntry_front _ (by omega), ?_, hfits, ?_⟩
  · exact (entryAt_copyEntry hname _).assign_reclen _
  · exact reclen_assign _ _ (by omega)

end blocks

/-! ## 4. The block, read -/

/-- What is read of a record. -/
structure Record where
  entry : Entry
  reclen : Nat
  deriving DecidableEq, Repr

def recordAt (block : Words) (ofs : Nat) : Record :=
  ⟨⟨nameAt block ofs, cd_ino.get block ofs⟩, reclen block ofs⟩

/-- The block is read from a word on, by `cd_reclen`: every entry is in its record, and the last
    record ends with the block. -/
inductive Walk (block : Words) : Nat → List Record → Prop where
  | done : Walk block cBlockSize []
  | step {ofs : Nat} {rest : List Record} (hin : ofs + 3 ≤ cBlockSize)
      (hused : usedLength block ofs ≤ reclen block ofs) (hwords : 8 ∣ reclen block ofs)
      (hrest : Walk block (ofs + reclen block ofs / 8) rest) :
      Walk block ofs (recordAt block ofs :: rest)

section walks
variable {block : Words}

theorem Walk.sum {ofs : Nat} {records : List Record} (h : Walk block ofs records) :
    ofs * 8 + (records.map Record.reclen).sum = BSIZE := by
  induction h with
  | done => rfl
  | step hin hused hwords hrest ih =>
    rw [List.map_cons, List.sum_cons, ← ih, recordAt]
    simp only
    omega

/-- A name that is read has less than 1024 bytes. -/
theorem Walk.name_lt {ofs : Nat} {records : List Record} (h : Walk block ofs records) :
    ∀ record ∈ records, record.entry.name.length < 2 ^ 10 := by
  induction h with
  | done => exact List.forall_mem_nil _
  | @step ofs rest hin hused hwords hrest ih =>
    refine List.forall_mem_cons.mpr ⟨?_, ih⟩
    rw [recordAt]
    simp only
    rw [length_nameAt]
    exact namelen_lt block ofs

theorem EntryAt.recordAt_entry {ofs : Nat} {e : Entry} (h : EntryAt block ofs e) :
    (recordAt block ofs).entry = e := by
  rw [recordAt, h.1, h.2]

theorem Tight.walk : ∀ {entries : List Entry} {ofs : Nat} {rest : List Record},
    Tight block ofs entries → ofs + totalWords entries ≤ cBlockSize →
      Walk block (ofs + totalWords entries) rest →
        ∃ records, Walk block ofs (records ++ rest) ∧ records.map Record.entry = entries := by
  intro entries
  induction entries with
  | nil => exact fun _ _ hrest => ⟨[], hrest, rfl⟩
  | cons e entries ih =>
    rintro ofs rest ⟨hentry, hrecord, htight⟩ hfits hrest
    rw [totalWords_cons, ← Nat.add_assoc] at hfits hrest
    have hthree := e.three_le_words
    obtain ⟨records, hwalk, hentries⟩ := ih htight hfits hrest
    have hnext : ofs + reclen block ofs / 8 = ofs + e.words := by
      rw [hrecord, Nat.mul_div_cancel _ (by decide)]
    refine ⟨recordAt block ofs :: records, .step (by omega) ?_ ⟨e.words, ?_⟩ ?_, ?_⟩
    · rw [hentry.usedLength_eq, hrecord]
    · rw [hrecord, Nat.mul_comm]
    · rw [hnext]
      exact hwalk
    · rw [List.map_cons, hentry.recordAt_entry, hentries]

/-- **A directory block is read as the entries it holds.** -/
theorem Packed.walk {init : List Entry} {e : Entry} (h : Packed block init e) :
    ∃ records, Walk block 0 records ∧ records.map Record.entry = init ++ [e] := by
  have hthree := e.three_le_words
  have hfits := h.fits
  have hend : totalWords init + reclen block (totalWords init) / 8 = cBlockSize := by
    rw [h.record, Nat.mul_div_cancel _ (by decide)]
    omega
  have hlast : Walk block (totalWords init) [recordAt block (totalWords init)] := by
    refine .step (by omega) ?_ ⟨cBlockSize - totalWords init, ?_⟩ (hend ▸ .done)
    · rw [h.entry.usedLength_eq, h.record]
      omega
    · rw [h.record, Nat.mul_comm]
  have hrest : Walk block (0 + totalWords init) [recordAt block (totalWords init)] := by
    rw [Nat.zero_add]
    exact hlast
  obtain ⟨records, hwalk, hentries⟩ := h.tight.walk (by omega) hrest
  refine ⟨records ++ [recordAt block (totalWords init)], hwalk, ?_⟩
  rw [List.map_append, hentries, List.map_cons, List.map_nil, h.entry.recordAt_entry]

end walks

end Mkfs

end CraySim
