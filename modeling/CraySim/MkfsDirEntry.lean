/-
  Subject:   Directory entries.

  `cdirect` and `DirEntry_s` of `mkfs_unicos.cpp`. An entry is three words and the name behind them.
  The length of the name is a field of 10 bits.

  * `wordOfBytes`, `byteAt` -- bytes in the words of the host,
  * `cd_ino`, …, `nameAt` -- an entry, read,
  * `DirEntry` -- an entry to be appended,
  * `EntryAt` -- an entry is there,
  * `entryAt_new` -- a new one is.
-/
import CraySim.MkfsImage

namespace CraySim

namespace Mkfs

/-! ## 1. Bytes -/

/-- A name: bytes. -/
abbrev Chars := List (BitVec 8)

/-- Up to eight bytes of memory, the first one in the lowest bits. -/
def wordOfBytes (bytes : Chars) : CInt :=
  bytes.foldr (fun c word => (word <<< 8) ||| c.setWidth 64) 0

/-- A byte of memory. -/
def byteAt (mem : Words) (aAddr : Nat) : BitVec 8 :=
  (mem (aAddr / 8) >>> (8 * (aAddr % 8))).setWidth 8

theorem byte_wordOfBytes (bytes : Chars) : ∀ i < 8,
    (wordOfBytes bytes >>> (8 * i)).setWidth 8 = (bytes[i]?).getD 0 := by
  induction bytes with
  | nil =>
    intro i _
    simp [wordOfBytes]
  | cons c bytes ih =>
    intro i hi
    have hcons : wordOfBytes (c :: bytes) = (wordOfBytes bytes <<< 8) ||| c.setWidth 64 := rfl
    rw [hcons]
    cases i with
    | zero =>
      apply BitVec.eq_of_getLsbD_eq
      intro j hj
      simp [hj]
    | succ i =>
      rw [List.getElem?_cons_succ, ← ih i (by omega)]
      apply BitVec.eq_of_getLsbD_eq
      intro j hj
      have hpos : 8 * (i + 1) + j - 8 = 8 * i + j := by omega
      have hhigh : c.getLsbD (8 * (i + 1) + j) = false := BitVec.getLsbD_of_ge c _ (by omega)
      simp [hj, hpos, hhigh, show 8 * (i + 1) + j < 64 by omega,
        show ¬ 8 * (i + 1) + j < 8 by omega]
      exact (BitVec.getLsbD_eq_getElem (by omega)).symm

/-- The words that hold a name. -/
def nameWord (aFileName : Chars) (k : Nat) : CInt := wordOfBytes ((aFileName.drop (8 * k)).take 8)

/-! ## 2. Entries -/

/-- `cdirect::cd_ino`: the inode of the name. -/
abbrev cd_ino : IntField := ⟨0, 64, 0, 64, IntField.fits_word⟩

/-- `cdirect::cd_signature`: the signature of the name. -/
abbrev cd_signature : IntField := ⟨2, 32, 10, 22, by decide⟩

/-- `cdirect::cd_reclen`: the length of the record, in bytes. -/
abbrev cd_reclen : IntField := ⟨2, 32, 32, 22, by decide⟩

/-- `cdirect::cd_namelen`: the length of the name, in bytes. -/
abbrev cd_namelen : IntField := ⟨2, 32, 54, 10, by decide⟩

section entries
variable (mem : Words) (ofs : Nat)

def reclen : Nat := (cd_reclen.get mem ofs).toNat

def namelen : Nat := (cd_namelen.get mem ofs).toNat

/-- `cd_name`, as many bytes as `cd_namelen` says. -/
def nameAt : Chars := (List.range (namelen mem ofs)).map fun j => byteAt mem (8 * (ofs + 3) + j)

def usedLength : Nat := ((namelen mem ofs + 7) / 8 + 3) * 8

def isLast : Bool := usedLength mem ofs < reclen mem ofs

theorem length_nameAt : (nameAt mem ofs).length = namelen mem ofs := by
  rw [nameAt, List.length_map, List.length_range]

/-- A name that is read is never longer than its field of 10 bits says. -/
theorem namelen_lt : namelen mem ofs < 2 ^ 10 := cd_namelen.toNat_get_lt mem ofs

end entries

def calcHash (aFileName : Chars) : BitVec 32 :=
  let xHash := (List.range ((aFileName.length + 7) / 8)).foldl
    (fun (xHash : CInt) k => xHash ^^^ swapBytes (nameWord aFileName k)) 0
  let xHash2 := xHash + (xHash >>> 7) + (xHash >>> 17) + (xHash >>> 27) + (xHash >>> 37) +
    (xHash >>> 47)
  (xHash2 &&& 0x3fffff).setWidth 32

/-- `DirEntry_s`. -/
structure DirEntry where
  mStorage : Words
  /-- The size of `mStorage`. -/
  size : Nat

/-- The words that the name of a number of bytes needs. -/
def entrySize (nameLen : Nat) : Nat := 3 + (nameLen + 7) / 8

/-- The fields of a new entry. -/
def entryFields (aFileName : Chars) (aINodeIdx : BitVec 64) : Words :=
  let mem := cd_ino.assign (fun _ => 0) 0 aINodeIdx
  let mem := cd_signature.assign mem 0 (calcHash aFileName)
  let mem := cd_reclen.assign mem 0 (BitVec.ofNat _ (entrySize aFileName.length * 8))
  cd_namelen.assign mem 0 (BitVec.ofNat _ aFileName.length)

/-- The constructor of `DirEntry_s`. -/
def DirEntry.new (aFileName : Chars) (aINodeIdx : BitVec 64) : DirEntry where
  mStorage := fun i =>
    if 3 ≤ i ∧ i < entrySize aFileName.length then nameWord aFileName (i - 3)
    else entryFields aFileName aINodeIdx i
  size := entrySize aFileName.length

/-! ## 3. An entry in a block -/

/-- What is to be appended: a name, and its inode. -/
structure Entry where
  name : Chars
  ino : BitVec 64
  deriving DecidableEq, Repr

/-- The words of an entry. -/
def Entry.words (e : Entry) : Nat := entrySize e.name.length

theorem three_le_entrySize (nameLen : Nat) : 3 ≤ entrySize nameLen := by
  rw [entrySize]
  omega

/-- `UsedLength` in words. -/
theorem usedLength_eq (mem : Words) (ofs : Nat) :
    usedLength mem ofs = entrySize (namelen mem ofs) * 8 := by
  rw [usedLength, entrySize, Nat.add_comm 3]

/-- An entry is at a place of a block. -/
def EntryAt (mem : Words) (ofs : Nat) (e : Entry) : Prop :=
  cd_ino.get mem ofs = e.ino ∧ nameAt mem ofs = e.name

section entryAt
variable {mem mem' : Words} {ofs ofs' : Nat} {e : Entry}

theorem EntryAt.namelen_eq (h : EntryAt mem ofs e) : namelen mem ofs = e.name.length := by
  rw [← h.2, length_nameAt]

theorem EntryAt.usedLength_eq (h : EntryAt mem ofs e) : usedLength mem ofs = e.words * 8 := by
  rw [Mkfs.usedLength_eq, h.namelen_eq, Entry.words]

theorem byteAt_congr {a a' j : Nat} (h : mem' (a' + j / 8) = mem (a + j / 8)) :
    byteAt mem' (8 * a' + j) = byteAt mem (8 * a + j) := by
  have hdiv : ∀ b, (8 * b + j) / 8 = b + j / 8 := fun b => by omega
  have hmod : ∀ b, (8 * b + j) % 8 = j % 8 := fun b => by omega
  rw [byteAt, byteAt, hdiv, hdiv, hmod, hmod, h]

theorem EntryAt.congr (h : EntryAt mem ofs e)
    (hwords : ∀ i < e.words, mem' (ofs' + i) = mem (ofs + i)) : EntryAt mem' ofs' e := by
  have hthree := three_le_entrySize e.name.length
  have hlen : namelen mem' ofs' = namelen mem ofs :=
    congrArg BitVec.toNat (IntField.get_congr (hwords 2 (by rw [Entry.words]; omega)))
  refine ⟨?_, ?_⟩
  · rw [← h.1]
    exact IntField.get_congr (hwords 0 (by rw [Entry.words]; omega))
  · rw [← h.2, nameAt, nameAt, hlen]
    refine List.map_congr_left fun j hj => byteAt_congr ?_
    rw [List.mem_range, h.namelen_eq] at hj
    rw [Nat.add_assoc, Nat.add_assoc]
    exact hwords (3 + j / 8) (by rw [Entry.words, entrySize]; omega)

/-- The length of the record is no part of the entry. -/
theorem EntryAt.assign_reclen (h : EntryAt mem ofs e) (aValue : BitVec cd_reclen.digits) :
    EntryAt (cd_reclen.assign mem ofs aValue) ofs e := by
  have hlen : namelen (cd_reclen.assign mem ofs aValue) ofs = namelen mem ofs := by
    rw [namelen, namelen, cd_reclen.get_assign_of_apart cd_namelen _ _ _ (by decide)]
  refine ⟨?_, ?_⟩
  · rw [← h.1]
    exact cd_reclen.get_assign_of_apart cd_ino _ _ _ (by decide)
  · rw [← h.2, nameAt, nameAt, hlen]
    refine List.map_congr_left fun j _ => byteAt_congr ?_
    exact cd_reclen.assign_of_ne _ _ _ (by simp only; omega)

end entryAt

/-! ## 4. A new entry -/

section new
variable (aFileName : Chars) (aINodeIdx : BitVec 64)

theorem storage_name {i : Nat} (h : 3 ≤ i ∧ i < entrySize aFileName.length) :
    (DirEntry.new aFileName aINodeIdx).mStorage i = nameWord aFileName (i - 3) :=
  if_pos h

theorem storage_fields {i : Nat} (h : i < 3) :
    (DirEntry.new aFileName aINodeIdx).mStorage i = entryFields aFileName aINodeIdx i :=
  if_neg fun hname => by omega

/-- **The field for the length of a name takes its last 10 bits.** -/
theorem namelen_new :
    namelen (DirEntry.new aFileName aINodeIdx).mStorage 0 = aFileName.length % 2 ^ 10 := by
  have hfields : namelen (entryFields aFileName aINodeIdx) 0 = aFileName.length % 2 ^ 10 := by
    rw [namelen, entryFields, IntField.toNat_get_assign, BitVec.toNat_ofNat,
      Nat.mod_mod_of_dvd _ (Nat.pow_dvd_pow 2 (by decide))]
  rw [← hfields]
  exact congrArg BitVec.toNat (IntField.get_congr (storage_fields _ _ (by decide)))

theorem cd_ino_new : cd_ino.get (DirEntry.new aFileName aINodeIdx).mStorage 0 = aINodeIdx := by
  have hfields : cd_ino.get (entryFields aFileName aINodeIdx) 0 = aINodeIdx := by
    rw [entryFields, IntField.get_assign_of_apart _ _ _ _ _ (by decide),
      IntField.get_assign_of_apart _ _ _ _ _ (by decide),
      IntField.get_assign_of_apart _ _ _ _ _ (by decide)]
    apply BitVec.eq_of_toNat_eq
    rw [IntField.toNat_get_assign]
    exact Nat.mod_eq_of_lt aINodeIdx.isLt
  refine Eq.trans ?_ hfields
  exact IntField.get_congr (storage_fields _ _ (by decide))

theorem byteAt_new {j : Nat} (hj : j < aFileName.length) :
    byteAt (DirEntry.new aFileName aINodeIdx).mStorage (8 * (0 + 3) + j) = aFileName[j] := by
  have hdiv : (8 * (0 + 3) + j) / 8 = 3 + j / 8 := by omega
  have hmod : (8 * (0 + 3) + j) % 8 = j % 8 := by omega
  have hsize : 3 + j / 8 < entrySize aFileName.length := by
    rw [entrySize]
    omega
  have hback : 8 * (j / 8) + j % 8 = j := Nat.div_add_mod j 8
  rw [byteAt, hdiv, hmod, storage_name _ _ ⟨Nat.le_add_right _ _, hsize⟩, Nat.add_sub_cancel_left,
    nameWord, byte_wordOfBytes _ _ (Nat.mod_lt j (by decide)),
    List.getElem?_take_of_lt (Nat.mod_lt j (by decide)), List.getElem?_drop, hback,
    List.getElem?_eq_getElem hj, Option.getD_some]

/-- **A new entry is there**, if its name is not too long. -/
theorem entryAt_new (h : aFileName.length < 2 ^ 10) :
    EntryAt (DirEntry.new aFileName aINodeIdx).mStorage 0 ⟨aFileName, aINodeIdx⟩ := by
  refine ⟨cd_ino_new aFileName aINodeIdx, ?_⟩
  rw [nameAt, namelen_new, Nat.mod_eq_of_lt h]
  apply List.ext_getElem
  · rw [List.length_map, List.length_range]
  · intro j hj hj'
    rw [List.getElem_map, List.getElem_range]
    exact byteAt_new aFileName aINodeIdx hj'

end new

end Mkfs

end CraySim
