/-
  Subject:   The fields of an inode.

  `cdinode` of `mkfs_unicos.cpp`: 32 words with some sixty fields. Two of them share bits:
  `cdi_nindir` starts at bit 14 of its word, so its last 14 bits are the first 14 of `cdi_applac`.

  * `InodeField` -- the fields, and where they are,
  * `apart` -- which of them share no bit,
  * `get_applac_iff`, `get_nindir_iff` -- what an assignment does to the two that do,
  * `assign_right_iff` -- when an assignment leaves the other fields alone.
-/
import CraySim.MkfsFields

namespace CraySim

namespace Mkfs

/-! ## 1. The fields -/

/-- The parts of a `CFileTime_t`. -/
inductive FileTimeField where
  | msec | usec
  deriving DecidableEq, Repr

/-- The parts of an `extent_t`. -/
inductive ExtentField where
  | nblks | blk
  deriving DecidableEq, Repr

/-- `SFSLK_SZ`: the number of on-disk inode lock words. -/
def SFSLK_SZ : Nat := 5

/-- The fields of a `cdinode`. -/
inductive InodeField where
  | cdi_rsrvd_1 | cdi_mode | cdi_msref | cdi_ms | cdi_nlink
  | cdi_uid | cdi_gid | cdi_acid | cdi_gen | cdi_size
  | cdi_moffset | cdi_blocks | cdi_extcomp | cdi_secrsvd1 | cdi_smallcompart
  | cdi_slevel | cdi_intcls | cdi_secflg | cdi_intcat
  | cdi_privs | cdi_acl | cdi_cpart | cdi_dmport | cdi_dmstate | cdi_dmkey
  | cdi_allocf | cdi_alloc | cdi_cblks | cdi_dmmid
  | cdi_at (part : FileTimeField) | cdi_mt (part : FileTimeField) | cdi_ct (part : FileTimeField)
  | cdi_cbits
  | cdi_addr (aOfs : Fin 8) (part : ExtentField)
  | cdi_slock (aOfs : Fin SFSLK_SZ)
  | cdi_rsrvd_5 | cdi_applac | cdi_nindir | cdi_rsrvd | cdi_sitebits
  deriving DecidableEq, Repr

/-- A part of the `CFileTime_t` in a word. -/
def FileTimeField.field (tOfs : Nat) : FileTimeField → IntField
  | .msec => ⟨tOfs, 32, 0, 34, by decide⟩
  | .usec => ⟨tOfs, 32, 34, 30, by decide⟩

/-- A part of the `extent_t` in a word. -/
def ExtentField.field (tOfs : Nat) : ExtentField → IntField
  | .nblks => ⟨tOfs, 32, 0, 32, by decide⟩
  | .blk => ⟨tOfs, 32, 32, 32, IntField.fits_half⟩

/-- Where a field is: its word, the digits of its type, its first bit and its size. -/
def InodeField.field : InodeField → IntField
  | .cdi_rsrvd_1 => ⟨0, 32, 0, 8, by decide⟩
  | .cdi_mode => ⟨0, 32, 8, 24, by decide⟩
  | .cdi_msref => ⟨0, 8, 32, 1, by decide⟩
  | .cdi_ms => ⟨0, 16, 33, 14, by decide⟩
  | .cdi_nlink => ⟨0, 32, 47, 17, by decide⟩
  | .cdi_uid => ⟨1, 32, 0, 32, by decide⟩
  | .cdi_gid => ⟨1, 32, 32, 32, IntField.fits_half⟩
  | .cdi_acid => ⟨2, 32, 0, 32, by decide⟩
  | .cdi_gen => ⟨2, 32, 32, 32, IntField.fits_half⟩
  | .cdi_size => ⟨3, 64, 0, 64, IntField.fits_word⟩
  | .cdi_moffset => ⟨4, 64, 0, 64, IntField.fits_word⟩
  | .cdi_blocks => ⟨5, 64, 0, 52, by decide⟩
  | .cdi_extcomp => ⟨5, 8, 52, 1, by decide⟩
  | .cdi_secrsvd1 => ⟨5, 16, 53, 11, by decide⟩
  | .cdi_smallcompart => ⟨6, 64, 0, 64, IntField.fits_word⟩
  | .cdi_slevel => ⟨7, 8, 0, 8, by decide⟩
  | .cdi_intcls => ⟨7, 8, 8, 8, by decide⟩
  | .cdi_secflg => ⟨7, 16, 16, 16, by decide⟩
  | .cdi_intcat => ⟨7, 32, 32, 32, IntField.fits_half⟩
  | .cdi_privs => ⟨8, 64, 0, 64, IntField.fits_word⟩
  | .cdi_acl => ⟨9, 64, 0, 64, IntField.fits_word⟩
  | .cdi_cpart => ⟨10, 8, 0, 8, by decide⟩
  | .cdi_dmport => ⟨10, 8, 8, 3, by decide⟩
  | .cdi_dmstate => ⟨10, 8, 11, 5, by decide⟩
  | .cdi_dmkey => ⟨10, 64, 16, 48, by decide⟩
  | .cdi_allocf => ⟨11, 8, 0, 4, by decide⟩
  | .cdi_alloc => ⟨11, 8, 4, 4, by decide⟩
  | .cdi_cblks => ⟨11, 32, 8, 24, by decide⟩
  | .cdi_dmmid => ⟨11, 32, 32, 32, IntField.fits_half⟩
  | .cdi_at part => part.field 12
  | .cdi_mt part => part.field 13
  | .cdi_ct part => part.field 14
  | .cdi_cbits => ⟨15, 64, 0, 64, IntField.fits_word⟩
  | .cdi_addr aOfs part => part.field (16 + aOfs)
  | .cdi_slock aOfs => ⟨24 + aOfs, 64, 0, 64, IntField.fits_word⟩
  | .cdi_rsrvd_5 => ⟨24 + SFSLK_SZ + 1, 16, 0, 16, by decide⟩
  | .cdi_applac => ⟨24 + SFSLK_SZ + 1, 32, 16, 32, by decide⟩
  | .cdi_nindir => ⟨24 + SFSLK_SZ + 1, 16, 14, 16, by decide⟩
  | .cdi_rsrvd => ⟨24 + SFSLK_SZ + 1, 64, 0, 64, IntField.fits_word⟩
  | .cdi_sitebits => ⟨24 + SFSLK_SZ + 2, 64, 0, 64, IntField.fits_word⟩

/-- The fields that are reserved by their names. -/
def InodeField.reserved : InodeField → Bool
  | .cdi_rsrvd_1 | .cdi_secrsvd1 | .cdi_rsrvd_5 | .cdi_rsrvd => true
  | _ => false

namespace InodeField

def all : List InodeField :=
  ([.cdi_rsrvd_1, .cdi_mode, .cdi_msref, .cdi_ms, .cdi_nlink, .cdi_uid, .cdi_gid, .cdi_acid,
    .cdi_gen, .cdi_size, .cdi_moffset, .cdi_blocks, .cdi_extcomp, .cdi_secrsvd1,
    .cdi_smallcompart, .cdi_slevel, .cdi_intcls, .cdi_secflg, .cdi_intcat, .cdi_privs, .cdi_acl,
    .cdi_cpart, .cdi_dmport, .cdi_dmstate, .cdi_dmkey, .cdi_allocf, .cdi_alloc, .cdi_cblks,
    .cdi_dmmid, .cdi_cbits, .cdi_rsrvd_5, .cdi_applac, .cdi_nindir, .cdi_rsrvd, .cdi_sitebits] :
    List InodeField) ++
  [FileTimeField.msec, .usec].flatMap (fun part => [.cdi_at part, .cdi_mt part, .cdi_ct part]) ++
  (List.finRange 8).flatMap (fun aOfs => [.cdi_addr aOfs .nblks, .cdi_addr aOfs .blk]) ++
  (List.finRange SFSLK_SZ).map .cdi_slock

theorem mem_all (f : InodeField) : f ∈ all := by
  cases f with
  | cdi_at part => cases part <;> decide
  | cdi_mt part => cases part <;> decide
  | cdi_ct part => cases part <;> decide
  | cdi_addr aOfs part => revert aOfs; cases part <;> decide
  | cdi_slock aOfs => revert aOfs; decide
  | _ => decide

/-- The two fields that share bits. -/
def Sharing (f g : InodeField) : Prop :=
  (f = .cdi_nindir ∧ g = .cdi_applac) ∨ (f = .cdi_applac ∧ g = .cdi_nindir)

instance (f g : InodeField) : Decidable (Sharing f g) := inferInstanceAs (Decidable (_ ∨ _))

/-- A row of the table: where the other fields are. -/
theorem apart_row (f : InodeField) : ∀ g ∈ all, f.reserved = false → g.reserved = false → g ≠ f →
    ¬ Sharing f g → f.field.Apart g.field := by
  cases f with
  | cdi_at part => cases part <;> decide +kernel
  | cdi_mt part => cases part <;> decide +kernel
  | cdi_ct part => cases part <;> decide +kernel
  | cdi_addr aOfs part => revert aOfs; cases part <;> decide +kernel
  | cdi_slock aOfs => revert aOfs; decide +kernel
  | _ => decide +kernel

/-- **No other two fields share a bit.** -/
theorem apart {f g : InodeField} (hf : f.reserved = false) (hg : g.reserved = false) (hne : g ≠ f)
    (hshare : ¬ Sharing f g) : f.field.Apart g.field :=
  apart_row f g (mem_all g) hf hg hne hshare

/-! ## 2. Assignments -/

section assignments
variable (mem : Words) (aBase : Nat)

/-- `Inode.f`, read. -/
def get (f : InodeField) : BitVec f.field.digits := f.field.get mem aBase

/-- `Inode.f = aValue`. -/
def assign (f : InodeField) (aValue : BitVec f.field.digits) : Words :=
  f.field.assign mem aBase aValue

/-- The upper part of one value is the lower part of another one, bit by bit. -/
theorem div_eq_mod_iff {w w' k n : Nat} (x : BitVec w) (y : BitVec w') (hw : w ≤ k + n) :
    x.toNat / 2 ^ k = y.toNat % 2 ^ n ↔ ∀ i < n, x.getLsbD (k + i) = y.getLsbD i := by
  constructor
  · intro h i hi
    have hbit := congrArg (fun m => m.testBit i) h
    simp only [Nat.testBit_div_two_pow, Nat.testBit_mod_two_pow, BitVec.testBit_toNat,
      decide_eq_true hi, Bool.true_and] at hbit
    rw [Nat.add_comm]
    exact hbit
  · intro h
    apply Nat.eq_of_testBit_eq
    intro i
    rw [Nat.testBit_div_two_pow, Nat.testBit_mod_two_pow, BitVec.testBit_toNat,
      BitVec.testBit_toNat]
    by_cases hi : i < n
    · rw [decide_eq_true hi, Bool.true_and, ← h i hi, Nat.add_comm]
    · rw [decide_eq_false hi, Bool.false_and]
      exact BitVec.getLsbD_of_ge _ _ (by omega)

/-- The two fields hold the same bits where they share them. -/
theorem shared_iff (applac : BitVec InodeField.cdi_applac.field.digits)
    (nindir : BitVec InodeField.cdi_nindir.field.digits) :
    applac.toNat / 2 ^ 18 = nindir.toNat % 2 ^ 14 ↔
      ∀ i, 34 ≤ i → i < 48 → applac.getLsbD (i - 16) = nindir.getLsbD (i - 34) := by
  rw [div_eq_mod_iff _ _ (by decide : InodeField.cdi_applac.field.digits ≤ 18 + 14)]
  constructor
  · intro h i hlo hhi
    have hbit := h (i - 34) (by omega)
    rw [show 18 + (i - 34) = i - 16 by omega] at hbit
    exact hbit
  · intro h i hi
    have hbit := h (34 + i) (by omega) (by omega)
    rw [show 34 + i - 34 = i by omega, show 34 + i - 16 = 18 + i by omega] at hbit
    exact hbit

/-- Assigning to `cdi_nindir` changes the first 14 bits of `cdi_applac`. -/
theorem get_applac_iff (aValue : BitVec InodeField.cdi_nindir.field.digits) :
    get (assign mem aBase .cdi_nindir aValue) aBase .cdi_applac = get mem aBase .cdi_applac ↔
      (get mem aBase .cdi_applac).toNat / 2 ^ 18 = aValue.toNat % 2 ^ 14 := by
  have hassign : get (assign mem aBase .cdi_nindir aValue) aBase .cdi_applac =
      get mem aBase .cdi_applac ↔ ∀ i, 34 ≤ i → i < 50 → 16 ≤ i → i < 48 →
        aValue.getLsbD (i - 34) = (get mem aBase .cdi_applac).getLsbD (i - 16) :=
    IntField.get_assign_eq_iff InodeField.cdi_nindir.field InodeField.cdi_applac.field mem aBase
      aValue rfl (by decide)
  rw [hassign, shared_iff]
  constructor
  · intro h i hlo hhi
    exact (h i hlo (by omega) (by omega) hhi).symm
  · intro h i hlo _ _ hhi
    exact (h i hlo hhi).symm

/-- Assigning to `cdi_applac` changes the last 14 bits of `cdi_nindir`. -/
theorem get_nindir_iff (aValue : BitVec InodeField.cdi_applac.field.digits) :
    get (assign mem aBase .cdi_applac aValue) aBase .cdi_nindir = get mem aBase .cdi_nindir ↔
      aValue.toNat / 2 ^ 18 = (get mem aBase .cdi_nindir).toNat % 2 ^ 14 := by
  have hassign : get (assign mem aBase .cdi_applac aValue) aBase .cdi_nindir =
      get mem aBase .cdi_nindir ↔ ∀ i, 16 ≤ i → i < 48 → 34 ≤ i → i < 50 →
        aValue.getLsbD (i - 16) = (get mem aBase .cdi_nindir).getLsbD (i - 34) :=
    IntField.get_assign_eq_iff InodeField.cdi_applac.field InodeField.cdi_nindir.field mem aBase
      aValue rfl (by decide)
  rw [hassign, shared_iff]
  constructor
  · intro h i hlo hhi
    exact h i (by omega) hhi hlo (by omega)
  · intro h i _ hhi hlo _
    exact h i hlo hhi

/-- The claim for an assignment: what was assigned is read back, cut to the field, and every other
    field that is not reserved is unchanged. -/
def AssignRight (f : InodeField) (aValue : BitVec f.field.digits) : Prop :=
  (get (assign mem aBase f aValue) aBase f).toNat = aValue.toNat % 2 ^ f.field.tSize ∧
    ∀ g : InodeField, g.reserved = false → g ≠ f →
      get (assign mem aBase f aValue) aBase g = get mem aBase g

/-- The bits that an assignment puts into the other field of the two are those it has. -/
def Agrees : (f : InodeField) → BitVec f.field.digits → Prop
  | .cdi_nindir, aValue => (get mem aBase .cdi_applac).toNat / 2 ^ 18 = aValue.toNat % 2 ^ 14
  | .cdi_applac, aValue => aValue.toNat / 2 ^ 18 = (get mem aBase .cdi_nindir).toNat % 2 ^ 14
  | _, _ => True

theorem agrees_iff (f : InodeField) (aValue : BitVec f.field.digits) :
    Agrees mem aBase f aValue ↔
      ∀ g, Sharing f g → get (assign mem aBase f aValue) aBase g = get mem aBase g := by
  by_cases hnindir : f = .cdi_nindir
  · subst hnindir
    refine (get_applac_iff mem aBase aValue).symm.trans ⟨fun h g hg => ?_, fun h => ?_⟩
    · rcases hg with ⟨-, rfl⟩ | ⟨hne, -⟩
      · exact h
      · exact nomatch hne
    · exact h .cdi_applac (by decide)
  · by_cases happlac : f = .cdi_applac
    · subst happlac
      refine (get_nindir_iff mem aBase aValue).symm.trans ⟨fun h g hg => ?_, fun h => ?_⟩
      · rcases hg with ⟨hne, -⟩ | ⟨-, rfl⟩
        · exact nomatch hne
        · exact h
      · exact h .cdi_nindir (by decide)
    · have htrue : Agrees mem aBase f aValue := by
        cases f <;> first | exact trivial | contradiction
      refine iff_of_true htrue fun g hg => ?_
      rcases hg with ⟨heq, -⟩ | ⟨heq, -⟩
      · exact absurd heq hnindir
      · exact absurd heq happlac

end assignments

/-- **An assignment leaves the other fields alone, except for the bits that `cdi_nindir` and
    `cdi_applac` share.** -/
theorem assign_right_iff (mem : Words) (aBase : Nat) (f : InodeField) (hf : f.reserved = false)
    (aValue : BitVec f.field.digits) :
    AssignRight mem aBase f aValue ↔ Agrees mem aBase f aValue := by
  rw [agrees_iff]
  constructor
  · rintro ⟨-, hothers⟩ g hshare
    rcases hshare with ⟨rfl, rfl⟩ | ⟨rfl, rfl⟩
    · exact hothers _ rfl (by decide)
    · exact hothers _ rfl (by decide)
  · intro hshared
    refine ⟨f.field.toNat_get_assign mem aBase aValue, fun g hg hne => ?_⟩
    by_cases hshare : Sharing f g
    · exact hshared g hshare
    · exact f.field.get_assign_of_apart g.field mem aBase aValue (apart hf hg hne hshare)

theorem assign_right_iff_mode : InodeField.cdi_mode.reserved = false ∧
    (AssignRight (fun _ => 0) 0 .cdi_mode 0o40755#32 ↔
      Agrees (fun _ => 0) 0 .cdi_mode 0o40755#32) :=
  ⟨rfl, assign_right_iff (fun _ => 0) 0 .cdi_mode rfl 0o40755#32⟩

/-- An accounting tag, where the number of indirect blocks is zero. -/
theorem not_assignRight : ¬ AssignRight (fun _ => 0) 0 .cdi_applac 0x40000#32 := by
  rintro ⟨-, hothers⟩
  have hnindir := (get_nindir_iff (fun _ => 0) 0 0x40000#32).mp
    (hothers .cdi_nindir rfl (by decide))
  revert hnindir
  decide

end InodeField

end Mkfs

end CraySim
