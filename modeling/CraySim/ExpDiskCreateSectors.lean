/-
  Subject:   The sectors of an expander disk, and which files are put where.

  Files that are placed by the tool follow each other from sector 6 on, behind the label, the list
  of free sectors and the directory. A file with a fixed sector goes where it is told.

  * `InSector` -- a byte of a logical sector; sectors do not overlap,
  * `readLoop_add`, `readLoop_of_outside` -- what the loop leaves in the sectors, and elsewhere,
  * `extents` -- the sectors of the files, as the loop goes through them,
  * `Apart`, `Fits` -- files without a common sector; the sizes and fixed sectors for which the
    files are in the image and apart,
  * `sectorsInUse_iff` -- by induction on the files.
-/
import CraySim.ExpDiskCreate

namespace CraySim

open ByteFile ByteStore

namespace ExpDisk

/-! ## 1. Sectors -/

theorem logicalSectorAddr_eq (aLogicalSector : Nat) :
    logicalSectorAddr aLogicalSector =
      17920 * (aLogicalSector / 4) + 4096 * (aLogicalSector % 4) := by
  show (aLogicalSector / 4 / 5 * 35 * 5 + aLogicalSector / 4 % 5 * 35 + aLogicalSector % 4 * 8) *
    512 = _
  omega

theorem logicalSectorAddr_even (aLogicalSector : Nat) :
    logicalSectorAddr aLogicalSector % 2 = 0 := by
  rw [logicalSectorAddr_eq]
  omega

theorem logicalSectorAddr_lt {m n : Nat} (h : m < n) :
    logicalSectorAddr m + 4096 ≤ logicalSectorAddr n := by
  rw [logicalSectorAddr_eq, logicalSectorAddr_eq]
  omega

theorem logicalSectorAddr_end {n : Nat} (h : n < 16460) :
    logicalSectorAddr n + 4096 ≤ 2 * imageSize := by
  have hsize : 2 * imageSize = 73740800 := by decide
  rw [logicalSectorAddr_eq, hsize]
  omega

/-- A byte of a sector. -/
def InSector (n x : Nat) : Prop :=
  logicalSectorAddr n ≤ x ∧ x < logicalSectorAddr n + 4096

theorem inSector_add (n : Nat) {i : Nat} (h : i < 4096) : InSector n (logicalSectorAddr n + i) :=
  ⟨Nat.le_add_right _ _, Nat.add_lt_add_left h _⟩

theorem InSector.eq {m n x : Nat} (hm : InSector m x) (hn : InSector n x) : m = n := by
  rcases Nat.lt_trichotomy m n with h | h | h
  · exact absurd (logicalSectorAddr_lt h) (by have := hm.2; have := hn.1; omega)
  · exact h
  · exact absurd (logicalSectorAddr_lt h) (by have := hn.2; have := hm.1; omega)

/-! ## 2. The loop -/

namespace DiskImage

section loop
variable {sw : Bool} {rest : List (BitVec 8)} {cur : Nat} {mem : Nat → BitVec 8}

/-- A sector as a round leaves it. -/
def readSector (sw : Bool) (rest : List (BitVec 8)) (cur : Nat) (mem : Nat → BitVec 8) :
    Nat → BitVec 8 :=
  let stored := storeBytes mem (logicalSectorAddr cur) (rest.take LogicalSectorSize)
  if sw then swapPairs stored (logicalSectorAddr cur) LogicalSectorSize else stored

theorem readSector_of_outside {x : Nat} (h : ¬ InSector cur x) :
    readSector sw rest cur mem x = mem x := by
  have hout : x < logicalSectorAddr cur ∨ logicalSectorAddr cur + 4096 ≤ x := by
    rw [InSector] at h
    omega
  have hstore : storeBytes mem (logicalSectorAddr cur) (rest.take LogicalSectorSize) x = mem x := by
    refine storeBytes_of_outside (hout.imp id fun hle => ?_)
    have hlen : (rest.take LogicalSectorSize).length ≤ 4096 := List.length_take_le _ _
    omega
  cases sw with
  | false => exact hstore
  | true => exact (swapPairs_of_outside hout).trans hstore

/-- The byte of the source that comes to a byte of a sector. -/
def sourceIdx (sw : Bool) (i : Nat) : Nat := if sw then mate i else i

theorem mate_lt {i n : Nat} (hn : n % 2 = 0) (h : i < n) : mate i < n := by
  rw [mate]
  split <;> omega

theorem readSector_add {i : Nat} (hi : i < 4096) :
    readSector sw rest cur mem (logicalSectorAddr cur + i) =
      (rest[sourceIdx sw i]?).getD (mem (logicalSectorAddr cur + sourceIdx sw i)) := by
  have hstore : ∀ j < 4096,
      storeBytes mem (logicalSectorAddr cur) (rest.take LogicalSectorSize)
          (logicalSectorAddr cur + j) =
        (rest[j]?).getD (mem (logicalSectorAddr cur + j)) := by
    intro j hj
    have hsize : j < LogicalSectorSize := hj
    rw [storeBytes_add, List.getElem?_take_of_lt hsize]
  cases sw with
  | false => exact hstore i hi
  | true =>
    exact (swapPairs_add (logicalSectorAddr_even cur) hi).trans (hstore _ (mate_lt rfl hi))

theorem readLoop_round (sw : Bool) (rest : List (BitVec 8)) (cur : Nat) (mem : Nat → BitVec 8) :
    readLoop sw rest cur mem =
      if rest.length < 4096 then (readSector sw rest cur mem, cur + 1)
      else readLoop sw (rest.drop 4096) (cur + 1) (readSector sw rest cur mem) := by
  rw [readLoop]
  rfl

/-- **Induction over the rounds**: the length of what is left is what goes down. -/
theorem readLoop_induction (sw : Bool)
    {motive : List (BitVec 8) → Nat → (Nat → BitVec 8) → Prop}
    (hlast : ∀ rest cur mem, rest.length < 4096 → motive rest cur mem)
    (hmore : ∀ rest cur mem, 4096 ≤ rest.length →
      motive (rest.drop 4096) (cur + 1) (readSector sw rest cur mem) → motive rest cur mem)
    (rest : List (BitVec 8)) (cur : Nat) (mem : Nat → BitVec 8) : motive rest cur mem := by
  induction hn : rest.length / 4096 generalizing rest cur mem with
  | zero => exact hlast rest cur mem (by omega)
  | succ n ih =>
    refine hmore rest cur mem (by omega) (ih _ _ _ ?_)
    rw [List.length_drop]
    omega

/-- The sectors that the loop goes through: one more than there are full ones. -/
theorem readLoop_snd (sw : Bool) (rest : List (BitVec 8)) (cur : Nat) (mem : Nat → BitVec 8) :
    (readLoop sw rest cur mem).2 = cur + (rest.length / 4096 + 1) := by
  induction rest, cur, mem using readLoop_induction sw with
  | hlast rest cur mem hlen =>
    rw [readLoop_round, if_pos hlen, Nat.div_eq_of_lt hlen]
  | hmore rest cur mem hlen ih =>
    rw [readLoop_round, if_neg (Nat.not_lt.2 hlen), ih, List.length_drop]
    omega

/-- **Frame**: other sectors are left alone. -/
theorem readLoop_of_outside {x : Nat}
    (h : ∀ k < rest.length / 4096 + 1, ¬ InSector (cur + k) x) :
    (readLoop sw rest cur mem).1 x = mem x := by
  induction rest, cur, mem using readLoop_induction sw with
  | hlast rest cur mem hlen =>
    rw [readLoop_round, if_pos hlen]
    exact readSector_of_outside (h 0 (Nat.succ_pos _))
  | hmore rest cur mem hlen ih =>
    rw [readLoop_round, if_neg (Nat.not_lt.2 hlen), ih]
    · exact readSector_of_outside (h 0 (Nat.succ_pos _))
    · intro k hk
      rw [List.length_drop] at hk
      rw [Nat.add_assoc, Nat.add_comm 1 k]
      exact h (k + 1) (by omega)

/-- **The source in its sectors.** -/
theorem readLoop_add {k i : Nat} (hk : k < rest.length / 4096 + 1) (hi : i < 4096) :
    (readLoop sw rest cur mem).1 (logicalSectorAddr (cur + k) + i) =
      (rest[4096 * k + sourceIdx sw i]?).getD
        (mem (logicalSectorAddr (cur + k) + sourceIdx sw i)) := by
  have hidx : sourceIdx sw i < 4096 := by
    rw [sourceIdx]
    split
    · exact mate_lt rfl hi
    · exact hi
  induction rest, cur, mem using readLoop_induction sw generalizing k with
  | hlast rest cur mem hlen =>
    obtain rfl : k = 0 := by omega
    rw [readLoop_round, if_pos hlen, Nat.mul_zero, Nat.zero_add]
    exact readSector_add hi
  | hmore rest cur mem hlen ih =>
    rw [readLoop_round, if_neg (Nat.not_lt.2 hlen)]
    cases k with
    | zero =>
      rw [readLoop_of_outside, Nat.mul_zero, Nat.zero_add]
      · exact readSector_add hi
      · intro j _ hin
        have heq := hin.eq (inSector_add cur hi)
        omega
    | succ k =>
      have hnext : cur + (k + 1) = cur + 1 + k := by omega
      have hpos : 4096 * (k + 1) + sourceIdx sw i = 4096 + (4096 * k + sourceIdx sw i) := by omega
      rw [hnext, ih (by rw [List.length_drop]; omega), List.getElem?_drop, hpos,
        readSector_of_outside]
      intro hin
      have heq := hin.eq (inSector_add (cur + 1 + k) hidx)
      omega

end loop

end DiskImage

/-! ## 3. Where the files go -/

/-- The sectors that the loop goes through for a file. -/
def FileDesc.sectors (f : FileDesc) : Nat := f.source.length / 4096 + 1

/-- The sectors of a file, when `cur` is the next one that the tool gives out: the first one, and
    how many there are. -/
def FileDesc.extent (cur : Nat) (f : FileDesc) : Nat × Nat :=
  (if f.IsFixedPlacement then f.StartSector.toNat else cur, f.sectors)

/-- The next sector behind it. -/
def FileDesc.next (cur : Nat) (f : FileDesc) : Nat :=
  if f.IsFixedPlacement then cur else cur + f.sectors

/-- The sectors of the files. -/
def extents : Nat → List FileDesc → List (Nat × Nat)
  | _, [] => []
  | cur, f :: fs => f.extent cur :: extents (f.next cur) fs

/-- The byte stands in one of the sectors. -/
def Covers (e : Nat × Nat) (x : Nat) : Prop := ∃ k < e.2, InSector (e.1 + k) x

/-- The files of the directory. -/
def normals (fs : List FileDesc) : List FileDesc := fs.filter fun f => !f.IsFixedPlacement

theorem extents_append (cur : Nat) (fs gs : List FileDesc) :
    extents cur (fs ++ gs) = extents cur fs ++ extents (fs.foldl FileDesc.next cur) gs := by
  induction fs generalizing cur with
  | nil => rfl
  | cons f fs ih => rw [List.cons_append, extents, ih, extents, List.foldl_cons, List.cons_append]

/-- Two files have no sector in common. -/
def Apart (e e' : Nat × Nat) : Prop := e.1 + e.2 ≤ e'.1 ∨ e'.1 + e'.2 ≤ e.1

instance (e e' : Nat × Nat) : Decidable (Apart e e') := inferInstanceAs (Decidable (_ ∨ _))

theorem Apart.symm {e e' : Nat × Nat} (h : Apart e e') : Apart e' e := Or.symm h

/-- Sectors that are apart have no byte in common. -/
theorem Apart.not_covers {e e' : Nat × Nat} {x : Nat} (h : Apart e e') (hx : Covers e x) :
    ¬ Covers e' x := by
  intro ⟨k', hk', hin'⟩
  obtain ⟨k, hk, hin⟩ := hx
  have heq := hin.eq hin'
  rw [Apart] at h
  omega

/-- The sectors of the label, the list of free sectors and the directory, and of the files. -/
def sectorsInUse (fs : List FileDesc) : List (Nat × Nat) :=
  (3, 1) :: (4, 1) :: (5, 1) :: extents 6 fs

/-- The sector behind the files of the directory. -/
def normalEnd (cur : Nat) (fs : List FileDesc) : Nat := cur + ((normals fs).map FileDesc.sectors).sum

/-- The files with a fixed sector. -/
def fixeds (fs : List FileDesc) : List FileDesc := fs.filter fun f => f.IsFixedPlacement

/-- The sectors of such a file. -/
def FileDesc.fixedExtent (f : FileDesc) : Nat × Nat := (f.StartSector.toNat, f.sectors)

/-- **The lists of files that fit**, when the files of the directory start at `cur`: these end in
    the image, the others stand in front of the label, or behind them in the image, and are
    apart. -/
def FitsFrom (cur : Nat) (fs : List FileDesc) : Prop :=
  normalEnd cur fs ≤ 16460 ∧
    (∀ f ∈ fixeds fs, f.fixedExtent.1 + f.fixedExtent.2 ≤ 3 ∨
      normalEnd cur fs ≤ f.fixedExtent.1 ∧ f.fixedExtent.1 + f.fixedExtent.2 ≤ 16460) ∧
    ((fixeds fs).map FileDesc.fixedExtent).Pairwise Apart

def Fits (fs : List FileDesc) : Prop := FitsFrom 6 fs

instance (fs : List FileDesc) : Decidable (Fits fs) := inferInstanceAs (Decidable (_ ∧ _ ∧ _))

section geometry
variable {cur : Nat} {f : FileDesc} {fs : List FileDesc} {e : Nat × Nat}

theorem FileDesc.sectors_pos (f : FileDesc) : 0 < f.sectors := Nat.succ_pos _

theorem normalEnd_cons : normalEnd cur (f :: fs) = normalEnd (f.next cur) fs := by
  cases hf : f.IsFixedPlacement <;>
    simp [normalEnd, normals, FileDesc.next, hf, Nat.add_assoc]

theorem le_normalEnd : cur ≤ normalEnd cur fs := Nat.le_add_right _ _

theorem apart_split {a b n : Nat} (hab : a ≤ b) (he : 0 < e.2) :
    Apart (a, b + n - a) e ↔ Apart (a, b - a) e ∧ Apart (b, n) e := by
  simp only [Apart]
  omega

theorem extents_pos (h : e ∈ extents cur fs) : 0 < e.2 := by
  induction fs generalizing cur with
  | nil => cases h
  | cons f fs ih =>
    rcases List.mem_cons.1 h with rfl | h
    · exact f.sectors_pos
    · exact ih h

/-- A file with a fixed sector, -/
theorem extents_fixed (cur : Nat) (fs : List FileDesc) (hf : f.IsFixedPlacement = true) :
    extents cur (f :: fs) = f.fixedExtent :: extents cur fs ∧
      fixeds (f :: fs) = f :: fixeds fs ∧ normalEnd cur (f :: fs) = normalEnd cur fs := by
  have hnext : f.next cur = cur := if_pos hf
  have hext : f.extent cur = f.fixedExtent := by rw [FileDesc.extent, hf]; rfl
  exact ⟨by rw [extents, hnext, hext], List.filter_cons_of_pos hf, by rw [normalEnd_cons, hnext]⟩

/-- and one of the directory. -/
theorem extents_normal (cur : Nat) (fs : List FileDesc) (hf : f.IsFixedPlacement = false) :
    extents cur (f :: fs) = (cur, f.sectors) :: extents (cur + f.sectors) fs ∧
      fixeds (f :: fs) = fixeds fs ∧
      normalEnd cur (f :: fs) = normalEnd (cur + f.sectors) fs := by
  have hnot : ¬ f.IsFixedPlacement = true := by rw [hf]; decide
  have hnext : f.next cur = cur + f.sectors := if_neg hnot
  have hext : f.extent cur = (cur, f.sectors) := by rw [FileDesc.extent, hf]; rfl
  exact ⟨by rw [extents, hnext, hext], List.filter_cons_of_neg hnot,
    by rw [normalEnd_cons, hnext]⟩

/-- A file keeps apart from the files of the directory. -/
theorem apart_extents (hcur : 3 ≤ cur) (he : 0 < e.2) :
    (Apart (3, cur - 3) e ∧ ∀ e' ∈ extents cur fs, Apart e e') ↔
      Apart (3, normalEnd cur fs - 3) e ∧ ∀ g ∈ fixeds fs, Apart e g.fixedExtent := by
  induction fs generalizing cur with
  | nil => simp [extents, normalEnd, normals, fixeds]
  | cons f fs ih =>
    cases hf : f.IsFixedPlacement with
    | true =>
      obtain ⟨hext, hfixeds, hend⟩ := extents_fixed cur fs hf
      rw [hext, hfixeds, hend, List.forall_mem_cons, List.forall_mem_cons, and_left_comm, ih hcur,
        and_left_comm]
    | false =>
      obtain ⟨hext, hfixeds, hend⟩ := extents_normal cur fs hf
      rw [hext, hfixeds, hend, List.forall_mem_cons, ← ih (by omega),
        apart_split (n := f.sectors) hcur he, and_assoc]
      exact and_congr_right fun _ => and_congr_left fun _ => ⟨Apart.symm, Apart.symm⟩

/-- In front of the label, or behind the files of the directory. -/
theorem apart_inside {n : Nat} (hn : 3 ≤ n) (hend : n ≤ 16460) :
    Apart (3, n - 3) e ∧ e.1 + e.2 ≤ 16460 ↔
      e.1 + e.2 ≤ 3 ∨ n ≤ e.1 ∧ e.1 + e.2 ≤ 16460 := by
  simp only [Apart]
  omega

/-- **The files are apart and in the image**, by induction on them: exactly if they fit. -/
theorem fitsFrom_iff (hcur : 3 ≤ cur) (hend : cur ≤ 16460) :
    (∀ e ∈ extents cur fs, Apart (3, cur - 3) e ∧ e.1 + e.2 ≤ 16460) ∧
      (extents cur fs).Pairwise Apart ↔ FitsFrom cur fs := by
  induction fs generalizing cur with
  | nil => simp [extents, FitsFrom, normalEnd, normals, fixeds, hend]
  | cons f fs ih =>
    cases hf : f.IsFixedPlacement with
    | true =>
      obtain ⟨hext, hfixeds, hnormal⟩ := extents_fixed cur fs hf
      have happart : _ ↔ Apart (3, normalEnd cur fs - 3) f.fixedExtent ∧
        ∀ g ∈ fixeds fs, Apart f.fixedExtent g.fixedExtent := apart_extents hcur f.sectors_pos
      rw [FitsFrom, hext, hfixeds, hnormal, List.forall_mem_cons, List.forall_mem_cons,
        List.pairwise_cons, List.map_cons, List.pairwise_cons, List.forall_mem_map]
      constructor
      · intro ⟨⟨⟨hout, hin⟩, hrest⟩, hfirst, hpair⟩
        obtain ⟨hnormals, hfixed, hpairs⟩ := (ih hcur hend).1 ⟨hrest, hpair⟩
        obtain ⟨hout', hfirst'⟩ := happart.1 ⟨hout, hfirst⟩
        exact ⟨hnormals, ⟨(apart_inside (hcur.trans le_normalEnd) hnormals).1
          ⟨hout', hin⟩, hfixed⟩, hfirst', hpairs⟩
      · intro ⟨hnormals, ⟨hplace, hfixed⟩, hfirst', hpairs⟩
        obtain ⟨hrest, hpair⟩ := (ih hcur hend).2 ⟨hnormals, hfixed, hpairs⟩
        obtain ⟨hout', hin⟩ :=
          (apart_inside (hcur.trans le_normalEnd) hnormals).2 hplace
        obtain ⟨hout, hfirst⟩ := happart.2 ⟨hout', hfirst'⟩
        exact ⟨⟨⟨hout, hin⟩, hrest⟩, hfirst, hpair⟩
    | false =>
      obtain ⟨hext, hfixeds, hnormal⟩ := extents_normal cur fs hf
      have hsplit : ∀ e ∈ extents (cur + f.sectors) fs,
          (Apart (3, cur + f.sectors - 3) e ↔ Apart (3, cur - 3) e ∧ Apart (cur, f.sectors) e) :=
        fun e he => apart_split hcur (extents_pos he)
      rw [FitsFrom, hext, hfixeds, hnormal, List.forall_mem_cons, List.pairwise_cons]
      constructor
      · intro ⟨⟨⟨_, hin⟩, hrest⟩, hfirst, hpair⟩
        exact (ih (by omega) hin).1
          ⟨fun e he => ⟨(hsplit e he).2 ⟨(hrest e he).1, hfirst e he⟩, (hrest e he).2⟩, hpair⟩
      · intro hfits
        have hin : cur + f.sectors ≤ 16460 := le_normalEnd.trans hfits.1
        obtain ⟨hrest, hpair⟩ := (ih (by omega) hin).2 hfits
        refine ⟨⟨⟨.inl (by simp only; omega), hin⟩, fun e he => ?_⟩, fun e he => ?_, hpair⟩
        · exact ⟨((hsplit e he).1 (hrest e he).1).1, (hrest e he).2⟩
        · exact ((hsplit e he).1 (hrest e he).1).2

theorem sectorsInUse_iff : (∀ e ∈ extents 6 fs, e.1 + e.2 ≤ 16460) ∧
    (sectorsInUse fs).Pairwise Apart ↔ Fits fs := by
  have hsystem : ∀ e ∈ extents 6 fs,
      (Apart (3, 3) e ↔ Apart (3, 1) e ∧ Apart (4, 1) e ∧ Apart (5, 1) e) := by
    intro e he
    have hpos := extents_pos he
    simp only [Apart]
    omega
  rw [Fits, ← fitsFrom_iff (by decide) (by decide), sectorsInUse, List.pairwise_cons,
    List.pairwise_cons, List.pairwise_cons]
  constructor
  · intro ⟨hin, h3, h4, h5, hpair⟩
    refine ⟨fun e he => ⟨(hsystem e he).2 ⟨?_, ?_, h5 e he⟩, hin e he⟩, hpair⟩
    · exact h3 e (List.mem_cons_of_mem _ (List.mem_cons_of_mem _ he))
    · exact h4 e (List.mem_cons_of_mem _ he)
  · intro ⟨hout, hpair⟩
    have hall := fun e he => (hsystem e he).1 (hout e he).1
    refine ⟨fun e he => (hout e he).2, ?_, ?_, fun e he => (hall e he).2.2, hpair⟩
    · intro e he
      rcases List.mem_cons.1 he with rfl | he
      · exact .inl (by decide)
      · rcases List.mem_cons.1 he with rfl | he
        · exact .inl (by decide)
        · exact (hall e he).1
    · intro e he
      rcases List.mem_cons.1 he with rfl | he
      · exact .inl (by decide)
      · exact (hall e he).2.1

end geometry

end ExpDisk

end CraySim
