/-
  Subject:   Footprints of operations on an array of words.

  A record that is packed into an array of machine words is read and written through bit
  segments of these words. The file gives such operations a footprint, and the frame rule:

  * `Reads g R` -- `g` depends on the segments of `R` only,
  * `AgreeOutside R p q` -- `q` is `p` but for the segments of `R`,
  * `frame` -- disjoint footprints: `g` does not see the change,
  * `AgreeOutside.trans` -- footprints of a sequence of writes add up.

  `apart` tests two footprints, so a table of fields is checked by computation.
-/
import CraySim.Lib.WordField

namespace Footprint

/-! ## 1. Segments -/

/-- `len` bits of word `word`, from bit `lo` on. -/
structure Seg (ι : Type) where
  word : ι
  lo : Nat
  len : Nat

variable {ι : Type} {w : Nat}

/-- The contents of a segment, right aligned. -/
def Seg.read (s : Seg ι) (p : ι → BitVec w) : BitVec w := WordField.get s.lo s.len (p s.word)

/-- No bit in common. -/
def Seg.Disjoint (s t : Seg ι) : Prop :=
  s.word ≠ t.word ∨ s.lo + s.len ≤ t.lo ∨ t.lo + t.len ≤ s.lo

/-- Two footprints with no bit in common. -/
def Apart (R S : List (Seg ι)) : Prop := ∀ r ∈ R, ∀ s ∈ S, r.Disjoint s

/-- `Apart` as a test, made of comparisons of numbers. -/
def apart [DecidableEq ι] (R S : List (Seg ι)) : Bool :=
  R.all fun r => S.all fun s =>
    r.word != s.word || Nat.ble (r.lo + r.len) s.lo || Nat.ble (s.lo + s.len) r.lo

variable {R S : List (Seg ι)}

theorem apart_iff [DecidableEq ι] : apart R S = true ↔ Apart R S := by
  unfold apart Apart Seg.Disjoint
  simp only [List.all_eq_true, Bool.or_eq_true, bne_iff_ne, Nat.ble_eq, or_assoc]

/-! ## 2. Reading and writing within a footprint -/

/-- The result depends on the segments of `R` only. -/
def Reads {α : Type} (g : (ι → BitVec w) → α) (R : List (Seg ι)) : Prop :=
  ∀ p q, (∀ s ∈ R, s.read p = s.read q) → g p = g q

/-- Segments disjoint from `R` have the same contents in `q` as in `p`. -/
def AgreeOutside (R : List (Seg ι)) (p q : ι → BitVec w) : Prop :=
  ∀ t : Seg ι, (∀ s ∈ R, s.Disjoint t) → t.read q = t.read p

/-- **Frame rule**: a read does not see a write with a disjoint footprint. -/
theorem frame {α : Type} {g : (ι → BitVec w) → α} {p q : ι → BitVec w}
    (hg : Reads g R) (hpq : AgreeOutside S p q) (h : Apart S R) : g q = g p := by
  apply hg
  intro t ht
  exact hpq t (fun s hs => h s hs t ht)

/-- A value computed from what reads in `R` and what reads in `S`. -/
theorem Reads.map₂ {α β γ : Type} {g : (ι → BitVec w) → α} {g' : (ι → BitVec w) → β}
    (hg : Reads g R) (hg' : Reads g' S) (k : α → β → γ) :
    Reads (fun p => k (g p) (g' p)) (R ++ S) := by
  intro p q heq
  exact congrArg₂ k (hg p q (fun s hs => heq s (List.mem_append_left S hs)))
    (hg' p q (fun s hs => heq s (List.mem_append_right R hs)))

theorem Reads.map {α β : Type} {g : (ι → BitVec w) → α} {R : List (Seg ι)} (hg : Reads g R)
    (k : α → β) : Reads (fun p => k (g p)) R := by
  intro p q heq
  exact congrArg k (hg p q heq)

theorem reads_const {α : Type} (a : α) : Reads (fun _ : ι → BitVec w => a) [] := by
  intro p q _
  rfl

theorem AgreeOutside.trans {p q r : ι → BitVec w}
    (hpq : AgreeOutside R p q) (hqr : AgreeOutside S q r) : AgreeOutside (R ++ S) p r := by
  intro t hd
  rw [hqr t (fun s hs => hd s (List.mem_append_right R hs)),
    hpq t (fun s hs => hd s (List.mem_append_left S hs))]

/-! ## 3. Reading and writing one segment -/

theorem reads_read (s : Seg ι) : Reads (w := w) s.read [s] := by
  intro p q heq
  exact heq s List.mem_cons_self

/-- The array with segment `s` replaced by the low bits of `v`. -/
def Seg.write [DecidableEq ι] (s : Seg ι) (v : BitVec w) (p : ι → BitVec w) : ι → BitVec w :=
  fun i => if i = s.word then WordField.put s.lo s.len v (p i) else p i

section write
variable [DecidableEq ι]

theorem agreeOutside_write (s : Seg ι) (v : BitVec w) (p : ι → BitVec w) :
    AgreeOutside [s] p (s.write v p) := by
  intro t hd
  have hst := hd s List.mem_cons_self
  unfold Seg.read Seg.write
  split
  · rename_i hw
    rcases hst with hne | hlt
    · exact absurd hw.symm hne
    · exact WordField.get_put_of_disjoint _ _ _ _ v _ (by omega)
  · rfl

/-- The written segment reads as the value, cut to the segment. -/
theorem read_write (s : Seg ι) (v : BitVec w) (p : ι → BitVec w) (h : s.lo + s.len ≤ w) :
    s.read (s.write v p) = v &&& WordField.mask w s.len := by
  unfold Seg.read Seg.write
  rw [if_pos rfl]
  exact WordField.get_put _ _ v _ h

end write

end Footprint
