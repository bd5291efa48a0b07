/-
  Subject:   Numbers that are given out, the least free one first.

  A table says of every number below a bound whether it is used. The next number is the least one
  that is not; with a use of a number the count of the used ones goes up by one.

  * `firstFree`, `firstFree_eq_some_iff` -- the number that is given out,
  * `findSome?_rows` -- a search row by row is one over all numbers,
  * `mark`, `usedCount_mark` -- a number is used.
-/
import Mathlib.Data.List.Basic
import Mathlib.Data.List.Count
import Mathlib.Data.List.Perm.Subperm

namespace FirstFit

variable {used : Nat → Bool} {n bound : Nat}

/-! ## 1. The least free number -/

/-- The least free number below the bound. -/
def firstFree (used : Nat → Bool) (bound : Nat) : Option Nat :=
  (List.range bound).find? fun n => !used n

theorem firstFree_eq_some_iff :
    firstFree used bound = some n ↔ n < bound ∧ used n = false ∧ ∀ m < n, used m = true := by
  unfold firstFree
  rw [List.find?_range_eq_some]
  simp only [Bool.not_eq_true', Bool.not_not, List.mem_range]
  constructor
  · rintro ⟨hfree, hlt, hleast⟩
    exact ⟨hlt, hfree, hleast⟩
  · rintro ⟨hlt, hfree, hleast⟩
    exact ⟨hfree, hlt, hleast⟩

theorem firstFree_eq_none_iff : firstFree used bound = none ↔ ∀ m < bound, used m = true := by
  unfold firstFree
  simp only [List.find?_eq_none, List.mem_range, Bool.not_eq_true', Bool.not_eq_false]

/-- A free number is given out as long as there is one. -/
theorem exists_firstFree (hn : n < bound) (hfree : used n = false) :
    ∃ m, firstFree used bound = some m ∧ m ≤ n := by
  cases h : firstFree used bound with
  | none => exact absurd (firstFree_eq_none_iff.mp h n hn) (by rw [hfree]; exact Bool.false_ne_true)
  | some m =>
    refine ⟨m, rfl, Nat.le_of_not_lt fun hlt => ?_⟩
    have hused := (firstFree_eq_some_iff.mp h).2.2 n hlt
    rw [hfree] at hused
    cases hused

/-- A search row by row, `width` numbers in a row. -/
theorem findSome?_rows {α : Type} (g : Nat → Option α) (rows width : Nat) :
    ((List.range rows).findSome? fun i => (List.range width).findSome? fun j => g (i * width + j)) =
      (List.range (rows * width)).findSome? g := by
  induction rows with
  | zero => rw [Nat.zero_mul]; rfl
  | succ rows ih =>
    rw [List.range_succ, List.findSome?_append, ih, Nat.succ_mul, List.range_add,
      List.findSome?_append, List.findSome?_map]
    have hrow : (g ∘ fun j => rows * width + j) = fun j => g (rows * width + j) := rfl
    rw [hrow, List.findSome?_cons, List.findSome?_nil]
    congr 1
    cases (List.range width).findSome? fun j => g (rows * width + j) <;> rfl

theorem firstFree_eq_findSome? (used : Nat → Bool) (bound : Nat) :
    firstFree used bound =
      (List.range bound).findSome? fun n => if used n = false then some n else none := by
  unfold firstFree
  rw [List.find?_eq_findSome?_guard]
  congr 1
  funext n
  show (if (!used n) = true then some n else none) = _
  cases used n <;> rfl

/-! ## 2. The count -/

/-- How many numbers are used. -/
def usedCount (used : Nat → Bool) (bound : Nat) : Nat := (List.range bound).countP used

theorem usedCount_congr {used' : Nat → Bool} (h : ∀ m < bound, used' m = used m) :
    usedCount used' bound = usedCount used bound := by
  unfold usedCount
  refine List.countP_congr fun m hm => ?_
  rw [h m (List.mem_range.mp hm)]

/-- The first `d` numbers are used. -/
theorem usedCount_of_lt_iff {d : Nat} (h : ∀ m < bound, used m = true ↔ m < d) (hd : d ≤ bound) :
    usedCount used bound = d := by
  unfold usedCount
  obtain ⟨k, rfl⟩ := Nat.exists_eq_add_of_le hd
  have hfirst : (List.range d).countP used = d := by
    rw [List.countP_eq_length.mpr fun m hm => (h m (by have := List.mem_range.mp hm; omega)).mpr
      (List.mem_range.mp hm), List.length_range]
  have hrest : ((List.range k).map (d + ·)).countP used = 0 := by
    refine List.countP_eq_zero.mpr fun m hm hused => ?_
    obtain ⟨j, hj, rfl⟩ := List.mem_map.mp hm
    have hlt := (h (d + j) (Nat.add_lt_add_left (List.mem_range.mp hj) d)).mp hused
    omega
  rw [List.range_add, List.countP_append, hfirst, hrest, Nat.add_zero]

theorem usedCount_le_bound (used : Nat → Bool) (bound : Nat) : usedCount used bound ≤ bound := by
  unfold usedCount
  exact Nat.le_trans List.countP_le_length (Nat.le_of_eq List.length_range)

/-- All that is used is below `d`. -/
theorem usedCount_le {d : Nat} (h : ∀ m < bound, used m = true → m < d) :
    usedCount used bound ≤ d := by
  unfold usedCount
  rw [List.countP_eq_length_filter]
  have hsub : ((List.range bound).filter used).Subperm (List.range d) := by
    refine List.Nodup.subperm (List.nodup_range.filter _) fun m hm => ?_
    obtain ⟨hrange, hused⟩ := List.mem_filter.mp hm
    exact List.mem_range.mpr (h m (List.mem_range.mp hrange) hused)
  exact Nat.le_trans hsub.length_le (Nat.le_of_eq List.length_range)

/-- The table with one number more. -/
def mark (used : Nat → Bool) (n : Nat) : Nat → Bool := fun m => used m || m == n

theorem mark_self (used : Nat → Bool) (n : Nat) : mark used n n = true := by
  unfold mark
  rw [beq_self_eq_true, Bool.or_true]

theorem mark_of_ne {m : Nat} (h : m ≠ n) : mark used n m = used m := by
  unfold mark
  rw [beq_false_of_ne h, Bool.or_false]

/-- **One number more is used.** -/
theorem usedCount_mark (hn : n < bound) (hfree : used n = false) :
    usedCount (mark used n) bound = usedCount used bound + 1 := by
  unfold usedCount
  induction bound with
  | zero => exact absurd hn (Nat.not_lt_zero n)
  | succ bound ih =>
    rw [List.range_succ, List.countP_append, List.countP_append, List.countP_singleton,
      List.countP_singleton]
    by_cases heq : n = bound
    · subst heq
      have hsame : (List.range n).countP (mark used n) = (List.range n).countP used := by
        refine List.countP_congr fun m hm => ?_
        rw [mark_of_ne (Nat.ne_of_lt (List.mem_range.mp hm))]
      rw [hsame, mark_self, hfree]
      rfl
    · rw [ih (by omega), mark_of_ne fun h => heq h.symm]
      omega

/-- **Some numbers more are used.** -/
theorem usedCount_add {l : List Nat} (hnodup : l.Nodup)
    (hfree : ∀ n ∈ l, n < bound ∧ used n = false) {used' : Nat → Bool} (h : ∀ m < bound, used' m = true ↔ used m = true ∨ m ∈ l) :
    usedCount used' bound = usedCount used bound + l.length := by
  induction l generalizing used with
  | nil =>
    refine usedCount_congr fun m hm => Bool.eq_iff_iff.mpr ((h m hm).trans ?_)
    exact or_iff_left List.not_mem_nil
  | cons n l ih =>
    obtain ⟨hn, hnfree⟩ := hfree n List.mem_cons_self
    obtain ⟨hnotin, hnodup'⟩ := List.nodup_cons.mp hnodup
    have hrest : ∀ m ∈ l, m < bound ∧ mark used n m = false := by
      intro m hm
      obtain ⟨hlt, hmfree⟩ := hfree m (List.mem_cons_of_mem _ hm)
      refine ⟨hlt, ?_⟩
      rw [mark_of_ne, hmfree]
      rintro rfl
      exact hnotin hm
    rw [ih hnodup' hrest, usedCount_mark hn hnfree, List.length_cons]
    · omega
    · intro m hm
      unfold mark
      rw [h m hm, List.mem_cons, Bool.or_eq_true, beq_iff_eq, or_assoc]

/-- Where nothing is used behind a free number, the least one is the count. -/
theorem usedCount_eq_firstFree
    (hdense : ∀ m < bound, used m = true → ∀ k < m, used k = true)
    (h : firstFree used bound = some n) : usedCount used bound = n := by
  obtain ⟨hn, hfree, hleast⟩ := firstFree_eq_some_iff.mp h
  refine usedCount_of_lt_iff (fun m hm => ⟨fun hused => ?_, hleast m⟩) (Nat.le_of_lt hn)
  refine Nat.lt_of_not_le fun hle => ?_
  rcases Nat.lt_or_eq_of_le hle with hlt | rfl
  · rw [hdense m hm hused n hlt] at hfree
    cases hfree
  · rw [hused] at hfree
    cases hfree

/-- Where fewer numbers are used than there are, one is found. -/
theorem exists_firstFree_of_count (h : usedCount used bound < bound) :
    ∃ n, firstFree used bound = some n := by
  by_contra hnone
  have hall : ∀ m < bound, used m = true ↔ m < bound := by
    refine fun m hm => iff_of_true (eq_true_of_ne_false fun hfree => hnone ?_) hm
    obtain ⟨n, hn, -⟩ := exists_firstFree hm hfree
    exact ⟨n, hn⟩
  rw [usedCount_of_lt_iff hall (Nat.le_refl _)] at h
  exact Nat.lt_irrefl _ h

/-- A number with only used ones up to it is below their count. -/
theorem lt_usedCount (hn : n < bound) (h : ∀ m ≤ n, used m = true) : n < usedCount used bound := by
  unfold usedCount
  have hsub : (List.range (n + 1)).Sublist (List.range bound) := List.range_sublist.mpr hn
  have hall : (List.range (n + 1)).countP used = n + 1 := by
    rw [List.countP_eq_length.mpr fun m hm => h m (Nat.le_of_lt_succ (List.mem_range.mp hm)),
      List.length_range]
  have hle := hsub.countP_le (p := used)
  rw [hall] at hle
  exact hle

end FirstFit
