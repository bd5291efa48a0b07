/-
  Subject:   An index that goes around a ring until it meets another.

  * `ahead` -- how far one entry of a ring is ahead of another,
  * `pending` -- the entries from one up to another,
  * `exists_walk_iff` -- when the loop ends, and what it comes by: from its second round on it is in
    the ring, so it ends if `stop` is there.
-/
import Mathlib.Data.List.Nodup
import Mathlib.Data.Nat.ModEq

namespace RingWalk

variable {size first stop : Nat}

/-! ## 1. Entries of a ring -/

def ahead (size first stop : Nat) : Nat := (stop + size - first) % size

def pending (size first stop : Nat) : List Nat :=
  (List.range (ahead size first stop)).map fun k => (first + k) % size

theorem ahead_of_le (hstop : stop < size) (h : first ≤ stop) :
    ahead size first stop = stop - first := by
  have hsplit : stop + size - first = stop - first + size := by omega
  rw [ahead, hsplit, Nat.add_mod_right, Nat.mod_eq_of_lt (by omega)]

theorem ahead_of_gt (hfirst : first < size) (h : stop < first) :
    ahead size first stop = stop + size - first := by
  rw [ahead, Nat.mod_eq_of_lt (by omega)]

/-- One entry further, the other is one less ahead. -/
theorem ahead_next (hfirst : first < size) (hstop : stop < size) (h : first ≠ stop) :
    ahead size first stop = ahead size ((first + 1) % size) stop + 1 := by
  by_cases hlast : first + 1 = size
  · rw [hlast, Nat.mod_self, ahead_of_gt hfirst (by omega), ahead_of_le hstop (Nat.zero_le _)]
    omega
  · rw [Nat.mod_eq_of_lt (by omega)]
    by_cases hle : first ≤ stop
    · rw [ahead_of_le hstop hle, ahead_of_le hstop (by omega)]
      omega
    · rw [ahead_of_gt hfirst (by omega), ahead_of_gt (by omega) (by omega)]
      omega

theorem pending_self (hstop : stop < size) : pending size stop stop = [] := by
  rw [pending, ahead_of_le hstop (Nat.le_refl _), Nat.sub_self]
  rfl

theorem pending_of_ne (hfirst : first < size) (hstop : stop < size) (h : first ≠ stop) :
    pending size first stop = first :: pending size ((first + 1) % size) stop := by
  have htail : ∀ k, (first + (k + 1)) % size = ((first + 1) % size + k) % size := by
    intro k
    rw [Nat.mod_add_mod]
    congr 1
    omega
  rw [pending, ahead_next hfirst hstop h, List.range_succ_eq_map, List.map_cons, List.map_map,
    Nat.add_zero, Nat.mod_eq_of_lt hfirst, pending]
  congr 1
  exact List.map_congr_left fun k _ => htail k

/-! ## 2. The loop -/

def walk (size : Nat) (next : Nat → Nat) (stop : Nat) : Nat → Nat → Option (List Nat)
  | 0, _ => none
  | fuel + 1, i =>
    if i = stop then some []
    else if size = 0 then none
    else (walk size next stop fuel (next i)).map (i :: ·)

section walk
variable {next : Nat → Nat} (hnext : ∀ i < size, next i = (i + 1) % size)
include hnext

/-- In the ring the loop ends behind the entries up to `stop`. -/
theorem exists_walk_of_lt (hstop : stop < size) (hfirst : first < size) :
    ∃ fuel, walk size next stop fuel first = some (pending size first stop) := by
  induction hn : ahead size first stop generalizing first with
  | zero =>
    have heq : first = stop := by
      by_contra hne
      rw [ahead_next hfirst hstop hne] at hn
      exact Nat.succ_ne_zero _ hn
    exact ⟨1, by rw [walk, if_pos heq, heq, pending_self hstop]⟩
  | succ n ih =>
    have hne : first ≠ stop := by
      rintro rfl
      rw [ahead_of_le hstop (Nat.le_refl _), Nat.sub_self] at hn
      exact absurd hn (Nat.zero_ne_add_one n)
    rw [ahead_next hfirst hstop hne] at hn
    obtain ⟨fuel, hwalk⟩ := ih (Nat.mod_lt _ (by omega)) (Nat.succ.inj hn)
    refine ⟨fuel + 1, ?_⟩
    rw [walk, if_neg hne, if_neg (by omega), hnext first hfirst, hwalk,
      pending_of_ne hfirst hstop hne]
    rfl

/-- **The loop ends** at once, or if `stop` is an entry of the ring. -/
theorem exists_walk_iff (hlt : 0 < size → ∀ i, next i < size) {l : List Nat} :
    (∃ fuel, walk size next stop fuel first = some l) ↔
      (first = stop ∧ l = []) ∨
      (first ≠ stop ∧ stop < size ∧ l = first :: pending size (next first) stop) := by
  constructor
  · rintro ⟨fuel, hwalk⟩
    induction fuel generalizing first l with
    | zero => cases hwalk
    | succ fuel ih =>
      rw [walk] at hwalk
      split at hwalk
      · rename_i heq
        exact .inl ⟨heq, (Option.some.inj hwalk).symm⟩
      · rename_i hne
        split at hwalk
        · cases hwalk
        · rename_i hsize
          obtain ⟨l', hrest, rfl⟩ := Option.map_eq_some_iff.mp hwalk
          have hin := hlt (Nat.pos_of_ne_zero hsize) first
          rcases ih hrest with ⟨heq, rfl⟩ | ⟨hne', hstop, rfl⟩
          · refine .inr ⟨hne, heq ▸ hin, ?_⟩
            rw [heq, pending_self (heq ▸ hin)]
          · refine .inr ⟨hne, hstop, ?_⟩
            rw [pending_of_ne hin hstop hne', hnext _ hin]
  · rintro (⟨heq, rfl⟩ | ⟨hne, hstop, rfl⟩)
    · exact ⟨1, if_pos heq⟩
    · obtain ⟨fuel, hwalk⟩ := exists_walk_of_lt hnext hstop (hlt (by omega) first)
      refine ⟨fuel + 1, ?_⟩
      rw [walk, if_neg hne, if_neg (by omega), hwalk]
      rfl

end walk

end RingWalk
