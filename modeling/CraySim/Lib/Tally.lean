/-
  Subject:   Machine counters that count the members of a family in a state.

  A counter of `w` bits goes up when a member of the family comes into a state and down when one
  leaves it. As long as every change of a member is counted and the family is smaller than the
  counter, the counter is the number of members in that state.

  * `tally p f` -- how many members of `f` are in `p`,
  * `tally_update` -- one member changes,
  * `Tracks` -- a counter that is right,
  * `Tracks.stay`, `Tracks.enter`, `Tracks.leave` -- the three ways to change a member,
  * `Tracks.recount` -- the same as one rule.
-/
import Mathlib.Algebra.BigOperators.Fin
import Mathlib.Data.Fintype.Card

namespace Tally

variable {ι α : Type} [Fintype ι] {p : α → Prop} [DecidablePred p] {f : ι → α} {i : ι} {x : α}

/-! ## 1. Counting -/

/-- The members of `f` in `p`. -/
def tally (p : α → Prop) [DecidablePred p] (f : ι → α) : Nat :=
  (Finset.univ.filter fun i => p (f i)).card

theorem tally_eq_sum (f : ι → α) : tally p f = ∑ i, if p (f i) then 1 else 0 :=
  Finset.card_filter _ _

theorem tally_le (f : ι → α) : tally p f ≤ Fintype.card ι := Finset.card_le_univ _

theorem tally_pos (h : p (f i)) : 0 < tally p f :=
  Finset.card_pos.mpr ⟨i, Finset.mem_filter.mpr ⟨Finset.mem_univ i, h⟩⟩

theorem tally_of_none (h : ∀ i, ¬ p (f i)) : tally p f = 0 :=
  Finset.card_eq_zero.mpr (Finset.filter_eq_empty_iff.mpr fun i _ => h i)

variable [DecidableEq ι]

/-- **One member changes**: the number changes by its part. -/
theorem tally_update (f : ι → α) (i : ι) (x : α) :
    tally p (Function.update f i x) + (if p (f i) then 1 else 0) =
      tally p f + (if p x then 1 else 0) := by
  have hupdate : (fun j => if p (Function.update f i x j) then 1 else 0) =
      Function.update (fun j => if p (f j) then 1 else 0) i (if p x then 1 else 0) := by
    funext j
    by_cases hj : j = i
    · rw [hj, Function.update_self, Function.update_self]
    · rw [Function.update_of_ne hj, Function.update_of_ne hj]
  rw [tally_eq_sum, tally_eq_sum, hupdate, Finset.sum_update_of_mem (Finset.mem_univ i),
    ← Finset.add_sum_erase _ (fun j => if p (f j) then 1 else 0) (Finset.mem_univ i),
    Finset.sdiff_singleton_eq_erase]
  omega

/-! ## 2. Counters -/

variable {w : Nat} {c : BitVec w}

/-- The counter is the number of members in `p`. -/
def Tracks (p : α → Prop) [DecidablePred p] (f : ι → α) (c : BitVec w) : Prop :=
  c.toNat = tally p f

/-- A member changes within `p`, or outside of it. -/
theorem Tracks.stay (h : Tracks p f c) (hx : p x ↔ p (f i)) :
    Tracks p (Function.update f i x) c := by
  have hupdate := tally_update (p := p) f i x
  unfold Tracks at h ⊢
  by_cases hp : p x
  · rw [if_pos hp, if_pos (hx.mp hp)] at hupdate
    omega
  · rw [if_neg hp, if_neg (hx.not.mp hp)] at hupdate
    omega

theorem toNat_one_of_lt (h : 1 < 2 ^ w) : (1 : BitVec w).toNat = 1 :=
  (BitVec.toNat_ofNat 1 w).trans (Nat.mod_eq_of_lt h)

/-- A member comes into `p`; a family smaller than the counter does not overflow it. -/
theorem Tracks.enter (hsmall : Fintype.card ι < 2 ^ w) (h : Tracks p f c) (hold : ¬ p (f i))
    (hx : p x) : Tracks p (Function.update f i x) (c + 1) := by
  have hupdate := tally_update (p := p) f i x
  have hle := tally_le (p := p) (Function.update f i x)
  rw [if_neg hold, if_pos hx] at hupdate
  unfold Tracks at h ⊢
  rw [BitVec.toNat_add, toNat_one_of_lt (by omega), h, Nat.mod_eq_of_lt (by omega)]
  omega

/-- A member leaves `p`; the counter is not zero before. -/
theorem Tracks.leave (h : Tracks p f c) (hold : p (f i)) (hx : ¬ p x) :
    Tracks p (Function.update f i x) (c - 1) := by
  have hupdate := tally_update (p := p) f i x
  have hpos := tally_pos hold
  rw [if_pos hold, if_neg hx] at hupdate
  unfold Tracks at h ⊢
  have hlt := c.isLt
  have hone : (1 : BitVec w).toNat = 1 := toNat_one_of_lt (by omega)
  have hle : (1 : BitVec w) ≤ c := by
    rw [BitVec.le_def, hone]
    omega
  rw [BitVec.toNat_sub_of_le hle, hone]
  omega

/-- **The rule of a counter**: it goes down when the member leaves `p` and up when it comes in. -/
theorem Tracks.recount (hsmall : Fintype.card ι < 2 ^ w) (h : Tracks p f c) {c' : BitVec w}
    (hc : c' = if p (f i) then (if p x then c else c - 1) else if p x then c + 1 else c) :
    Tracks p (Function.update f i x) c' := by
  rw [hc]
  by_cases hold : p (f i)
  · rw [if_pos hold]
    by_cases hx : p x
    · rw [if_pos hx]
      exact h.stay ⟨fun _ => hold, fun _ => hx⟩
    · rw [if_neg hx]
      exact h.leave hold hx
  · rw [if_neg hold]
    by_cases hx : p x
    · rw [if_pos hx]
      exact h.enter hsmall hold hx
    · rw [if_neg hx]
      exact h.stay ⟨fun hp => absurd hp hx, fun hp => absurd hp hold⟩

end Tally
