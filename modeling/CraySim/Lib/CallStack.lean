/-
  Subject:   Return addresses in a ring of entries, under a pointer that wraps.

  * `Event`, `play` -- calls and exits on a list with room for so many calls,
  * `Ring` -- the entries and the pointer, `step` for what an event does,
  * `Holds` -- the ring holds a list,
  * `Ring.returns` -- **last in, first out**: behind a call and calls and exits that are nested
    in it, the next exit returns to that call.
-/
import Mathlib.Data.BitVec
import Mathlib.Logic.Function.Basic
import Mathlib.Tactic.Abel

namespace CallStack

variable {α : Type} {w : Nat}

/-! ## 1. Calls and exits on a list -/

inductive Event (α : Type) where
  | call (a : α)
  | exit
  deriving DecidableEq

/-- A call finds no room, or an exit finds no call: there is no result then. -/
def play (n : Nat) : List (Event α) → List α → Option (List α)
  | [], l => some l
  | .call a :: es, l => if l.length < n then play n es (a :: l) else none
  | .exit :: es, _ :: l => play n es l
  | .exit :: _, [] => none

/-- What is nested does not see what is below it. -/
theorem play_append (below : List α) {n : Nat} {es : List (Event α)} {l l' : List α}
    (h : play n es l = some l') :
    play (n + below.length) es (l ++ below) = some (l' ++ below) := by
  induction es generalizing l with
  | nil =>
    obtain rfl := Option.some.inj h
    rfl
  | cons e es ih =>
    cases e with
    | call a =>
      rw [play] at h ⊢
      split at h
      · next hroom =>
        rw [if_pos (by rw [List.length_append]; omega)]
        exact ih h
      · exact nomatch h
    | exit =>
      cases l with
      | nil => exact nomatch h
      | cons a l => exact ih h

/-! ## 2. The ring -/

structure Ring (w : Nat) (α : Type) where
  pointer : BitVec w
  entry : BitVec w → α

namespace Ring

variable (s : Ring w α)

def push (a : α) : Ring w α :=
  { pointer := s.pointer + 1, entry := Function.update s.entry (s.pointer + 1) a }

/-- What the next exit returns. -/
def top : α := s.entry s.pointer

def pop : Ring w α := { s with pointer := s.pointer - 1 }

def step (s : Ring w α) : Event α → Ring w α
  | .call a => s.push a
  | .exit => s.pop

end Ring

/-- The ring holds a list above `base`, the last call first. -/
structure Holds (s : Ring w α) (base : BitVec w) (l : List α) : Prop where
  pointer : s.pointer = base + (l.length : BitVec w)
  entry : ∀ i (h : i < l.length), s.entry (s.pointer - (i : BitVec w)) = l[i]

section holds
variable {s : Ring w α} {base : BitVec w} {l l' : List α} {a : α}

theorem holds_nil (s : Ring w α) : Holds s s.pointer [] where
  pointer := by simp
  entry i h := absurd h (Nat.not_lt_zero i)

theorem Holds.call (h : Holds s base l) (hroom : l.length < 2 ^ w) (a : α) :
    Holds (s.push a) base (a :: l) where
  pointer := by
    rw [Ring.push, h.pointer, List.length_cons, Nat.cast_succ, add_assoc]
  entry i hi := by
    cases i with
    | zero => simp [Ring.push]
    | succ i =>
      -- the new entry is above all the others
      have hi' : i < l.length := by simpa using hi
      have hback : s.pointer + 1 - ((i + 1 : Nat) : BitVec w) = s.pointer - (i : BitVec w) := by
        rw [Nat.cast_succ]
        abel
      have hne : s.pointer + 1 - ((i + 1 : Nat) : BitVec w) ≠ s.pointer + 1 := by
        intro heq
        have hzero : BitVec.ofNat w (i + 1) = 0 := sub_eq_self.mp heq
        have hnat := congrArg BitVec.toNat hzero
        rw [BitVec.toNat_ofNat, Nat.mod_eq_of_lt (by omega)] at hnat
        exact absurd hnat (Nat.succ_ne_zero i)
      change Function.update s.entry _ _ (s.pointer + 1 - ((i + 1 : Nat) : BitVec w)) = l[i]
      rw [Function.update_of_ne hne, hback, h.entry i hi']

theorem Holds.top (h : Holds s base (a :: l)) : s.top = a := by
  have hentry := h.entry 0 (Nat.succ_pos _)
  simpa [Ring.top] using hentry

theorem Holds.exit (h : Holds s base (a :: l)) : Holds s.pop base l where
  pointer := by
    rw [Ring.pop, h.pointer, List.length_cons, Nat.cast_succ, ← add_assoc]
    exact add_sub_cancel_right _ 1
  entry i hi := by
    have hback : s.pointer - 1 - (i : BitVec w) = s.pointer - ((i + 1 : Nat) : BitVec w) := by
      rw [Nat.cast_succ]
      abel
    rw [Ring.pop, hback, h.entry (i + 1) (Nat.succ_lt_succ hi), List.getElem_cons_succ]

/-- Calls and exits do to the ring what they do to the list, as long as there is room. -/
theorem Holds.play {n : Nat} {es : List (Event α)} (h : Holds s base l) (hn : n ≤ 2 ^ w)
    (hplay : CallStack.play n es l = some l') : Holds (es.foldl Ring.step s) base l' := by
  induction es generalizing s l with
  | nil =>
    obtain rfl := Option.some.inj hplay
    exact h
  | cons e es ih =>
    cases e with
    | call a =>
      rw [CallStack.play] at hplay
      split at hplay
      · next hroom => exact ih (h.call (by omega) a) hplay
      · exact nomatch hplay
    | exit =>
      cases l with
      | nil => exact nomatch hplay
      | cons a l => exact ih h.exit hplay

end holds

/-- **Last in, first out**: behind a call and what is nested in it the next exit returns to the
    call, and the pointer is where it was before. -/
theorem Ring.returns (s : Ring w α) (a : α) {n : Nat} (hn : n < 2 ^ w) {body : List (Event α)}
    (hbody : play n body [] = some []) :
    (body.foldl Ring.step (s.push a)).top = a ∧
      (body.foldl Ring.step (s.push a)).pop.pointer = s.pointer := by
  have hcall := (holds_nil s).call (Nat.two_pow_pos w) a
  have hnested := play_append [a] hbody
  have hend := hcall.play hn hnested
  refine ⟨hend.top, ?_⟩
  rw [hend.exit.pointer]
  simp

end CallStack
