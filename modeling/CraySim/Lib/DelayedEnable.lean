/-
  Subject:   An enable flag that is set with a delay.

  A request to set the flag waits until the next action that is not one of those that hold it
  back. Clearing takes effect at once and takes a waiting request with it.

  * `Latch`, `Action`, `follow` -- the flag, a waiting request, and what can happen to them,
  * `waiting_iff` -- a request waits if and only if nothing since has ended it,
  * `enabled_rises_iff` -- when the flag goes up.
-/
import Mathlib.Data.List.Induction

namespace DelayedEnable

structure Latch where
  enabled : Bool
  waiting : Bool

inductive Action where
  /-- The request. -/
  | set
  | clear
  /-- What holds a request back. -/
  | hold
  /-- What lets a request take effect. -/
  | complete
  /-- The flag is used up. -/
  | taken
  | reset
  | idle
  deriving DecidableEq

def follow : Action → Latch → Latch
  | .set, l => { l with waiting := true }
  | .clear, _ => ⟨false, false⟩
  | .hold, l => l
  | .complete, l => if l.waiting then ⟨true, false⟩ else l
  | .taken, l => { l with enabled := false }
  | .reset, _ => ⟨true, false⟩
  | .idle, l => l

def followAll (as : List Action) (l : Latch) : Latch := as.foldl (fun l a => follow a l) l

/-- A request outlasts this action. -/
def outlasts : Action → Bool
  | .set | .hold | .taken | .idle => true
  | .clear | .complete | .reset => false

theorem followAll_append_one (as : List Action) (a : Action) (l : Latch) :
    followAll (as ++ [a]) l = follow a (followAll as l) := by
  rw [followAll, List.foldl_append]
  rfl

theorem waiting_follow {a : Action} (ha : a ≠ .set) (l : Latch) :
    (follow a l).waiting = (outlasts a && l.waiting) := by
  cases a with
  | set => exact absurd rfl ha
  | complete => cases hw : l.waiting <;> simp [follow, outlasts, hw]
  | clear => rfl
  | hold => rfl
  | taken => rfl
  | reset => rfl
  | idle => rfl

/-- **A waiting request**: it was made, and everything since holds it back. -/
theorem waiting_iff {l : Latch} (hl : l.waiting = false) (as : List Action) :
    (followAll as l).waiting = true ↔
      ∃ before after, as = before ++ .set :: after ∧ ∀ a ∈ after, outlasts a = true := by
  induction as using List.reverseRecOn with
  | nil =>
    refine ⟨fun h => absurd (hl.symm.trans h) (by simp), fun ⟨before, after, h, _⟩ => ?_⟩
    exact absurd h (by simp)
  | append_singleton as a ih =>
    rw [followAll_append_one]
    by_cases ha : a = .set
    · obtain rfl := ha
      exact ⟨fun _ => ⟨as, [], rfl, fun _ h => absurd h List.not_mem_nil⟩, fun _ => rfl⟩
    rw [waiting_follow ha, Bool.and_eq_true, ih]
    constructor
    · rintro ⟨hout, before, after, rfl, hafter⟩
      refine ⟨before, after ++ [a], by simp, fun x hx => ?_⟩
      rcases List.mem_append.mp hx with hx | hx
      · exact hafter x hx
      · rwa [List.mem_singleton.mp hx]
    · rintro ⟨before, after, heq, hafter⟩
      rcases List.eq_nil_or_concat after with rfl | ⟨rest, b, rfl⟩
      · obtain ⟨-, hlast⟩ := List.append_inj' heq rfl
        exact absurd (List.cons.inj hlast).1 ha
      · have hsplit : as ++ [a] = (before ++ .set :: rest) ++ [b] := by simpa using heq
        obtain ⟨hfront, hlast⟩ := List.append_inj' hsplit rfl
        obtain rfl : a = b := (List.cons.inj hlast).1
        exact ⟨hafter a (by simp), before, rest, hfront, fun x hx => hafter x (by simp [hx])⟩

/-- The flag goes up where a request waits and nothing holds it back, or at a reset. -/
theorem enabled_rises_iff {a : Action} {l : Latch} (hl : l.enabled = false) :
    (follow a l).enabled = true ↔ (a = .complete ∧ l.waiting = true) ∨ a = .reset := by
  cases a with
  | complete => cases hw : l.waiting <;> simp [follow, hl, hw]
  | set => simp [follow, hl]
  | clear => simp [follow]
  | hold => simp [follow, hl]
  | taken => simp [follow]
  | reset => simp [follow]
  | idle => simp [follow, hl]

end DelayedEnable
