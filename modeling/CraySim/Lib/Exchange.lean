/-
  Subject:   Two parties that answer each other's messages.

  A party takes a message in and answers it, with one message or with none. Both parties follow the
  same rules; messages travel in order. After its first message a party answers everything: whatever
  it was waiting for, it waits no longer. So at most two messages are ever taken in for good.

  * `Rules`, `State`, `Step` -- the parties, and what is on its way between them,
  * `Endless` -- the exchange may go on forever,
  * `Settles` -- what is on its way is taken in,
  * `settles_receive` -- a step changes nothing about that,
  * `not_endless_iff` -- the exchange ends exactly when everything is taken in.
-/
import Mathlib.Logic.Function.Iterate
import Mathlib.Tactic.Choose

namespace Exchange

/-! ## 1. Parties and messages -/

/-- What a party answers to a message, and what it is afterwards. -/
structure Rules (S M : Type) where
  answer : S → M → Option M
  after : S → M → S

/-- Two parties, and the messages on their way to each of them. -/
structure State (S M : Type) where
  here : S
  there : S
  toHere : List M
  toThere : List M

variable {S M : Type} (R : Rules S M)

namespace State

/-- The same, seen from the other side. -/
def swap (s : State S M) : State S M := ⟨s.there, s.here, s.toThere, s.toHere⟩

/-- A message arrives here. -/
def receive (s : State S M) (m : M) (rest : List M) : State S M :=
  ⟨R.after s.here m, s.there, rest, s.toThere ++ (R.answer s.here m).toList⟩

end State

/-- A message arrives on one of the sides. -/
inductive Step : State S M → State S M → Prop where
  | here {s : State S M} {m : M} {rest : List M} (h : s.toHere = m :: rest) :
      Step s (s.receive R m rest)
  | there {s : State S M} {m : M} {rest : List M} (h : s.toThere = m :: rest) :
      Step s (s.swap.receive R m rest).swap

/-- The exchange may go on forever. -/
def Endless (s : State S M) : Prop :=
  ∃ run : Nat → State S M, run 0 = s ∧ ∀ i, Step R (run i) (run (i + 1))

/-- A message is taken in, or its answer is. -/
def Ends (a b : S) (m : M) : Prop :=
  R.answer a m = none ∨ ∃ m', R.answer a m = some m' ∧ R.answer b m' = none

/-- **What is on its way is taken in**: a single message or its answer, or two messages, one by each
    party. -/
def Settles (a b : S) : List M → List M → Prop
  | [], [] => True
  | [m], [] => Ends R a b m
  | [], [m] => Ends R b a m
  | [m, m'], [] => R.answer a m = none ∧ Ends R (R.after a m) b m'
  | [], [m, m'] => R.answer b m = none ∧ Ends R (R.after b m) a m'
  | [m], [m'] => R.answer a m = none ∧ R.answer b m' = none
  | _, _ => False

variable {R}

theorem settles_swap (a b : S) (l l' : List M) : Settles R b a l' l ↔ Settles R a b l l' := by
  rcases l with - | ⟨m, - | ⟨m', - | ⟨m'', l⟩⟩⟩ <;>
    rcases l' with - | ⟨n, - | ⟨n', - | ⟨n'', l'⟩⟩⟩ <;> simp only [Settles, and_comm]

/-! ## 2. A step -/

section once
variable (honce : ∀ s m m', R.answer (R.after s m) m' ≠ none)
include honce

theorem ends_to_after (a b : S) (m m' : M) :
    Ends R b (R.after a m) m' ↔ R.answer b m' = none := by
  rw [Ends, or_iff_left]
  rintro ⟨n, -, hn⟩
  exact honce a m n hn

/-- **A message that arrives changes nothing about whether everything is taken in.** -/
theorem settles_receive (a b : S) (m : M) (rest q : List M) :
    Settles R (R.after a m) b rest (q ++ (R.answer a m).toList) ↔ Settles R a b (m :: rest) q := by
  rcases hanswer : R.answer a m with - | n
  · rw [Option.toList_none, List.append_nil]
    rcases rest with - | ⟨y, - | ⟨z, rest⟩⟩
    · rcases q with - | ⟨x, - | ⟨x', - | ⟨x'', q⟩⟩⟩
      · simp [Settles, Ends, hanswer]
      · simp [Settles, ends_to_after honce, hanswer]
      · simp [Settles, ends_to_after honce, honce]
      · simp [Settles]
    · rcases q with - | ⟨x, q⟩
      · simp [Settles, hanswer]
      · rcases q with - | ⟨x', q⟩ <;> simp [Settles, honce]
    · rcases rest with - | ⟨z', rest⟩ <;> rcases q with - | ⟨x, q⟩ <;> simp [Settles, honce]
  · rw [Option.toList_some]
    rcases rest with - | ⟨y, - | ⟨z, rest⟩⟩
    · rcases q with - | ⟨x, - | ⟨x', q⟩⟩
      · rw [List.nil_append, Settles, Settles, ends_to_after honce, Ends]
        simp [hanswer]
      · simp [Settles, ends_to_after honce, honce, hanswer]
      · rcases q with - | ⟨x'', q⟩ <;> simp [Settles]
    · rcases q with - | ⟨x, q⟩
      · simp [Settles, honce, hanswer]
      · rcases q with - | ⟨x', q⟩ <;> simp [Settles]
    · rcases rest with - | ⟨z', rest⟩ <;> rcases q with - | ⟨x, q⟩ <;> simp [Settles]

theorem settles_step {s s' : State S M} (h : Step R s s') :
    Settles R s'.here s'.there s'.toHere s'.toThere ↔
      Settles R s.here s.there s.toHere s.toThere := by
  cases h with
  | @here m rest hm =>
    rw [hm]
    exact settles_receive honce s.here s.there m rest s.toThere
  | @there m rest hm =>
    rw [← settles_swap s.here, hm, ← settles_receive honce s.there s.here m rest s.toHere]
    exact settles_swap _ _ _ _

omit honce in
/-- There is a step as long as not everything is taken in. -/
theorem exists_step {s : State S M} (h : ¬ Settles R s.here s.there s.toHere s.toThere) :
    ∃ s', Step R s s' := by
  rcases hhere : s.toHere with - | ⟨m, rest⟩
  · rcases hthere : s.toThere with - | ⟨m, rest⟩
    · rw [hhere, hthere] at h
      exact absurd trivial h
    · exact ⟨_, .there hthere⟩
  · exact ⟨_, .here hhere⟩

/-- **An exchange in which not everything is taken in goes on forever.** -/
theorem endless_of_not_settles {s : State S M}
    (h : ¬ Settles R s.here s.there s.toHere s.toThere) : Endless R s := by
  have hnext : ∀ s : {s : State S M // ¬ Settles R s.here s.there s.toHere s.toThere},
      ∃ s' : {s : State S M // ¬ Settles R s.here s.there s.toHere s.toThere}, Step R s.1 s'.1 := by
    rintro ⟨s, hs⟩
    obtain ⟨s', hstep⟩ := exists_step hs
    exact ⟨⟨s', fun hs' => hs ((settles_step honce hstep).mp hs')⟩, hstep⟩
  choose next hstep using hnext
  refine ⟨fun i => (next^[i] ⟨s, h⟩).1, rfl, fun i => ?_⟩
  have hsucc := Function.iterate_succ_apply' next i ⟨s, h⟩
  simp only [hsucc]
  exact hstep _

end once

/-! ## 3. How long it takes -/

/-- The steps there still are, where everything is taken in. -/
def stepsLeft (R : Rules S M) (a b : S) : List M → List M → Nat
  | [m], [] => if (R.answer a m).isNone then 1 else 2
  | [], [m] => if (R.answer b m).isNone then 1 else 2
  | [_, _], [] => 3
  | [], [_, _] => 3
  | [_], [_] => 2
  | _, _ => 0

theorem stepsLeft_swap (a b : S) (l l' : List M) :
    stepsLeft R b a l' l = stepsLeft R a b l l' := by
  rcases l with - | ⟨m, - | ⟨m', - | ⟨m'', l⟩⟩⟩ <;>
    rcases l' with - | ⟨n, - | ⟨n', - | ⟨n'', l'⟩⟩⟩ <;> rfl

theorem stepsLeft_receive (a b : S) (m : M) (rest q : List M) (h : Settles R a b (m :: rest) q) :
    stepsLeft R (R.after a m) b rest (q ++ (R.answer a m).toList) <
      stepsLeft R a b (m :: rest) q := by
  rcases rest with - | ⟨y, - | ⟨z, rest⟩⟩
  · rcases q with - | ⟨x, - | ⟨x', q⟩⟩
    · rcases h with hnone | ⟨n, hsome, hnone⟩
      · simp [stepsLeft, hnone]
      · simp [stepsLeft, hsome, hnone]
    · obtain ⟨hnone, hnone'⟩ := h
      simp [stepsLeft, hnone, hnone']
    · exact absurd h (by rcases q with - | ⟨x'', q⟩ <;> simp [Settles])
  · rcases q with - | ⟨x, q⟩
    · obtain ⟨hnone, -⟩ := h
      rw [hnone, Option.toList_none, List.append_nil, stepsLeft, stepsLeft]
      split <;> decide
    · exact absurd h (by rcases q with - | ⟨x', q⟩ <;> simp [Settles])
  · exact absurd h (by rcases q with - | ⟨x, q⟩ <;> simp [Settles])

theorem stepsLeft_step {s s' : State S M} (hstep : Step R s s')
    (h : Settles R s.here s.there s.toHere s.toThere) :
    stepsLeft R s'.here s'.there s'.toHere s'.toThere <
      stepsLeft R s.here s.there s.toHere s.toThere := by
  cases hstep with
  | @here m rest hm =>
    rw [hm] at h ⊢
    exact stepsLeft_receive s.here s.there m rest s.toThere h
  | @there m rest hm =>
    rw [← settles_swap, hm] at h
    rw [← stepsLeft_swap s.here, hm, ← stepsLeft_swap]
    exact stepsLeft_receive s.there s.here m rest s.toHere h

section once
variable (honce : ∀ s m m', R.answer (R.after s m) m' ≠ none)
include honce

/-- An exchange in which everything is taken in ends. -/
theorem not_endless_of_settles (n : Nat) : ∀ {s : State S M},
    Settles R s.here s.there s.toHere s.toThere →
      stepsLeft R s.here s.there s.toHere s.toThere = n → ¬ Endless R s := by
  induction n using Nat.strongRecOn with
  | ind n ih =>
    rintro s h hn ⟨run, rfl, hsteps⟩
    have hstep := hsteps 0
    have hless := stepsLeft_step hstep h
    rw [hn] at hless
    exact ih _ hless ((settles_step honce hstep).mpr h) rfl
      ⟨fun i => run (i + 1), rfl, fun i => hsteps (i + 1)⟩

/-- **The exchange ends exactly when what is on its way is taken in.** -/
theorem not_endless_iff (s : State S M) :
    ¬ Endless R s ↔ Settles R s.here s.there s.toHere s.toThere := by
  refine ⟨fun hend => ?_, fun h => not_endless_of_settles honce _ h rfl⟩
  by_contra hnot
  exact hend (endless_of_not_settles honce hnot)

end once

end Exchange
