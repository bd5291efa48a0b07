/-
  Subject:   Agents that take turns on one machine.

  Every action belongs to an agent. An agent sees a part of the machine only: `view d s t` says
  that `s` and `t` are the same to agent `d`. Where no agent changes what another one sees, and
  what an agent does depends on what it sees, the turns do not matter:

  * `Separated` -- the two conditions on single actions,
  * `runs_alone` -- to an agent a run ends as the run of its own actions alone,
  * `runs_reorder` -- runs with the same actions of each agent end the same to every agent, and one
    of them is allowed where the other is.
-/
import Mathlib.Data.List.Induction

namespace Turns

variable {A D S : Type}

/-! ## 1. Runs -/

/-- The state after a list of actions. -/
def run (step : A → S → S) : List A → S → S
  | [], s => s
  | a :: l, s => run step l (step a s)

/-- Every action of a run meets the condition `C` where it is taken. -/
def Along (step : A → S → S) (C : A → S → Prop) : List A → S → Prop
  | [], _ => True
  | a :: l, s => C a s ∧ Along step C l (step a s)

/-- The actions of one agent, in order. -/
def own [DecidableEq D] (owner : A → D) (d : D) (l : List A) : List A :=
  l.filter fun a => owner a = d

section runs
variable {step : A → S → S} {C : A → S → Prop}

theorem along_append (l l' : List A) (s : S) :
    Along step C (l ++ l') s ↔ Along step C l s ∧ Along step C l' (run step l s) := by
  induction l generalizing s with
  | nil => exact (and_iff_right trivial).symm
  | cons a l ih =>
    show C a s ∧ Along step C (l ++ l') (step a s) ↔ (C a s ∧ Along step C l (step a s)) ∧ _
    rw [ih, and_assoc]
    rfl

/-- **The invariant rule of runs.** -/
theorem run_keeps {I : S → Prop} (hstep : ∀ a s, C a s → I s → I (step a s)) {l : List A} {s : S}
    (hl : Along step C l s) (hs : I s) : I (run step l s) := by
  induction l generalizing s with
  | nil => exact hs
  | cons a l ih => exact ih hl.2 (hstep a s hl.1 hs)

end runs

section own
variable [DecidableEq D] {owner : A → D}

theorem own_cons_self (a : A) (l : List A) : own owner (owner a) (a :: l) = a :: own owner (owner a) l :=
  List.filter_cons_of_pos (decide_eq_true rfl)

theorem own_cons_of_ne {d : D} {a : A} (h : owner a ≠ d) (l : List A) :
    own owner d (a :: l) = own owner d l :=
  List.filter_cons_of_neg (by simpa using h)

theorem own_append (d : D) (l l' : List A) :
    own owner d (l ++ l') = own owner d l ++ own owner d l' :=
  List.filter_append l l'

end own

/-! ## 2. Separation -/

/-- **Separated agents**: no action of an allowed kind changes what another agent sees, and what it
    does, and whether it is allowed, depends on what its own agent sees. -/
structure Separated (step : A → S → S) (owner : A → D) (C : A → S → Prop)
    (view : D → S → S → Prop) : Prop where
  equivalence : ∀ d, Equivalence (view d)
  respects : ∀ {d a s}, owner a ≠ d → C a s → view d s (step a s)
  allowed : ∀ {a s t}, C a s → view (owner a) s t → C a t
  consistent : ∀ {a s t}, C a s → view (owner a) s t → view (owner a) (step a s) (step a t)

section separated
variable [DecidableEq D] {step : A → S → S} {owner : A → D} {C : A → S → Prop}
  {view : D → S → S → Prop}

/-- One run beside the run of an agent's own actions, from states the agent takes for the same. -/
theorem Separated.follows (h : Separated step owner C view) {d : D} {l : List A} {s t : S}
    (hl : Along step C l s) (hst : view d s t) :
    Along step C (own owner d l) t ∧ view d (run step l s) (run step (own owner d l) t) := by
  induction l generalizing s t with
  | nil => exact ⟨trivial, hst⟩
  | cons a l ih =>
    by_cases hd : owner a = d
    · subst hd
      obtain ⟨hal, hview⟩ := ih hl.2 (h.consistent hl.1 hst)
      rw [own_cons_self]
      exact ⟨⟨h.allowed hl.1 hst, hal⟩, hview⟩
    · have hback : view d (step a s) t := (h.equivalence d).trans
        ((h.equivalence d).symm (h.respects hd hl.1)) hst
      rw [own_cons_of_ne hd]
      exact ih hl.2 hback

/-- **Alone**: to an agent a run ends as the run of its own actions alone. -/
theorem runs_alone (h : Separated step owner C view) (d : D) {l : List A} {s : S}
    (hl : Along step C l s) :
    Along step C (own owner d l) s ∧ view d (run step l s) (run step (own owner d l) s) :=
  h.follows hl ((h.equivalence d).refl s)

/-- An order of the actions is allowed where another one is. -/
theorem along_reorder (h : Separated step owner C view) {l l' : List A} {s : S}
    (hl : Along step C l s) (heq : ∀ d, own owner d l = own owner d l') : Along step C l' s := by
  -- every beginning of the other order is allowed: the next action is so after its agent's own
  have key : ∀ p q, l' = p ++ q → Along step C p s := by
    intro p
    induction p using List.reverseRecOn with
    | nil => exact fun _ _ => trivial
    | append_singleton p a ih =>
      intro q hq
      have hp : Along step C p s := ih (a :: q) (by rw [hq, List.append_assoc]; rfl)
      obtain ⟨-, hview⟩ := runs_alone h (owner a) hp
      have hown : own owner (owner a) l =
          own owner (owner a) p ++ a :: own owner (owner a) q := by
        rw [heq, hq, List.append_assoc, own_append]
        exact congrArg _ (own_cons_self a q)
      have halone := (runs_alone h (owner a) hl).1
      rw [hown, along_append] at halone
      have ha : C a (run step p s) :=
        h.allowed halone.2.1 ((h.equivalence _).symm hview)
      exact (along_append p [a] s).mpr ⟨hp, ha, trivial⟩
  exact key l' [] (List.append_nil l').symm

/-- **The order of the turns does not matter**: runs with the same actions of each agent end the
    same to every agent. -/
theorem runs_reorder (h : Separated step owner C view) {l l' : List A} {s : S}
    (hl : Along step C l s) (heq : ∀ d, own owner d l = own owner d l') :
    Along step C l' s ∧ ∀ d, view d (run step l s) (run step l' s) := by
  have hl' := along_reorder h hl heq
  refine ⟨hl', fun d => ?_⟩
  have hv := (runs_alone h d hl).2
  rw [heq d] at hv
  exact (h.equivalence d).trans hv ((h.equivalence d).symm (runs_alone h d hl').2)

end separated

end Turns
