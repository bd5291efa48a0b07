/-
  Subject:   A bank of cells with test-and-set, over all interleavings.

  Several parties test-and-set cells and store to them; every operation is atomic, so a run is the
  list of the operations in the order they took effect, whoever made them.

  * `Event`, `Path` -- an operation with its outcome, and the runs of a bank,
  * `Path.last_stored` -- a cell holds what was stored to it last,
  * `Path.clear_between` -- a cell taken twice was cleared in between.
-/
import Mathlib.Logic.Function.Basic

namespace TestAndSet

/-- An operation on a cell; a test-and-set records whether it took the cell. -/
inductive Event (ι : Type) where
  | testAndSet (i : ι) (taken : Bool)
  | store (i : ι) (v : Bool)
  deriving DecidableEq

namespace Event

variable {ι : Type}

def cell : Event ι → ι
  | testAndSet i _ => i
  | store i _ => i

/-- What the operation leaves in its cell. -/
def value : Event ι → Bool
  | testAndSet _ _ => true
  | store _ v => v

def apply [DecidableEq ι] (e : Event ι) (sm : ι → Bool) : ι → Bool :=
  Function.update sm e.cell e.value

/-- A test-and-set takes its cell exactly if the cell is free. -/
def Fits (sm : ι → Bool) : Event ι → Prop
  | testAndSet i taken => taken = !sm i
  | store _ _ => True

end Event

variable {ι : Type} [DecidableEq ι]

/-- A run of a bank of cells. -/
inductive Path : (ι → Bool) → List (Event ι) → (ι → Bool) → Prop where
  | nil {sm : ι → Bool} : Path sm [] sm
  | cons {sm sm' : ι → Bool} {e : Event ι} {l : List (Event ι)} (he : e.Fits sm)
      (h : Path (e.apply sm) l sm') : Path sm (e :: l) sm'

/-- What is stored to a cell last, `v` if nothing is. -/
def lastStored (i : ι) (v : Bool) (l : List (Event ι)) : Bool :=
  l.foldl (fun v e => if e.cell = i then e.value else v) v

section path
variable {sm sm' sm'' : ι → Bool} {l l' : List (Event ι)} {i : ι}

theorem Path.append (h : Path sm l sm') (h' : Path sm' l' sm'') : Path sm (l ++ l') sm'' := by
  induction h with
  | nil => exact h'
  | cons he _ ih => exact Path.cons he (ih h')

theorem Path.split (h : Path sm (l ++ l') sm'') : ∃ sm', Path sm l sm' ∧ Path sm' l' sm'' := by
  induction l generalizing sm with
  | nil => exact ⟨sm, Path.nil, h⟩
  | cons e l ih =>
    cases h with
    | cons he h =>
      obtain ⟨sm', h1, h2⟩ := ih h
      exact ⟨sm', Path.cons he h1, h2⟩

/-- **A cell holds what was stored to it last.** -/
theorem Path.last_stored (h : Path sm l sm') (i : ι) : sm' i = lastStored i (sm i) l := by
  induction h with
  | nil => rfl
  | @cons sm sm' e l he _ ih =>
    rw [ih]
    unfold lastStored
    rw [List.foldl_cons, Event.apply, Function.update_apply]
    by_cases hi : e.cell = i
    · rw [if_pos hi.symm, if_pos hi]
    · rw [if_neg fun h => hi h.symm, if_neg hi]

/-- A cell that every operation on it leaves at `v`. -/
theorem Path.eq_of_forall {v : Bool} (h : Path sm l sm') (hl : ∀ e ∈ l, e.cell = i → e.value = v)
    (hv : sm i = v ∨ ∃ e ∈ l, e.cell = i) : sm' i = v := by
  induction h with
  | nil =>
    rcases hv with hv | ⟨e, he, -⟩
    · exact hv
    · cases he
  | @cons sm sm' e l he _ ih =>
    have hl' : ∀ e' ∈ l, e'.cell = i → e'.value = v := fun e' h => hl e' (List.mem_cons_of_mem _ h)
    apply ih hl'
    by_cases hi : e.cell = i
    · left
      rw [Event.apply, hi, Function.update_self]
      exact hl e List.mem_cons_self hi
    · rcases hv with hv | ⟨e', he', hi'⟩
      · left
        rw [Event.apply, Function.update_of_ne fun h => hi h.symm]
        exact hv
      · rcases List.mem_cons.mp he' with rfl | he'
        · exact absurd hi' hi
        · exact Or.inr ⟨e', he', hi'⟩

/-- Operations that leave what they find change nothing. -/
theorem Path.unchanged (h : Path sm l sm') (hl : ∀ e ∈ l, e.value = sm e.cell) : sm' = sm := by
  funext i
  exact h.eq_of_forall (fun e he hi => hi ▸ hl e he) (Or.inl rfl)

/-- A cell stays taken as long as it is not cleared. -/
theorem Path.stays_taken (h : Path sm l sm') (hi : sm i = true) (hl : Event.store i false ∉ l) :
    sm' i = true := by
  refine h.eq_of_forall ?_ (Or.inl hi)
  rintro (⟨j, taken⟩ | ⟨j, v⟩) he hj
  · rfl
  · cases v with
    | true => rfl
    | false =>
      have hj' : j = i := hj
      exact absurd (hj' ▸ he) hl

/-- **Mutual exclusion**: between two test-and-sets that take the same cell it is cleared. -/
theorem Path.clear_between {l₁ l₂ l₃ : List (Event ι)}
    (h : Path sm (l₁ ++ .testAndSet i true :: (l₂ ++ .testAndSet i true :: l₃)) sm') :
    Event.store i false ∈ l₂ := by
  obtain ⟨sm₁, -, h⟩ := h.split
  cases h with
  | cons _ h =>
    obtain ⟨sm₂, h₂, h⟩ := h.split
    cases h with
    | cons hfree _ =>
      -- the second one found the cell free
      have hsm₂ : sm₂ i = false := by
        have : true = !sm₂ i := hfree
        rwa [eq_comm, Bool.not_eq_true'] at this
      by_contra hnot
      have hset : (Event.testAndSet i true).apply sm₁ i = true := by
        simp [Event.apply, Event.cell, Event.value]
      have htaken : sm₂ i = true := h₂.stays_taken hset hnot
      rw [hsm₂] at htaken
      cases htaken

end path

end TestAndSet
