/-
  Subject:   Loops that need not end.

  The body of the loop goes on with a state or ends with a result. The rounds are counted by fuel;
  a loop ends where some fuel is enough.

  * `loop`, `Ends` -- the rounds, and the result they end with,
  * `ends_iff_next` -- a round more or less makes no difference,
  * `Ends.unique` -- there is one result,
  * `ends_of_variant` -- a loop that makes something smaller ends,
  * `not_ends` -- a loop that keeps what makes it go on does not.
-/

namespace DoWhile

variable {S R : Type} {body : S → S ⊕ R} {s s' : S} {r r' : R}

/-- The rounds of a loop, as many as the fuel allows. -/
def loop (body : S → S ⊕ R) : Nat → S → Option R
  | 0, _ => none
  | fuel + 1, s =>
    match body s with
    | .inl s' => loop body fuel s'
    | .inr r => some r

/-- The loop ends, with that result. -/
def Ends (body : S → S ⊕ R) (s : S) (r : R) : Prop := ∃ fuel, loop body fuel s = some r

theorem loop_succ {fuel : Nat} : loop body (fuel + 1) s =
    match body s with
    | .inl s' => loop body fuel s'
    | .inr r => some r := rfl

theorem loop_zero_ne : loop body 0 s ≠ some r := fun h => Option.some_ne_none r h.symm

theorem loop_inl {fuel : Nat} (h : body s = .inl s') : loop body (fuel + 1) s = loop body fuel s' := by
  rw [loop_succ, h]

theorem loop_inr {fuel : Nat} (h : body s = .inr r) : loop body (fuel + 1) s = some r := by
  rw [loop_succ, h]

theorem ends_last (h : body s = .inr r) : Ends body s r := ⟨1, loop_inr h⟩

theorem ends_iff_next (h : body s = .inl s') : Ends body s r ↔ Ends body s' r := by
  constructor
  · intro ⟨fuel, hfuel⟩
    cases fuel with
    | zero => exact absurd hfuel loop_zero_ne
    | succ fuel => exact ⟨fuel, loop_inl h ▸ hfuel⟩
  · intro ⟨fuel, hfuel⟩
    exact ⟨fuel + 1, (loop_inl h).trans hfuel⟩

theorem ends_iff_last (h : body s = .inr r') : Ends body s r ↔ r' = r := by
  constructor
  · intro ⟨fuel, hfuel⟩
    cases fuel with
    | zero => exact absurd hfuel loop_zero_ne
    | succ fuel => exact Option.some.inj ((loop_inr h).symm.trans hfuel)
  · intro hr
    exact hr ▸ ends_last h

theorem Ends.unique (h : Ends body s r) (h' : Ends body s r') : r = r' := by
  obtain ⟨fuel, hfuel⟩ := h
  induction fuel generalizing s with
  | zero => exact absurd hfuel loop_zero_ne
  | succ fuel ih =>
    cases hs : body s with
    | inl s' => exact ih ((ends_iff_next hs).mp h') (loop_inl hs ▸ hfuel)
    | inr t =>
      have hr : t = r := Option.some.inj ((loop_inr hs).symm.trans hfuel)
      exact hr ▸ (ends_iff_last hs).mp h'

/-- A loop whose rounds keep `I` and make `m` smaller ends, and what it ends with is what a last
    round gives in a state with `I`. -/
theorem ends_of_variant (body : S → S ⊕ R) (I : S → Prop) (m : S → Nat)
    (hstep : ∀ s s', I s → body s = .inl s' → I s' ∧ m s' < m s) (hs : I s) :
    ∃ t r, I t ∧ body t = .inr r ∧ Ends body s r := by
  have hall : ∀ n s, I s → m s < n → ∃ t r, I t ∧ body t = .inr r ∧ Ends body s r := by
    intro n
    induction n with
    | zero => exact fun s _ hm => absurd hm (Nat.not_lt_zero _)
    | succ n ih =>
      intro s hs hm
      cases hb : body s with
      | inr r => exact ⟨s, r, hs, hb, ends_last hb⟩
      | inl s' =>
        obtain ⟨hs', hless⟩ := hstep s s' hs hb
        obtain ⟨t, r, ht, hlast, hends⟩ := ih s' hs' (by omega)
        exact ⟨t, r, ht, hlast, (ends_iff_next hb).mpr hends⟩
  exact hall (m s + 1) s hs (Nat.lt_succ_self _)

/-- A loop that goes on wherever `I` holds, and keeps it, does not end. -/
theorem not_ends (I : S → Prop) (hstep : ∀ s, I s → ∃ s', body s = .inl s' ∧ I s') (hs : I s) :
    ¬ Ends body s r := by
  intro ⟨fuel, hfuel⟩
  induction fuel generalizing s with
  | zero => exact absurd hfuel loop_zero_ne
  | succ fuel ih =>
    obtain ⟨s', hb, hs'⟩ := hstep s hs
    exact ih hs' (loop_inl hb ▸ hfuel)

end DoWhile
