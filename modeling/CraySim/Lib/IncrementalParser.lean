/-
  Subject:   Parsers whose input arrives in pieces.

  A parser takes from the front of its buffer what it can use and leaves the rest for later. A
  step that succeeds does the same on a longer buffer; one that waits or fails may do otherwise.

  * `Parser` -- one step, with what makes the loop end and the pieces fit,
  * `drain` -- the loop over one buffer,
  * `drain_append` -- more input behind a buffer that was drained,
  * `drain_alike` -- states that take the same from every buffer,
  * `feed` -- the pieces one after the other,
  * `feed_ok` -- if no prefix of the input fails, neither do the pieces, and what they give is what
    the input as a whole gives.
-/

namespace IncrementalParser

variable {S B O ε : Type}

/-- What a step or a loop leaves: the state, what came out, and the rest of the buffer. -/
structure Progress (S B O : Type) where
  state : S
  out : List O
  rest : List B

/-- A step waits, fails, or makes progress. -/
structure Parser (S B O ε : Type) where
  step : S → List B → Option (Except ε (Progress S B O))
  rank : S → List B → Nat
  decreases : ∀ {s buf r}, step s buf = some (.ok r) → rank r.state r.rest < rank s buf
  extended : ∀ {s buf r}, step s buf = some (.ok r) → ∀ more,
    step s (buf ++ more) = some (.ok { r with rest := r.rest ++ more })

variable (p : Parser S B O ε)

namespace Parser

/-- The loop: steps until one waits. -/
def drain (s : S) (buf : List B) : Except ε (Progress S B O) :=
  match _h : p.step s buf with
  | none => .ok ⟨s, [], buf⟩
  | some (.error e) => .error e
  | some (.ok r) => (drain r.state r.rest).map fun t => { t with out := r.out ++ t.out }
  termination_by p.rank s buf
  decreasing_by exact p.decreases _h

/-- The pieces of the input one after the other, each behind what is left of the ones before. -/
def feed : S → List B → List (List B) → Except ε (Progress S B O)
  | s, buf, [] => .ok ⟨s, [], buf⟩
  | s, buf, piece :: pieces =>
    (p.drain s (buf ++ piece)).bind fun r =>
      (feed r.state r.rest pieces).map fun t => { t with out := r.out ++ t.out }

variable {p} {s : S} {buf : List B} {r : Progress S B O}

theorem drain_wait (h : p.step s buf = none) : p.drain s buf = .ok ⟨s, [], buf⟩ := by
  rw [drain]
  split
  · rfl
  · rename_i h'
    exact absurd (h.symm.trans h') (by simp)
  · rename_i h'
    exact absurd (h.symm.trans h') (by simp)

theorem drain_error {e : ε} (h : p.step s buf = some (.error e)) : p.drain s buf = .error e := by
  rw [drain]
  split
  · rename_i h'
    exact absurd (h.symm.trans h') (by simp)
  · rename_i e' h'
    obtain rfl : e = e' := by simpa using h.symm.trans h'
    rfl
  · rename_i h'
    exact absurd (h.symm.trans h') (by simp)

theorem drain_ok (h : p.step s buf = some (.ok r)) :
    p.drain s buf = (p.drain r.state r.rest).map fun t => { t with out := r.out ++ t.out } := by
  rw [drain]
  split
  · rename_i h'
    exact absurd (h.symm.trans h') (by simp)
  · rename_i h'
    exact absurd (h.symm.trans h') (by simp)
  · rename_i r' h'
    obtain rfl : r = r' := by simpa using h.symm.trans h'
    rfl

/-- The loop, as far as `n` steps. -/
def steps (p : Parser S B O ε) : Nat → S → List B → Option (Except ε (Progress S B O))
  | 0, _, _ => none
  | n + 1, s, buf =>
    match p.step s buf with
    | none => some (.ok ⟨s, [], buf⟩)
    | some (.error e) => some (.error e)
    | some (.ok r) =>
      (steps p n r.state r.rest).map fun x => x.map fun t => { t with out := r.out ++ t.out }

/-- Where the steps are enough, they are the loop. -/
theorem drain_of_steps {n : Nat} {x : Except ε (Progress S B O)} (h : p.steps n s buf = some x) :
    p.drain s buf = x := by
  induction n generalizing s buf x with
  | zero => cases h
  | succ n ih =>
    rw [steps] at h
    rcases hstep : p.step s buf with - | e | r
    · rw [hstep] at h
      rw [drain_wait hstep]
      exact Option.some.inj h
    · rw [hstep] at h
      rw [drain_error hstep]
      exact Option.some.inj h
    · rw [hstep] at h
      obtain ⟨y, hy, rfl⟩ := Option.map_eq_some_iff.mp h
      rw [drain_ok hstep, ih hy]

/-- A step that is known to come out on every longer buffer, in front of the loop. -/
theorem drain_step_append (h : p.step s buf = some (.ok r)) (more : List B) :
    p.drain s (buf ++ more) =
      (p.drain r.state (r.rest ++ more)).map fun t => { t with out := r.out ++ t.out } :=
  drain_ok (p.extended h more)

/-- **More input**: draining goes on where it stopped. -/
theorem drain_append (h : p.drain s buf = .ok r) (more : List B) :
    p.drain s (buf ++ more) =
      (p.drain r.state (r.rest ++ more)).map fun t => { t with out := r.out ++ t.out } := by
  induction hn : p.rank s buf using Nat.strongRecOn generalizing s buf r with
  | ind n ih =>
    subst hn
    rcases hstep : p.step s buf with - | e | r₁
    · obtain rfl := Except.ok.inj ((drain_wait hstep).symm.trans h)
      rcases p.drain s (buf ++ more) with e | t
      · rfl
      · rfl
    · exact absurd ((drain_error hstep).symm.trans h) (by simp)
    · rw [drain_ok hstep] at h
      rcases hrest : p.drain r₁.state r₁.rest with e | t
      · rw [hrest] at h
        exact absurd h (by simp [Except.map])
      · rw [hrest] at h
        obtain rfl := Except.ok.inj h
        rw [drain_step_append hstep, ih _ (p.decreases hstep) hrest rfl]
        rcases p.drain t.state (t.rest ++ more) with e | t'
        · rfl
        · simp only [Except.map, List.append_assoc]

theorem feed_nil (s : S) (buf : List B) : p.feed s buf [] = .ok ⟨s, [], buf⟩ := rfl

theorem feed_cons_eq (s : S) (buf piece : List B) (pieces : List (List B)) :
    p.feed s buf (piece :: pieces) = (p.drain s (buf ++ piece)).bind fun r =>
      (p.feed r.state r.rest pieces).map fun t => { t with out := r.out ++ t.out } := rfl

theorem feed_cons {piece : List B} (h : p.drain s (buf ++ piece) = .ok r) (pieces : List (List B)) :
    p.feed s buf (piece :: pieces) =
      (p.feed r.state r.rest pieces).map fun t => { t with out := r.out ++ t.out } := by
  rw [feed_cons_eq, h]
  rfl

theorem feed_singleton (s : S) (buf piece : List B) :
    p.feed s buf [piece] = p.drain s (buf ++ piece) := by
  rw [feed_cons_eq]
  rcases p.drain s (buf ++ piece) with e | r
  · rfl
  · simp [feed_nil, Except.bind, Except.map]

/-- **The pieces**: where no prefix of the input fails, the pieces give what the whole gives. -/
theorem feed_ok {piece : List B} {pieces : List (List B)}
    (h : ∀ q, q <+: (piece :: pieces).flatten → ∃ r, p.drain s (buf ++ q) = .ok r) :
    ∃ r, p.feed s buf (piece :: pieces) = .ok r ∧
      p.drain s (buf ++ (piece :: pieces).flatten) = .ok r := by
  induction pieces generalizing s buf piece with
  | nil =>
    obtain ⟨r, hr⟩ := h piece (by simp)
    refine ⟨r, ?_, by simpa using hr⟩
    rw [feed_cons hr]
    simp [feed_nil, Except.map]
  | cons next pieces ih =>
    obtain ⟨r, hr⟩ := h piece (by simp)
    obtain ⟨t, hfeed, hdrain⟩ := ih (by
      intro q hq
      obtain ⟨t, ht⟩ := h (piece ++ q) (by simpa using (List.prefix_append_right_inj piece).mpr hq)
      rw [← List.append_assoc, drain_append hr] at ht
      rcases hq : p.drain r.state (r.rest ++ q) with e | u
      · rw [hq] at ht
        exact absurd ht (by simp [Except.map])
      · exact ⟨u, rfl⟩)
    refine ⟨{ t with out := r.out ++ t.out }, ?_, ?_⟩
    · rw [feed_cons hr, hfeed]
      rfl
    · rw [List.flatten_cons, ← List.append_assoc, drain_append hr, hdrain]
      rfl

/-- Two states take the same from the same buffer, and lead to related ones. -/
inductive Alike (R : S → S → Prop) :
    Except ε (Progress S B O) → Except ε (Progress S B O) → Prop where
  | ok {t t' : S} (out : List O) (rest : List B) (h : R t t') :
    Alike R (.ok ⟨t, out, rest⟩) (.ok ⟨t', out, rest⟩)
  | error (e : ε) : Alike R (.error e) (.error e)

/-- So do two steps, of which either both wait or none does. -/
inductive StepAlike (R : S → S → Prop) :
    Option (Except ε (Progress S B O)) → Option (Except ε (Progress S B O)) → Prop where
  | wait : StepAlike R none none
  | go {x y : Except ε (Progress S B O)} (h : Alike R x y) : StepAlike R (some x) (some y)

/-- States whose steps are alike take the same from every buffer. -/
theorem drain_alike {R : S → S → Prop}
    (hstep : ∀ s s' buf, R s s' → StepAlike R (p.step s buf) (p.step s' buf))
    {s s' : S} (h : R s s') (buf : List B) : Alike R (p.drain s buf) (p.drain s' buf) := by
  induction hn : p.rank s buf using Nat.strongRecOn generalizing s s' buf with
  | ind n ih =>
    subst hn
    have hone := hstep s s' buf h
    rcases hs : p.step s buf with - | x
    · rw [hs] at hone
      rcases hs' : p.step s' buf with - | y
      · rw [drain_wait hs, drain_wait hs']
        exact .ok [] buf h
      · rw [hs'] at hone
        cases hone
    rcases hs' : p.step s' buf with - | y
    · rw [hs, hs'] at hone
      cases hone
    rw [hs, hs'] at hone
    obtain - | hxy := hone
    cases hxy with
    | error e =>
      rw [drain_error hs, drain_error hs']
      exact .error e
    | ok out rest hR =>
      rw [drain_ok hs, drain_ok hs']
      have hrest := ih _ (p.decreases hs) hR rest rfl
      revert hrest
      generalize p.drain _ rest = x, p.drain _ rest = y
      rintro (⟨more, rest', hR'⟩ | e)
      · exact .ok (out ++ more) rest' hR'
      · exact .error e

end Parser

end IncrementalParser
