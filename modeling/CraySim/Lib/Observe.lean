/-
  Subject:   What can be seen of a machine from outside.

  * `observe` -- what the events of a run put out, in order, and the last state,
  * `Along` -- a condition on every event of a run, in the state the event meets,
  * `observe_bisim` -- related states of two machines that stay related look the same,
  * `Indistinguishable` -- states of one machine that no run tells apart.
-/

namespace Observe

variable {E S T O ε : Type}

def observe (step : E → S → Except ε (O × S)) : List E → S → Except ε (List O × S)
  | [], s => .ok ([], s)
  | e :: es, s =>
    (step e s).bind fun r => (observe step es r.2).map fun t => (r.1 :: t.1, t.2)

def Along (step : E → S → Except ε (O × S)) (P : S → E → Prop) : List E → S → Prop
  | [], _ => True
  | e :: es, s => P s e ∧ ∀ o s', step e s = .ok (o, s') → Along step P es s'

variable {step : E → S → Except ε (O × S)} {step' : E → T → Except ε (O × T)}

theorem Along.of_forall {P : S → E → Prop} (h : ∀ s e, P s e) (es : List E) (s : S) :
    Along step P es s := by
  induction es generalizing s with
  | nil => trivial
  | cons e es ih => exact ⟨h s e, fun _ s' _ => ih s'⟩

theorem Along.cons {P : S → E → Prop} {e : E} {es : List E} {s s' : S} {o : O} (h : P s e)
    (hstep : step e s = .ok (o, s')) (hrest : Along step P es s') : Along step P (e :: es) s := by
  refine ⟨h, fun o' t ht => ?_⟩
  obtain ⟨rfl, rfl⟩ := Prod.mk.inj (Except.ok.inj (hstep.symm.trans ht))
  exact hrest

theorem observe_cons_eq (e : E) (es : List E) (s : S) : observe step (e :: es) s =
    (step e s).bind fun r => (observe step es r.2).map fun t => (r.1 :: t.1, t.2) := rfl

theorem observe_cons {e : E} {s s' : S} {o : O} (h : step e s = .ok (o, s')) (es : List E) :
    observe step (e :: es) s = (observe step es s').map fun t => (o :: t.1, t.2) := by
  rw [observe_cons_eq, h]
  rfl

theorem observe_cons_error {e : E} {s : S} {x : ε} (h : step e s = .error x) (es : List E) :
    observe step (e :: es) s = .error x := by
  rw [observe_cons_eq, h]
  rfl

/-- Two steps put out the same and lead to related states, or fail alike. -/
inductive Alike (R : S → T → Prop) : Except ε (O × S) → Except ε (O × T) → Prop where
  | ok (o : O) {s : S} {t : T} (h : R s t) : Alike R (.ok (o, s)) (.ok (o, t))
  | error (x : ε) : Alike R (.error x) (.error x)

variable {x : Except ε (O × S)} {y : Except ε (O × T)}

theorem Alike.and {R : S → T → Prop}
    (h : Alike R x y) {P : S → Prop} {Q : T → Prop} (hx : ∀ r, x = .ok r → P r.2)
    (hy : ∀ r, y = .ok r → Q r.2) : Alike (fun s t => R s t ∧ P s ∧ Q t) x y := by
  cases h with
  | ok o h => exact .ok o ⟨h, hx _ rfl, hy _ rfl⟩
  | error e => exact .error e

theorem Alike.imp {R R' : S → T → Prop}
    (h : Alike R x y) (himp : ∀ s t, R s t → R' s t) : Alike R' x y := by
  cases h with
  | ok o h => exact .ok o (himp _ _ h)
  | error e => exact .error e

/-- **Bisimulation**: under a condition on the events that the first machine meets. -/
theorem observe_bisim {R : S → T → Prop} {P : S → E → Prop}
    (hstep : ∀ e s t, R s t → P s e → Alike R (step e s) (step' e t)) {s : S} {t : T} (h : R s t)
    {es : List E} (halong : Along step P es s) :
    Alike R (observe step es s) (observe step' es t) := by
  induction es generalizing s t with
  | nil => exact .ok [] h
  | cons e es ih =>
    have hone := hstep e s t h halong.1
    have hlater := halong.2
    rw [observe_cons_eq, observe_cons_eq]
    revert hone hlater
    generalize step e s = x, step' e t = y
    rintro (⟨o, hR⟩ | x) hlater
    · have hrest := ih hR (hlater o _ rfl)
      revert hrest
      simp only [Except.bind]
      generalize observe step es _ = x, observe step' es _ = y
      rintro (⟨os, hR'⟩ | x)
      · exact .ok (o :: os) hR'
      · exact .error x
    · exact .error x

/-- Nothing tells the two states apart. -/
def Indistinguishable (step : E → S → Except ε (O × S)) (s t : S) : Prop :=
  ∀ es, (observe step es s).map Prod.fst = (observe step es t).map Prod.fst

/-- A step on both shows the same, and tells nothing apart afterwards. -/
theorem Indistinguishable.later {s t : S} (h : Indistinguishable step s t) {e : E} {o o' : O}
    {s' t' : S} (hs : step e s = .ok (o, s')) (ht : step e t = .ok (o', t')) :
    o = o' ∧ Indistinguishable step s' t' := by
  have hcons : ∀ es, ((observe step es s').map Prod.fst).map (o :: ·) =
      ((observe step es t').map Prod.fst).map (o' :: ·) := by
    intro es
    have hes := h (e :: es)
    rw [observe_cons hs, observe_cons ht] at hes
    generalize observe step es s' = x, observe step es t' = y at hes ⊢
    rcases x with x | u
    · rcases y with y | v
      · exact hes
      · cases hes
    · rcases y with y | v
      · cases hes
      · exact hes
  refine ⟨(List.cons.inj (Except.ok.inj (hcons []))).1, fun es => ?_⟩
  have hes := hcons es
  generalize observe step es s' = x, observe step es t' = y at hes ⊢
  rcases x with x | u
  · rcases y with y | v
    · exact congrArg Except.error (Except.error.inj hes)
    · cases hes
  · rcases y with y | v
    · cases hes
    · exact congrArg Except.ok (List.cons.inj (Except.ok.inj hes)).2

/-- What machines that are alike show is the same. -/
theorem Alike.outputs_eq {R : S → T → Prop}
    (h : Alike R x y) : x.map Prod.fst = y.map Prod.fst := by
  cases h with
  | ok o h => rfl
  | error e => rfl

end Observe
