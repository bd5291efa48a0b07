/-
  Subject:   Machines that take one event after the other and can fail.

  * `run` -- the state behind a list of events, or the failure of the first bad one,
  * `Along` -- a condition on every event of a run, in the state the event meets,
  * `outputs` -- what the steps of a run put out, in order,
  * `run_keeps` -- what every event keeps that does not fail,
  * `run_avoids` -- what no step does, no run does,
  * `run_always_iff` -- exactly when every state of a run is all right,
  * `run_balance` -- nothing is lost on the way from the inputs to the outputs,
  * `run_simulates` -- one step simulated is the whole run simulated,
  * `run_refines` -- the same for events that may fail.
-/

namespace EventRun

variable {E S ε A L O : Type}

/-! ## 1. Runs -/

def run (step : E → S → Except ε S) : List E → S → Except ε S
  | [], s => .ok s
  | e :: es, s => (step e s).bind (run step es)

def Along (step : E → S → Except ε S) (P : S → E → Prop) : List E → S → Prop
  | [], _ => True
  | e :: es, s => P s e ∧ ∀ s', step e s = .ok s' → Along step P es s'

def outputs (step : E → S → Except ε S) (out : S → S → E → List O) : List E → S → List O
  | [], _ => []
  | e :: es, s =>
    match step e s with
    | .error _ => []
    | .ok s' => out s s' e ++ outputs step out es s'

def trace (step : E → S → Except ε S) (view : S → E → A) : List E → S → List A
  | [], _ => []
  | e :: es, s =>
    view s e :: match step e s with
      | .error _ => []
      | .ok s' => trace step view es s'

variable {step : E → S → Except ε S} {P : S → E → Prop} {e : E} {es : List E} {s s' : S}

/-- What a sequence gives, its second part gives for what the first part gives. -/
theorem exists_of_bind {x : Except ε S} {f : S → Except ε A} {b : A} (h : x.bind f = .ok b) :
    ∃ a, x = .ok a ∧ f a = .ok b := by
  cases x with
  | error e => exact absurd h (by simp [Except.bind])
  | ok a => exact ⟨a, rfl, h⟩

theorem map_eq_ok_iff {B : Type} {x : Except ε A} {f : A → B} {b : B} :
    x.map f = .ok b ↔ ∃ a, x = .ok a ∧ f a = b := by
  cases x with
  | error e => simp [Except.map]
  | ok a => simp [Except.map]

theorem run_cons (h : step e s = .ok s') : run step (e :: es) s = run step es s' := by
  rw [run, h]
  rfl

theorem run_append (es es' : List E) (s : S) :
    run step (es ++ es') s = (run step es s).bind (run step es') := by
  induction es generalizing s with
  | nil => rfl
  | cons e es ih =>
    rw [List.cons_append, run, run]
    rcases step e s with e | s'
    · rfl
    · exact ih s'

theorem run_append_ok (es' : List E) (h : run step es s = .ok s') :
    run step (es ++ es') s = run step es' s' := by
  rw [run_append, h]
  rfl

theorem outputs_cons {out : S → S → E → List O} (h : step e s = .ok s') :
    outputs step out (e :: es) s = out s s' e ++ outputs step out es s' := by
  rw [outputs, h]

theorem trace_cons {view : S → E → A} (h : step e s = .ok s') :
    trace step view (e :: es) s = view s e :: trace step view es s' := by
  rw [trace, h]

/-- Of a single event the view is all there is, whether the event fails or not. -/
theorem trace_one (view : S → E → A) : trace step view [e] s = [view s e] := by
  rw [trace]
  cases step e s <;> rfl

/-- Where every event of the list meets the condition in any state. -/
theorem along_of_mem (h : ∀ e ∈ es, ∀ s, P s e) (s : S) : Along step P es s := by
  induction es generalizing s with
  | nil => trivial
  | cons e es ih =>
    exact ⟨h e List.mem_cons_self s, fun s' _ => ih (fun e he => h e (List.mem_cons_of_mem _ he)) s'⟩

theorem along_true (es : List E) (s : S) : Along step (fun _ _ => True) es s :=
  along_of_mem (fun _ _ _ => trivial) s

theorem Along.one (h : P s e) : Along step P [e] s := ⟨h, fun _ _ => trivial⟩

theorem Along.cons (h : P s e) (hstep : step e s = .ok s') (hrest : Along step P es s') :
    Along step P (e :: es) s :=
  ⟨h, fun s₁ h₁ => by
    obtain rfl : s' = s₁ := Except.ok.inj (hstep.symm.trans h₁)
    exact hrest⟩

theorem Along.and {Q : S → E → Prop} (hP : Along step P es s) (hQ : Along step Q es s) :
    Along step (fun s e => P s e ∧ Q s e) es s := by
  induction es generalizing s with
  | nil => trivial
  | cons e es ih => exact ⟨⟨hP.1, hQ.1⟩, fun s' hs' => ih (hP.2 s' hs') (hQ.2 s' hs')⟩

/-- Two conditions that are the same wherever a third one is met. -/
theorem along_congr {Q H : S → E → Prop} (h : ∀ s e, H s e → (P s e ↔ Q s e))
    (hH : Along step H es s) : Along step P es s ↔ Along step Q es s := by
  induction es generalizing s with
  | nil => exact Iff.rfl
  | cons e es ih =>
    exact and_congr (h s e hH.1) (forall₂_congr fun s' hs' => ih (hH.2 s' hs'))

theorem Along.concat (h : Along step P es s) (hlast : ∀ s', run step es s = .ok s' → P s' e) :
    Along step P (es ++ [e]) s := by
  induction es generalizing s with
  | nil => exact ⟨hlast s rfl, fun _ _ => trivial⟩
  | cons e' es ih =>
    refine ⟨h.1, fun s₁ hone => ih (h.2 s₁ hone) fun s' hrest => hlast s' ?_⟩
    rw [run_cons hone, hrest]

theorem Along.append_one (h : Along step P (es ++ [e]) s) (hrun : run step es s = .ok s') :
    Along step P es s ∧ P s' e := by
  induction es generalizing s with
  | nil =>
    obtain rfl : s = s' := Except.ok.inj hrun
    exact ⟨trivial, h.1⟩
  | cons e' es ih =>
    obtain ⟨s₁, hone, hrest⟩ := exists_of_bind hrun
    refine ⟨.cons h.1 hone (ih (h.2 s₁ hone) hrest).1, (ih (h.2 s₁ hone) hrest).2⟩

/-! ## 2. Rules -/

/-- What every event keeps that does not fail, a run keeps. -/
theorem run_keeps {I : S → Prop} (hstep : ∀ s e s', I s → P s e → step e s = .ok s' → I s')
    (hs : I s) (h : Along step P es s) (hrun : run step es s = .ok s') : I s' := by
  induction es generalizing s with
  | nil => exact Except.ok.inj hrun ▸ hs
  | cons e es ih =>
    obtain ⟨s₁, hone, hrest⟩ := exists_of_bind hrun
    exact ih (hstep s e s₁ hs h.1 hone) (h.2 s₁ hone) hrest

/-- What no step does in a state that the steps keep, no run does. -/
theorem run_avoids {I : S → Prop} {bad : ε}
    (hstep : ∀ s e s', I s → P s e → step e s = .ok s' → I s')
    (hsafe : ∀ s e, I s → P s e → step e s ≠ .error bad) (hs : I s) (h : Along step P es s) :
    run step es s ≠ .error bad := by
  induction es generalizing s with
  | nil => simp [run]
  | cons e es ih =>
    cases hone : step e s with
    | error err =>
      have hfail : run step (e :: es) s = .error err := by rw [run, hone]; rfl
      rw [hfail, ← hone]
      exact hsafe s e hs h.1
    | ok s₁ =>
      rw [run_cons hone]
      exact ih (hstep s e s₁ hs h.1 hone) (h.2 s₁ hone)

/-- **Exactness**: where the condition keeps an invariant that is all right, and a step without it
    goes wrong at once, a run is all right up to its end exactly where it meets the condition. -/
theorem run_always_iff {I Fine : S → Prop} {Q : E → Prop} (hfine : ∀ s, I s → Fine s)
    (hstep : ∀ s e s', I s → Q e → P s e → step e s = .ok s' → I s')
    (hwrong : ∀ s e, I s → Q e → ¬ P s e → ∃ s', step e s = .ok s' ∧ ¬ Fine s')
    (hQ : ∀ e ∈ es, Q e) (hs : I s) :
    (∀ before s', before <+: es → run step before s = .ok s' → Fine s') ↔ Along step P es s := by
  induction es generalizing s with
  | nil =>
    refine iff_of_true (fun before s' hbefore hrun => ?_) trivial
    obtain rfl := List.prefix_nil.mp hbefore
    exact Except.ok.inj hrun ▸ hfine s hs
  | cons e es ih =>
    have he := hQ e List.mem_cons_self
    have hQ' : ∀ e ∈ es, Q e := fun e he => hQ e (List.mem_cons_of_mem _ he)
    constructor
    · intro h
      have hP : P s e := Classical.byContradiction fun hP => by
        obtain ⟨s', hone, hbad⟩ := hwrong s e hs he hP
        exact hbad (h [e] s' ⟨es, rfl⟩ ((run_cons hone).trans rfl))
      refine ⟨hP, fun s₁ hone => (ih hQ' (hstep s e s₁ hs he hP hone)).mp ?_⟩
      intro before s' hbefore hrun
      exact h (e :: before) s' (List.cons_prefix_cons.mpr ⟨rfl, hbefore⟩)
        ((run_cons hone).trans hrun)
    · intro h before s' hbefore hrun
      cases before with
      | nil => exact Except.ok.inj hrun ▸ hfine s hs
      | cons e' before =>
        obtain ⟨rfl, htail⟩ := List.cons_prefix_cons.mp hbefore
        obtain ⟨s₁, hone, hrest⟩ := exists_of_bind hrun
        exact (ih hQ' (hstep s e' s₁ hs he h.1 hone)).mpr (h.2 s₁ hone) before s' htail hrest

/-- **Balance**: where every step puts out, or keeps pending, what was pending and what it takes
    in, a run does so. -/
theorem run_balance {I : S → Prop} {pending : S → List O} {input : E → List O}
    {out : S → S → E → List O}
    (hstep : ∀ s e, I s → P s e →
      ∃ s', step e s = .ok s' ∧ I s' ∧ out s s' e ++ pending s' = pending s ++ input e)
    (hs : I s) (h : Along step P es s) :
    ∃ s', run step es s = .ok s' ∧ I s' ∧
      outputs step out es s ++ pending s' = pending s ++ es.flatMap input := by
  induction es generalizing s with
  | nil => exact ⟨s, rfl, hs, by simp [outputs]⟩
  | cons e es ih =>
    obtain ⟨s₁, hone, hs₁, hbalance⟩ := hstep s e hs h.1
    obtain ⟨s', hrun, hs', hrest⟩ := ih hs₁ (h.2 s₁ hone)
    refine ⟨s', (run_cons hone).trans hrun, hs', ?_⟩
    calc outputs step out (e :: es) s ++ pending s'
        = out s s₁ e ++ (outputs step out es s₁ ++ pending s') := by
          rw [outputs_cons hone, List.append_assoc]
      _ = out s s₁ e ++ pending s₁ ++ es.flatMap input := by rw [hrest, List.append_assoc]
      _ = pending s ++ (e :: es).flatMap input := by
          rw [hbalance, List.flatMap_cons, List.append_assoc]

/-- **Simulation**: where another machine can follow every step, it can follow a run. -/
theorem run_simulates {R : S → L → Prop} {view : S → E → A} {follow : A → L → L} {l : L}
    (hstep : ∀ s l e, R s l → P s e → ∃ s', step e s = .ok s' ∧ R s' (follow (view s e) l))
    (hs : R s l) (h : Along step P es s) :
    ∃ s', run step es s = .ok s' ∧
      R s' ((trace step view es s).foldl (fun l a => follow a l) l) := by
  induction es generalizing s l with
  | nil => exact ⟨s, rfl, hs⟩
  | cons e es ih =>
    obtain ⟨s₁, hone, hs₁⟩ := hstep s l e hs h.1
    obtain ⟨s', hrun, hs'⟩ := ih hs₁ (h.2 s₁ hone)
    refine ⟨s', (run_cons hone).trans hrun, ?_⟩
    rw [trace_cons hone]
    exact hs'

/-- **Refinement**: the same for machines whose events may fail; a run that does not fail is
    followed. -/
theorem run_refines {R : S → L → Prop} {view : S → E → A} {follow : A → L → L} {l : L}
    (hstep : ∀ s l e s', R s l → P s e → step e s = .ok s' → R s' (follow (view s e) l))
    (hs : R s l) (h : Along step P es s) (hrun : run step es s = .ok s') :
    R s' ((trace step view es s).foldl (fun l a => follow a l) l) := by
  induction es generalizing s l with
  | nil =>
    obtain rfl : s = s' := Except.ok.inj hrun
    exact hs
  | cons e es ih =>
    obtain ⟨s₁, hone, hrest⟩ := exists_of_bind hrun
    rw [trace_cons hone]
    exact ih (hstep s l e s₁ hs h.1 hone) (h.2 s₁ hone) hrest

end EventRun
