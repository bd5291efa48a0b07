/-
  Subject:   Two computations side by side.

  From related states two computations return or throw the same, and leave related states. The
  relation of the states they leave may be another one than that of the states they start from:
  what a step sets is the same afterwards, whatever it was.

  * `Run.Agree R Q m m'` -- from states in `R`, the same answer and states in `Q`,
  * `Agree.bind` -- a sequence, with a relation of its own in between,
  * `Agree.guard` -- a step under a condition, and what comes behind it,
  * `agree_get` -- a step that looks at the state: what it then does must agree,
  * `run_agree` -- two runs of one program, from what each request of the first one does,
  * `run_of_trace` -- one run, from what each request it really makes keeps.
-/
import CraySim.Lib.Program

namespace Run

variable {ε S T α β : Type} {R M Q : S → T → Prop}

/-- From states in `R` both computations return or throw the same and leave states in `Q`. -/
def Agree (R Q : S → T → Prop) (m : Run ε S α) (m' : Run ε T α) : Prop :=
  ∀ s t, R s t → (m s).1 = (m' t).1 ∧ Q (m s).2 (m' t).2

/-- **Sequencing**: an exception of the first part ends both, in states of `M`. -/
theorem Agree.bind {m : Run ε S α} {m' : Run ε T α} {f : α → Run ε S β} {f' : α → Run ε T β}
    (hm : Agree R M m m') (hMQ : ∀ s t, M s t → Q s t) (hf : ∀ a, Agree M Q (f a) (f' a)) :
    Agree R Q (m >>= f) (m' >>= f') := by
  intro s t hst
  obtain ⟨hanswer, hstate⟩ := hm s t hst
  rcases hs : m s with ⟨e | a, s'⟩
  · rcases ht : m' t with ⟨e' | b, t'⟩
    · rw [hs, ht] at hanswer hstate
      rw [bind_apply_error hs, bind_apply_error ht]
      exact ⟨congrArg _ (Except.error.inj hanswer), hMQ _ _ hstate⟩
    · rw [hs, ht] at hanswer
      cases hanswer
  · rcases ht : m' t with ⟨e' | b, t'⟩
    · rw [hs, ht] at hanswer
      cases hanswer
    · rw [hs, ht] at hanswer hstate
      cases hanswer
      rw [bind_apply_ok hs, bind_apply_ok ht]
      exact hf a s' t' hstate

theorem Agree.seq {m : Run ε S α} {m' : Run ε T α} {f : α → Run ε S β} {f' : α → Run ε T β}
    (hm : Agree R R m m') (hf : ∀ a, Agree R R (f a) (f' a)) :
    Agree R R (m >>= f) (m' >>= f') :=
  hm.bind (fun _ _ h => h) hf

theorem Agree.ite {c : Prop} [Decidable c] {m n : Run ε S α} {m' n' : Run ε T α}
    (hm : c → Agree R Q m m') (hn : ¬ c → Agree R Q n n') :
    Agree R Q (if c then m else n) (if c then m' else n') := by
  split
  · exact hm ‹c›
  · exact hn ‹¬ c›

/-- A step that is taken under a condition, and what comes behind it. -/
theorem Agree.guard {c : Prop} [Decidable c] {m : Run ε S α} {m' : Run ε T α} {n : Run ε S β}
    {n' : Run ε T β} (hm : Agree R R m m') (hRQ : ∀ s t, R s t → Q s t) (hn : Agree R Q n n') :
    Agree R Q (if c then m >>= fun _ => n else n) (if c then m' >>= fun _ => n' else n') :=
  .ite (fun _ => hm.bind hRQ fun _ => hn) fun _ => hn

theorem agree_pure (h : ∀ s t, R s t → Q s t) (a : α) :
    Agree R Q (pure a : Run ε S α) (pure a : Run ε T α) :=
  fun s t hst => ⟨rfl, h s t hst⟩

theorem agree_throw (h : ∀ s t, R s t → Q s t) (e : ε) :
    Agree R Q (throw e : Run ε S α) (throw e : Run ε T α) :=
  fun s t hst => ⟨rfl, h s t hst⟩

theorem agree_modify {f : S → S} {f' : T → T} (h : ∀ s t, R s t → Q (f s) (f' t)) :
    Agree R Q (modify f : Run ε S Unit) (modify f') :=
  fun s t hst => ⟨rfl, h s t hst⟩

theorem agree_get {f : S → Run ε S α} {f' : T → Run ε T α}
    (h : ∀ s t, R s t → Agree R Q (f s) (f' t)) : Agree R Q (get >>= f) (get >>= f') :=
  fun s t hst => h s t hst s t hst

end Run

/-! ## Programs -/

namespace Program

variable {Req : Type} {Resp : Req → Type} {ε α S T : Type} {h : Handler Req Resp ε S}
  {h' : Handler Req Resp ε T} {p : Req × S → Prop}

variable {m : Program Req Resp ε α}

/-- What the requests of a run keep, the run keeps; only those it really makes count. -/
theorem run_of_trace {I : S → Prop} (hstep : ∀ r s, p (r, s) → I s → I (h r s).2)
    {s : S} (htrace : ∀ q ∈ m.trace h s, p q) (hs : I s) :
    I (m.run h s).2 := by
  induction m generalizing s with
  | ret a => exact hs
  | raise e => exact hs
  | ask r k ih =>
    rw [trace_ask] at htrace
    have hI := hstep r s (htrace _ List.mem_cons_self) hs
    rcases hr : h r s with ⟨e | x, s'⟩
    · rw [hr] at hI
      rw [run_ask_error hr]
      exact hI
    · rw [hr] at hI htrace
      rw [run_ask_ok hr]
      exact ih x (fun q hq => htrace q (List.mem_cons_of_mem _ hq)) hI

/-- The requests of a run are requests the program can make, and each meets the invariant. -/
theorem trace_within {Q : (r : Req) → Resp r → Prop} {pr : Req → Prop} {post : α → Prop}
    {I : S → Prop} (hstep : ∀ r s, pr r → I s → I (h r s).2 ∧ ∀ x, (h r s).1 = .ok x → Q r x)
    (hm : m.Within Q pr post) {s : S} (hs : I s) :
    ∀ q ∈ m.trace h s, pr q.1 ∧ I q.2 := by
  induction m generalizing s with
  | ret a => exact fun _ hq => absurd hq List.not_mem_nil
  | raise e => exact fun _ hq => absurd hq List.not_mem_nil
  | ask r k ih =>
    intro q hq
    obtain ⟨hI, hQ⟩ := hstep r s hm.1 hs
    rw [trace_ask] at hq
    rcases List.mem_cons.mp hq with rfl | hq
    · exact ⟨hm.1, hs⟩
    · rcases hr : h r s with ⟨e | x, s'⟩
      · rw [hr] at hq
        exact absurd hq List.not_mem_nil
      · rw [hr] at hI hQ hq
        exact ih x (hm.2 x (hQ x rfl)) hI q hq

/-- **Two runs of one program**: where the requests the first run makes answer the same from
    related states, and leave related states, the runs end the same, and every request of the
    second run is one of the first. -/
theorem run_agree {R : S → T → Prop}
    (hstep : ∀ r s t, p (r, s) → R s t → (h r s).1 = (h' r t).1 ∧ R (h r s).2 (h' r t).2)
    {s : S} {t : T} (htrace : ∀ q ∈ m.trace h s, p q) (hst : R s t) :
    ((m.run h s).1 = (m.run h' t).1 ∧ R (m.run h s).2 (m.run h' t).2) ∧
      ∀ q' ∈ m.trace h' t, ∃ q ∈ m.trace h s, q.1 = q'.1 ∧ R q.2 q'.2 := by
  induction m generalizing s t with
  | ret a => exact ⟨⟨rfl, hst⟩, fun _ hq => absurd hq List.not_mem_nil⟩
  | raise e => exact ⟨⟨rfl, hst⟩, fun _ hq => absurd hq List.not_mem_nil⟩
  | ask r k ih =>
    rw [trace_ask] at htrace
    obtain ⟨hanswer, hstate⟩ := hstep r s t (htrace _ List.mem_cons_self) hst
    rw [trace_ask, trace_ask]
    rcases hs : h r s with ⟨e | x, s'⟩
    · rcases ht : h' r t with ⟨e' | x', t'⟩
      · rw [hs, ht] at hanswer hstate
        rw [run_ask_error hs, run_ask_error ht]
        refine ⟨⟨congrArg _ (Except.error.inj hanswer), hstate⟩, fun q' hq' => ?_⟩
        rcases List.mem_singleton.mp hq' with rfl
        exact ⟨_, List.mem_cons_self, rfl, hst⟩
      · rw [hs, ht] at hanswer
        cases hanswer
    · rcases ht : h' r t with ⟨e' | x', t'⟩
      · rw [hs, ht] at hanswer
        cases hanswer
      · rw [hs, ht] at hanswer hstate
        cases hanswer
        rw [run_ask_ok hs, run_ask_ok ht]
        rw [hs] at htrace
        obtain ⟨hend, hreqs⟩ := ih x (fun q hq => htrace q (List.mem_cons_of_mem _ hq)) hstate
        refine ⟨hend, fun q' hq' => ?_⟩
        rcases List.mem_cons.mp hq' with rfl | hq'
        · exact ⟨_, List.mem_cons_self, rfl, hst⟩
        · obtain ⟨q, hq, hrel⟩ := hreqs q' hq'
          exact ⟨q, List.mem_cons_of_mem _ hq, hrel⟩

end Program
